import Framestep.Session.Host

/-!
# The callback registry

A host registers one callback for each channel; a later one replaces it.  The
registry turns what a session wants to tell the host into calls of what is
registered.
-/

namespace Framestep

inductive Channel where
  | video | single | batch | poll | level
  deriving DecidableEq, Repr

structure Registry (κ : Type) where
  video : Option κ := none
  single : Option κ := none
  batch : Option κ := none
  poll : Option κ := none
  level : Option κ := none
  deriving DecidableEq, Repr

namespace Registry

variable {κ : Type}

def empty : Registry κ := {}

/-- The registry with a callback in one of its channels. -/
def register (registry : Registry κ) (channel : Channel) (who : κ) : Registry κ :=
  match channel with
  | .video => { registry with video := some who }
  | .single => { registry with single := some who }
  | .batch => { registry with batch := some who }
  | .poll => { registry with poll := some who }
  | .level => { registry with level := some who }

/-- Whether anything is registered that takes sound. -/
def hasAudio (registry : Registry κ) : Bool :=
  registry.batch.isSome || registry.single.isSome

def present (registry : Registry κ) (view : View) : List (Call κ) :=
  match registry.video with
  | some who => [.video who view]
  | none => []

/-- The calls that play single frames. -/
def playSingly (who : κ) : List Int16 → List (Call κ)
  | left :: right :: samples => .single who left right :: playSingly who samples
  | _ => []

/-- The calls that play interleaved samples.  A callback for batches goes before
one for single frames. -/
def play (registry : Registry κ) (samples : List Int16) : List (Call κ) :=
  match registry.batch, registry.single with
  | some who, _ => [.batch who samples (samples.length / channelCount)]
  | none, some who => playSingly who samples
  | none, none => []

/-- The calls that precede the reading of levels, and the callback that reads
them.  A host without one is not asked to look at its controls either. -/
def input? (registry : Registry κ) : Option (List (Call κ) × κ) :=
  registry.level.map fun who => (registry.poll.toList.map .poll, who)

/-- A one-line summary of what is registered. -/
def describe (registry : Registry κ) : String :=
  "HostCallbacks \x7b " ++
    s!"video: {registry.video.isSome}, audio_sample: {registry.single.isSome}, " ++
    s!"audio_batch: {registry.batch.isSome}, input_poll: {registry.poll.isSome}, " ++
    s!"input_state: {registry.level.isSome}" ++ " \x7d"

end Registry

end Framestep
