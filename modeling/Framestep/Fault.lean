/-!
# Faults and outcomes

An operation of this library ends in one of three ways.  It is *done*; it is
*refused*, which means that its arguments or the present state rule it out and
the caller is told why; or it is *aborted*, which means that a check inside it
failed or that a callback gave up half way.  A refusal is a value of `Fault`,
a cause and not a text: `Fault.message` holds the wording.
-/

namespace Framestep

inductive SettingsFault where
  | noAudioCapacity
  | ceilingBelowCapacity
  | emptyBatch
  | noBatches
  | zeroRate
  deriving DecidableEq, Repr

def SettingsFault.message : SettingsFault → String
  | .noAudioCapacity => "audio capacity must be at least 1 frame"
  | .ceilingBelowCapacity => "audio growth ceiling is below the initial capacity"
  | .emptyBatch => "audio batch must be at least 1 frame"
  | .noBatches => "at least one audio batch per tick"
  | .zeroRate => "sample rate must be non-zero"

inductive Fault where
  | notReady
  | invalidSettings (cause : SettingsFault)
  /-- A picture came with fewer bytes than its layout covers. -/
  | shortPicture (needed got : Nat)
  | narrowStride (width stride : Nat)
  /-- An audio push came with fewer samples than its frame count covers. -/
  | shortSamples (frames samples : Nat)
  /-- Storage of this many bytes could not be had. -/
  | outOfMemory (bytes : Nat)
  | machineFailed (text : String)
  deriving DecidableEq, Repr

def Fault.message : Fault → String
  | .notReady => "bridge is not initialised"
  | .invalidSettings cause => "invalid configuration: " ++ cause.message
  | .shortPicture needed got =>
    s!"frame buffer too small: need {needed} bytes, got {got}"
  | .narrowStride width stride =>
    s!"row stride {stride} is too small for width {width}"
  | .shortSamples frames samples =>
    s!"expected {frames} stereo frames, got {samples} samples"
  | .outOfMemory bytes => s!"could not allocate {bytes} bytes"
  | .machineFailed text => "machine error: " ++ text

inductive Outcome (α : Type) where
  | done (value : α)
  | refused (fault : Fault)
  | aborted
  deriving DecidableEq, Repr

namespace Outcome

/-- The outcome with its value replaced; a refusal and an abort stay what they are. -/
def map {α β : Type} (f : α → β) : Outcome α → Outcome β
  | done value => done (f value)
  | refused fault => refused fault
  | aborted => aborted

/-- An optional value: what is missing was stopped by a failed check. -/
def ofOption {α : Type} : Option α → Outcome α
  | some value => done value
  | none => aborted

end Outcome

end Framestep
