import Framestep.Session.Frame
import Framestep.Video.Rows
import Framestep.Disk.Request

/-!
# The frontend of a core

A core is driven by a frontend that offers less than a session asks for: it only
has joypads, takes pictures without padding and of the size that was declared,
and takes sound in batches.  The callbacks that a core registers with its session
make up the difference.

A joypad button counts as pressed when the frontend reports its level as exactly
one.
-/

namespace Framestep

/-- Who a session of a core calls. -/
inductive Endpoint where
  /-- The callbacks in front of the frontend, with the declared picture size. -/
  | frontend (size : Size)
  | machine
  deriving DecidableEq, Repr

inductive CoreCall where
  | query (source : Source)
  /-- The frontend is given a picture without padding. -/
  | shown (size : Size) (pixels : Array UInt8)
  /-- The frontend is given interleaved frames. -/
  | played (samples : List Int16)
  | event (event : Event)
  | started (request : MachineRequest)
  /-- The starting machine used its feed. -/
  | fed (answer : Outcome Feed.Answer)
  | stopped
  deriving DecidableEq, Repr

/-- What is outside of a core in one frame. -/
structure Frontend where
  level : Source → Int16
  /-- What is done on the feed of the session in the course of its calls. -/
  feeds : List (Call Endpoint) → Call Endpoint → List Feed.Op

namespace Frontend

/-- The control of the frontend that a read comes down to: the same button on the
joypad of the same player.  Other devices have none. -/
def query? (source : Source) : Option Source :=
  if source.device = Device.joypad then
    (PadButton.ofId? source.id).map fun button =>
      ⟨source.player, Device.joypad, 0, button.id⟩
  else
    none

/-- The level that a session reads for a control.  Outside of a frame there is no
frontend to ask, and every control reads as released. -/
def readControl (level : Option (Source → Int16)) (source : Source) : Int16 :=
  match query? source, level with
  | some query, some level => if level query = 1 then 1 else 0
  | _, _ => 0

/-- The picture that the frontend is given in place of a view: none if the view
has not the declared size. -/
def upload? (size : Size) (view : View) : Option (Option (Array UInt8)) :=
  if view.layout.size = size then
    (view.packed? #[]).map fun packed => some packed.pixels
  else
    some none

/-- Whether a call to the frontend comes back.  Only a view that cannot be packed
keeps one from it. -/
def comesBack : Call Endpoint → Bool
  | .video (.frontend size) view => (upload? size view).isSome
  | _ => true

/-- What a call of a session means to the frontend and the machine. -/
def outward : Call Endpoint → List CoreCall
  | .level _ source => (query? source).toList.map .query
  | .event _ event => [.event event]
  | .video (.frontend size) view =>
    match upload? size view with
    | some (some pixels) => [.shown size pixels]
    | _ => []
  | .batch _ samples _ => [.played samples]
  | _ => []

def host (frontend : Frontend) : Host Endpoint where
  returns := fun _ call => comesBack call
  level := fun _ _ source => readControl (some frontend.level) source
  guiVisible := fun _ => false
  feeds := frontend.feeds

/-- Registers the callbacks in front of the frontend with a session. -/
def wire (size : Size) (session : Session Endpoint) : Session Endpoint :=
  [Channel.video, .batch, .poll, .level].foldl
    (fun session channel => session.register channel (.frontend size)) session

end Frontend

end Framestep
