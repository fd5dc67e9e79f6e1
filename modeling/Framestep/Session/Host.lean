import Framestep.Control.Event
import Framestep.Session.Feed

/-!
# Hosts and their calls

While it runs, a session calls out: to the host, for levels and with pictures
and sound, and to the machine, with input events.  A call is a value here, and
the calls of one host frame form a list.  A `Host` is everything that the
outside does in one frame: what each call answers, what is done on the feed in
the course of it, and whether it comes back at all.  All of these may depend on
the calls before it.

The callbacks themselves have no inside here.  A session only knows by a value
of the type `κ` which one it calls.
-/

namespace Framestep

/-- A call that a session makes to one of the callbacks. -/
inductive Call (κ : Type) where
  /-- The host is asked to look at its controls. -/
  | poll (who : κ)
  /-- The host is asked for the level of a control. -/
  | level (who : κ) (source : Source)
  /-- The host is asked whether it shows its own interface on top. -/
  | gui
  /-- The machine is given an input event. -/
  | event (who : κ) (event : Event)
  | video (who : κ) (view : View)
  /-- The host is given a batch of interleaved frames. -/
  | batch (who : κ) (samples : List Int16) (frames : Nat)
  | single (who : κ) (left right : Int16)
  deriving DecidableEq, Repr

namespace Call

variable {κ : Type}

/-- Whether a call gives an event to the machine. -/
def isEvent : Call κ → Bool
  | .event _ _ => true
  | _ => false

def isVideo : Call κ → Bool
  | .video _ _ => true
  | _ => false

end Call

/-- What the outside does in one host frame.  Everything may depend on the calls
made before in the same frame, the last one first. -/
structure Host (κ : Type) where
  /-- Whether a call comes back; one that does not cuts the frame off. -/
  returns : List (Call κ) → Call κ → Bool
  level : List (Call κ) → κ → Source → Int16
  /-- Whether the host shows its own interface on top. -/
  guiVisible : List (Call κ) → Bool
  /-- What whoever is called does on the feed before the call comes back. -/
  feeds : List (Call κ) → Call κ → List Feed.Op

namespace Host

variable {κ : Type}

/-- What is done on the feed in the course of a call.  The mailbox is held while its
picture is shown, and whoever turns to it then gets no further. -/
def does (host : Host κ) (past : List (Call κ)) (call : Call κ) : List Feed.Op :=
  if call.isVideo then
    (host.feeds past call).takeWhile fun op => !op.isPicture
  else
    host.feeds past call

/-- Whether a call comes back from what is done in the course of it. -/
def comesBack (host : Host κ) (past : List (Call κ)) (call : Call κ) : Bool :=
  host.returns past call && !(call.isVideo && (host.feeds past call).any Feed.Op.isPicture)

end Host

end Framestep
