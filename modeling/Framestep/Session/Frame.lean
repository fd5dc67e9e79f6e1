import Framestep.Session.Basic

/-!
# The host frame

A host drives a session frame by frame.  In each frame the session first reads
the controls and forwards what has changed to the machine, then shows a picture
if one is there, and then plays the queued sound in batches.

Each of these stages may make calls, and any call may fail to come back.  The
frame is then cut off: no later call is made, and what was done before stays
done.  Whatever a call delivers is taken out of its place before the call is
made, so nothing is delivered twice.
-/

namespace Framestep

structure Report where
  /-- Events given to the machine. -/
  forwarded : Nat := 0
  /-- Events held back, for want of a sink or behind the host's own interface. -/
  suppressed : Nat := 0
  presented : Bool := false
  audioFrames : Nat := 0
  audioBatches : Nat := 0
  deriving DecidableEq, Repr

structure Progress (κ : Type) where
  session : Session κ
  /-- The calls made so far, the last one first. -/
  calls : List (Call κ)
  /-- What was done on the feed in the course of them. -/
  fed : Feed.Log
  report : Report

/-- How a stage of a host frame leaves it. -/
inductive Stage (κ : Type) where
  | goes (progress : Progress κ)
  /-- The frame ends here in good order. -/
  | ends (progress : Progress κ)
  /-- A call did not come back. -/
  | aborts (progress : Progress κ)

structure FrameResult (κ : Type) where
  outcome : Outcome Report
  /-- The calls made, in order. -/
  calls : List (Call κ)
  /-- What was done on the feed in the course of them. -/
  fed : Feed.Log
  session : Session κ

variable {κ : Type}

namespace Stage

/-- How far the frame has come when a stage is left. -/
def progress : Stage κ → Progress κ
  | .goes progress | .ends progress | .aborts progress => progress

/-- The next stage, unless the frame is over. -/
def andThen (stage : Stage κ) (next : Progress κ → Stage κ) : Stage κ :=
  match stage with
  | .goes progress => next progress
  | .ends progress => .ends progress
  | .aborts progress => .aborts progress

/-- What remains of a frame once its stages are through. -/
def result (stage : Stage κ) : FrameResult κ :=
  { outcome :=
      match stage with
      | .goes progress | .ends progress => .done progress.report
      | .aborts _ => .aborted
    calls := stage.progress.calls.reverse
    fed := stage.progress.fed
    session := stage.progress.session }

end Stage

namespace Progress

/-- Makes a call.  What is done on the feed in the course of it stays done, also where
the call does not come back. -/
def call (host : Host κ) (progress : Progress κ) (call : Call κ) : Stage κ :=
  let run := progress.session.feed.performAll (host.does progress.calls call)
  let next :=
    { progress with
      session.feed := run.feed
      calls := call :: progress.calls
      fed := progress.fed ++ run.log }
  if run.complete && host.comesBack progress.calls call then .goes next else .aborts next

def callAll (host : Host κ) : List (Call κ) → Progress κ → Stage κ
  | [], progress => .goes progress
  | call :: calls, progress => (progress.call host call).andThen (callAll host calls)

/-- The frame after some controls were read through `who`, the last one first. -/
def afterReads (host : Host κ) (who : κ) (progress : Progress κ) (asked : List Source) :
    Progress κ :=
  asked.foldr (fun source progress => (progress.call host (.level who source)).progress) progress

/-- Reads one control for the tracker, after those that it has read in this frame. -/
def reader (host : Host κ) (progress : Progress κ) (who : κ) : Reader :=
  fun asked source =>
    let before := progress.afterReads host who asked
    match before.call host (.level who source) with
    | .goes _ => some (host.level before.calls who source)
    | _ => none

/-- Holds the events of this frame back. -/
def suppress (progress : Progress κ) : Progress κ :=
  { progress with report.suppressed := progress.session.events.length }

/-- Gives the events of this frame to the machine one after the other.  They are taken
out of the session before the first of them is given. -/
def deliver (host : Host κ) (sink : κ) (progress : Progress κ) : Stage κ :=
  let events := progress.session.events
  callAll host (events.map (.event sink))
    { progress with session.events := [], report.forwarded := events.length }

/-- Gives the events of this frame to the machine, or holds them back where no sink is
attached or the host shows its own interface. -/
def forward (host : Host κ) (progress : Progress κ) : Stage κ :=
  match progress.session.sink with
  | none => .goes progress.suppress
  | some sink =>
    if progress.session.asksGui then
      (progress.call host .gui).andThen fun asked =>
        if host.guiVisible progress.calls then .goes asked.suppress else asked.deliver host sink
    else
      progress.deliver host sink

/-- Reads the controls through `who` and forwards what has changed.  The events of an
earlier frame make way for those of this one. -/
def track (host : Host κ) (who : κ) (progress : Progress κ) : Stage κ :=
  let cleared := { progress with session.events := [] }
  let sample :=
    cleared.session.tracker.sample (cleared.reader host who) cleared.session.lastSize
  let read := cleared.afterReads host who sample.asked
  let next :=
    { read with
      session.tracker := sample.tracker
      session.events := read.session.events ++ sample.events }
  if sample.complete then forward host next else .aborts next

/-- The first stage: the host is asked to look at its controls, they are read,
and what has changed goes to the machine. -/
def forwardInput (host : Host κ) (progress : Progress κ) : Stage κ :=
  match progress.session.registry.input? with
  | none => .goes progress
  | some (before, who) => (callAll host before progress).andThen (track host who)

/-- The second stage: a picture that has come is shown.  Where the mailbox was
closed meanwhile the frame is over. -/
def showPicture (host : Host κ) (progress : Progress κ) : Stage κ :=
  let (arrival, mailbox) := progress.session.feed.mailbox.collect
  let progress := { progress with session.feed.mailbox := mailbox }
  match arrival with
  | .aborted | .refused _ => .aborts progress
  | .done .closed => .ends progress
  | .done .timedOut | .done .empty => .goes progress
  | .done (.presented view) =>
    let progress := { progress with session.lastSize := some view.layout.size }
    (callAll host (progress.session.registry.present view) progress).andThen
      fun progress => .goes { progress with report.presented := true }

/-- Plays up to so many batches of the queued sound. -/
def playBatches (host : Host κ) : Nat → Progress κ → Stage κ
  | 0, progress => .goes progress
  | batches + 1, progress =>
    let cleared := { progress with session.scratch := [] }
    match cleared.session.feed.ring with
    | none => .goes cleared
    | some ring =>
      match ring.drainTo cleared.session.scratch cleared.session.settings.audioBatch with
      | (.aborted, _, _) | (.refused _, _, _) => .aborts cleared
      | (.done frames, scratch, rest) =>
        if frames = 0 then
          .goes cleared
        else
          let taken :=
            { cleared with session.feed.ring := some rest, session.scratch := scratch }
          (callAll host (taken.session.registry.play taken.session.scratch) taken).andThen
            fun played =>
              playBatches host batches
                { played with
                  report.audioFrames := played.report.audioFrames + frames
                  report.audioBatches := played.report.audioBatches + 1 }

/-- The third stage: queued sound is played if anything is registered to take
it. -/
def playAudio (host : Host κ) (progress : Progress κ) : Stage κ :=
  if progress.session.registry.hasAudio then
    playBatches host progress.session.settings.batchesPerFrame progress
  else
    .goes progress

end Progress

namespace Session

/-- A host frame before its first stage. -/
def begun (session : Session κ) : Progress κ :=
  { session, calls := [], fed := [], report := {} }

/-- One host frame.  Nothing happens unless the session is running. -/
def frame (session : Session κ) (host : Host κ) : FrameResult κ :=
  if session.feed.isReady then
    (((session.begun.forwardInput host).andThen (Progress.showPicture host)).andThen
      (Progress.playAudio host)).result
  else
    Stage.result (.goes session.begun)

/-- One host frame during which the session is torn down, after the input was
forwarded and while the frame waits for a picture: the wait ends, and neither
pictures nor sound reach the host. -/
def tornFrame (session : Session κ) (host : Host κ) : FrameResult κ :=
  let result :=
    if session.feed.isReady then
      (session.begun.forwardInput host).result
    else
      Stage.result (.goes session.begun)
  { result with session := result.session.teardown }

/-- An operation on a session, by its host or by its machine. -/
inductive Op (κ : Type) where
  | start (launch : Launch) (memory : Memory := .ample)
  | teardown
  | frame (host : Host κ)
  | register (channel : Channel) (who : κ)
  | unregisterAll
  | attach (sink : κ)
  | attachMachine (startup : Startup κ)
  | produce (op : Feed.Op)

inductive Answer where
  | nothing
  | report (report : Report)
  | fed (answer : Feed.Answer)
  deriving DecidableEq, Repr

structure Step (κ : Type) where
  outcome : Outcome Answer
  /-- The calls made, in order. -/
  calls : List (Call κ)
  /-- What was done on the feed meanwhile. -/
  fed : Feed.Log
  session : Session κ

def perform (session : Session κ) : Op κ → Step κ
  | .start launch memory =>
    let (outcome, session) := session.start launch memory
    { outcome := outcome.map fun _ => .nothing, calls := [], fed := [], session }
  | .teardown =>
    { outcome := .done .nothing, calls := [], fed := [], session := session.teardown }
  | .frame host =>
    let result := session.frame host
    { outcome := result.outcome.map .report, calls := result.calls, fed := result.fed,
      session := result.session }
  | .register channel who =>
    { outcome := .done .nothing, calls := [], fed := [],
      session := session.register channel who }
  | .unregisterAll =>
    { outcome := .done .nothing, calls := [], fed := [], session := session.unregisterAll }
  | .attach sink =>
    { outcome := .done .nothing, calls := [], fed := [], session := session.attach sink }
  | .attachMachine startup =>
    let (outcome, fed, session) := session.attachMachine startup
    { outcome := outcome.map fun _ => .nothing, calls := [], fed, session }
  | .produce op =>
    let (outcome, later) := session.produce op
    { outcome := outcome.map .fed, calls := [], fed := [(op, outcome)], session := later }

/-- Carries out operations one after the other: what each left, and the session
after the last. -/
def performAll (session : Session κ) : List (Op κ) → List (Step κ) × Session κ
  | [] => ([], session)
  | op :: ops =>
    let step := session.perform op
    let (steps, last) := step.session.performAll ops
    (step :: steps, last)

end Session

end Framestep
