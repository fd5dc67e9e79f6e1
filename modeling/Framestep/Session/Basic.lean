import Framestep.Control.Tracker
import Framestep.Session.Registry
import Framestep.Session.Settings

/-!
# Sessions

A session joins a machine and a host: the feed that the machine fills, the
callbacks of the host, the tracker of its controls, and the sink that takes the
input events on the machine's side.  It is started and torn down, and may then be
started again; teardown leaves nothing behind that a later start would not reset.

What a session does in a host frame is in `Framestep.Session.Frame`.
-/

namespace Framestep

structure Launch where
  path : Option String := none
  ramMb : Nat := 0
  deriving DecidableEq, Repr

/-- How a machine starts: what it does with its feed while it starts, and the
sink it hands back or the reason why it did not start. -/
structure Startup (κ : Type) where
  feeds : List Feed.Op
  result : Except String κ

/-- A session between a machine and a host. -/
structure Session (κ : Type) where
  settings : Settings
  /-- Whether the host can be asked if its own interface is visible. -/
  asksGui : Bool
  feed : Feed
  registry : Registry κ
  tracker : Tracker
  /-- Who takes the input events on the machine's side. -/
  sink : Option κ
  launch : Launch
  /-- The size of the last picture shown since the start. -/
  lastSize : Option Size
  /-- The events of a frame, until they are given to the machine or the next frame reads
  the controls. -/
  events : List Event
  /-- The samples of a batch, until the next one is taken. -/
  scratch : List Int16

namespace Session

variable {κ : Type}

/-- A session that has not been started.  Contradictory settings are refused, and
a batch buffer beyond an allocation is aborted. -/
def create (settings : Settings) (asksGui : Bool) : Outcome (Session κ) :=
  match settings.validate with
  | .refused fault => .refused fault
  | .aborted => .aborted
  | .done () =>
    if maxAllocation < 2 * (settings.audioBatch * channelCount) then
      .aborted
    else
      .done
        { settings, asksGui
          feed := Feed.create settings.sampleRate settings.audioCeiling
          registry := Registry.empty
          tracker := Tracker.create settings.controls settings.pointer
          sink := none
          launch := {}
          lastSize := none
          events := []
          scratch := [] }

/-- Starts a session: gives the feed a ring, opens the mailbox and resets the
input.  A running session stays as it is, and so does one whose ring cannot be
had. -/
def start (session : Session κ) (launch : Launch) (memory : Memory := .ample) :
    Outcome Unit × Session κ :=
  if session.feed.isReady then
    (.done (), session)
  else
    match Ring.create session.settings.audioCapacity memory with
    | .refused fault => (.refused fault, session)
    | .aborted => (.aborted, session)
    | .done ring =>
      (.done (),
        { session with
          feed :=
            { session.feed with
              phase := .ready
              ring := some ring
              mailbox := session.feed.mailbox.reopen
              rate := session.settings.sampleRate }
          tracker := session.tracker.reset
          launch
          lastSize := none })

/-- Ends a session: closes the mailbox, gives the ring back, forgets every callback
and the sink, and empties what frames have left. -/
def teardown (session : Session κ) : Session κ :=
  { session with
    feed :=
      { session.feed with
        phase := .tornDown
        ring := none
        mailbox := session.feed.mailbox.close }
    registry := Registry.empty
    sink := none
    events := []
    scratch := [] }

/-- The feed that remains for a machine once the session itself is given up. -/
def release (session : Session κ) : Feed :=
  if session.feed.isReady then session.teardown.feed else session.feed

def register (session : Session κ) (channel : Channel) (who : κ) : Session κ :=
  { session with registry := session.registry.register channel who }

/-- Forgets every callback of the host. -/
def unregisterAll (session : Session κ) : Session κ :=
  { session with registry := Registry.empty }

def attach (session : Session κ) (sink : κ) : Session κ :=
  { session with sink := some sink }

/-- Carries out one operation of the machine on the session's feed. -/
def produce (session : Session κ) (op : Feed.Op) : Outcome Feed.Answer × Session κ :=
  let (answer, feed) := session.feed.perform op
  (answer, { session with feed })

/-- Starts a machine on this session and attaches the sink it hands back: the
outcome, and what the machine has done on its feed meanwhile.  A machine that is
aborted on its feed hands nothing back, and an earlier sink stays. -/
def attachMachine (session : Session κ) (startup : Startup κ) :
    Outcome Unit × Feed.Log × Session κ :=
  let run := session.feed.performAll startup.feeds
  let session := { session with feed := run.feed }
  if run.complete then
    match startup.result with
    | .error text => (.refused (.machineFailed text), run.log, session)
    | .ok sink => (.done (), run.log, session.attach sink)
  else
    (.aborted, run.log, session)

end Session

/-- A one-line summary of what a host can be asked. -/
def describeAbilities (asksGui : Bool) : String :=
  "Capabilities \x7b " ++ s!"gui_visible: {asksGui}" ++ " \x7d"

end Framestep
