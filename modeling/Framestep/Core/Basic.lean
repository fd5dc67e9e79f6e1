import Framestep.Core.Frontend
import Framestep.TestCard.Card

/-!
# Cores

A core loads games into a machine, one session at a time.  A session lasts from a
successful load to the next unload; a load that fails after its request was made
ends the session as well, and a load that succeeds replaces it.

The machine itself is outside.  How it starts is handed to each operation that
starts it, and what is asked of it is in the calls.
-/

namespace Framestep

/-- What a frontend hands over to be loaded. -/
structure Game where
  path : Option String
  image : Option (Array UInt8)
  deriving DecidableEq, Repr

/-- What a core tells its frontend about pictures and sound. -/
structure AvInfo where
  size : Size
  rate : Nat
  deriving DecidableEq, Repr

/-- How a load ends, if it comes to an end. -/
inductive LoadResult where
  | failed (game : Game)
  | loaded (info : AvInfo)
  deriving DecidableEq, Repr

/-- What a core tells about itself. -/
structure CoreInfo where
  name : String
  version : String
  extensions : List String
  /-- Whether games can only be loaded by their path. -/
  needsPath : Bool
  /-- Whether archives must not be unpacked. -/
  blocksExtraction : Bool
  deriving DecidableEq, Repr

/-- A core and its session. -/
structure Core where
  settings : Settings
  /-- The size of the machine's pictures. -/
  size : Size
  session : Option (Session Endpoint)
  request : Option MachineRequest
  game : Option Game
  /-- Whether the machine holds the feed of the session. -/
  feeding : Bool

namespace Core

def info : CoreInfo :=
  { name := "EmuBridge"
    version := "0.1.0"
    extensions := ["iso", "img", "dsk", "hfv", "hdi", "sheep"]
    needsPath := false
    blocksExtraction := false }

def create (settings : Settings) (size : Size) : Core :=
  { settings, size, session := none, request := none, game := none, feeding := false }

/-- Ends the session, if there is one, and stops the machine in any case. -/
def endSession (core : Core) : List CoreCall × Core :=
  ([.stopped], { core with session := none, feeding := false })

/-- The calls that start a machine which has done this on its feed meanwhile. -/
def startCalls (request : MachineRequest) (log : Feed.Log) : List CoreCall :=
  .started request :: log.map fun entry => .fed entry.2

/-- A started session with the core's callbacks, before its machine starts. -/
def prepare (core : Core) (request : MachineRequest) (memory : Memory) :
    Outcome (Session Endpoint) :=
  match Session.create core.settings false with
  | .refused fault => .refused fault
  | .aborted => .aborted
  | .done session =>
    match session.start { path := request.path, ramMb := request.ramMb } memory with
    | (.refused fault, _) => .refused fault
    | (.aborted, _) => .aborted
    | (.done (), session) => .done (Frontend.wire core.size session)

/-- How the machine starts, seen from a core. -/
def startupOf (startup : Startup Unit) : Startup Endpoint :=
  { feeds := startup.feeds, result := startup.result.map fun _ => .machine }

/-- A session for a request, with its machine started, and the calls for it. -/
def openSession (core : Core) (request : MachineRequest) (startup : Startup Unit)
    (memory : Memory) : Outcome (Session Endpoint) × List CoreCall :=
  match core.prepare request memory with
  | .refused fault => (.refused fault, [])
  | .aborted => (.aborted, [])
  | .done session =>
    let (outcome, log, session) := session.attachMachine (startupOf startup)
    (outcome.map fun _ => session, startCalls request log)

/-- Loads a game: how that ended, the calls made, and the core after it.  A load
that is aborted leaves the session before it as it was. -/
def load (core : Core) (read : FileReader) (startup : Startup Unit) (game : Game)
    (memory : Memory := .ample) : Outcome LoadResult × List CoreCall × Core :=
  match MachineRequest.ofMedia read game.path game.image 0 with
  | .error _ => (.done (.failed game), [], core)
  | .ok request =>
    match core.openSession request startup memory with
    | (.aborted, calls) => (.aborted, calls, core)
    | (.refused _, calls) =>
      let (stop, core) := core.endSession
      (.done (.failed game), calls ++ stop, core)
    | (.done session, calls) =>
      (.done (.loaded { size := core.size, rate := session.feed.rate }), calls,
        { core with
          session := some session
          request := some request
          game := some game
          feeding := true })

/-- Ends the session and hands the game back; without one that is aborted, when
the session has already been ended. -/
def unload (core : Core) : Outcome Game × List CoreCall × Core :=
  let (calls, core) := core.endSession
  (Outcome.ofOption core.game, calls, { core with request := none, game := none })

/-- One frame of the session, if there is one. -/
def run (core : Core) (frontend : Frontend) : Outcome Unit × List CoreCall × Core :=
  match core.session with
  | none => (.done (), [], core)
  | some session =>
    let result := session.frame frontend.host
    (result.outcome.map fun _ => (), result.calls.flatMap Frontend.outward,
      { core with session := some result.session })

/-- Stops the machine and starts it again within the same session, which is kept
also if the machine does not start.  Only a start that is aborted is noticed. -/
def reset (core : Core) (startup : Startup Unit) : Outcome Unit × List CoreCall × Core :=
  match core.session, core.request with
  | some session, some request =>
    let (outcome, log, session) := session.attachMachine (startupOf startup)
    let calls := .stopped :: startCalls request log
    let restarted (feeding : Bool) : Core := { core with session := some session, feeding }
    match outcome with
    | .done () => (.done (), calls, restarted true)
    | .refused _ => (.done (), calls, restarted false)
    | .aborted => (.aborted, calls, restarted false)
  | _, _ => (.done (), [], core)

/-- Carries out an operation of the machine on the feed that it holds; nothing
happens if it holds none. -/
def produce (core : Core) (op : Feed.Op) : Option (Outcome Feed.Answer) × Core :=
  match core.session with
  | none => (none, core)
  | some session =>
    if core.feeding then
      let (answer, session) := session.produce op
      (some answer, { core with session := some session })
    else
      (none, core)

end Core

end Framestep
