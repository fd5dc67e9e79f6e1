import Framestep.Core.Basic
import Framestep.Proofs.Session.Idle
import Mathlib.Data.List.Chain

/-!
# The life of a core

A core goes through loads, frames, resets and unloads, and each of them may find a session or none.
`Core.load_cases` names the four ways in which a load ends, and `Core.Governed` what ties the
session, the request and the game of a core to its latest successful load.

The main statement is `Core.life_of_machines`: it says for every sequence of operations what each
of them does next, whatever machines were started before, and that a machine is stopped between
any two of its starts as long as no game is loaded over another.
-/

namespace Framestep

/-- A machine that comes back from its start, whatever it does on the feed of the running session
that it is started for. -/
def Startup.ComesBack (startup : Startup Unit) : Prop :=
  ∀ (feed : Feed) floor, feed.Running floor → (feed.performAll startup.feeds).complete = true

namespace Session

/-- Who takes the events behind the start of a core's machine: the machine, or who did before if it
has not started. -/
def sinkAfter (session : Session Endpoint) (startup : Startup Unit) : Option Endpoint :=
  match startup.result with
  | .error _ => session.sink
  | .ok () => some .machine

theorem attachMachine_eq {session : Session Endpoint} {floor : Nat}
    (h : session.feed.Running floor) {startup : Startup Unit} (hback : startup.ComesBack) :
    let run := session.feed.performAll startup.feeds
    session.attachMachine (Core.startupOf startup) =
      (match startup.result with
        | .error text => .refused (.machineFailed text)
        | .ok () => .done (),
        run.log, { session with feed := run.feed, sink := session.sinkAfter startup }) := by
  have hcomplete := hback session.feed floor h
  simp only [attachMachine, Core.startupOf, hcomplete, if_true, sinkAfter]
  cases startup.result <;> rfl

end Session

namespace Core

variable {core : Core}

/-! ## How a load ends -/

/-- A session that is prepared is running.  None is prepared where the settings are contradictory or
the ring cannot be had, and a batch beyond an allocation is the only thing that cuts this off. -/
theorem prepare_cases (core : Core) (request : MachineRequest) (memory : Memory) :
    (core.prepare request memory = .aborted ∧ maxAllocation < 4 * core.settings.audioBatch) ∨
      (∃ fault, core.prepare request memory = .refused fault) ∨
      ∃ session floor, core.prepare request memory = .done session ∧
        session.feed.Running floor := by
  cases hvalid : core.settings.fault? with
  | some cause =>
      refine .inr (.inl ⟨.invalidSettings cause, ?_⟩)
      simp only [prepare, Session.create, Settings.validate, hvalid]
  | none =>
      simp only [prepare, Session.create_of_valid hvalid]
      by_cases hlarge : maxAllocation < 4 * core.settings.audioBatch
      · simp only [if_pos hlarge]
        exact .inl ⟨trivial, hlarge⟩
      · simp only [if_neg hlarge]
        have hstopped := Session.stopped_unstarted (κ := Endpoint) hvalid false
        obtain ⟨launch, hlaunch⟩ : ∃ launch : Launch, launch =
            { path := request.path, ramMb := request.ramMb } := ⟨_, rfl⟩
        rw [← hlaunch]
        rcases Session.start_cases launch memory hstopped.phase with
          ⟨fault, -, hstart⟩ | ⟨ring, hring, hstart⟩
        · rw [hstart]
          exact .inr (.inl ⟨fault, rfl⟩)
        · have hrunning := Session.running_started (Session.inOrder_unstarted hvalid false)
            hstopped launch hring
          rw [hstart]
          exact .inr (.inr ⟨_, _, rfl, hrunning⟩)

/-- A load whose machine comes back ends in one of four ways.  The request is refused; it is cut off
before the machine is asked; it fails, whether or not the machine was started, and stops it; or
there is a running session. -/
theorem load_cases (core : Core) (read : FileReader) {startup : Startup Unit}
    (hback : startup.ComesBack) (game : Game) (memory : Memory) :
    (∃ fault, MachineRequest.ofMedia read game.path game.image 0 = .error fault ∧
        core.load read startup game memory = (.done (.failed game), [], core)) ∨
      (core.load read startup game memory = (.aborted, [], core) ∧
        maxAllocation < 4 * core.settings.audioBatch) ∨
      (∃ request calls, MachineRequest.ofMedia read game.path game.image 0 = .ok request ∧
        (calls = [] ∨ ∃ log, calls = startCalls request log) ∧
        core.load read startup game memory = (.done (.failed game), calls ++ [.stopped],
          { core with session := none, feeding := false })) ∨
      ∃ request log session floor info,
        MachineRequest.ofMedia read game.path game.image 0 = .ok request ∧
        session.feed.Running floor ∧
        core.load read startup game memory = (.done (.loaded info), startCalls request log,
          { core with
            session := some session, request := some request, game := some game
            feeding := true }) := by
  unfold load
  cases MachineRequest.ofMedia read game.path game.image 0 with
  | error fault => exact .inl ⟨fault, rfl, rfl⟩
  | ok request =>
      right
      simp only [openSession]
      rcases core.prepare_cases request memory with
        ⟨hprepare, hlarge⟩ | ⟨fault, hprepare⟩ | ⟨session, floor, hprepare, hrunning⟩
      · rw [hprepare]
        exact .inl ⟨rfl, hlarge⟩
      · rw [hprepare]
        exact .inr (.inl ⟨request, [], rfl, .inl rfl, rfl⟩)
      · right
        have hfed := Feed.running_performAll hrunning startup.feeds
        simp only [hprepare, Session.attachMachine_eq hrunning hback]
        cases startup.result with
        | error text => exact .inl ⟨request, _, rfl, .inr ⟨_, rfl⟩, rfl⟩
        | ok sink => exact .inr ⟨request, _, _, floor, _, rfl, hfed, rfl⟩

/-! ## Runs of a core -/

/-- What its frontend asks of a core, and what its machine does on the feed meanwhile. -/
inductive Op where
  | load (read : FileReader) (startup : Startup Unit) (game : Game)
      (memory : Memory := .ample)
  | unload
  | run (frontend : Frontend)
  | reset (startup : Startup Unit)
  | produce (op : Feed.Op)

/-- The machine that an operation may start comes back from its start. -/
def Op.ComesBack : Op → Prop
  | .load _ startup _ _ | .reset startup => startup.ComesBack
  | _ => True

/-- The calls that a core makes in an operation, and the core after it. -/
def perform (core : Core) : Op → List CoreCall × Core
  | .load read startup game memory => (core.load read startup game memory).2
  | .unload => core.unload.2
  | .run frontend => (core.run frontend).2
  | .reset startup => (core.reset startup).2
  | .produce op => ([], (core.produce op).2)

def performAll (core : Core) : List Op → List CoreCall × Core
  | [] => ([], core)
  | op :: ops =>
    let (calls, next) := core.perform op
    let (later, last) := next.performAll ops
    (calls ++ later, last)

/-- The game that an operation loads and the request for it, if it does. -/
def loaded? (core : Core) : Op → Option (Game × MachineRequest)
  | .load read startup game memory =>
    match (core.load read startup game memory).1,
      MachineRequest.ofMedia read game.path game.image 0 with
    | .done (.loaded _), .ok request => some (game, request)
    | _, _ => none
  | _ => none

/-- The game of the latest load that succeeded and the request for it, unless an unload has come
after it. -/
def latestAfter (core : Core) (latest : Option (Game × MachineRequest)) :
    Op → Option (Game × MachineRequest)
  | .unload => none
  | op => (core.loaded? op).or latest

def latest (core : Core) (before : Option (Game × MachineRequest)) :
    List Op → Option (Game × MachineRequest)
  | [] => before
  | op :: ops => (core.perform op).2.latest (core.latestAfter before op) ops

/-! ## What a core holds -/

/-- What a core holds is what its latest load has left.  A session that it holds is running, and
there is then such a load. -/
structure Governed (core : Core) (latest : Option (Game × MachineRequest)) : Prop where
  running : ∀ session, core.session = some session → ∃ floor, session.feed.Running floor
  loaded : ∀ session, core.session = some session → ∃ pair, latest = some pair
  game : core.game = latest.map Prod.fst
  request : core.request = latest.map Prod.snd

variable {latest : Option (Game × MachineRequest)}

theorem governed_of_idle (hsession : core.session = none) (hgame : core.game = latest.map Prod.fst)
    (hrequest : core.request = latest.map Prod.snd) : core.Governed latest := by
  constructor
  case running =>
    intro session hsome
    rw [hsession] at hsome
    cases hsome
  case loaded =>
    intro session hsome
    rw [hsession] at hsome
    cases hsome
  case game => exact hgame
  case request => exact hrequest

theorem governed_of_running {session : Session Endpoint} {floor : Nat} {game : Game}
    {request : MachineRequest} (hsession : core.session = some session)
    (hrunning : session.feed.Running floor) (hgame : core.game = some game)
    (hrequest : core.request = some request) : core.Governed (some (game, request)) := by
  constructor
  case running =>
    intro other hother
    rw [hsession, Option.some.injEq] at hother
    rw [← hother]
    exact ⟨floor, hrunning⟩
  case loaded => exact fun _ _ => ⟨_, rfl⟩
  case game => exact hgame
  case request => exact hrequest

/-- A session that is held was opened by the latest load and for its request. -/
theorem Governed.session (h : core.Governed latest) {session : Session Endpoint}
    (hsession : core.session = some session) :
    ∃ game request floor, latest = some (game, request) ∧ core.game = some game ∧
      core.request = some request ∧ session.feed.Running floor := by
  obtain ⟨floor, hrunning⟩ := h.running session hsession
  obtain ⟨⟨game, request⟩, hpair⟩ := h.loaded session hsession
  refine ⟨game, request, floor, hpair, ?_, ?_, hrunning⟩
  · rw [h.game, hpair]
    rfl
  · rw [h.request, hpair]
    rfl

theorem latestAfter_of_loaded {read : FileReader} {startup : Startup Unit} {game : Game}
    {memory : Memory} {request : MachineRequest} {info : AvInfo}
    (haccepted : MachineRequest.ofMedia read game.path game.image 0 = .ok request)
    (hload : (core.load read startup game memory).1 = .done (.loaded info)) :
    core.latestAfter latest (.load read startup game memory) = some (game, request) := by
  simp only [latestAfter, loaded?, haccepted, hload, Option.some_or]

theorem latestAfter_of_not_loaded {read : FileReader} {startup : Startup Unit} {game : Game}
    {memory : Memory}
    (hload : ∀ info, (core.load read startup game memory).1 ≠ .done (.loaded info)) :
    core.latestAfter latest (.load read startup game memory) = latest := by
  simp only [latestAfter, loaded?]
  split
  · next info request hdone haccepted => exact (hload info hdone).elim
  · rfl

theorem governed_load (h : core.Governed latest) (read : FileReader) {startup : Startup Unit}
    (hback : startup.ComesBack) (game : Game) (memory : Memory) :
    (core.load read startup game memory).2.2.Governed
      (core.latestAfter latest (.load read startup game memory)) := by
  rcases core.load_cases read hback game memory with
    ⟨fault, hrefused, hload⟩ | ⟨hload, -⟩ | ⟨request, calls, -, -, hload⟩ |
      ⟨request, log, session, floor, info, haccepted, hrunning, hload⟩
  · rw [latestAfter_of_not_loaded (by simp [hload]), hload]
    exact h
  · rw [latestAfter_of_not_loaded (by simp [hload]), hload]
    exact h
  · rw [latestAfter_of_not_loaded (by simp [hload]), hload]
    exact governed_of_idle rfl h.game h.request
  · rw [latestAfter_of_loaded haccepted (by rw [hload]), hload]
    exact governed_of_running rfl hrunning rfl rfl

/-- A reset stops the machine and starts it again for the session that is there, which is otherwise
left as it is. -/
theorem reset_eq {session : Session Endpoint} {request : MachineRequest} {floor : Nat}
    (hsession : core.session = some session) (hrequest : core.request = some request)
    (hrunning : session.feed.Running floor) {startup : Startup Unit}
    (hback : startup.ComesBack) :
    let run := session.feed.performAll startup.feeds
    ∃ feeding, core.reset startup =
      (.done (), .stopped :: startCalls request run.log,
        { core with
          session := some { session with feed := run.feed, sink := session.sinkAfter startup }
          feeding }) := by
  simp only [reset, hsession, hrequest, Session.attachMachine_eq hrunning hback]
  cases startup.result with
  | error text => exact ⟨false, rfl⟩
  | ok sink => exact ⟨true, rfl⟩

theorem run_of_session {session : Session Endpoint} (hsession : core.session = some session)
    (frontend : Frontend) : (core.run frontend).2 =
      ((session.frame frontend.host).calls.flatMap Frontend.outward,
        { core with session := some (session.frame frontend.host).session }) := by
  simp only [run, hsession]

theorem run_of_no_session (hsession : core.session = none) (frontend : Frontend) :
    core.run frontend = (.done (), [], core) := by
  simp only [run, hsession]

theorem reset_of_no_session (hsession : core.session = none) (startup : Startup Unit) :
    core.reset startup = (.done (), [], core) := by
  simp only [reset, hsession]

theorem governed_perform (h : core.Governed latest) {op : Op} (hop : op.ComesBack) :
    (core.perform op).2.Governed (core.latestAfter latest op) := by
  cases op with
  | load read startup game memory => exact governed_load h read hop game memory
  | unload => exact governed_of_idle rfl rfl rfl
  | run frontend =>
      show (core.run frontend).2.2.Governed latest
      cases hsession : core.session with
      | none =>
          rw [run_of_no_session hsession]
          exact h
      | some session =>
          obtain ⟨game, request, floor, rfl, hgame, hrequest, hrunning⟩ := h.session hsession
          rw [run_of_session hsession]
          have hlater := Session.running_frame frontend.host hrunning
          exact governed_of_running rfl hlater hgame hrequest
  | reset startup =>
      show (core.reset startup).2.2.Governed latest
      cases hsession : core.session with
      | none =>
          rw [reset_of_no_session hsession]
          exact h
      | some session =>
          obtain ⟨game, request, floor, rfl, hgame, hrequest, hrunning⟩ := h.session hsession
          obtain ⟨feeding, hreset⟩ := reset_eq hsession hrequest hrunning hop
          have hfed := Feed.running_performAll hrunning startup.feeds
          rw [hreset]
          exact governed_of_running rfl hfed hgame hrequest
  | produce op =>
      show (core.produce op).2.Governed latest
      unfold produce
      split
      · exact h
      · next session hsession =>
          obtain ⟨game, request, floor, rfl, hgame, hrequest, hrunning⟩ := h.session hsession
          split
          · exact governed_of_running rfl (Feed.running_perform hrunning op) hgame hrequest
          · exact h

theorem governed_performAll (h : core.Governed latest) {ops : List Op}
    (hops : ∀ op ∈ ops, op.ComesBack) :
    (core.performAll ops).2.Governed (core.latest latest ops) := by
  induction ops generalizing core latest with
  | nil => exact h
  | cons op ops ih =>
      exact ih (governed_perform h (hops op (List.mem_cons_self ..)))
        fun later hlater => hops later (List.mem_cons_of_mem _ hlater)

/-! ## Starts and stops of the machine -/

end Core

/-- Whether a call starts the machine or stops it, if it does one of both. -/
def CoreCall.turn? : CoreCall → Option Bool
  | .started _ => some true
  | .stopped => some false
  | _ => none

/-- The starts and the stops of the machine among calls. -/
def turns (calls : List CoreCall) : List Bool := calls.filterMap CoreCall.turn?

@[simp] theorem turns_append (earlier later : List CoreCall) :
    turns (earlier ++ later) = turns earlier ++ turns later := List.filterMap_append

namespace Core

variable {core : Core} {latest : Option (Game × MachineRequest)}

/-- A start of the machine is not followed by another. -/
abbrev Spaced (turns : List Bool) : Prop :=
  turns.IsChain fun earlier later => ¬ (earlier = true ∧ later = true)

/-- The starts are spaced, and a machine that was started last belongs to a session. -/
structure Alternates (core : Core) (before : List Bool) : Prop where
  spaced : Spaced before
  running : before.getLast? = some true → core.session.isSome = true

variable {before : List Bool}

theorem turns_startCalls (request : MachineRequest) (log : Feed.Log) :
    turns (startCalls request log) = [true] := by
  have hnone : (log.map fun entry => CoreCall.fed entry.2).filterMap CoreCall.turn? = [] := by
    simp [CoreCall.turn?]
  simp [turns, startCalls, hnone, CoreCall.turn?]

/-- What a session calls neither starts the machine nor stops it. -/
theorem turns_outward (calls : List (Call Endpoint)) :
    turns (calls.flatMap Frontend.outward) = [] := by
  apply List.filterMap_eq_nil_iff.mpr
  intro call hcall
  obtain ⟨made, -, hmeant⟩ := List.mem_flatMap.mp hcall
  cases made with
  | poll who => cases hmeant
  | gui => cases hmeant
  | level who source =>
      obtain ⟨query, -, rfl⟩ := List.mem_map.mp hmeant
      rfl
  | event who event =>
      rw [List.mem_singleton.mp hmeant]
      rfl
  | video who view =>
      cases who with
      | frontend size =>
          simp only [Frontend.outward] at hmeant
          split at hmeant
          · rw [List.mem_singleton.mp hmeant]
            rfl
          · cases hmeant
      | machine => cases hmeant
  | batch who samples frames =>
      rw [List.mem_singleton.mp hmeant]
      rfl
  | single who left right => cases hmeant

theorem Alternates.still (h : core.Alternates before) {calls : List CoreCall}
    (hcalls : turns calls = []) {after : Core}
    (hafter : after.session.isSome = core.session.isSome) :
    after.Alternates (before ++ turns calls) := by
  rw [hcalls, List.append_nil]
  exact ⟨h.spaced, fun hlast => hafter.trans (h.running hlast)⟩

/-- A stop may come at any time. -/
theorem alternates_of_stop (h : Spaced before) (after : Core) :
    after.Alternates (before ++ [false]) := by
  constructor
  case spaced =>
    rw [Spaced, List.isChain_append]
    exact ⟨h, List.isChain_singleton _, by simp⟩
  case running => simp

/-- A start has to find no session. -/
theorem Alternates.spaced_start (h : core.Alternates before) (hidle : core.session = none) :
    Spaced (before ++ [true]) := by
  rw [Spaced, List.isChain_append]
  refine ⟨h.spaced, List.isChain_singleton _, ?_⟩
  intro last hlast _ _ hboth
  rw [Option.mem_def, hboth.1] at hlast
  have hrunning := h.running hlast
  rw [hidle] at hrunning
  cases hrunning

/-- Whether an operation loads a game over a session. -/
def overloads (core : Core) : Op → Bool
  | .load .. => core.session.isSome
  | _ => false

/-- Whether no operation loads a game over a session when its turn comes. -/
def neverOverloads (core : Core) : List Op → Bool
  | [] => true
  | op :: ops => !core.overloads op && (core.perform op).2.neverOverloads ops

theorem alternates_load (h : core.Alternates before) (hidle : core.session = none)
    (read : FileReader) {startup : Startup Unit} (hback : startup.ComesBack) (game : Game)
    (memory : Memory) :
    let after := core.load read startup game memory
    after.2.2.Alternates (before ++ turns after.2.1) := by
  intro after
  rcases core.load_cases read hback game memory with
    ⟨fault, -, hload⟩ | ⟨hload, -⟩ | ⟨request, calls, -, hcalls, hload⟩ |
      ⟨request, log, session, floor, info, -, -, hload⟩
  · simp only [after, hload]
    exact h.still rfl rfl
  · simp only [after, hload]
    exact h.still rfl rfl
  · have hstop : turns [CoreCall.stopped] = [false] := rfl
    simp only [after, hload, turns_append, hstop, ← List.append_assoc]
    rcases hcalls with rfl | ⟨log, rfl⟩
    · simp only [turns, List.filterMap_nil, List.append_nil]
      exact alternates_of_stop h.spaced _
    · rw [turns_startCalls]
      exact alternates_of_stop (h.spaced_start hidle) _
  · simp only [after, hload, turns_startCalls]
    exact ⟨h.spaced_start hidle, fun _ => rfl⟩

theorem alternates_perform (h : core.Governed latest) (hbefore : core.Alternates before) {op : Op}
    (hop : op.ComesBack) (hidle : core.overloads op = false) :
    (core.perform op).2.Alternates (before ++ turns (core.perform op).1) := by
  cases op with
  | load read startup game memory =>
      have hnone : core.session = none :=
        Option.isNone_iff_eq_none.mp (by simpa [overloads] using hidle)
      exact alternates_load hbefore hnone read hop game memory
  | unload => exact alternates_of_stop hbefore.spaced _
  | run frontend =>
      cases hsession : core.session with
      | none =>
          simp only [perform, run_of_no_session hsession]
          exact hbefore.still rfl rfl
      | some session =>
          simp only [perform, run_of_session hsession]
          exact hbefore.still (turns_outward _) (by rw [hsession]; rfl)
  | reset startup =>
      cases hsession : core.session with
      | none =>
          simp only [perform, reset_of_no_session hsession]
          exact hbefore.still rfl rfl
      | some session =>
          obtain ⟨game, request, floor, -, -, hrequest, hrunning⟩ := h.session hsession
          obtain ⟨feeding, hreset⟩ := reset_eq hsession hrequest hrunning hop
          -- The stop in front leaves nothing running that the start could find.
          have hstopped := alternates_of_stop hbefore.spaced { core with session := none }
          have hturns (log : Feed.Log) :
              turns (.stopped :: startCalls request log) = [false] ++ [true] :=
            congrArg (false :: ·) (turns_startCalls request log)
          simp only [perform, hreset, hturns, ← List.append_assoc]
          exact ⟨hstopped.spaced_start rfl, fun _ => rfl⟩
  | produce op =>
      have hsame : (core.produce op).2.session.isSome = core.session.isSome := by
        unfold produce
        split
        · rfl
        · next session hsession =>
            split
            · rw [hsession]
              rfl
            · rfl
      exact hbefore.still rfl hsame

theorem alternates_performAll (h : core.Governed latest) (hbefore : core.Alternates before)
    {ops : List Op} (hops : ∀ op ∈ ops, op.ComesBack) (hidle : core.neverOverloads ops = true) :
    (core.performAll ops).2.Alternates (before ++ turns (core.performAll ops).1) := by
  induction ops generalizing core latest before with
  | nil => exact hbefore.still rfl rfl
  | cons op ops ih =>
      simp only [neverOverloads, Bool.and_eq_true, Bool.not_eq_true'] at hidle
      have hop := hops op (List.mem_cons_self ..)
      have hlater := ih (governed_perform h hop) (alternates_perform h hbefore hop hidle.1)
        (fun later hlater => hops later (List.mem_cons_of_mem _ hlater)) hidle.2
      simp only [performAll, turns_append, ← List.append_assoc]
      exact hlater

/-- Between two starts of the machine it is stopped. -/
theorem stopped_of_spaced {calls earlier middle later : List CoreCall}
    {request other : MachineRequest} (h : Spaced (turns calls))
    (hcalls : calls = earlier ++ .started request :: (middle ++ .started other :: later)) :
    .stopped ∈ middle := by
  have hturns : turns calls =
      turns earlier ++ true :: (turns middle ++ true :: turns later) := by
    rw [hcalls]
    simp [turns, CoreCall.turn?]
  rw [hturns, Spaced] at h
  cases hmiddle : turns middle with
  | nil =>
      rw [hmiddle, List.nil_append, List.isChain_append_cons_cons] at h
      exact (h.2.1 ⟨rfl, rfl⟩).elim
  | cons first rest =>
      rw [hmiddle, List.cons_append, List.isChain_append_cons_cons] at h
      have hfirst : first = false := by
        rw [← Bool.not_eq_true]
        exact fun htrue => h.2.1 ⟨rfl, htrue⟩
      obtain ⟨call, hcall, hturn⟩ : ∃ call ∈ middle, call.turn? = some false := by
        rw [← List.mem_filterMap]
        show false ∈ turns middle
        rw [hmiddle, hfirst]
        exact List.mem_cons_self ..
      cases call with
      | stopped => exact hcall
      | _ => cases hturn

/-! ## The law -/

/-- What a core that has this latest load does next. -/
structure Lives (core : Core) (latest : Option (Game × MachineRequest)) : Prop where
  holds : core.game = latest.map Prod.fst ∧ core.request = latest.map Prod.snd
  held : ∀ session, core.session = some session → session.feed.phase = .ready ∧
    ∃ game request, core.game = some game ∧ core.request = some request
  refusedLoad : ∀ read startup game memory fault,
    MachineRequest.ofMedia read game.path game.image 0 = .error fault →
      core.load read startup game memory = (.done (.failed game), [], core)
  failedLoad : ∀ read startup game memory request, startup.ComesBack →
    MachineRequest.ofMedia read game.path game.image 0 = .ok request →
    ∀ given, (core.load read startup game memory).1 = .done (.failed given) →
      given = game ∧ (core.load read startup game memory).2.1.getLast? = some .stopped ∧
        (core.load read startup game memory).2.2.session = none
  abortedLoad : ∀ read startup game memory, startup.ComesBack →
    (core.load read startup game memory).1 = .aborted →
      core.load read startup game memory = (.aborted, [], core) ∧
        maxAllocation < 4 * core.settings.audioBatch
  /-- The machine was asked for what the game's media tell, and for nothing else. -/
  loadedLoad : ∀ read startup game memory info, startup.ComesBack →
    (core.load read startup game memory).1 = .done (.loaded info) →
      ∃ request session, ∃ log : Feed.Log,
        MachineRequest.ofMedia read game.path game.image 0 = .ok request ∧
        (core.load read startup game memory).2 =
          (.started request :: log.map (fun entry => .fed entry.2),
            { core with
              session := some session, request := some request, game := some game
              feeding := true })
  /-- The game is taken along, whether or not a session was there to be ended. -/
  unload : ∀ game request, latest = some (game, request) →
    core.unload = (.done game, [.stopped],
      { core with session := none, request := none, game := none, feeding := false })
  emptyUnload : latest = none →
    core.unload = (.aborted, [.stopped],
      { core with session := none, request := none, game := none, feeding := false })
  reset : ∀ session, core.session = some session → ∀ startup, startup.ComesBack →
    ∃ game request feeding, latest = some (game, request) ∧
      let run := session.feed.performAll startup.feeds
      core.reset startup =
        (.done (), .stopped :: .started request :: run.log.map (fun entry => .fed entry.2),
          { core with
            session := some { session with feed := run.feed, sink := session.sinkAfter startup }
            feeding })
  idle : core.session = none → ∀ frontend startup,
    core.run frontend = (.done (), [], core) ∧ core.reset startup = (.done (), [], core)

theorem Governed.lives (h : core.Governed latest) : core.Lives latest := by
  constructor
  case holds => exact ⟨h.game, h.request⟩
  case held =>
    intro session hsession
    obtain ⟨game, request, floor, -, hgame, hrequest, hrunning⟩ := h.session hsession
    exact ⟨hrunning.phase, game, request, hgame, hrequest⟩
  case refusedLoad =>
    intro read startup game memory fault hrefused
    simp only [load, hrefused]
  case failedLoad =>
    intro read startup game memory request hback haccepted given hfailed
    rcases core.load_cases read hback game memory with
      ⟨fault, hrefused, -⟩ | ⟨hload, -⟩ | ⟨same, calls, -, -, hload⟩ |
        ⟨same, log, session, floor, info, -, -, hload⟩
    · rw [haccepted] at hrefused
      cases hrefused
    · rw [hload] at hfailed
      cases hfailed
    · rw [hload, Outcome.done.injEq, LoadResult.failed.injEq] at hfailed
      rw [hload]
      exact ⟨hfailed.symm, List.getLast?_concat .., rfl⟩
    · rw [hload] at hfailed
      cases hfailed
  case abortedLoad =>
    intro read startup game memory hback haborted
    rcases core.load_cases read hback game memory with
      ⟨fault, hrefused, hload⟩ | ⟨hload, hlarge⟩ | ⟨same, calls, -, -, hload⟩ |
        ⟨same, log, session, floor, info, -, -, hload⟩
    · rw [hload] at haborted
      cases haborted
    · exact ⟨hload, hlarge⟩
    · rw [hload] at haborted
      cases haborted
    · rw [hload] at haborted
      cases haborted
  case loadedLoad =>
    intro read startup game memory info hback hloaded
    rcases core.load_cases read hback game memory with
      ⟨fault, hrefused, hload⟩ | ⟨hload, hlarge⟩ | ⟨same, calls, -, -, hload⟩ |
        ⟨request, log, session, floor, same, haccepted, -, hload⟩
    · rw [hload] at hloaded
      cases hloaded
    · rw [hload] at hloaded
      cases hloaded
    · rw [hload] at hloaded
      cases hloaded
    · exact ⟨request, session, log, haccepted, by rw [hload]; rfl⟩
  case unload =>
    rintro game request rfl
    simp only [Core.unload, endSession, h.game, Option.map_some, Outcome.ofOption]
  case emptyUnload =>
    rintro rfl
    simp only [Core.unload, endSession, h.game, Option.map_none, Outcome.ofOption]
  case reset =>
    intro session hsession startup hback
    obtain ⟨game, request, floor, hlatest, -, hrequest, hrunning⟩ := h.session hsession
    obtain ⟨feeding, hreset⟩ := reset_eq hsession hrequest hrunning hback
    exact ⟨game, request, feeding, hlatest, hreset⟩
  case idle =>
    intro hsession frontend startup
    exact ⟨run_of_no_session hsession frontend, reset_of_no_session hsession startup⟩

/-- The life of a core, whatever is asked of it and however its machines start: a session that is
held is running and belongs to the latest load, a load that fails and an unload leave a stopped
machine and no session, a reset keeps the session, and without a session nobody is called.  Between
any two starts the machine is stopped, if no game is loaded over a session. -/
theorem life_of_machines (settings : Settings) (size : Size) {ops : List Op}
    (hback : ∀ op ∈ ops, op.ComesBack) :
    let core := create settings size
    let run := core.performAll ops
    run.2.Lives (core.latest none ops) ∧
      (core.neverOverloads ops = true → ∀ earlier middle later request other,
        run.1 = earlier ++ .started request :: (middle ++ .started other :: later) →
          .stopped ∈ middle) := by
  intro core run
  have hcreate : core.Governed none := governed_of_idle rfl rfl rfl
  refine ⟨(governed_performAll hcreate hback).lives, ?_⟩
  intro hidle earlier middle later request other hcalls
  have hfresh : core.Alternates [] := ⟨List.isChain_nil, nofun⟩
  have halternates := alternates_performAll hcreate hfresh hback hidle
  exact stopped_of_spaced halternates.spaced hcalls

/-- The law at work on a machine that queues a frame whenever it is asked to start.  It fails to
start, then starts, then fails to start again within its session, and starts once more for a second
game. -/
theorem life_of_machines_of_second_game :
    let settings : Settings :=
      { audioCapacity := 2, audioCeiling := 3, audioBatch := 1, batchesPerFrame := 1 }
    let core := create settings ⟨1, 1⟩
    let startup (result : Except String Unit) : Startup Unit :=
      { feeds := [.push [5, -5] 1], result }
    let absent : FileReader := fun _ => .error .notFound
    let game (byte : UInt8) : Game := { path := none, image := some #[byte] }
    let request : MachineRequest := { path := none, ramMb := 128, kind := .unknown }
    let frontend : Frontend := { level := fun _ => 0, feeds := fun _ _ => [] }
    let queued : CoreCall := .fed (.done (.pushed ⟨1, 0⟩))
    let ops : List Op :=
      [.load absent (startup (.error "no ROM")) (game 1), .load absent (startup (.ok ())) (game 2),
        .reset (startup (.error "no ROM")), .run frontend, .unload,
        .load absent (startup (.ok ())) (game 3)]
    (∀ op ∈ ops, op.ComesBack) ∧ core.neverOverloads ops = true ∧
      (core.performAll ops).1 =
        [.started request, queued, .stopped, .started request, queued, .stopped,
          .started request, queued, .played [5, -5], .stopped, .started request, queued] ∧
      core.latest none ops = some (game 3, request) ∧
      (core.performAll ops).2.Lives (core.latest none ops) ∧
      .stopped ∈ [queued, .played [5, -5], .stopped] := by
  intro settings core startup absent game request frontend queued ops
  have hstartup (result : Except String Unit) : (startup result).ComesBack := by
    intro feed floor hfeed
    obtain ⟨queue, hqueue⟩ := hfeed.queues
    exact Feed.complete_push hqueue [5, -5] (by decide) .ample
  have hback : ∀ op ∈ ops, op.ComesBack := by
    simp [ops, Op.ComesBack, hstartup]
  have hidle : core.neverOverloads ops = true := by decide +kernel
  have hcalls : (core.performAll ops).1 =
      [.started request, queued, .stopped, .started request, queued, .stopped,
        .started request, queued, .played [5, -5], .stopped, .started request, queued] := by
    decide +kernel
  have hlatest : core.latest none ops = some (game 3, request) := by decide +kernel
  obtain ⟨hlives, hstops⟩ := life_of_machines settings ⟨1, 1⟩ hback
  have hstopped := hstops hidle
    [.started request, queued, .stopped, .started request, queued, .stopped]
    [queued, .played [5, -5], .stopped] [queued] request request hcalls
  exact ⟨hback, hidle, hcalls, hlatest, hlives, hstopped⟩

end Core

end Framestep
