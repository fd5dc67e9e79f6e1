import Framestep.Proofs.Session.Stages
import Framestep.Proofs.Video.Place

/-!
# Phase, mailbox and ring

The phase of a session, its mailbox and its ring are changed one after the other, and
always stand in step: a running session has an open mailbox and a ring, and any other
has neither picture nor sound.  `Feed.Running` and `Feed.Stopped` are the two forms that
a feed can have, and every operation on a session leads from one of them to one of them,
whether or not its calls come back.

The main statement, `Session.coupled_performAll`, says this of every session that can be
reached, together with the bounds of the ring: it holds at least the frames that it
started with and at most the ceiling, and never fewer than before until the next
teardown.
-/

namespace Framestep

variable {κ : Type}

/-! ## The mailbox of a feed -/

namespace Mailbox

variable {box : Mailbox}

/-- Whether a mailbox is closed does not hang on what is put into it. -/
theorem closed_submit (box : Mailbox) (layout : Layout) (pixels : Array UInt8)
    (memory : Memory) : (box.submit layout pixels memory).2.closed = box.closed := by
  rw [submit_eq]
  split <;> rfl

theorem closed_paint (box : Mailbox) (layout : Layout) (painter : Painter) (memory : Memory) :
    (box.paint layout painter memory).2.closed = box.closed := by
  rw [paint_eq]
  split <;> rfl

theorem closed_signal (box : Mailbox) : box.signal.closed = box.closed := by
  rw [signal_eq]

theorem submit_shut (layout : Layout) (pixels : Array UInt8) (memory : Memory) :
    ∃ fault, shut.submit layout pixels memory = (.refused fault, shut) := by
  rw [submit_eq]
  cases hrefusal : layout.refusal? shut.closed pixels.size (shut.room memory) with
  | some fault => exact ⟨fault, rfl⟩
  | none =>
      obtain ⟨-, -, hopen, -⟩ :=
        (Layout.refusal?_eq_none_iff (room_le wellFormed_shut memory)).mp hrefusal
      cases hopen

/-- A closed mailbox lets no painter to its storage. -/
theorem paint_shut (layout : Layout) (memory : Memory) :
    ∃ fault, ∀ painter, shut.paint layout painter memory = (.refused fault, shut) := by
  cases hrefusal : layout.refusal? shut.closed layout.byteCount (shut.room memory) with
  | some fault => exact ⟨fault, fun painter => by rw [paint_eq, hrefusal]⟩
  | none =>
      obtain ⟨-, -, hopen, -⟩ :=
        (Layout.refusal?_eq_none_iff (room_le wellFormed_shut memory)).mp hrefusal
      cases hopen

end Mailbox

/-! ## The ring of a feed -/

namespace Feed

/-- Making room only ever makes the ring larger, and not beyond the ceiling. -/
theorem capacity_makeRoom {ring : Ring} (hring : ring.WellFormed) (frames ceiling : Nat)
    (memory : Memory) :
    let room := (makeRoom ring frames ceiling memory).2
    ring.capacity ≤ room.capacity ∧ (ring.capacity ≤ ceiling → room.capacity ≤ ceiling) := by
  intro room
  simp only [room, makeRoom]
  split
  · rw [Ring.growTo_eq hring]
    split
    · exact ⟨Nat.le_refl _, id⟩
    · next hlarger =>
        split
        · exact ⟨Nat.le_refl _, id⟩
        · exact ⟨(Nat.lt_of_not_le hlarger).le, fun _ => Nat.min_le_right _ _⟩
  · exact ⟨Nat.le_refl _, id⟩

/-- A ring that is in order and whose capacity lies between these bounds. -/
def Holds (floor ceiling : Nat) (ring : Ring) : Prop :=
  ring.WellFormed ∧ floor ≤ ring.capacity ∧ ring.capacity ≤ ceiling

/-- The feed of a running session, whose ring holds at least `floor` frames. -/
structure Running (floor : Nat) (feed : Feed) : Prop where
  phase : feed.phase = .ready
  opened : feed.mailbox.closed = false
  mailbox : feed.mailbox.WellFormed
  ring : ∃ ring, feed.ring = some ring ∧ Holds floor feed.ceiling ring
  rate_pos : 0 < feed.rate

/-- The feed of a session that is not running. -/
structure Stopped (feed : Feed) : Prop where
  phase : feed.phase ≠ .ready
  mailbox : feed.mailbox = .shut
  ring : feed.ring = none
  rate_pos : 0 < feed.rate

variable {floor : Nat} {feed : Feed}

theorem Running.withMailbox (h : feed.Running floor) {mailbox : Mailbox}
    (hopen : mailbox.closed = false) (hmailbox : mailbox.WellFormed) :
    Running floor { feed with mailbox } :=
  ⟨h.phase, hopen, hmailbox, h.ring, h.rate_pos⟩

theorem Running.withRing (h : feed.Running floor) {ring : Ring}
    (hring : Holds floor feed.ceiling ring) : Running floor { feed with ring := some ring } :=
  ⟨h.phase, h.opened, h.mailbox, ⟨ring, rfl, hring⟩, h.rate_pos⟩

theorem running_push (h : feed.Running floor) (samples : List Int16) (frames : Nat)
    (memory : Memory) : (feed.push samples frames memory).2.Running floor := by
  obtain ⟨ring, hfeed, hring, hfloor, hceiling⟩ := h.ring
  obtain ⟨-, hroom, -⟩ := makeRoom_keeps hring frames feed.ceiling memory
  obtain ⟨hgrown, hbounded⟩ := capacity_makeRoom hring frames feed.ceiling memory
  simp only [push_eq hfeed hring, Ring.push_eq hroom]
  have hbounds := And.intro (hfloor.trans hgrown) (hbounded hceiling)
  split
  · exact h.withRing ⟨hroom, hbounds⟩
  · split
    · exact h.withRing ⟨hroom, hbounds⟩
    · next henough =>
        have happended := Ring.wellFormed_appended_fitting hroom (Nat.le_of_not_lt henough)
        exact h.withRing ⟨happended, hbounds⟩

/-- No operation of a machine stops a running session or makes its ring smaller. -/
theorem running_perform (h : feed.Running floor) (op : Op) :
    (feed.perform op).2.Running floor := by
  cases op with
  | submit layout pixels memory =>
      exact h.withMailbox ((feed.mailbox.closed_submit layout pixels memory).trans h.opened)
        (Mailbox.perform_view h.mailbox (.submit layout pixels memory)).2.2
  | paint layout painter memory =>
      exact h.withMailbox ((feed.mailbox.closed_paint layout painter memory).trans h.opened)
        (Mailbox.perform_view h.mailbox (.paint layout painter memory)).2.2
  | signal =>
      exact h.withMailbox ((Mailbox.closed_signal feed.mailbox).trans h.opened)
        (Mailbox.perform_view h.mailbox .signal).2.2
  | push samples frames memory => exact running_push h samples frames memory
  | pushBlock block channels memory => exact running_push h _ _ memory
  | setRate rate =>
      simp only [perform, setRate]
      split
      · next hrate => exact ⟨h.phase, h.opened, h.mailbox, h.ring, hrate⟩
      · exact h
  | status => exact h

/-- A machine that holds the feed of a session that is not running can change nothing of
it but the sample rate, and none of its operations is aborted. -/
theorem stopped_perform (h : feed.Stopped) (op : Op) :
    (feed.perform op).2.Stopped ∧ (feed.perform op).1 ≠ .aborted := by
  cases op with
  | submit layout pixels memory =>
      obtain ⟨fault, hrefused⟩ := Mailbox.submit_shut layout pixels memory
      simp only [perform, submit, h.mailbox, hrefused, Outcome.map]
      exact ⟨⟨h.phase, rfl, h.ring, h.rate_pos⟩, by simp⟩
  | paint layout painter memory =>
      obtain ⟨fault, hrefused⟩ := Mailbox.paint_shut layout memory
      simp only [perform, paint, h.mailbox, hrefused painter, Outcome.map]
      exact ⟨⟨h.phase, rfl, h.ring, h.rate_pos⟩, by simp⟩
  | signal =>
      simp only [perform, signal, h.mailbox]
      exact ⟨⟨h.phase, rfl, h.ring, h.rate_pos⟩, by simp⟩
  | push samples frames memory =>
      simp only [perform, push, h.ring, Outcome.map]
      exact ⟨h, by simp⟩
  | pushBlock block channels memory =>
      simp only [perform, pushBlock, push, h.ring, Outcome.map]
      exact ⟨h, by simp⟩
  | setRate rate =>
      simp only [perform, setRate]
      refine ⟨?_, by simp⟩
      split
      · next hrate => exact ⟨h.phase, h.mailbox, h.ring, hrate⟩
      · exact h
  | status => exact ⟨h, by simp [perform]⟩

variable {log : Log} {last : Feed}

theorem Running.leads (h : feed.Running floor) (hlog : feed.Leads log last) : last.Running floor :=
  hlog.keeps (P := Running floor) (fun _ entry _ hfeed => running_perform hfeed entry.1) h

theorem Stopped.leads (h : feed.Stopped) (hlog : feed.Leads log last) : last.Stopped :=
  hlog.keeps (P := Stopped) (fun _ entry _ hfeed => (stopped_perform hfeed entry.1).1) h

theorem running_performAll (h : feed.Running floor) (ops : List Op) :
    (feed.performAll ops).feed.Running floor := h.leads (feed.leads_performAll ops)

theorem stopped_performAll (h : feed.Stopped) (ops : List Op) :
    (feed.performAll ops).feed.Stopped := h.leads (feed.leads_performAll ops)

/-- The feed of a running session stands for the queue of its ring. -/
theorem Running.queues (h : feed.Running floor) : ∃ queue, feed.Queues queue := by
  obtain ⟨ring, hring, hwell, -⟩ := h.ring
  exact ⟨ring.toFrames, h.phase, ring, hring, hwell, rfl⟩

end Feed

/-! ## A host frame of a running session -/

namespace Progress

/-- A running session runs on, whatever is taken out of its mailbox and its ring. -/
theorem kept_running (floor : Nat) :
    Kept fun progress : Progress κ => progress.session.feed.Running floor := by
  constructor
  case makes =>
    intro progress made log other h hmakes
    exact h.leads hmakes.leads
  case looks =>
    intro progress h
    obtain ⟨found, -, hcollect⟩ := Mailbox.collect_of_open h.mailbox h.opened
    rw [hcollect]
    exact h.withMailbox h.opened ⟨h.mailbox.covers, h.mailbox.allocated⟩
  case takes =>
    intro progress ring h hring
    obtain ⟨same, hsame, hwell, hbounds⟩ := h.ring
    rw [hring, Option.some.injEq] at hsame
    rw [Ring.drainTo_eq (hsame ▸ hwell)]
    refine h.withRing ⟨Ring.wellFormed_without (hsame ▸ hwell) (Nat.min_le_right _ _), ?_⟩
    exact hsame ▸ hbounds
  case spares =>
    intro progress lastSize scratch report h
    exact h

end Progress

/-! ## One operation on a session -/

theorem Feed.isReady_iff (feed : Feed) : feed.isReady = true ↔ feed.phase = .ready := by
  rw [Feed.isReady, beq_iff_eq]

namespace Session

variable {session : Session κ} {floor : Nat}

theorem running_forwardInput (host : Host κ) (h : session.feed.Running floor) :
    (session.begun.forwardInput host).progress.session.feed.Running floor :=
  h.leads (session.leads_forwardInput host).1

theorem running_frame (host : Host κ) (h : session.feed.Running floor) :
    (session.frame host).session.feed.Running floor := by
  obtain ⟨last, hlast, hsession, -⟩ :=
    frame_keeps (Progress.kept_running floor) host (session.feed.isReady_iff.mpr h.phase)
      (running_forwardInput host h)
  rw [hsession]
  exact hlast

/-- A session that is not running is left alone by a host frame. -/
theorem frame_of_not_ready (host : Host κ) (h : session.feed.phase ≠ .ready) :
    session.frame host = { outcome := .done {}, calls := [], fed := [], session } := by
  have hready : ¬ session.feed.isReady = true := fun hready =>
    h (session.feed.isReady_iff.mp hready)
  rw [frame, if_neg hready]
  rfl

/-- A session that is running is not started again. -/
theorem start_of_ready (launch : Launch) (memory : Memory) (h : session.feed.phase = .ready) :
    session.start launch memory = (.done (), session) := by
  rw [start, if_pos (session.feed.isReady_iff.mpr h)]

/-- A session after a start that has given it this ring. -/
def started (session : Session κ) (launch : Launch) (ring : Ring) : Session κ :=
  { session with
    feed :=
      { session.feed with
        phase := .ready
        ring := some ring
        mailbox := session.feed.mailbox.reopen
        rate := session.settings.sampleRate }
    tracker := session.tracker.reset
    launch
    lastSize := none }

/-- A start hangs on the ring alone, and changes nothing where the ring cannot be had. -/
theorem start_cases (launch : Launch) (memory : Memory) (h : session.feed.phase ≠ .ready) :
    (∃ fault, Ring.create session.settings.audioCapacity memory = .refused fault ∧
        session.start launch memory = (.refused fault, session)) ∨
      ∃ ring, Ring.create session.settings.audioCapacity memory = .done ring ∧
        session.start launch memory = (.done (), session.started launch ring) := by
  have hready : ¬ session.feed.isReady = true := fun hready =>
    h (session.feed.isReady_iff.mp hready)
  rw [start, if_neg hready]
  cases hcreate : Ring.create session.settings.audioCapacity memory with
  | done ring => exact .inr ⟨ring, rfl, rfl⟩
  | refused fault => exact .inl ⟨fault, rfl, rfl⟩
  | aborted =>
      simp only [Ring.create, Ring.arena_eq] at hcreate
      split at hcreate <;> cases hcreate

/-- No operation but a teardown stops a running session or makes its ring smaller. -/
theorem running_perform (h : session.feed.Running floor) {op : Op κ} (hop : op ≠ .teardown) :
    (session.perform op).session.feed.Running floor := by
  cases op with
  | start launch memory =>
      simp only [perform, start_of_ready launch memory h.phase]
      exact h
  | teardown => exact (hop rfl).elim
  | frame host => exact running_frame host h
  | attachMachine startup =>
      obtain ⟨outcome, sink, hattached⟩ := session.exists_attachMachine startup
      simp only [perform, hattached]
      exact Feed.running_performAll h startup.feeds
  | produce op => exact Feed.running_perform h op
  | _ => exact h

/-- Only a start brings a session that is not running to run. -/
theorem stopped_perform (h : session.feed.Stopped) {op : Op κ}
    (hop : ∀ launch memory, op ≠ .start launch memory) :
    (session.perform op).session.feed.Stopped := by
  cases op with
  | start launch memory => exact (hop launch memory rfl).elim
  | teardown => exact ⟨nofun, rfl, rfl, h.rate_pos⟩
  | frame host =>
      simp only [perform, frame_of_not_ready host h.phase]
      exact h
  | attachMachine startup =>
      obtain ⟨outcome, sink, hattached⟩ := session.exists_attachMachine startup
      simp only [perform, hattached]
      exact Feed.stopped_performAll h startup.feeds
  | produce op => exact (Feed.stopped_perform h op).1
  | _ => exact h

theorem running_performAll (h : session.feed.Running floor) {ops : List (Op κ)}
    (hops : ∀ op ∈ ops, op ≠ .teardown) : (session.performAll ops).2.feed.Running floor :=
  performAll_of (P := fun session => session.feed.Running floor)
    (fun _ op hop hsession => running_perform hsession (hops op hop)) h

/-! ## Sessions that can be reached -/

/-- What holds of every session that can be reached. -/
structure InOrder (session : Session κ) : Prop where
  valid : session.settings.fault? = none
  ceiling : session.feed.ceiling = session.settings.audioCeiling
  feed : session.feed.Running session.settings.audioCapacity ∨ session.feed.Stopped

end Session

theorem Settings.fault?_eq_none_iff (settings : Settings) :
    settings.fault? = none ↔
      0 < settings.audioCapacity ∧ settings.audioCapacity ≤ settings.audioCeiling ∧
        0 < settings.audioBatch ∧ 0 < settings.batchesPerFrame ∧ 0 < settings.sampleRate := by
  unfold fault?
  grind

namespace Session

variable {session : Session κ}

/-- A session before its first start. -/
def unstarted (settings : Settings) (asksGui : Bool) : Session κ :=
  { settings, asksGui
    feed := Feed.create settings.sampleRate settings.audioCeiling
    registry := Registry.empty
    tracker := Tracker.create settings.controls settings.pointer
    sink := none
    launch := {}
    lastSize := none
    events := []
    scratch := [] }

theorem create_eq_done {settings : Settings} {asksGui : Bool}
    (hcreate : create settings asksGui = .done session) :
    settings.fault? = none ∧ session = unstarted settings asksGui := by
  simp only [create, Settings.validate] at hcreate
  cases hvalid : settings.fault? with
  | some cause => simp [hvalid] at hcreate
  | none =>
      simp only [hvalid] at hcreate
      split at hcreate
      · cases hcreate
      · rw [Outcome.done.injEq] at hcreate
        exact ⟨rfl, hcreate.symm⟩

theorem stopped_unstarted {settings : Settings} (hvalid : settings.fault? = none)
    (asksGui : Bool) : (unstarted settings asksGui : Session κ).feed.Stopped := by
  obtain ⟨-, -, -, -, hrate⟩ := settings.fault?_eq_none_iff.mp hvalid
  exact ⟨nofun, rfl, rfl, hrate⟩

theorem inOrder_unstarted {settings : Settings} (hvalid : settings.fault? = none)
    (asksGui : Bool) : (unstarted settings asksGui : Session κ).InOrder :=
  ⟨hvalid, rfl, .inr (stopped_unstarted hvalid asksGui)⟩

theorem running_started (h : session.InOrder) (hstopped : session.feed.Stopped)
    (launch : Launch) {memory : Memory} {ring : Ring}
    (hcreate : Ring.create session.settings.audioCapacity memory = .done ring) :
    (session.started launch ring).feed.Running session.settings.audioCapacity := by
  obtain ⟨hcapacity, hceiling, -, -, hrate⟩ := session.settings.fault?_eq_none_iff.mp h.valid
  have hbounds := Ring.capacity_of_create hcreate
  have hopened : session.feed.mailbox.reopen.WellFormed := by
    rw [hstopped.mailbox]
    exact ⟨Mailbox.wellFormed_shut.covers, Mailbox.wellFormed_shut.allocated⟩
  refine ⟨rfl, rfl, hopened, ⟨ring, rfl, Ring.wellFormed_of_create hcreate, ?_, ?_⟩, hrate⟩
  · omega
  · show ring.capacity ≤ session.feed.ceiling
    rw [h.ceiling]
    omega

theorem InOrder.rate_pos (h : session.InOrder) : 0 < session.feed.rate := by
  rcases h.feed with hrunning | hstopped
  · exact hrunning.rate_pos
  · exact hstopped.rate_pos

theorem InOrder.stopped (h : session.InOrder) (hidle : session.feed.phase ≠ .ready) :
    session.feed.Stopped := by
  rcases h.feed with hrunning | hstopped
  · exact (hidle hrunning.phase).elim
  · exact hstopped

theorem inOrder_perform (h : session.InOrder) (op : Op κ) :
    (session.perform op).session.InOrder := by
  have hmakeup := session.sameMakeup_perform op
  -- Nothing changes the settings or the ceiling, so only the form of the feed is left.
  suffices hform : (session.perform op).session.feed.Running session.settings.audioCapacity ∨
      (session.perform op).session.feed.Stopped by
    rw [← hmakeup.settings] at hform
    refine ⟨?_, ?_, hform⟩
    · rw [hmakeup.settings]
      exact h.valid
    · rw [hmakeup.ceiling, hmakeup.settings]
      exact h.ceiling
  by_cases hteardown : op = .teardown
  · rw [hteardown]
    exact .inr ⟨nofun, rfl, rfl, h.rate_pos⟩
  · rcases h.feed with hrunning | hstopped
    · exact .inl (running_perform hrunning hteardown)
    · by_cases hlaunch : ∃ launch memory, op = .start launch memory
      · obtain ⟨launch, memory, rfl⟩ := hlaunch
        simp only [perform]
        rcases start_cases launch memory hstopped.phase with
          ⟨fault, -, hstart⟩ | ⟨ring, hcreate, hstart⟩
        · rw [hstart]
          exact .inr hstopped
        · rw [hstart]
          exact .inl (running_started h hstopped launch hcreate)
      · simp only [not_exists] at hlaunch
        exact .inr (stopped_perform hstopped hlaunch)

theorem inOrder_performAll (h : session.InOrder) (ops : List (Op κ)) :
    (session.performAll ops).2.InOrder :=
  performAll_of (P := InOrder) (fun _ op _ hsession => inOrder_perform hsession op) h

section Reached

variable {settings : Settings} {asksGui : Bool}

/-- Whatever is done with a session that was created, it stays in order. -/
theorem inOrder_of_create (hcreate : create settings asksGui = .done session)
    (ops : List (Op κ)) : (session.performAll ops).2.InOrder := by
  obtain ⟨hvalid, rfl⟩ := create_eq_done hcreate
  exact inOrder_performAll (inOrder_unstarted hvalid asksGui) ops

theorem settings_of_create (hcreate : create settings asksGui = .done session)
    (ops : List (Op κ)) : (session.performAll ops).2.settings = settings := by
  obtain ⟨-, rfl⟩ := create_eq_done hcreate
  exact (sameMakeup_performAll _ ops).settings

theorem ceiling_of_create (hcreate : create settings asksGui = .done session)
    (ops : List (Op κ)) : (session.performAll ops).2.feed.ceiling = settings.audioCeiling := by
  rw [(inOrder_of_create hcreate ops).ceiling, settings_of_create hcreate ops]

end Reached

/-- The phase, the mailbox and the ring of a session stand in step, and the ring keeps to
the bounds that the settings give. -/
structure Coupled (settings : Settings) (session : Session κ) : Prop where
  ready_iff_open : session.feed.phase = .ready ↔ session.feed.mailbox.closed = false
  ready_iff_ring : session.feed.phase = .ready ↔ session.feed.ring.isSome = true
  capacity : ∀ ring, session.feed.ring = some ring →
    settings.audioCapacity ≤ ring.capacity ∧ ring.capacity ≤ settings.audioCeiling
  queued : ∀ ring, session.feed.ring = some ring → ring.toFrames.length ≤ ring.capacity
  empty : session.feed.phase ≠ .ready →
    session.feed.mailbox.allocated = 0 ∧ session.feed.mailbox.layout = ⟨0, 0, 0⟩ ∧
      session.feed.mailbox.dimensions = none ∧ session.feed.mailbox.available = false
  rate_pos : 0 < session.feed.rate

theorem InOrder.coupled (h : session.InOrder) : session.Coupled session.settings := by
  rcases h.feed with hrunning | hstopped
  · obtain ⟨ring, hring, hwell, hfloor, hceiling⟩ := hrunning.ring
    have hsame (other : Ring) (hother : session.feed.ring = some other) : other = ring := by
      rw [hring] at hother
      exact (Option.some.inj hother).symm
    constructor
    case ready_iff_open => simp [hrunning.phase, hrunning.opened]
    case ready_iff_ring => simp [hrunning.phase, hring]
    case capacity =>
      intro other hother
      rw [hsame other hother, ← h.ceiling]
      exact ⟨hfloor, hceiling⟩
    case queued =>
      intro other hother
      rw [hsame other hother, Ring.length_toFrames]
      exact hwell.occupied_le
    case empty =>
      intro hphase
      exact (hphase hrunning.phase).elim
    case rate_pos => exact hrunning.rate_pos
  · constructor
    case ready_iff_open => simp [hstopped.phase, hstopped.mailbox, Mailbox.shut]
    case ready_iff_ring => simp [hstopped.phase, hstopped.ring]
    case capacity => simp [hstopped.ring]
    case queued => simp [hstopped.ring]
    case empty =>
      intro _
      rw [hstopped.mailbox]
      exact ⟨rfl, rfl, rfl, rfl⟩
    case rate_pos => exact hstopped.rate_pos

/-- In every session that can be reached the phase, the mailbox and the ring stand in
step; the ring never becomes smaller before the next teardown, and a start that fails
leaves the session as it was. -/
theorem coupled_performAll {settings : Settings} {asksGui : Bool}
    (hcreate : create settings asksGui = .done session) (ops : List (Op κ)) :
    let reached := (session.performAll ops).2
    reached.Coupled settings ∧
      (∀ later, (∀ op ∈ later, op ≠ .teardown) → ∀ ring, reached.feed.ring = some ring →
        ∃ grown, (reached.performAll later).2.feed.ring = some grown ∧
          ring.capacity ≤ grown.capacity) ∧
      ∀ launch memory, (reached.start launch memory).1 ≠ .done () →
        ∃ fault, reached.start launch memory = (.refused fault, reached) := by
  intro reached
  have hreached : reached.InOrder := inOrder_of_create hcreate ops
  refine ⟨?_, ?_, ?_⟩
  · have hcoupled := hreached.coupled
    rw [settings_of_create hcreate ops] at hcoupled
    exact hcoupled
  · intro later hlater ring hring
    rcases hreached.feed with hrunning | hstopped
    · obtain ⟨same, hsame, hwell, -, hceiling⟩ := hrunning.ring
      rw [hring, Option.some.injEq] at hsame
      -- The capacity reached is itself a floor from here on.
      have hfloor : reached.feed.Running ring.capacity :=
        ⟨hrunning.phase, hrunning.opened, hrunning.mailbox,
          ⟨ring, hring, hsame ▸ hwell, Nat.le_refl _, hsame ▸ hceiling⟩, hrunning.rate_pos⟩
      obtain ⟨grown, hgrown, -, hlarger, -⟩ := (running_performAll hfloor hlater).ring
      exact ⟨grown, hgrown, hlarger⟩
    · rw [hstopped.ring] at hring
      cases hring
  · intro launch memory hfails
    by_cases hphase : reached.feed.phase = .ready
    · rw [start_of_ready launch memory hphase] at hfails
      exact (hfails rfl).elim
    · rcases start_cases launch memory hphase with ⟨fault, -, hstart⟩ | ⟨ring, -, hstart⟩
      · exact ⟨fault, hstart⟩
      · rw [hstart] at hfails
        exact (hfails rfl).elim

/-- The law at work on a ring for two frames: a painter and a host give up, a push makes the
ring grow to its ceiling of three, and a ring beyond any allocation cannot be had. -/
theorem coupled_performAll_of_small_ring :
    let settings : Settings :=
      { audioCapacity := 2, audioCeiling := 3, audioBatch := 1, batchesPerFrame := 1 }
    let huge : Settings :=
      { settings with audioCapacity := maxAllocation, audioCeiling := maxAllocation }
    let fresh (settings : Settings) : Session Unit := unstarted settings false
    let host : Host Unit :=
      { returns := fun _ _ => false, level := fun _ _ _ => 0, guiVisible := fun _ => false
        feeds := fun _ _ => [] }
    let ops : List (Op Unit) :=
      [.start {}, .produce (.paint ⟨1, 1, 4⟩ (Painter.tile #[7] false)), .produce .signal,
        .register .video (), .frame host]
    let later : List (Op Unit) := [.start {}, .produce (.push [1, -1, 2, -2, 3, -3] 3)]
    create settings false = .done (fresh settings) ∧ (∀ op ∈ later, op ≠ .teardown) ∧
      (∃ reached ring grown, reached = ((fresh settings).performAll ops).2 ∧
        reached.Coupled settings ∧ reached.feed.ring = some ring ∧ ring.capacity = 2 ∧
        (reached.performAll later).2.feed.ring = some grown ∧ ring.capacity ≤ grown.capacity ∧
        (reached.performAll later).2.feed.capacity = 3) ∧
      create huge false = .done (fresh huge) ∧ ((fresh huge).start {}).1 ≠ .done () ∧
      ∃ fault, (fresh huge).start {} = (.refused fault, fresh huge) := by
  intro settings huge fresh host ops later
  have hcreate : create settings false = .done (fresh settings) := rfl
  have hhuge : create huge false = .done (fresh huge) := by
    have hvalid : huge.fault? = none := by decide +kernel
    simp only [create, Settings.validate, hvalid]
    rfl
  have hlater : ∀ op ∈ later, op ≠ .teardown := by simp [later]
  have hfails : ((fresh huge).start {}).1 ≠ .done () := by decide +kernel
  obtain ⟨hcoupled, hgrows, -⟩ := coupled_performAll hcreate ops
  obtain ⟨-, -, hunchanged⟩ := coupled_performAll hhuge []
  obtain ⟨ring, hring⟩ : ∃ ring, ((fresh settings).performAll ops).2.feed.ring = some ring := by
    rw [← Option.isSome_iff_exists]
    decide +kernel
  have htwo : ring.capacity = 2 := by
    have hcapacity : ((fresh settings).performAll ops).2.feed.capacity = 2 := by decide +kernel
    rw [Feed.capacity, hring] at hcapacity
    exact hcapacity
  obtain ⟨grown, hgrown, hlarger⟩ := hgrows later hlater ring hring
  have hthree : (((fresh settings).performAll ops).2.performAll later).2.feed.capacity = 3 := by
    decide +kernel
  exact ⟨hcreate, hlater, ⟨_, ring, grown, rfl, hcoupled, hring, htwo, hgrown, hlarger, hthree⟩,
    hhuge, hfails, hunchanged {} .ample hfails⟩

end Session

end Framestep
