import Framestep.Proofs.Session.Coupling

/-!
# Sessions that are started again

A session that was torn down differs from a new one in its phase, its sample rate, its
tracker, its launch and the size of its last picture, and in nothing that a start does
not set: the teardown has taken the events and the samples of the last frame away.
`Session.Alike` relates two sessions that are not running and agree in the rest; every
operation but a start keeps them alike, and a start makes them equal.

The main statement, `Session.restart_eq_fresh`, compares two runs: one with any history
and a teardown in front, and one without.  From the start on they answer every operation
alike and make the same calls.
-/

namespace Framestep

variable {κ : Type}

/-- A machine carries out all its operations on a feed that is not running. -/
theorem Feed.complete_of_stopped {feed : Feed} (h : feed.Stopped) (ops : List Op) :
    (feed.performAll ops).complete = true := by
  induction ops generalizing feed with
  | nil => rfl
  | cons op ops ih =>
      obtain ⟨hnext, hanswer⟩ := stopped_perform h op
      cases hperform : feed.perform op with
      | mk answer next =>
          rw [hperform] at hnext hanswer
          simp only [performAll, hperform]
          cases answer with
          | aborted => exact (hanswer rfl).elim
          | done value => exact ih hnext
          | refused fault => exact ih hnext

namespace Session

/-! ## Sessions that a start makes equal -/

/-- A session that is not running, in which no frame has left anything. -/
structure Spent (session : Session κ) : Prop where
  stopped : session.feed.Stopped
  events : session.events = []
  scratch : session.scratch = []

/-- Two sessions that are not running, with the same settings and the same callbacks. -/
structure Alike (first second : Session κ) : Prop extends SameWiring first second where
  firstSpent : first.Spent
  secondSpent : second.Spent

variable {first second : Session κ}

theorem spent_perform {session : Session κ} (h : session.Spent) {op : Op κ}
    (hop : ∀ launch memory, op ≠ .start launch memory) : (session.perform op).session.Spent := by
  have hstopped := stopped_perform h.stopped hop
  cases op with
  | start launch memory => exact (hop launch memory rfl).elim
  | teardown => exact ⟨hstopped, rfl, rfl⟩
  | frame host =>
      simp only [perform, frame_of_not_ready host h.stopped.phase]
      exact h
  | attachMachine startup =>
      obtain ⟨outcome, sink, hattached⟩ := session.exists_attachMachine startup
      simp only [perform, hattached] at hstopped ⊢
      exact ⟨hstopped, h.events, h.scratch⟩
  | _ => exact ⟨hstopped, h.events, h.scratch⟩

theorem alike_of_wiring {first' second' : Session κ} (h : Alike first second)
    (hfirst : first.SameWiring first') (hsecond : second.SameWiring second')
    (hfirstSpent : first'.Spent) (hsecondSpent : second'.Spent) : Alike first' second' :=
  ⟨(hfirst.symm.trans h.toSameWiring).trans hsecond, hfirstSpent, hsecondSpent⟩

/-- Operations other than a start keep two sessions alike, whatever they answer. -/
theorem alike_perform (h : Alike first second) {op : Op κ}
    (hop : ∀ launch memory, op ≠ .start launch memory) :
    Alike (first.perform op).session (second.perform op).session := by
  have hfirst := spent_perform h.firstSpent hop
  have hsecond := spent_perform h.secondSpent hop
  obtain ⟨⟨⟨hsettings, hasks, hcontrols, hmode, hceiling⟩, hregistry, hsink⟩, -, -⟩ := id h
  cases op with
  | start launch memory => exact (hop launch memory rfl).elim
  | teardown =>
      exact ⟨⟨⟨hsettings, hasks, hcontrols, hmode, hceiling⟩, rfl, rfl⟩, hfirst, hsecond⟩
  | frame host =>
      exact alike_of_wiring h (first.sameWiring_frame host) (second.sameWiring_frame host)
        hfirst hsecond
  | register channel who =>
      have hsame : second.registry.register channel who = first.registry.register channel who := by
        rw [hregistry]
      exact ⟨⟨⟨hsettings, hasks, hcontrols, hmode, hceiling⟩, hsame, hsink⟩, hfirst, hsecond⟩
  | unregisterAll =>
      exact ⟨⟨⟨hsettings, hasks, hcontrols, hmode, hceiling⟩, rfl, hsink⟩, hfirst, hsecond⟩
  | attach sink =>
      exact ⟨⟨⟨hsettings, hasks, hcontrols, hmode, hceiling⟩, hregistry, rfl⟩, hfirst, hsecond⟩
  | attachMachine startup =>
      have hkept : (second.feed.performAll startup.feeds).feed.ceiling =
          (first.feed.performAll startup.feeds).feed.ceiling := by
        rw [(second.feed.leads_performAll startup.feeds).ceiling,
          (first.feed.leads_performAll startup.feeds).ceiling, hceiling]
      simp only [perform, attachMachine, Feed.complete_of_stopped h.firstSpent.stopped,
        Feed.complete_of_stopped h.secondSpent.stopped, if_true] at hfirst hsecond ⊢
      cases hresult : startup.result with
      | error text =>
          rw [hresult] at hfirst hsecond
          exact ⟨⟨⟨hsettings, hasks, hcontrols, hmode, hkept⟩, hregistry, hsink⟩, hfirst, hsecond⟩
      | ok sink =>
          rw [hresult] at hfirst hsecond
          exact ⟨⟨⟨hsettings, hasks, hcontrols, hmode, hkept⟩, hregistry, rfl⟩, hfirst, hsecond⟩
  | produce op =>
      have hkept : (second.feed.perform op).2.ceiling = (first.feed.perform op).2.ceiling := by
        rw [second.feed.ceiling_perform, first.feed.ceiling_perform, hceiling]
      exact ⟨⟨⟨hsettings, hasks, hcontrols, hmode, hkept⟩, hregistry, hsink⟩, hfirst, hsecond⟩

theorem alike_performAll (h : Alike first second) {ops : List (Op κ)}
    (hops : ∀ launch memory, .start launch memory ∉ ops) :
    Alike (first.performAll ops).2 (second.performAll ops).2 := by
  induction ops generalizing first second with
  | nil => exact h
  | cons op ops ih =>
      have hop (launch : Launch) (memory : Memory) : op ≠ .start launch memory := by
        intro hstart
        exact hops launch memory (hstart ▸ List.mem_cons_self ..)
      exact ih (alike_perform h hop) fun launch memory hlater =>
        hops launch memory (List.mem_cons_of_mem _ hlater)

/-- Two sessions that are alike differ in nothing that a start leaves as it was. -/
theorem started_eq (h : Alike first second) (launch : Launch) (ring : Ring) :
    first.started launch ring = second.started launch ring := by
  simp only [started, Tracker.reset, h.settings, h.asksGui, h.registry, h.sink, h.controls,
    h.mode, h.ceiling, h.firstSpent.stopped.mailbox, h.secondSpent.stopped.mailbox,
    h.firstSpent.events, h.secondSpent.events, h.firstSpent.scratch, h.secondSpent.scratch]

theorem start_eq (h : Alike first second) (launch : Launch) (memory : Memory)
    (hstart : (first.start launch memory).1 = .done ()) :
    first.start launch memory = second.start launch memory := by
  rcases start_cases launch memory h.firstSpent.stopped.phase with
    ⟨fault, -, hfirst⟩ | ⟨ring, hring, hfirst⟩
  · rw [hfirst] at hstart
    cases hstart
  · rcases start_cases launch memory h.secondSpent.stopped.phase with
      ⟨fault, hfault, -⟩ | ⟨same, hsame, hsecond⟩
    · rw [h.settings, hring] at hfault
      cases hfault
    · rw [h.settings, hring, Outcome.done.injEq] at hsame
      rw [hfirst, hsecond, ← hsame, started_eq h]

/-! ## Two runs -/

/-- Nothing is left in a session of what was before its start. -/
structure Blank (settings : Settings) (session : Session κ) : Prop where
  ring : ∃ ring, session.feed.ring = some ring ∧ ring.toFrames = []
  mailbox : session.feed.mailbox = Mailbox.shut.reopen
  rate : session.feed.rate = settings.sampleRate
  tracker : session.tracker = Tracker.create settings.controls settings.pointer
  lastSize : session.lastSize = none
  events : session.events = []
  scratch : session.scratch = []

theorem blank_of_start {settings : Settings} {asksGui : Bool} {session : Session κ}
    (hmakeup : (unstarted settings asksGui).SameMakeup session) (hspent : session.Spent)
    {launch : Launch} {memory : Memory} (hstart : (session.start launch memory).1 = .done ()) :
    (session.start launch memory).2.Blank settings := by
  rcases start_cases launch memory hspent.stopped.phase with
    ⟨fault, -, hfails⟩ | ⟨ring, hring, hstarted⟩
  · rw [hfails] at hstart
    cases hstart
  · rw [hstarted]
    constructor
    case ring => exact ⟨ring, rfl, Ring.toFrames_of_create hring⟩
    case mailbox => rw [← hspent.stopped.mailbox]; rfl
    case rate => exact congrArg Settings.sampleRate hmakeup.settings
    case tracker =>
      simp only [started, Tracker.reset, hmakeup.controls, hmakeup.mode]
      rfl
    case lastSize => rfl
    case events => exact hspent.events
    case scratch => exact hspent.scratch

/-- A session that has been torn down is, from the next start on, the session that it
would have been without its history. -/
theorem restart_eq_fresh {settings : Settings} {asksGui : Bool} {session : Session κ}
    (hcreate : create settings asksGui = .done session) (history between : List (Op κ))
    (hbetween : ∀ launch memory, .start launch memory ∉ between) {launch : Launch}
    {memory : Memory}
    (hstart : ((session.performAll (history ++ .teardown :: between)).2.start launch memory).1 =
      .done ()) (continuation : List (Op κ)) :
    let restarted := (session.performAll (history ++ .teardown :: between)).2
    let fresh := (session.performAll between).2
    restarted.performAll (.start launch memory :: continuation) =
        fresh.performAll (.start launch memory :: continuation) ∧
      (restarted.start launch memory).2.Blank settings := by
  intro restarted fresh
  obtain ⟨hvalid, rfl⟩ := create_eq_done hcreate
  have hmakeup := sameMakeup_performAll (unstarted settings asksGui) history
  have hrate := (inOrder_performAll (inOrder_unstarted hvalid asksGui) history).rate_pos
  have htorn : Alike ((unstarted settings asksGui).performAll history).2.teardown
      (unstarted settings asksGui) := by
    have hwiring : (unstarted settings asksGui).SameWiring
        ((unstarted settings asksGui).performAll history).2.teardown :=
      ⟨⟨hmakeup.settings, hmakeup.asksGui, hmakeup.controls, hmakeup.mode, hmakeup.ceiling⟩,
        rfl, rfl⟩
    exact ⟨hwiring.symm, ⟨⟨nofun, rfl, rfl, hrate⟩, rfl, rfl⟩,
      ⟨stopped_unstarted hvalid asksGui, rfl, rfl⟩⟩
  have hrestarted : restarted =
      (((unstarted settings asksGui).performAll history).2.teardown.performAll between).2 :=
    performAll_append _ history (.teardown :: between)
  have halike : Alike restarted fresh := by
    rw [hrestarted]
    exact alike_performAll htorn hbetween
  refine ⟨?_, ?_⟩
  · have hstarts := start_eq halike launch memory hstart
    simp only [performAll, perform, hstarts]
  · exact blank_of_start (sameMakeup_performAll _ _) halike.firstSpent hstart

/-- The law at work on a history that leaves much behind: a key held down, a queued frame, a
sample rate, and a picture whose callback did not come back. -/
theorem restart_eq_fresh_of_held_key :
    let settings : Settings :=
      { audioCapacity := 2, audioCeiling := 3, audioBatch := 1, batchesPerFrame := 1
        controls := Controls.keyboardAndMouse, pointer := .directional 4 }
    let session : Session Unit := unstarted settings false
    let host (shows : Bool) : Host Unit :=
      { returns := fun _ call => match call with | .video _ _ => shows | _ => true
        level := fun _ _ _ => 1, guiVisible := fun _ => false, feeds := fun _ _ => [] }
    let history : List (Op Unit) :=
      [.start {}, .register .level (), .register .video (), .attach (),
        .produce (.push [1, -1] 1), .produce (.setRate 22050),
        .produce (.submit ⟨1, 1, 4⟩ #[1, 2, 3, 4]), .frame (host false)]
    let between : List (Op Unit) :=
      [.produce .signal, .teardown, .register .level (), .attach (), .register .batch ()]
    let continuation : List (Op Unit) :=
      [.produce (.push [5, -5] 1), .frame (host true)]
    create settings false = .done session ∧ (∀ launch memory, .start launch memory ∉ between) ∧
      ∃ restarted fresh,
        restarted = (session.performAll (history ++ .teardown :: between)).2 ∧
        fresh = (session.performAll between).2 ∧ (restarted.start {}).1 = .done () ∧
        restarted.performAll (.start {} :: continuation) =
          fresh.performAll (.start {} :: continuation) ∧
        (restarted.start {}).2.Blank settings := by
  intro settings session host history between continuation
  have hcreate : create settings false = .done session := rfl
  have hbetween : ∀ launch memory, .start launch memory ∉ between := by simp [between]
  have hstart : ((session.performAll (history ++ .teardown :: between)).2.start {}).1 =
      .done () := by decide +kernel
  obtain ⟨hsame, hblank⟩ := restart_eq_fresh hcreate history between hbetween hstart continuation
  exact ⟨hcreate, hbetween, _, _, rfl, rfl, hstart, hsame, hblank⟩

end Session

end Framestep
