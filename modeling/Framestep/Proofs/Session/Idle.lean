import Framestep.Proofs.Session.Restart
import Framestep.Proofs.Session.Room

/-!
# Sessions that are not running

A machine that holds the feed of a session which is not running can change its sample rate
and nothing else, by `Feed.perform_of_stopped`.  `Session.produce_changes_rate` says so of
every session that can be reached.

A session that is not running was created before, and `Session.create_cases` says how that
can end and how a later start can.  Contradictory settings are refused, and a start fails
only for want of a ring; but a batch beyond one allocation stops the creation, although
nothing is wrong with such settings by themselves.
-/

namespace Framestep

variable {κ : Type}

/-! ## The feed of a session that is not running -/

namespace Feed

/-- The sample rate after an operation. -/
def Op.rateAfter (rate : Nat) : Op → Nat
  | .setRate new => if 0 < new then new else rate
  | _ => rate

variable {feed : Feed}

/-- Nothing but the sample rate is changed, by whatever operation. -/
theorem perform_of_stopped (h : feed.Stopped) (op : Op) :
    (feed.perform op).2 = { feed with rate := op.rateAfter feed.rate } := by
  cases op with
  | submit layout pixels memory =>
      obtain ⟨fault, hrefused⟩ := Mailbox.submit_shut layout pixels memory
      simp only [perform, submit, h.mailbox, hrefused, Op.rateAfter]
  | paint layout painter memory =>
      obtain ⟨fault, hrefused⟩ := Mailbox.paint_shut layout memory
      simp only [perform, paint, h.mailbox, hrefused painter, Op.rateAfter]
  | signal =>
      have hsame : Mailbox.shut.signal = .shut := rfl
      simp only [perform, signal, h.mailbox, hsame, Op.rateAfter]
  | push samples frames memory =>
      rw [perform_push_of_none h.ring rfl]
      rfl
  | pushBlock block channels memory =>
      rw [perform_push_of_none h.ring rfl]
      rfl
  | setRate rate =>
      simp only [perform, setRate, Op.rateAfter]
      split <;> rfl
  | status => rfl

/-- Whatever the painter would draw, it is not let to the storage. -/
theorem perform_paint_of_stopped (h : feed.Stopped) (layout : Layout) (memory : Memory) :
    ∃ fault, ∀ painter,
      feed.perform (.paint layout painter memory) = (.refused fault, feed) := by
  obtain ⟨fault, hrefused⟩ := Mailbox.paint_shut layout memory
  refine ⟨fault, fun painter => ?_⟩
  have hanswer : (feed.perform (.paint layout painter memory)).1 = .refused fault := by
    simp only [perform, paint, h.mailbox, hrefused painter, Outcome.map]
  exact Prod.ext hanswer (perform_of_stopped h (.paint layout painter memory))

end Feed

/-! ## What a machine can do while its session is not running -/

namespace Session

variable {session : Session κ}

/-- In a session that can be reached and is not running, an operation of the machine changes
nothing but the sample rate, and that one only if it sets it to another one.  No painter is
let to the storage. -/
theorem produce_changes_rate {settings : Settings} {asksGui : Bool}
    (hcreate : create settings asksGui = .done session) (ops : List (Op κ))
    (hidle : (session.performAll ops).2.feed.phase ≠ .ready) (op : Feed.Op) :
    let reached := (session.performAll ops).2
    (reached.produce op).2 = { reached with feed.rate := op.rateAfter reached.feed.rate } ∧
      ((reached.produce op).2 = reached ↔
        ∀ rate, op = .setRate rate → rate = 0 ∨ rate = reached.feed.rate) ∧
      ∀ layout painter memory, op = .paint layout painter memory → ∃ fault, ∀ other,
        reached.produce (.paint layout other memory) = (.refused fault, reached) := by
  intro reached
  have hstopped : reached.feed.Stopped := (inOrder_of_create hcreate ops).stopped hidle
  have hlater : (reached.produce op).2 =
      { reached with feed.rate := op.rateAfter reached.feed.rate } := by
    simp only [produce, Feed.perform_of_stopped hstopped op]
  refine ⟨hlater, ?_, ?_⟩
  · -- The session is the same one exactly if its rate is.
    have hsame : (reached.produce op).2 = reached ↔
        op.rateAfter reached.feed.rate = reached.feed.rate := by
      rw [hlater]
      exact ⟨fun h => congrArg (fun session => session.feed.rate) h, fun h => by rw [h]⟩
    rw [hsame]
    cases op with
    | setRate new =>
        by_cases hzero : new = 0
        · simp [Feed.Op.rateAfter, hzero]
        · simp [Feed.Op.rateAfter, hzero, Nat.pos_of_ne_zero hzero]
    | _ => simp [Feed.Op.rateAfter]
  · intro layout painter memory _
    obtain ⟨fault, hfault⟩ := Feed.perform_paint_of_stopped hstopped layout memory
    exact ⟨fault, fun other => by simp only [produce, hfault other]⟩

/-- The law at work on a session that was torn down with a sample rate of its own: a painter
that would give up is not called, and the rate is set nevertheless. -/
theorem produce_changes_rate_of_torn_down :
    let settings : Settings := { audioCapacity := 2, audioCeiling := 8, audioBatch := 1 }
    let session : Session Unit := unstarted settings false
    let ops : List (Op Unit) := [.start {}, .produce (.setRate 8000), .teardown]
    let painter := Painter.tile #[7] false
    create settings false = .done session ∧
      ∃ reached, reached = (session.performAll ops).2 ∧ reached.feed.phase ≠ .ready ∧
        reached.feed.rate = 8000 ∧
        (reached.produce (.setRate 22050)).2 = { reached with feed.rate := 22050 } ∧
        ∃ fault, reached.produce (.paint ⟨1, 1, 4⟩ painter) = (.refused fault, reached) := by
  intro settings session ops painter
  have hcreate : create settings false = .done session := rfl
  have hidle : (session.performAll ops).2.feed.phase ≠ .ready := by decide +kernel
  have hrate : (session.performAll ops).2.feed.rate = 8000 := by decide +kernel
  obtain ⟨hset, -, -⟩ := produce_changes_rate hcreate ops hidle (.setRate 22050)
  obtain ⟨-, -, hpaints⟩ := produce_changes_rate hcreate ops hidle (.paint ⟨1, 1, 4⟩ painter)
  obtain ⟨fault, hrefused⟩ := hpaints ⟨1, 1, 4⟩ painter .ample rfl
  exact ⟨hcreate, _, rfl, hidle, hrate, hset, fault, hrefused painter⟩

/-- The sample rate of a session that was never started can be set. -/
theorem produce_changes_unstarted :
    ¬ ∀ (settings : Settings) (session : Session Unit) (ops : List (Op Unit)) (op : Feed.Op),
      create settings false = .done session → (session.performAll ops).2.feed.phase ≠ .ready →
        ((session.performAll ops).2.produce op).2 = (session.performAll ops).2 := by
  intro hdropped
  have hsame := hdropped { audioBatch := 1 } (unstarted _ false) [] (.setRate 22050) rfl nofun
  exact absurd (congrArg (fun session => session.feed.rate) hsame) (by decide)

/-! ## Creation and start -/

/-- How a start ends hangs on the capacity of the ring and on the memory there is for it. -/
theorem outcome_start (session : Session κ) (hcapacity : 0 < session.settings.audioCapacity)
    (launch : Launch) (memory : Memory) :
    (session.start launch memory).1 =
      if session.feed.phase = .ready ∨
          4 * session.settings.audioCapacity ≤ memory.limit then
        .done ()
      else .refused (.outOfMemory (min (4 * session.settings.audioCapacity) maxWord)) := by
  have hpositive : max session.settings.audioCapacity 1 = session.settings.audioCapacity := by
    omega
  have hcreates : Ring.create session.settings.audioCapacity memory =
      if 4 * session.settings.audioCapacity ≤ memory.limit then
        .done ⟨Array.replicate (2 * session.settings.audioCapacity) 0,
          session.settings.audioCapacity, 0, 0, 0⟩
      else .refused (.outOfMemory (min (4 * session.settings.audioCapacity) maxWord)) := by
    simp only [Ring.create, hpositive, Ring.arena_eq]
    by_cases hfits : 4 * session.settings.audioCapacity ≤ memory.limit
    · rw [if_pos hfits, if_neg (Nat.not_lt.mpr hfits)]
      rfl
    · rw [if_neg hfits, if_pos (Nat.lt_of_not_le hfits)]
      rfl
  by_cases hready : session.feed.phase = .ready
  · rw [start_of_ready launch memory hready, if_pos (.inl hready)]
  · by_cases hfits : 4 * session.settings.audioCapacity ≤ memory.limit
    · rw [if_pos hfits] at hcreates
      rw [if_pos (.inr hfits)]
      rcases start_cases launch memory hready with ⟨fault, hfault, -⟩ | ⟨ring, -, hstart⟩
      · rw [hcreates] at hfault
        cases hfault
      · rw [hstart]
    · rw [if_neg hfits] at hcreates
      rw [if_neg (by simp [hready, hfits])]
      rcases start_cases launch memory hready with ⟨fault, hfault, hstart⟩ | ⟨ring, hring, -⟩
      · rw [hcreates, Outcome.refused.injEq] at hfault
        rw [hstart, ← hfault]
      · rw [hcreates] at hring
        cases hring

theorem create_of_valid {settings : Settings} (hvalid : settings.fault? = none)
    (asksGui : Bool) :
    (create settings asksGui : Outcome (Session κ)) =
      if maxAllocation < 4 * settings.audioBatch then .aborted
      else .done (unstarted settings asksGui) := by
  have hbytes : 2 * (settings.audioBatch * channelCount) = 4 * settings.audioBatch := by
    simp only [channelCount]
    omega
  simp only [create, Settings.validate, hvalid, hbytes]
  rfl

/-- How the creation of a session ends: contradictory settings are refused, a batch beyond one
allocation stops it, and otherwise there is a session.  However that is used, a start of it
succeeds or is refused for want of a ring. -/
theorem create_cases (settings : Settings) (asksGui : Bool) :
    match settings.fault? with
    | some cause =>
      (create settings asksGui : Outcome (Session κ)) = .refused (.invalidSettings cause)
    | none =>
      if maxAllocation < 4 * settings.audioBatch then
        (create settings asksGui : Outcome (Session κ)) = .aborted
      else
        ∃ session : Session κ, create settings asksGui = .done session ∧
          ∀ ops launch memory, ((session.performAll ops).2.start launch memory).1 =
            if (session.performAll ops).2.feed.phase = .ready ∨
                4 * settings.audioCapacity ≤ memory.limit then
              .done ()
            else .refused (.outOfMemory (min (4 * settings.audioCapacity) maxWord)) := by
  cases hvalid : settings.fault? with
  | some cause => simp only [create, Settings.validate, hvalid]
  | none =>
      have hcreates := create_of_valid (κ := κ) hvalid asksGui
      simp only
      split
      · next hlarge => rw [hcreates, if_pos hlarge]
      · next hfits =>
          refine ⟨unstarted settings asksGui, by rw [hcreates, if_neg hfits], ?_⟩
          intro ops launch memory
          have hsettings : ((unstarted settings asksGui).performAll ops).2.settings = settings :=
            (sameMakeup_performAll _ ops).settings
          have hcapacity := (settings.fault?_eq_none_iff.mp hvalid).1
          have houtcome := outcome_start ((unstarted settings asksGui).performAll ops).2
            (by rw [hsettings]; exact hcapacity) launch memory
          rw [hsettings] at houtcome
          exact houtcome

/-- Settings with a batch of so many frames are not contradictory, but no session comes of
them. -/
theorem create_aborts_valid :
    ¬ ∀ settings : Settings, settings.fault? = none →
      ∃ session : Session Unit, create settings false = .done session := by
  intro hcreates
  obtain ⟨session, hsession⟩ := hcreates { audioBatch := 2305843009213693952 } (by decide)
  rw [create_of_valid (by decide), if_pos (by decide)] at hsession
  cases hsession

end Session

end Framestep
