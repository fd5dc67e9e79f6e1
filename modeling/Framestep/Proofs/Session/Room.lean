import Framestep.Proofs.Audio.Queue
import Framestep.Proofs.Session.Coupling

/-!
# Room for a push

A push of more frames than the whole ring holds makes the ring grow, and that happens before
its samples are counted.  `Ring.Outgrown` says which pushes do so, and `Feed.view_makeRoom`
what becomes of the ring: its frames stay, and its capacity is then that of the queued and
the declared frames together, up to the ceiling.

A push that is refused because its samples are too few has therefore an effect that can be
observed.  The main statement, `Session.refusedPush_keepsRing_iff`, says when, and that it is
the only one.
-/

namespace Framestep

variable {κ : Type}

/-! ## Growth -/

/-- A push of so many frames makes the ring grow: the whole ring does not hold them, the
ceiling is not reached, and the memory is there for the larger arena. -/
def Ring.Outgrown (ring : Ring) (frames ceiling : Nat) (memory : Memory) : Prop :=
  ring.capacity < frames ∧ ring.capacity < ceiling ∧
    4 * min (ring.occupied + frames) ceiling ≤ memory.limit

instance (ring : Ring) (frames ceiling : Nat) (memory : Memory) :
    Decidable (ring.Outgrown frames ceiling memory) :=
  inferInstanceAs (Decidable (_ ∧ _ ∧ _))

/-- The queue of a ring that has been given room for a push. -/
def Ring.roomy (ring : Ring) (frames ceiling : Nat) (memory : Memory) : FrameQueue :=
  { frames := ring.toFrames
    capacity :=
      if ring.Outgrown frames ceiling memory then min (ring.occupied + frames) ceiling
      else ring.capacity }

theorem Ring.roomy_eq_view_iff (ring : Ring) (frames ceiling : Nat) (memory : Memory) :
    ring.roomy frames ceiling memory = ring.view ↔ ¬ ring.Outgrown frames ceiling memory := by
  unfold roomy view
  split
  · next hgrown =>
      obtain ⟨hlarge, hceiling, -⟩ := id hgrown
      have hother : min (ring.occupied + frames) ceiling ≠ ring.capacity := by omega
      simp [hgrown, hother]
  · next hkept => simp [hkept]

theorem Outcome.map_eq_refused_iff {α β : Type} {f : α → β} {outcome : Outcome α}
    {fault : Fault} : outcome.map f = .refused fault ↔ outcome = .refused fault := by
  cases outcome <;> simp [Outcome.map]

namespace Feed

/-- Making room keeps the queued frames, and changes the capacity only for a push that the
ring is too small for. -/
theorem view_makeRoom {ring : Ring} (hring : ring.WellFormed) {frames : Nat}
    (hframes : 2 * frames < wordCount) (ceiling : Nat) (memory : Memory) :
    (makeRoom ring frames ceiling memory).2.view = ring.roomy frames ceiling memory := by
  have hoccupied := hring.occupied_le
  have hmaxWord : maxWord = 2 ^ 64 - 1 := rfl
  have hwordCount : wordCount = 2 ^ 64 := rfl
  unfold makeRoom Ring.roomy
  by_cases hlarge : ring.capacity < frames ∧ ring.capacity < ceiling
  · -- What is queued is less than what is declared, so their sum is still a word.
    have hsum : saturatingAdd ring.occupied frames = ring.occupied + frames := by
      rw [saturatingAdd]
      omega
    have hlarger : ring.capacity < min (ring.occupied + frames) ceiling := by omega
    rw [if_pos hlarge, hsum, Ring.growTo_eq hring, if_neg (Nat.not_le.mpr hlarger)]
    by_cases hbytes : memory.limit < 4 * min (ring.occupied + frames) ceiling
    · have hkept : ¬ ring.Outgrown frames ceiling memory := fun h => Nat.not_le.mpr hbytes h.2.2
      rw [if_pos hbytes, if_neg hkept]
      rfl
    · have hgrown : ring.Outgrown frames ceiling memory :=
        ⟨hlarge.1, hlarge.2, Nat.le_of_not_lt hbytes⟩
      rw [if_neg hbytes, if_pos hgrown, Ring.view, Ring.toFrames_moved hring hlarger]
      rfl
  · have hkept : ¬ ring.Outgrown frames ceiling memory := fun h => hlarge ⟨h.1, h.2.1⟩
    rw [if_neg hlarge, if_neg hkept]
    rfl

/-! ## Refused pushes -/

/-- The frames that an operation declares and the memory that it finds, if it is a push. -/
def Op.declared? : Op → Option (Nat × Memory)
  | .push _ frames memory => some (frames, memory)
  | .pushBlock block channels memory => some (block.streamFrames channels, memory)
  | _ => none

variable {feed : Feed} {ring : Ring} {frames : Nat} {memory : Memory} {fault : Fault}

/-- The ring of a running session refuses a push for want of samples only, when room has
already been made for it. -/
theorem push_refused (hfeed : feed.ring = some ring) (hring : ring.WellFormed)
    {samples : List Int16} (hrefused : (feed.push samples frames memory).1 = .refused fault) :
    samples.length < 2 * frames ∧ fault = .shortSamples frames samples.length ∧
      (feed.push samples frames memory).2 =
        { feed with ring := some (makeRoom ring frames feed.ceiling memory).2 } := by
  obtain ⟨-, hroom, -⟩ := makeRoom_keeps hring frames feed.ceiling memory
  simp only [push_eq hfeed hring, Ring.push_eq hroom] at hrefused ⊢
  split at hrefused
  · cases hrefused
  · next hword =>
      split at hrefused
      · next hshort =>
          rw [if_neg hword, if_pos hshort]
          exact ⟨hshort, (Outcome.refused.inj hrefused).symm, rfl⟩
      · cases hrefused

/-- A block always comes with its samples, so only a push that declares its frames itself is
refused while there is a ring. -/
theorem perform_refused (hfeed : feed.ring = some ring) (hring : ring.WellFormed) {op : Op}
    (hpush : op.declared? = some (frames, memory))
    (hrefused : (feed.perform op).1 = .refused fault) :
    (∃ samples, op = .push samples frames memory ∧ samples.length < 2 * frames ∧
      fault = .shortSamples frames samples.length) ∧
      (feed.perform op).2 =
        { feed with ring := some (makeRoom ring frames feed.ceiling memory).2 } := by
  cases op with
  | push samples declared found =>
      obtain ⟨rfl, rfl⟩ : declared = frames ∧ found = memory := by
        simpa only [Op.declared?, Option.some.injEq, Prod.mk.injEq] using hpush
      obtain ⟨hshort, hfault, hlater⟩ :=
        push_refused hfeed hring (Outcome.map_eq_refused_iff.mp hrefused)
      exact ⟨⟨samples, rfl, hshort, hfault⟩, hlater⟩
  | pushBlock block channels found =>
      have hpushed : (feed.push (block.stereo channels) (block.streamFrames channels) found).1 =
          .refused fault := Outcome.map_eq_refused_iff.mp hrefused
      obtain ⟨hshort, -⟩ := push_refused hfeed hring hpushed
      rw [block.length_stereo channels] at hshort
      exact (Nat.lt_irrefl _ hshort).elim
  | _ => cases hpush

theorem perform_push_of_none (hfeed : feed.ring = none) {op : Op}
    (hpush : op.declared? = some (frames, memory)) :
    feed.perform op = (.refused .notReady, feed) := by
  cases op with
  | push samples declared found => simp only [perform, push, hfeed, Outcome.map]
  | pushBlock block channels found => simp only [perform, pushBlock, push, hfeed, Outcome.map]
  | _ => cases hpush

end Feed

namespace Session

/-- A refused push in a session that can be reached changes the ring alone and keeps its
frames.  It leaves the ring as it was if and only if the declared frames do not outgrow it;
otherwise the ring has grown for a push that never came. -/
theorem refusedPush_keepsRing_iff {settings : Settings} {asksGui : Bool} {session : Session κ}
    (hcreate : create settings asksGui = .done session) (ops : List (Op κ)) {op : Feed.Op}
    {frames : Nat} {memory : Memory} {fault : Fault}
    (hpush : op.declared? = some (frames, memory))
    (hframes : 2 * frames < wordCount)
    (hrefused : ((session.performAll ops).2.feed.perform op).1 = .refused fault) :
    let feed := (session.performAll ops).2.feed
    let later := (feed.perform op).2
    (feed.ring = none ∧ fault = .notReady ∨
        ∃ samples, op = .push samples frames memory ∧ samples.length < 2 * frames ∧
          fault = .shortSamples frames samples.length) ∧
      later = { feed with ring := later.ring } ∧
      later.ring.map Ring.view =
        feed.ring.map (fun ring => ring.roomy frames settings.audioCeiling memory) ∧
      (later.ring.map Ring.view = feed.ring.map Ring.view ↔
        ∀ ring, feed.ring = some ring →
          ¬ ring.Outgrown frames settings.audioCeiling memory) := by
  intro feed later
  have hceiling : feed.ceiling = settings.audioCeiling := ceiling_of_create hcreate ops
  rcases (inOrder_of_create hcreate ops).feed with hrunning | hstopped
  · obtain ⟨ring, hring, hwell, -⟩ := hrunning.ring
    have hring : feed.ring = some ring := hring
    obtain ⟨hcause, hlater⟩ := Feed.perform_refused hring hwell hpush hrefused
    have hlater : later =
        { feed with ring := some (Feed.makeRoom ring frames feed.ceiling memory).2 } := hlater
    have hview : later.ring.map Ring.view =
        feed.ring.map fun ring => ring.roomy frames settings.audioCeiling memory := by
      rw [hlater, hring, hceiling, Option.map_some, Option.map_some,
        Feed.view_makeRoom hwell hframes]
    refine ⟨.inr hcause, by rw [hlater], hview, ?_⟩
    rw [hview, hring]
    simp [Ring.roomy_eq_view_iff]
  · have hring : feed.ring = none := hstopped.ring
    have hperform := Feed.perform_push_of_none hring hpush
    have hlater : later = feed := congrArg Prod.snd hperform
    have hfault : fault = .notReady := by
      have hsame := hrefused.symm.trans (congrArg Prod.fst hperform)
      exact Outcome.refused.inj hsame
    rw [hlater, hring]
    exact ⟨.inl ⟨rfl, hfault⟩, by rw [← hring], rfl, by simp⟩

/-- The law at work on a ring for two frames that holds one: a push that declares four frames
and brings one is refused, and the ring holds five from then on. -/
theorem refusedPush_keepsRing_iff_of_one_queued :
    let settings : Settings := { audioCapacity := 2, audioCeiling := 8, audioBatch := 1 }
    let session : Session Unit := unstarted settings false
    let ops : List (Op Unit) := [.start {}, .produce (.push [1, -1] 1)]
    let op : Feed.Op := .push [5, -5] 4
    create settings false = .done session ∧ op.declared? = some (4, .ample) ∧
      2 * 4 < wordCount ∧
      ∃ feed, feed = (session.performAll ops).2.feed ∧
        (feed.perform op).1 = .refused (.shortSamples 4 2) ∧
        feed.ring.map Ring.view = some ⟨[(1, -1)], 2⟩ ∧
        (feed.perform op).2.ring.map Ring.view = some ⟨[(1, -1)], 5⟩ ∧
        ¬ ∀ ring, feed.ring = some ring → ¬ ring.Outgrown 4 settings.audioCeiling .ample := by
  intro settings session ops op
  have hcreate : create settings false = .done session := rfl
  have hframes : 2 * 4 < wordCount := by decide
  have hrefused : ((session.performAll ops).2.feed.perform op).1 =
      .refused (.shortSamples 4 2) := by decide +kernel
  have hbefore : (session.performAll ops).2.feed.ring.map Ring.view = some ⟨[(1, -1)], 2⟩ := by
    decide +kernel
  have hafter : ((session.performAll ops).2.feed.perform op).2.ring.map Ring.view =
      some ⟨[(1, -1)], 5⟩ := by decide +kernel
  obtain ⟨-, -, -, hkeeps⟩ := refusedPush_keepsRing_iff hcreate ops rfl hframes hrefused
  refine ⟨hcreate, rfl, hframes, _, rfl, hrefused, hbefore, hafter, ?_⟩
  intro hnone
  have hequal := hbefore.symm.trans ((hkeeps.mpr hnone).symm.trans hafter)
  exact absurd hequal (by decide)

/-- A refused push makes an empty ring for two frames grow to four. -/
theorem refusedPush_grows :
    ¬ ∀ (settings : Settings) (session : Session Unit) (ops : List (Op Unit))
        (samples : List Int16) (frames : Nat) (fault : Fault),
      create settings false = .done session → 2 * frames < wordCount →
        ((session.performAll ops).2.feed.push samples frames).1 = .refused fault →
          ((session.performAll ops).2.feed.push samples frames).2.ring.map Ring.view =
            (session.performAll ops).2.feed.ring.map Ring.view := by
  intro hatomic
  have hsame := hatomic { audioCapacity := 2, audioCeiling := 8, audioBatch := 1 }
    (unstarted _ false) [.start {}] [1, 2] 4 (.shortSamples 4 2) rfl (by decide)
    (by decide +kernel)
  exact absurd hsame (by decide +kernel)

end Session

end Framestep
