import Framestep.Proofs.Audio.Refusal

/-!
# The ring stays within its arena

An operation on a ring is aborted where one of its checks fails: an access outside the arena or
outside the samples given, two runs of different lengths, a difference below zero, a remainder by
zero, or cursors that do not agree afterwards.  `Ring.perform_aborts_iff` says that none of this
happens to a ring that can be reached.  What is left is the push whose samples a machine word
cannot count, which never gets as far as the ring.

The cursors are sums of numbers up to twice the capacity.  That these stay far below the end of a
machine word is what `Reached.arena_le` is for.
-/

namespace Framestep

/-- Whether an operation was stopped by one of its checks. -/
def Outcome.isAborted {α : Type} : Outcome α → Bool
  | aborted => true
  | _ => false

namespace Ring

def Answer.isAborted : Answer → Bool
  | pushed outcome => outcome.isAborted
  | drained outcome => outcome.isAborted
  | moved outcome _ => outcome.isAborted
  | grown outcome => outcome.isAborted
  | cleared => false

variable {ring : Ring}

/-- Only growth changes the capacity, and then to that of an arena that can be had. -/
theorem capacity_perform (hring : ring.WellFormed) (op : Op) :
    (ring.perform op).2.capacity = ring.capacity ∨
      ∃ frames memory, op = .growTo frames memory ∧ 4 * frames ≤ memory.limit ∧
        (ring.perform op).2.capacity = frames := by
  cases op with
  | push samples frames =>
      refine .inl ?_
      simp only [perform, push_eq hring]
      split
      · rfl
      · split <;> rfl
  | drain limit =>
      refine .inl ?_
      simp only [perform, drain_eq hring]
      rfl
  | drainTo stream limit =>
      refine .inl ?_
      simp only [perform, drainTo_eq hring]
      rfl
  | growTo frames memory =>
      simp only [perform, growTo_eq hring]
      by_cases hsmall : frames ≤ ring.capacity
      · exact .inl (by rw [if_pos hsmall])
      · by_cases hbytes : memory.limit < 4 * frames
        · exact .inl (by rw [if_neg hsmall, if_pos hbytes])
        · refine .inr ⟨frames, memory, rfl, Nat.le_of_not_lt hbytes, ?_⟩
          rw [if_neg hsmall, if_neg hbytes]
          rfl
  | clear => exact .inl rfl

theorem Reached.capacity_le (h : ring.Reached) : 4 * ring.capacity ≤ maxAllocation := by
  induction h with
  | @created requested memory ring hcreate =>
      rw [capacity_of_create hcreate]
      -- Where the arena cannot be had, no ring is created.
      by_contra hbytes
      have hdenied : memory.limit < 4 * max requested 1 :=
        Nat.lt_of_le_of_lt memory.limit_le (Nat.lt_of_not_le hbytes)
      simp [create, arena_eq, hdenied, Outcome.map] at hcreate
  | performed hring op ih =>
      rcases capacity_perform hring.wellFormed op with hkept | ⟨frames, memory, -, hbytes, hgrown⟩
      · rwa [hkept]
      · rw [hgrown]
        exact hbytes.trans memory.limit_le

theorem Reached.inTurn (h : ring.Reached) (ops : List Op) :
    (inTurn perform ring ops).2.Reached := by
  induction ops generalizing ring with
  | nil => exact h
  | cons op ops ih => exact ih (h.performed op)

/-- The two bytes of each sample were allocated together. -/
theorem Reached.arena_le (h : ring.Reached) : 2 * ring.storage.size ≤ maxAllocation := by
  have hcapacity := h.capacity_le
  rw [h.wellFormed.storage_size]
  simp only [channelCount]
  omega

/-- A ring in order passes every check of every operation. -/
theorem isAborted_perform (hring : ring.WellFormed) (op : Op) :
    (ring.perform op).1.isAborted = true ↔ ¬ op.Countable := by
  cases op with
  | push samples frames =>
      simp only [perform, push_eq hring, Op.Countable, Answer.isAborted]
      by_cases hword : wordCount ≤ 2 * frames
      · simp [hword, Outcome.isAborted]
      · by_cases hshort : samples.length < 2 * frames
        · simp [hword, hshort, Outcome.isAborted]
        · simp [hword, hshort, Outcome.isAborted]
  | drain limit => simp [perform, drain_eq hring, Op.Countable, Answer.isAborted, Outcome.isAborted]
  | drainTo stream limit =>
      simp [perform, drainTo_eq hring, Op.Countable, Answer.isAborted, Outcome.isAborted]
  | growTo frames memory =>
      simp only [perform, growTo_eq hring, Op.Countable, Answer.isAborted]
      by_cases hsmall : frames ≤ ring.capacity
      · simp [hsmall, Outcome.isAborted]
      · by_cases hbytes : memory.limit < 4 * frames
        · simp [hsmall, hbytes, Outcome.isAborted]
        · simp [hsmall, hbytes, Outcome.isAborted]
  | clear => simp [perform, Op.Countable, Answer.isAborted]

/-- A ring that can be reached is in order, and no operation on it fails a check: the only one that
is stopped is the push whose samples a machine word cannot count.  The room left is a difference
of its own and does not go below zero either. -/
theorem perform_aborts_iff (hring : ring.Reached) :
    ring.WellFormed ∧ ring.headroom + ring.occupied = ring.capacity ∧
      2 * ring.storage.size ≤ maxAllocation ∧
      ∀ op, (ring.perform op).1.isAborted = true ↔ ¬ op.Countable := by
  have hwell := hring.wellFormed
  have hroom : ring.headroom + ring.occupied = ring.capacity :=
    Nat.sub_add_cancel hwell.occupied_le
  exact ⟨hwell, hroom, hring.arena_le, isAborted_perform hwell⟩

/-- The law at work on a full ring whose cursors have gone round and which then grew, after pushes
that were stopped and refused and growth that was refused. -/
theorem perform_aborts_iff_of_grown :
    let ops : List Op := [.push [1, -1, 2, -2, 3, -3] 3, .push [] (Nat.pow 2 63), .push [4] 1,
      .growTo (Nat.pow 2 62), .drain 1, .push [4, -4] 1, .growTo 3]
    ∃ start ring, create 2 = .done start ∧ ring = (inTurn perform start ops).2 ∧
      ring.Reached ∧ ring = ⟨#[3, -3, 4, -4, 0, 0], 3, 0, 2, 2⟩ ∧
      ring.WellFormed ∧ ring.headroom + ring.occupied = ring.capacity ∧
      (∀ limit, (ring.perform (.drain limit)).1.isAborted = false) ∧
      (ring.perform (.push [] (Nat.pow 2 63))).1.isAborted = true := by
  intro ops
  have hcreate : create 2 = .done ⟨#[0, 0, 0, 0], 2, 0, 0, 0⟩ := by decide
  obtain ⟨ring, hring⟩ :
      ∃ ring, ring = (inTurn perform ⟨#[0, 0, 0, 0], 2, 0, 0, 0⟩ ops).2 := ⟨_, rfl⟩
  have hreached : ring.Reached := by
    rw [hring]
    exact (Reached.created hcreate).inTurn ops
  obtain ⟨hwell, hroom, -, haborts⟩ := perform_aborts_iff hreached
  have hdrains (limit : Nat) : (ring.perform (.drain limit)).1.isAborted = false := by
    rw [← Bool.not_eq_true, haborts, not_not]
    trivial
  have hstops : (ring.perform (.push [] (Nat.pow 2 63))).1.isAborted = true := by
    rw [haborts]
    exact fun hcountable : 2 * Nat.pow 2 63 < wordCount => absurd hcountable (by decide)
  have hlaid : ring = ⟨#[3, -3, 4, -4, 0, 0], 3, 0, 2, 2⟩ := by
    rw [hring]
    decide
  exact ⟨_, ring, hcreate, hring, hreached, hlaid, hwell, hroom, hdrains, hstops⟩

end Ring

end Framestep
