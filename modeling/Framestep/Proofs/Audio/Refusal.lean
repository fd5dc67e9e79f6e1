import Framestep.Proofs.Audio.Queue

/-!
# Pushes that are refused

A push says how many frames it brings, and is refused if it brings fewer samples than these have.
Their number is counted in a machine word.  `Ring.push_refused_iff` says for every ring that can
be reached where that goes well: a push of more frames than a word can count the samples of is
stopped, however few samples it brings, and every other one is refused exactly if it should be.

A ring that can be reached is one that was made and then used in any way, pushes that were
stopped included (`Ring.Reached`).
-/

namespace Framestep

namespace Ring

/-- A ring that was made and then used in any way. -/
inductive Reached : Ring → Prop where
  | created {requested : Nat} {memory : Memory} {ring : Ring}
      (hcreate : create requested memory = .done ring) : Reached ring
  | performed {ring : Ring} (hring : Reached ring) (op : Op) : Reached (ring.perform op).2

variable {ring : Ring}

theorem wellFormed_perform (hring : ring.WellFormed) (op : Op) :
    (ring.perform op).2.WellFormed := by
  by_cases hop : op.Countable
  · exact (perform_view hring hop).2.2
  · -- The queue knows no push that a word cannot count; the ring stops it and stays.
    cases op with
    | push samples frames =>
        have hword : wordCount ≤ 2 * frames := Nat.le_of_not_lt hop
        simp only [perform, push_eq hring, if_pos hword]
        exact hring
    | _ => exact absurd trivial hop

theorem Reached.wellFormed (h : ring.Reached) : ring.WellFormed := by
  induction h with
  | created hcreate => exact wellFormed_of_create hcreate
  | performed _ op ih => exact wellFormed_perform ih op

/-- How a push ends, for any number of frames.  It is stopped if and only if a machine word cannot
count their samples.  It is refused if and only if a word can and fewer samples came, and what
it is refused for are these two numbers.  Unless it goes well the ring is as it was. -/
theorem push_refused_iff (hring : ring.Reached) (samples : List Int16) (frames : Nat) :
    let outcome := (ring.push samples frames).1
    let later := (ring.push samples frames).2
    (outcome = .aborted ↔ wordCount ≤ 2 * frames) ∧
      (∀ fault, outcome = .refused fault ↔
        fault = .shortSamples frames samples.length ∧ samples.length < 2 * frames ∧
          2 * frames < wordCount) ∧
      ((∀ pushed, outcome ≠ .done pushed) → later = ring) := by
  intro outcome later
  simp only [outcome, later, push_eq hring.wellFormed]
  by_cases hword : wordCount ≤ 2 * frames
  · have huncounted : ¬ 2 * frames < wordCount := Nat.not_lt.mpr hword
    simp [hword, huncounted]
  · have hcounted : 2 * frames < wordCount := Nat.lt_of_not_le hword
    by_cases hshort : samples.length < 2 * frames
    · simp [hword, hcounted, hshort, eq_comm]
    · simp [hword, hshort]

/-- The law at work on a ring whose cursors have gone round: one sample is missing, and the push is
refused. -/
theorem push_refused_iff_of_missing_sample :
    ∃ start ring, create 2 = .done start ∧
      ring = (((start.perform (.push [1, -1, 2, -2, 3, -3] 3)).2).perform (.drain 1)).2 ∧
      ring.Reached ∧ ring.toFrames = [(3, -3)] ∧ ring.read = 1 ∧
      (ring.push [4, -4, 5] 2).1 = .refused (.shortSamples 2 3) ∧
      (ring.push [4, -4, 5] 2).2 = ring := by
  have hcreate : create 2 = .done ⟨#[0, 0, 0, 0], 2, 0, 0, 0⟩ := by decide
  have hreached := ((Reached.created hcreate).performed (.push [1, -1, 2, -2, 3, -3] 3)).performed
    (.drain 1)
  obtain ⟨-, hrefused, hkept⟩ := push_refused_iff hreached [4, -4, 5] 2
  have houtcome := (hrefused (.shortSamples 2 3)).mpr ⟨rfl, by decide, by decide⟩
  refine ⟨_, _, hcreate, rfl, hreached, by decide, by decide, houtcome, hkept ?_⟩
  intro pushed hdone
  cases houtcome.symm.trans hdone

/-- Not every push of too few samples is refused.  One that declares as many frames as half a word
counts is stopped. -/
theorem push_aborts_short :
    ¬ ∀ (ring : Ring) (samples : List Int16) (frames : Nat), ring.Reached → frames < wordCount →
      (ring.push samples frames).1 ≠ .aborted ∧
        ((ring.push samples frames).1 = .refused (.shortSamples frames samples.length) ∧
            (ring.push samples frames).2 = ring ↔
          samples.length < 2 * frames) := by
  intro hrefuses
  have hcreate : create 2 = .done ⟨#[0, 0, 0, 0], 2, 0, 0, 0⟩ := by decide
  have hgoes := hrefuses _ [1, 2] (Nat.pow 2 63) (.created hcreate) (by decide)
  exact absurd hgoes.1 (by decide)

end Ring

end Framestep
