import Framestep.Audio.Ring
import Framestep.Proofs.Audio.Frames

/-!
# Circular arenas

Reading and writing in an arena of stereo frames that is run through in a circle.
Both happen in at most two runs, one up to the end of the arena and one from its
start; the main statements, `map_range_wrap` for reading and
`cellAt_overwriteAround` for writing, say that the two runs together are one run
of places counted modulo the capacity.

The checked operations of `Framestep.Limits` are evaluated here as well, so that
what follows speaks of their results only.
-/

namespace Framestep

/-! ## Checked operations that succeed -/

theorem minus?_eq_some {a b : Nat} (h : b ≤ a) : minus? a b = some (a - b) := by
  simp [minus?, h]

theorem modulo?_eq_some {a b : Nat} (h : 0 < b) : modulo? a b = some (a % b) := by
  have hb : b ≠ 0 := by omega
  simp [modulo?, hb]

theorem portion?_eq_some {α : Type} {xs : List α} {start stop : Nat}
    (horder : start ≤ stop) (hfits : stop ≤ xs.length) :
    portion? xs start stop = some ((xs.take stop).drop start) := by
  simp [portion?, horder, hfits]

theorem stretch?_eq_some {α : Type} {xs : Array α} {start stop : Nat}
    (horder : start ≤ stop) (hfits : stop ≤ xs.size) :
    stretch? xs start stop = some (xs.extract start stop).toList := by
  simp [stretch?, horder, hfits]

theorem overwrite?_eq_some {α : Type} {xs : Array α} {start stop : Nat} {ys : List α}
    (hlength : start + ys.length = stop) (hfits : stop ≤ xs.size) :
    overwrite? xs start stop ys = some (overwriteFrom xs start ys) := by
  have horder : start ≤ stop := by omega
  have hcells : ys.length = stop - start := by omega
  simp only [overwrite?]
  rw [if_pos ⟨horder, hfits, hcells⟩]

/-! ## Writing a run -/

@[simp] theorem size_overwriteFrom {α : Type} (xs : Array α) (start : Nat) (ys : List α) :
    (overwriteFrom xs start ys).size = xs.size := by
  induction ys generalizing xs start with
  | nil => rfl
  | cons y ys ih => simp [overwriteFrom, ih]

/-- A run that fits is found in its cells, and every other cell is as before. -/
theorem getD_overwriteFrom {α : Type} (xs : Array α) (start : Nat) (ys : List α)
    (i : Nat) (d : α) (hfits : start + ys.length ≤ xs.size) :
    (overwriteFrom xs start ys).getD i d =
      if start ≤ i ∧ i < start + ys.length then ys.getD (i - start) d else xs.getD i d := by
  induction ys generalizing xs start with
  | nil =>
      have hempty : ¬ (start ≤ i ∧ i < start + ([] : List α).length) := by simp
      rw [overwriteFrom, if_neg hempty]
  | cons y ys ih =>
      simp only [List.length_cons] at hfits ⊢
      rw [overwriteFrom, ih _ _ (by simp only [Array.size_setIfInBounds]; omega)]
      rcases Nat.lt_trichotomy i start with hbefore | hhere | hafter
      · rw [if_neg (by omega), if_neg (by omega)]
        simp only [Array.getD_eq_getD_getElem?]
        rw [Array.getElem?_setIfInBounds_ne (by omega)]
      · subst hhere
        rw [if_neg (by omega), if_pos (by omega)]
        have hcell : i < xs.size := by omega
        simp [hcell]
      · have hnext : i - start = i - (start + 1) + 1 := by omega
        by_cases hin : i < start + 1 + ys.length
        · rw [if_pos (by omega), if_pos (by omega), hnext]
          simp
        · rw [if_neg (by omega), if_neg (by omega)]
          simp only [Array.getD_eq_getD_getElem?]
          rw [Array.getElem?_setIfInBounds_ne (by omega)]

/-! ## Places and frames -/

/-- The frame in one place of an arena. -/
def cellAt (storage : Array Int16) (place : Nat) : StereoFrame :=
  (storage.getD (2 * place) 0, storage.getD (2 * place + 1) 0)

/-- A run of whole frames is found in its places, and every other place is as
before. -/
theorem cellAt_overwriteFrom (storage : Array Int16) (start place : Nat) (run : List Int16)
    (heven : run.length % 2 = 0) (hfits : 2 * start + run.length ≤ storage.size) :
    cellAt (overwriteFrom storage (2 * start) run) place =
      if start ≤ place ∧ place < start + run.length / 2 then
        (StereoFrame.ofSamples run).getD (place - start) (0, 0)
      else
        cellAt storage place := by
  unfold cellAt
  rw [getD_overwriteFrom _ _ _ _ _ hfits, getD_overwriteFrom _ _ _ _ _ hfits]
  by_cases hin : start ≤ place ∧ place < start + run.length / 2
  · have hleft : 2 * place - 2 * start = 2 * (place - start) := by omega
    have hright : 2 * place + 1 - 2 * start = 2 * (place - start) + 1 := by omega
    rw [if_pos (by omega), if_pos (by omega), if_pos hin,
      StereoFrame.ofSamples_getD _ _ _ (by omega), hleft, hright]
  · rw [if_neg (by omega), if_neg (by omega), if_neg hin]

/-- A stretch of whole frames holds the frames of its places. -/
theorem ofSamples_extract (storage : Array Int16) (start count : Nat)
    (hfits : 2 * (start + count) ≤ storage.size) :
    StereoFrame.ofSamples (storage.extract (2 * start) (2 * (start + count))).toList =
      (List.range count).map fun i => cellAt storage (start + i) := by
  apply List.ext_getElem
  · simp only [StereoFrame.length_ofSamples, Array.length_toList, Array.size_extract,
      List.length_map, List.length_range]
    omega
  · intro i hi hcount
    simp only [List.length_map, List.length_range] at hcount
    have hcell (j : Nat) (hj : j < 2 * count) :
        (storage.extract (2 * start) (2 * (start + count))).toList.getD j 0 =
          storage.getD (2 * start + j) 0 := by
      have hinside : j < min (2 * (start + count)) storage.size - 2 * start := by omega
      simp only [List.getD_eq_getElem?_getD, Array.getElem?_toList, Array.getD_eq_getD_getElem?,
        Array.getElem?_extract, if_pos hinside]
    rw [StereoFrame.ofSamples_getElem, hcell _ (by omega), hcell _ (by omega), List.getElem_map,
      List.getElem_range, cellAt, Nat.mul_add, Nat.add_assoc]

/-! ## Running in a circle -/

/-- A place that is counted modulo the capacity passes the end at most once. -/
theorem add_mod_capacity {start n capacity : Nat} (hstart : start < capacity)
    (hn : n ≤ capacity) :
    (start + n) % capacity =
      if start + n < capacity then start + n else start + n - capacity := by
  split
  · next hin => exact Nat.mod_eq_of_lt hin
  · next hout =>
      rw [Nat.mod_eq_sub_mod (by omega), Nat.mod_eq_of_lt (by omega)]

/-- A run up to the end and a run from the start are one run in a circle. -/
theorem map_range_wrap {α : Type} (f : Nat → α) {read count capacity : Nat}
    (hread : read < capacity) (hcount : count ≤ capacity) :
    ((List.range (min count (capacity - read))).map fun i => f (read + i)) ++
        (List.range (count - min count (capacity - read))).map f =
      (List.range count).map fun n => f ((read + n) % capacity) := by
  apply List.ext_getElem
  · simp only [List.length_append, List.length_map, List.length_range]
    omega
  · intro n hn hcount'
    simp only [List.length_map, List.length_range] at hcount'
    simp only [List.getElem_append, List.length_map, List.length_range, List.getElem_map,
      List.getElem_range]
    rw [add_mod_capacity hread (by omega)]
    by_cases hin : read + n < capacity
    · rw [dif_pos (by omega), if_pos hin]
    · rw [dif_neg (by omega), if_neg hin]
      congr 1
      omega

/-- An arena with samples written over it from a place on; what does not fit
before the end goes to the start. -/
def overwriteAround (storage : Array Int16) (capacity write : Nat) (source : List Int16) :
    Array Int16 :=
  let first := min (source.length / 2) (capacity - write)
  overwriteFrom (overwriteFrom storage (2 * write) (source.take (2 * first))) 0
    (source.drop (2 * first))

@[simp] theorem size_overwriteAround (storage : Array Int16) (capacity write : Nat)
    (source : List Int16) :
    (overwriteAround storage capacity write source).size = storage.size := by
  simp [overwriteAround]

/-- Counted in a circle from the place where writing began, the first places hold
what was written and the others are as before. -/
theorem cellAt_overwriteAround (storage : Array Int16) {capacity write : Nat}
    (source : List Int16) {n : Nat} (hsize : storage.size = 2 * capacity)
    (hwrite : write < capacity) (heven : source.length % 2 = 0)
    (hsource : source.length ≤ 2 * capacity) (hn : n < capacity) :
    cellAt (overwriteAround storage capacity write source) ((write + n) % capacity) =
      if n < source.length / 2 then
        (StereoFrame.ofSamples source).getD n (0, 0)
      else
        cellAt storage ((write + n) % capacity) := by
  obtain ⟨first, hfirst⟩ : ∃ first, first = min (source.length / 2) (capacity - write) :=
    ⟨_, rfl⟩
  have htake : (source.take (2 * first)).length = 2 * first := by
    rw [List.length_take]
    omega
  have hdrop : (source.drop (2 * first)).length = source.length - 2 * first :=
    List.length_drop
  have hback (place : Nat) := cellAt_overwriteFrom
    (overwriteFrom storage (2 * write) (source.take (2 * first))) 0 place
    (source.drop (2 * first)) (by omega) (by simp only [size_overwriteFrom]; omega)
  have hfront (place : Nat) := cellAt_overwriteFrom storage write place
    (source.take (2 * first)) (by omega) (by omega)
  simp only [Nat.mul_zero, Nat.zero_le, true_and, Nat.zero_add, Nat.sub_zero] at hback
  unfold overwriteAround
  rw [← hfirst, hback, hfront, add_mod_capacity hwrite (by omega)]
  rw [htake, hdrop, StereoFrame.ofSamples_take, StereoFrame.ofSamples_drop]
  -- The place lies before the end and in the first run, or behind it and in the second.
  by_cases hin : write + n < capacity
  · rw [if_pos hin, if_neg (by omega)]
    by_cases hnew : n < source.length / 2
    · have hplace : write + n - write = n := by omega
      rw [if_pos (by omega), if_pos hnew, hplace]
      simp only [List.getD_eq_getElem?_getD]
      rw [List.getElem?_take_of_lt (by omega)]
    · rw [if_neg (by omega), if_neg hnew]
  · rw [if_neg hin]
    by_cases hnew : n < source.length / 2
    · have hplace : first + (write + n - capacity) = n := by omega
      rw [if_pos (by omega), if_pos hnew]
      simp only [List.getD_eq_getElem?_getD]
      rw [List.getElem?_drop, hplace]
    · rw [if_neg (by omega), if_neg (by omega), if_neg hnew]

end Framestep
