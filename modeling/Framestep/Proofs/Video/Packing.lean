import Framestep.Proofs.Video.Rows

/-!
# Packing, row by row

What packing makes of any picture, also of one that has fewer bytes than its layout says or whose
stride is less than its rows.  A row is read if it begins within the picture; it has the bytes up to
its stride or to the end of the picture, and packing fails at the first one for which these are too
few (`View.FallsShort`).  So `View.gatherRows_eq_none_iff` and `View.gatherRows_eq_some` say when
rows are gathered and which bytes these are, and `View.packed?_exact` says it of the whole picture.

A picture may lose rows without a failure: those that would begin behind its end are left out.
-/

namespace Framestep

namespace View

variable {pixels : Array UInt8} {row stride : Nat}

/-- The row that begins at `place` is read and has fewer than `row` bytes. -/
def FallsShort (pixels : Array UInt8) (row stride place : Nat) : Prop :=
  place < pixels.size ∧ min stride (pixels.size - place) < row

/-- The first `row` bytes of each of `count` rows from `start` on, as far as they begin within the
picture. -/
def rowsFrom (pixels : Array UInt8) (row stride count start : Nat) : List UInt8 :=
  ((List.range count).filter fun y => start + y * stride < pixels.size).flatMap fun y =>
    (pixels.extract (start + y * stride) (start + y * stride + row)).toList

theorem place_succ (start stride y : Nat) :
    start + (y + 1) * stride = start + stride + y * stride := by
  rw [Nat.succ_mul]
  omega

theorem rowsFrom_of_le {start : Nat} (hend : pixels.size ≤ start) (count : Nat) :
    rowsFrom pixels row stride count start = [] := by
  have hnone : (List.range count).filter (fun y => start + y * stride < pixels.size) = [] := by
    rw [List.filter_eq_nil_iff]
    intro y _
    simp only [decide_eq_true_eq]
    omega
  rw [rowsFrom, hnone, List.flatMap_nil]

theorem rowsFrom_succ {start : Nat} (hbegins : start < pixels.size) (count : Nat) :
    rowsFrom pixels row stride (count + 1) start =
      (pixels.extract start (start + row)).toList ++
        rowsFrom pixels row stride count (start + stride) := by
  have hfirst : start + 0 * stride = start := by omega
  rw [rowsFrom, List.range_succ_eq_map, List.filter_cons, if_pos (by simpa using hbegins),
    List.flatMap_cons, hfirst, List.filter_map, List.flatMap_map]
  simp only [Function.comp_def, place_succ]
  rfl

/-- Rows are gathered unless one of them is read and has too few bytes. -/
theorem gatherRows_eq_none_iff (count start : Nat) (gathered : Array UInt8) :
    gatherRows pixels row stride count start gathered = none ↔
      ∃ y < count, FallsShort pixels row stride (start + y * stride) := by
  induction count generalizing start gathered with
  | zero => simp [gatherRows]
  | succ count ih =>
      rw [gatherRows, Nat.exists_lt_succ_left, Nat.zero_mul, Nat.add_zero]
      by_cases hend : pixels.size ≤ start
      · -- Later rows begin still further behind the end.
        rw [if_pos hend]
        simp only [FallsShort]
        refine iff_of_false (Option.some_ne_none gathered) ?_
        rintro (⟨hbegins, -⟩ | ⟨y, -, hbegins, -⟩) <;> omega
      · by_cases hshort : min stride (pixels.size - start) < row
        · rw [if_neg hend, if_pos hshort]
          exact iff_of_true rfl (.inl ⟨Nat.lt_of_not_le hend, hshort⟩)
        · have hfirst : ¬ FallsShort pixels row stride start := fun h => hshort h.2
          rw [if_neg hend, if_neg hshort, ih]
          simp only [hfirst, false_or, place_succ]

/-- Rows that are gathered are those that begin within the picture, in their order. -/
theorem gatherRows_eq_some (count start : Nat)
    (hfull : ∀ y < count, ¬ FallsShort pixels row stride (start + y * stride))
    (gathered : Array UInt8) :
    gatherRows pixels row stride count start gathered =
      some (gathered ++ (rowsFrom pixels row stride count start).toArray) := by
  induction count generalizing start gathered with
  | zero => simp [gatherRows, rowsFrom]
  | succ count ih =>
      obtain ⟨hfirst, hrest⟩ := Nat.forall_lt_succ_left.mp hfull
      rw [Nat.zero_mul, Nat.add_zero] at hfirst
      simp only [place_succ] at hrest
      rw [gatherRows]
      by_cases hend : pixels.size ≤ start
      · rw [if_pos hend, rowsFrom_of_le hend, Array.append_empty]
      · have hbegins := Nat.lt_of_not_le hend
        have henough : ¬ min stride (pixels.size - start) < row := fun h => hfirst ⟨hbegins, h⟩
        have hjoin (front : Array UInt8) (back : List UInt8) :
            (front.toList ++ back).toArray = front ++ back.toArray := by simp
        rw [if_neg hend, if_neg henough, ih _ hrest, rowsFrom_succ hbegins, hjoin,
          Array.append_assoc]

/-! ## Whole pictures -/

variable {view : View}

/-- A picture without padding is passed on as far as its layout reaches. -/
theorem packed?_of_unpadded (hword : view.layout.rowBytes * view.layout.height < wordCount)
    (hstride : view.layout.stride = view.layout.rowBytes) (scratch : Array UInt8) :
    view.packed? scratch =
      if view.layout.rowBytes * view.layout.height ≤ view.pixels.size then
        some ⟨view.pixels.extract 0 (view.layout.rowBytes * view.layout.height), scratch⟩
      else
        none := by
  have hfirst : firstOf view.pixels (view.layout.rowBytes * view.layout.height) =
      view.pixels.extract 0 (view.layout.rowBytes * view.layout.height) := by
    unfold firstOf
    split
    · next hall => exact (Array.extract_eq_self_of_le hall).symm
    · rfl
  rw [packed?, if_neg (Nat.not_le.mpr hword), if_pos hstride, hfirst]

section Padded

variable (hword : view.layout.rowBytes * view.layout.height < wordCount)
  (hreserve : view.layout.rowBytes * view.layout.height ≤ maxAllocation)
  (hstride : view.layout.stride ≠ view.layout.rowBytes) (scratch : Array UInt8)

include hword hreserve hstride

/-- The rows of any other picture are gathered, unless its stride is zero. -/
theorem packed?_of_padded :
    view.packed? scratch =
      if view.layout.stride = 0 then none
      else (gatherRows view.pixels view.layout.rowBytes view.layout.stride view.layout.height 0
        #[]).map fun gathered => ⟨gathered, gathered⟩ := by
  rw [packed?, if_neg (Nat.not_le.mpr hword), if_neg hstride, if_neg (Nat.not_lt.mpr hreserve)]

theorem packed?_of_padded_eq_none_iff :
    view.packed? scratch = none ↔ view.layout.stride = 0 ∨ ∃ y < view.layout.height,
      FallsShort view.pixels view.layout.rowBytes view.layout.stride (y * view.layout.stride) := by
  rw [packed?_of_padded hword hreserve hstride]
  by_cases hzero : view.layout.stride = 0
  · rw [if_pos hzero]
    exact iff_of_true rfl (.inl hzero)
  · rw [if_neg hzero, Option.map_eq_none_iff, gatherRows_eq_none_iff]
    simp only [Nat.zero_add, hzero, false_or]

theorem packed?_of_padded_eq_some (hpacked : view.packed? scratch ≠ none) :
    let rows := rowsFrom view.pixels view.layout.rowBytes view.layout.stride view.layout.height 0
    view.packed? scratch = some ⟨rows.toArray, rows.toArray⟩ := by
  have hfull := mt (packed?_of_padded_eq_none_iff hword hreserve hstride scratch).mpr hpacked
  simp only [not_or, not_exists, not_and] at hfull
  obtain ⟨hzero, hfull⟩ := hfull
  have hgathered := gatherRows_eq_some view.layout.height 0
    (by simpa only [Nat.zero_add] using hfull) #[]
  rw [packed?_of_padded hword hreserve hstride, if_neg hzero, hgathered, Array.empty_append]
  rfl

end Padded

/-- A picture that has all the bytes of its layout is packed, the same way whatever the buffer
holds. -/
theorem packed?_of_whole (hword : view.layout.rowBytes * view.layout.height < wordCount)
    (hreserve : view.layout.stride ≠ view.layout.rowBytes →
      view.layout.rowBytes * view.layout.height ≤ maxAllocation)
    (hfits : view.layout.rowBytes ≤ view.layout.stride)
    (hcovers : view.layout.byteCount ≤ view.pixels.size) :
    ∃ packed : Array UInt8, packed.size = view.layout.rowBytes * view.layout.height ∧
      ∀ scratch, ∃ left, view.packed? scratch = some ⟨packed, left⟩ := by
  by_cases hstride : view.layout.stride = view.layout.rowBytes
  · have hreaches : view.layout.rowBytes * view.layout.height ≤ view.pixels.size := by
      rw [← hstride, Nat.mul_comm]
      exact hcovers
    refine ⟨view.pixels.extract 0 (view.layout.rowBytes * view.layout.height), ?_,
      fun scratch => ⟨scratch, ?_⟩⟩
    · rw [Array.size_extract]
      omega
    · rw [packed?_of_unpadded hword hstride, if_pos hreaches]
  · have hpositive : 0 < view.layout.stride := by omega
    obtain ⟨packed, hgathered, hsize, -⟩ := gatherRows_of_covers hfits hpositive
      view.layout.height 0 #[] (by simpa [Layout.byteCount] using hcovers)
    refine ⟨packed, ?_, fun scratch => ⟨packed, ?_⟩⟩
    · rw [hsize, Nat.mul_comm]
      exact Nat.zero_add _
    · rw [packed?_of_padded hword (hreserve hstride) hstride, if_neg (by omega), hgathered]
      rfl

/-- What packing makes of a picture of any stride and any number of bytes.  Without padding, it is
passed on as far as the layout reaches, and refused exactly if it does not reach that far.  With
padding, or with rows that overlap, the rows that begin within it are gathered, whatever the buffer
held; this fails exactly at the stride zero and at a row that falls short.  A picture that has all
the bytes of its layout is packed, and has all its rows. -/
theorem packed?_exact {view : View}
    (hword : 4 * view.layout.width * view.layout.height < wordCount)
    (hreserve : view.layout.stride ≠ 4 * view.layout.width →
      4 * view.layout.width * view.layout.height ≤ maxAllocation) (scratch : Array UInt8) :
    let pixels := view.pixels
    let stride := view.layout.stride
    let height := view.layout.height
    let row := 4 * view.layout.width
    let rows := ((List.range height).filter fun y => y * stride < pixels.size).flatMap fun y =>
      (pixels.extract (y * stride) (y * stride + row)).toList
    (stride = row →
      (view.packed? scratch = none ↔ pixels.size < row * height) ∧
      (row * height ≤ pixels.size →
        view.packed? scratch = some ⟨pixels.extract 0 (row * height), scratch⟩)) ∧
    (stride ≠ row →
      (view.packed? scratch = none ↔ stride = 0 ∨
        ∃ y < height, y * stride < pixels.size ∧ min stride (pixels.size - y * stride) < row) ∧
      (view.packed? scratch ≠ none →
        view.packed? scratch = some ⟨rows.toArray, rows.toArray⟩)) ∧
    (row ≤ stride → height * stride ≤ pixels.size →
      ∃ packed : Array UInt8, packed.size = 4 * view.layout.width * height ∧
        ∀ scratch, ∃ left, view.packed? scratch = some ⟨packed, left⟩) := by
  intro pixels stride height row rows
  have hrows : rowsFrom pixels row stride height 0 = rows := by
    simp only [rowsFrom, Nat.zero_add, rows]
  refine ⟨?_, ?_, packed?_of_whole hword hreserve⟩
  · intro hstride
    have hpacked := packed?_of_unpadded hword hstride scratch
    refine ⟨⟨?_, ?_⟩, fun hreaches => hpacked.trans (if_pos hreaches)⟩
    · intro hnone
      apply Nat.lt_of_not_le
      intro hreaches
      cases hnone.symm.trans (hpacked.trans (if_pos hreaches))
    · exact fun hshort => hpacked.trans (if_neg (Nat.not_le.mpr hshort))
  · intro hstride
    have hsome := packed?_of_padded_eq_some hword (hreserve hstride) hstride scratch
    refine ⟨packed?_of_padded_eq_none_iff hword (hreserve hstride) hstride scratch, ?_⟩
    rw [← hrows]
    exact hsome

/-- The law at work on a column of three pixels with a byte of padding below each but the last, and
on one without padding that has a byte too many.  The buffer is left alone only by the second. -/
theorem packed?_exact_of_missing_padding :
    let padded : View := ⟨⟨1, 3, 5⟩, #[1, 2, 3, 4, 0, 5, 6, 7, 8, 0, 9, 10, 11, 12]⟩
    let plain : View := ⟨⟨1, 2, 4⟩, #[1, 2, 3, 4, 5, 6, 7, 8, 9]⟩
    let scratch : Array UInt8 := #[7, 7]
    4 * 1 * 3 < wordCount ∧ 4 * 1 * 3 ≤ maxAllocation ∧ 4 * 1 * 2 < wordCount ∧
      padded.layout.stride ≠ 4 * 1 ∧ plain.layout.stride = 4 * 1 ∧
      4 * 1 * 2 ≤ plain.pixels.size ∧ padded.packed? scratch ≠ none ∧
      padded.packed? scratch = some
        ⟨#[1, 2, 3, 4, 5, 6, 7, 8, 9, 10, 11, 12], #[1, 2, 3, 4, 5, 6, 7, 8, 9, 10, 11, 12]⟩ ∧
      plain.packed? scratch = some ⟨#[1, 2, 3, 4, 5, 6, 7, 8], scratch⟩ ∧
      4 * 1 ≤ plain.layout.stride ∧ 2 * plain.layout.stride ≤ plain.pixels.size ∧
      ∃ packed : Array UInt8, packed.size = 4 * 1 * 2 ∧
        ∀ scratch, ∃ left, plain.packed? scratch = some ⟨packed, left⟩ := by
  intro padded plain scratch
  have hword : 4 * padded.layout.width * padded.layout.height < wordCount := by decide
  have hreserve : 4 * padded.layout.width * padded.layout.height ≤ maxAllocation := by decide
  have hplainWord : 4 * plain.layout.width * plain.layout.height < wordCount := by decide
  have hpadded : padded.layout.stride ≠ 4 * padded.layout.width := by decide
  have hplain : plain.layout.stride = 4 * plain.layout.width := by decide
  have hreaches : 4 * 1 * 2 ≤ plain.pixels.size := by decide
  have hgathered : padded.packed? scratch ≠ none := by decide
  obtain ⟨-, hrows, -⟩ := packed?_exact hword (fun _ => hreserve) scratch
  obtain ⟨hpassed, -, hwhole⟩ := packed?_exact hplainWord (absurd hplain) scratch
  exact ⟨hword, hreserve, hplainWord, hpadded, hplain, hreaches, hgathered,
    (hrows hpadded).2 hgathered, (hpassed hplain).2 hreaches, by decide, by decide,
    hwhole (by decide) (by decide)⟩

end View

end Framestep
