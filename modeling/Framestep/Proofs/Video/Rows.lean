import Framestep.Proofs.Video.Storage
import Framestep.Video.Rows

/-!
# Rows without padding

A picture that has all the bytes of its layout can be packed, and every byte of the packed picture
is the one that lies at the same place of the same row: `View.packed?_of_covers`.  What the buffer
for the rows held before is of no account.
-/

namespace Framestep

theorem getElem?_firstOf (bytes : Array UInt8) {count i : Nat} (hi : i < count) :
    (firstOf bytes count)[i]? = bytes[i]? := by
  unfold firstOf
  split
  · rfl
  · rw [Array.getElem?_extract]
    simp only [Nat.zero_add]
    split
    · rfl
    · next hsize => rw [Array.getElem?_eq_none (by omega)]

namespace View

/-- Rows that lie within the picture are all gathered.  Byte `j` of the row with the number `y`
comes behind the rows before it, and nothing else is between them. -/
theorem gatherRows_of_covers {pixels : Array UInt8} {row stride : Nat} (hrow : row ≤ stride)
    (hstride : 0 < stride) (count start : Nat) (gathered : Array UInt8)
    (hcovers : start + count * stride ≤ pixels.size) :
    ∃ packed, gatherRows pixels row stride count start gathered = some packed ∧
      packed.size = gathered.size + count * row ∧
      (∀ i < gathered.size, packed[i]? = gathered[i]?) ∧
      ∀ y < count, ∀ j < row,
        packed[gathered.size + (y * row + j)]? = pixels[start + (y * stride + j)]? := by
  induction count generalizing start gathered with
  | zero => exact ⟨gathered, rfl, by omega, fun _ _ => rfl, by omega⟩
  | succ count ih =>
      rw [Nat.succ_mul] at hcovers
      -- The first row is there in full, and `longer` is what has been gathered with it.
      obtain ⟨longer, hlonger⟩ : ∃ longer, longer =
          gathered ++ pixels.extract start (start + row) := ⟨_, rfl⟩
      have hsize : longer.size = gathered.size + row := by
        rw [hlonger, Array.size_append, Array.size_extract]
        omega
      obtain ⟨packed, hpacked, hlength, hkept, hrows⟩ := ih (start + stride) longer (by omega)
      refine ⟨packed, ?_, ?_, ?_, ?_⟩
      · rw [gatherRows, if_neg (by omega), if_neg (by omega), ← hlonger]
        exact hpacked
      · rw [hlength, hsize, Nat.succ_mul]
        omega
      · intro i hi
        rw [hkept i (by omega), hlonger, Array.getElem?_append_left hi]
      · intro y hy j hj
        cases y with
        | zero =>
            rw [Nat.zero_mul, Nat.zero_mul, Nat.zero_add, hkept _ (by omega), hlonger,
              Array.getElem?_append_right (by omega), Array.getElem?_extract, if_pos (by omega)]
            congr 1
            omega
        | succ y =>
            have hlater := hrows y (by omega) j hj
            have hplace : longer.size + (y * row + j) = gathered.size + (y * row + row + j) := by
              omega
            have hsource :
                start + stride + (y * stride + j) = start + (y * stride + stride + j) := by omega
            rw [Nat.succ_mul, Nat.succ_mul, ← hplace, ← hsource]
            exact hlater

/-- Byte `j` of the row with the number `y` lies within the picture. -/
theorem place_lt {y height j row stride : Nat} (hy : y < height) (hj : j < row)
    (hrow : row ≤ stride) : y * stride + j < height * stride := by
  have hrows : (y + 1) * stride ≤ height * stride := Nat.mul_le_mul_right stride hy
  rw [Nat.succ_mul] at hrows
  omega

/-- A picture with pixels that has all the bytes of its layout is packed, whatever the buffer holds,
and each row of the packed picture is the row of the picture without its padding. -/
theorem packed?_of_covers {view : View} (hrows : view.layout.rowBytes ≤ view.layout.stride)
    (hpixels : 0 < view.layout.rowBytes) (hcovers : view.layout.byteCount ≤ view.pixels.size)
    (hallocated : view.layout.byteCount ≤ maxAllocation) :
    ∃ packed : Array UInt8, (∀ scratch, ∃ left, view.packed? scratch = some ⟨packed, left⟩) ∧
      packed.size = view.layout.rowBytes * view.layout.height ∧
      ∀ y < view.layout.height, ∀ j < view.layout.rowBytes,
        packed[y * view.layout.rowBytes + j]? = view.pixels[y * view.layout.stride + j]? := by
  have hword : maxAllocation < wordCount := by decide
  have htotal : view.layout.rowBytes * view.layout.height ≤ view.layout.byteCount := by
    rw [Nat.mul_comm]
    exact Nat.mul_le_mul_left _ hrows
  by_cases hpacked : view.layout.stride = view.layout.rowBytes
  · -- The picture has no padding and is passed on as it is.
    refine ⟨firstOf view.pixels (view.layout.rowBytes * view.layout.height), ?_, ?_, ?_⟩
    · intro scratch
      refine ⟨scratch, ?_⟩
      rw [packed?, if_neg (by omega), if_pos hpacked, if_pos (by omega)]
    · rw [size_firstOf]
      omega
    · intro y hy j hj
      rw [getElem?_firstOf, hpacked]
      rw [Nat.mul_comm view.layout.rowBytes]
      exact place_lt hy hj (Nat.le_refl _)
  · obtain ⟨packed, hgathered, hsize, -, hbytes⟩ := gatherRows_of_covers hrows
      (Nat.lt_of_lt_of_le hpixels hrows) view.layout.height 0 #[]
      (by simpa [Layout.byteCount] using hcovers)
    refine ⟨packed, ?_, ?_, ?_⟩
    · intro scratch
      refine ⟨packed, ?_⟩
      rw [packed?, if_neg (by omega), if_neg hpacked, if_neg (by omega), if_neg (by omega),
        hgathered]
      rfl
    · rw [hsize, Nat.mul_comm]
      simp
    · intro y hy j hj
      simpa using hbytes y hy j hj

end View

end Framestep
