import Framestep.Proofs.Control.Steering
import Framestep.TestCard.Picture

/-!
# What a test card draws

A frame is drawn pixel by pixel over the bytes that are there, and the drawing stops at a pixel
whose colour cannot be found.  `CardPicture.colourAt` is the colour that a pixel should have, with
the square at the pointer as a rectangle and no arithmetic that can fail.

The main statement, `CardPicture.depicts_draw`, says that the drawing comes to its end wherever the
square can be placed, that every pixel there is room for gets its colour, lowest byte first, and
that no other byte is touched.  `CardPicture.exists_image` draws the consequence for bytes that are
a picture of the card and nothing more: what they held before is of no account.
-/

namespace Framestep
namespace CardPicture

/-! ## The bytes of a colour -/

/-- One of the four bytes of a colour, the lowest first. -/
def byteOf (colour : UInt32) (k : Nat) : UInt8 := UInt8.ofNat (colour.toNat / Nat.pow 256 k)

theorem toUInt8_shiftRight (colour : UInt32) {places : UInt32} {k : Nat}
    (hplaces : places.toNat = 8 * k) (hk : k < 4) :
    (colour >>> places).toUInt8 = byteOf colour k := by
  have hbase : Nat.pow 256 k = 2 ^ (8 * k) := (Nat.pow_mul 2 8 k).symm
  apply UInt8.toNat_inj.mp
  rw [UInt32.toNat_toUInt8, UInt32.toNat_shiftRight, hplaces,
    Nat.mod_eq_of_lt (show 8 * k < 32 by omega), byteOf, UInt8.toNat_ofNat',
    Nat.shiftRight_eq_div_pow, hbase]

theorem toUInt8_eq (colour : UInt32) : colour.toUInt8 = byteOf colour 0 := by
  apply UInt8.toNat_inj.mp
  rw [UInt32.toNat_toUInt8, byteOf, UInt8.toNat_ofNat', Nat.pow_eq, Nat.pow_zero, Nat.div_one]

/-- A cell that is written holds what was written, if there is such a cell. -/
theorem getElem?_setIfInBounds_eq_ite {α : Type} (xs : Array α) (place i : Nat) (x : α) :
    (xs.setIfInBounds place x)[i]? = if i = place ∧ i < xs.size then some x else xs[i]? := by
  rw [Array.getElem?_setIfInBounds]
  by_cases hplace : i = place
  · subst hplace
    by_cases hsize : i < xs.size
    · simp [hsize]
    · simp [hsize]
  · simp [hplace, Ne.symm hplace]

/-- A colour takes up four bytes, as far as these exist, and no others. -/
theorem getElem?_putColour (pixels : Array UInt8) (start : Nat) (colour : UInt32) (i : Nat) :
    (putColour pixels start colour)[i]? =
      if start ≤ i ∧ i < start + 4 ∧ i < pixels.size then some (byteOf colour (i - start))
      else pixels[i]? := by
  have hlowest := toUInt8_eq colour
  have hnext : (colour >>> 8).toUInt8 = byteOf colour 1 :=
    toUInt8_shiftRight colour rfl (by decide)
  have hthird : (colour >>> 16).toUInt8 = byteOf colour 2 :=
    toUInt8_shiftRight colour rfl (by decide)
  have hhighest : (colour >>> 24).toUInt8 = byteOf colour 3 :=
    toUInt8_shiftRight colour rfl (by decide)
  unfold putColour
  rw [hlowest, hnext, hthird, hhighest]
  simp only [getElem?_setIfInBounds_eq_ite, Array.size_setIfInBounds]
  by_cases hplace : start ≤ i ∧ i < start + 4 ∧ i < pixels.size
  · rw [if_pos hplace]
    obtain ⟨k, hk, rfl⟩ : ∃ k < 4, i = start + k := ⟨i - start, by omega, by omega⟩
    have hcases : k = 0 ∨ k = 1 ∨ k = 2 ∨ k = 3 := by omega
    simp only [hplace.2.2, and_true, Nat.add_sub_cancel_left]
    rcases hcases with rfl | rfl | rfl | rfl <;> simp
  · rw [if_neg hplace, if_neg (by omega), if_neg (by omega), if_neg (by omega),
      if_neg (by omega)]

/-! ## The colour of a pixel -/

/-- The square at the pointer can be placed: its far corner is told by signed 32-bit numbers. -/
def HasSquare (cursor : Cursor) : Prop := cursor.x + 8 ≤ maxInt32 ∧ cursor.y + 8 ≤ maxInt32

/-- The square at the pointer covers the pixel. -/
def InSquare (cursor : Cursor) (x y : Nat) : Prop :=
  (cursor.x ≤ x ∧ x < cursor.x + 8) ∧ cursor.y ≤ y ∧ y < cursor.y + 8

instance (cursor : Cursor) (x y : Nat) : Decidable (InSquare cursor x y) :=
  inferInstanceAs (Decidable ((_ ∧ _) ∧ _ ∧ _))

/-- The colour that a pixel has in a frame: that of the square at the pointer, orange while a button
is held and white otherwise, and elsewhere that of the bar which has come to lie there. -/
def colourAt (size : Size) (frame : Nat) (input : CardInput) (x y : Nat) : UInt32 :=
  if InSquare input.cursor x y then
    if input.buttons ≠ 0 then 0xFF8000 else 0xFFFFFF
  else
    barColours.getD ((x + frame) / max (size.width / 8) 1 % 8) 0

variable {size : Size} {frame : Nat} {input : CardInput}

theorem within?_of_le {start : Int} {place : Nat} (hend : start + 8 ≤ maxInt32)
    (hplace : (place : Int) ≤ maxInt32) :
    within? start place = some (decide (start ≤ place ∧ place < start + 8)) := by
  rw [within?, cursorSide, if_neg (by omega), wrapInt32_of_le hplace, Bool.decide_and]

/-- Where the square can be placed, every pixel has its colour. -/
theorem colour?_eq (hsquare : HasSquare input.cursor) {x y : Nat} (hx : (x : Int) ≤ maxInt32)
    (hy : (y : Int) ≤ maxInt32) :
    colour? size frame input x y = some (colourAt size frame input x y) := by
  have hcovers : covers? input.cursor x y = some (decide (InSquare input.cursor x y)) := by
    simp only [covers?, within?_of_le hsquare.1 hx, within?_of_le hsquare.2 hy, InSquare]
    by_cases hcolumn : input.cursor.x ≤ x ∧ x < input.cursor.x + 8
    · simp [hcolumn]
    · simp [hcolumn]
  simp only [colour?, hcovers, colourAt, Option.bind_eq_bind, Option.bind_some,
    decide_eq_true_eq, ite_not]
  split
  · split <;> rfl
  · rfl

/-! ## Drawing -/

/-- Pixels whose colours can be found are all drawn, each over its own four bytes. -/
theorem drawFrom_of_colours {colours : Nat → UInt32} {count index : Nat}
    (hcolours : ∀ i, index ≤ i → i < index + count →
      colour? size frame input (i % size.width) (i / size.width) = some (colours i))
    (pixels : Array UInt8) :
    let painting := drawFrom size frame input count index pixels
    painting.finished = true ∧ painting.pixels.size = pixels.size ∧
      ∀ i, painting.pixels[i]? =
        if 4 * index ≤ i ∧ i < 4 * (index + count) ∧ i < pixels.size then
          some (byteOf (colours (i / 4)) (i % 4))
        else pixels[i]? := by
  induction count generalizing index pixels with
  | zero =>
      refine ⟨rfl, rfl, fun i => ?_⟩
      rw [if_neg (by omega)]
      rfl
  | succ count ih =>
      have hfirst := hcolours index (Nat.le_refl _) (by omega)
      obtain ⟨hfinished, hsize, hbytes⟩ :=
        @ih (index + 1) (fun i hfrom hto => hcolours i (by omega) (by omega))
          (putColour pixels (4 * index) (colours index))
      have hput : (putColour pixels (4 * index) (colours index)).size = pixels.size := by
        simp [putColour]
      simp only [drawFrom, hfirst, pixelBytes]
      refine ⟨hfinished, hsize.trans hput, fun i => ?_⟩
      rw [hbytes i, hput, getElem?_putColour]
      by_cases hpixel : 4 * index ≤ i ∧ i < 4 * index + 4 ∧ i < pixels.size
      · -- The byte is one of the pixel just drawn, and no later one touches it.
        have hnumber : i / 4 = index := by omega
        have hplace : i - 4 * index = i % 4 := by omega
        rw [if_neg (by omega), if_pos hpixel, if_pos (by omega), hnumber, hplace]
      · rw [if_neg hpixel]
        by_cases hlater : 4 * (index + 1) ≤ i ∧ i < 4 * (index + 1 + count) ∧ i < pixels.size
        · rw [if_pos hlater, if_pos (by omega)]
        · rw [if_neg hlater, if_neg (by omega)]

/-- A drawing over bytes that were there before.  Every pixel of the rows that there is room for has
its colour, and every other byte is as it was. -/
structure Depicts (size : Size) (frame : Nat) (input : CardInput) (before : Array UInt8)
    (painting : Painting) : Prop where
  finished : painting.finished = true
  size_eq : painting.pixels.size = before.size
  drawn : ∀ y < min size.height (before.size / (4 * size.width)), ∀ x < size.width, ∀ k < 4,
    painting.pixels[4 * (y * size.width + x) + k]? =
      some (byteOf (colourAt size frame input x y) k)
  kept : ∀ i, (∀ y < min size.height (before.size / (4 * size.width)), ∀ x < size.width, ∀ k < 4,
    i ≠ 4 * (y * size.width + x) + k) → painting.pixels[i]? = before[i]?

/-- The pixel at a place in the rows, by its number. -/
theorem number_lt {x y width rows : Nat} (hx : x < width) (hy : y < rows) :
    y * width + x < rows * width := by
  have hnext : (y + 1) * width ≤ rows * width := Nat.mul_le_mul_right width hy
  rw [Nat.succ_mul] at hnext
  omega

/-- Where the square can be placed, the drawing comes to its end and depicts the frame. -/
theorem depicts_draw (hwidth : 0 < size.width) (hfits : size.FitsInt32)
    (hsquare : HasSquare input.cursor) (before : Array UInt8) :
    Depicts size frame input before (draw size frame input before) := by
  obtain ⟨rows, hrows⟩ : ∃ rows, rows = min size.height (before.size / (4 * size.width)) :=
    ⟨_, rfl⟩
  have hdraw : draw size frame input before =
      drawFrom size frame input (rows * size.width) 0 before := by
    rw [draw, if_neg (Nat.ne_of_gt hwidth), pixelBytes, ← hrows]
  have hroom : 4 * (rows * size.width) ≤ before.size := by
    have hall : rows ≤ before.size / (4 * size.width) := hrows ▸ Nat.min_le_right _ _
    rw [Nat.le_div_iff_mul_le (Nat.mul_pos (by decide) hwidth)] at hall
    rwa [Nat.mul_left_comm] at hall
  have hcolours : ∀ i, 0 ≤ i → i < 0 + rows * size.width →
      colour? size frame input (i % size.width) (i / size.width) =
        some (colourAt size frame input (i % size.width) (i / size.width)) := by
    intro i _ hi
    have hx : i % size.width < size.width := Nat.mod_lt i hwidth
    have hy : i / size.width < rows := (Nat.div_lt_iff_lt_mul hwidth).mpr (by omega)
    have hbelow : rows ≤ size.height := hrows ▸ Nat.min_le_left _ _
    obtain ⟨hcolumns, hlines⟩ := hfits
    exact colour?_eq hsquare (by omega) (by omega)
  obtain ⟨hfinished, hsize, hbytes⟩ := drawFrom_of_colours hcolours before
  rw [← hdraw] at hfinished hsize hbytes
  constructor
  case finished => exact hfinished
  case size_eq => exact hsize
  case drawn =>
    intro y hy x hx k hk
    rw [← hrows] at hy
    have hnumber := number_lt hx hy
    have hpixel : (4 * (y * size.width + x) + k) / 4 = y * size.width + x := by omega
    have hplace : (4 * (y * size.width + x) + k) % 4 = k := by omega
    have hcolumn : (y * size.width + x) % size.width = x := by
      rw [Nat.mul_add_mod_self_right, Nat.mod_eq_of_lt hx]
    have hline : (y * size.width + x) / size.width = y := by
      rw [Nat.mul_comm, Nat.mul_add_div hwidth, Nat.div_eq_of_lt hx, Nat.add_zero]
    rw [hbytes, if_pos ⟨by omega, by omega, by omega⟩, hpixel, hplace, hcolumn, hline]
  case kept =>
    intro i hoff
    rw [← hrows] at hoff
    rw [hbytes, if_neg]
    rintro ⟨-, hi, -⟩
    have hy : i / 4 / size.width < rows := (Nat.div_lt_iff_lt_mul hwidth).mpr (by omega)
    have hx : i / 4 % size.width < size.width := Nat.mod_lt _ hwidth
    have hnumber := Nat.div_add_mod' (i / 4) size.width
    exact hoff _ hy _ hx (i % 4) (Nat.mod_lt i (by decide)) (by omega)

/-- Two drawings over bytes that are a picture and nothing more are the same. -/
theorem Depicts.unique {before other : Array UInt8} {one two : Painting}
    (hone : Depicts size frame input before one) (htwo : Depicts size frame input other two)
    (hwidth : 0 < size.width) (hbefore : before.size = 4 * (size.height * size.width))
    (hother : other.size = 4 * (size.height * size.width)) : one = two := by
  have hrows : min size.height (4 * (size.height * size.width) / (4 * size.width)) =
      size.height := by
    rw [Nat.mul_left_comm, Nat.mul_div_cancel _ (Nat.mul_pos (by decide) hwidth), Nat.min_self]
  have hdrawn := hone.drawn
  have hdrawn' := htwo.drawn
  rw [hbefore, hrows] at hdrawn
  rw [hother, hrows] at hdrawn'
  have hpixels : one.pixels = two.pixels := by
    apply Array.ext_getElem?
    intro i
    by_cases hi : i < 4 * (size.height * size.width)
    · have hy : i / 4 / size.width < size.height := (Nat.div_lt_iff_lt_mul hwidth).mpr (by omega)
      have hx : i / 4 % size.width < size.width := Nat.mod_lt _ hwidth
      -- Every byte of the picture is one of the four of some pixel.
      have hplace : i = 4 * (i / 4 / size.width * size.width + i / 4 % size.width) + i % 4 := by
        rw [Nat.div_add_mod' (i / 4) size.width]
        omega
      rw [hplace, hdrawn _ hy _ hx _ (Nat.mod_lt i (by decide)),
        hdrawn' _ hy _ hx _ (Nat.mod_lt i (by decide))]
    · rw [Array.getElem?_eq_none (by rw [hone.size_eq]; omega),
        Array.getElem?_eq_none (by rw [htwo.size_eq]; omega)]
  have hfinished := hone.finished.trans htwo.finished.symm
  cases one
  cases two
  congr

/-- The frame as a picture: whatever bytes it is drawn over, they do not show. -/
theorem exists_image (hwidth : 0 < size.width) (hfits : size.FitsInt32)
    (hsquare : HasSquare input.cursor) :
    ∃ image : Array UInt8, image.size = 4 * (size.height * size.width) ∧
      ∀ before : Array UInt8, before.size = 4 * (size.height * size.width) →
        draw size frame input before = ⟨image, true⟩ := by
  obtain ⟨blank, hblank⟩ : ∃ blank : Array UInt8, blank.size = 4 * (size.height * size.width) :=
    ⟨Array.replicate _ 0, Array.size_replicate⟩
  have hfirst : Depicts size frame input blank (draw size frame input blank) :=
    depicts_draw hwidth hfits hsquare blank
  refine ⟨(draw size frame input blank).pixels, hfirst.size_eq.trans hblank, ?_⟩
  intro before hbefore
  rw [(depicts_draw hwidth hfits hsquare before).unique hfirst hwidth hbefore hblank,
    ← hfirst.finished]

end CardPicture
end Framestep
