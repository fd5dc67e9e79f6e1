import Framestep.Video.Mailbox

/-!
# The storage of a mailbox

What an operation on a mailbox does to its storage, byte by byte, and when it is
refused.  Storage only ever grows, by zeros, and a picture is written over its
beginning; `Mailbox.byteAt_drawn` says what is read afterwards at any place.  With
this the operations of a mailbox in order take one form each, `Mailbox.submit_eq`,
`Mailbox.paint_eq` and `Mailbox.collect_eq`, in which no check is left that may fail.
How much memory an operation finds comes down to one number there, `Mailbox.room`.
-/

namespace Framestep

/-! ## Bytes -/

/-- The byte at a place; zero beyond the end. -/
def byteAt (bytes : Array UInt8) (i : Nat) : UInt8 := bytes.getD i 0

theorem byteAt_of_lt {bytes : Array UInt8} {i : Nat} (hi : i < bytes.size) :
    byteAt bytes i = bytes[i] := by
  simp [byteAt, hi]

theorem byteAt_of_le {bytes : Array UInt8} {i : Nat} (hi : bytes.size ≤ i) :
    byteAt bytes i = 0 := by
  simp [byteAt, hi]

theorem ext_byteAt {xs ys : Array UInt8} (hsize : xs.size = ys.size)
    (hbytes : ∀ i < xs.size, byteAt xs i = byteAt ys i) : xs = ys := by
  apply Array.ext hsize
  intro i hx hy
  have hbyte := hbytes i hx
  rw [byteAt_of_lt hx, byteAt_of_lt hy] at hbyte
  exact hbyte

@[simp] theorem size_firstOf (bytes : Array UInt8) (count : Nat) :
    (firstOf bytes count).size = min count bytes.size := by
  unfold firstOf
  split
  · omega
  · simp only [Array.size_extract]
    omega

theorem byteAt_firstOf (bytes : Array UInt8) {count i : Nat} (hi : i < count) :
    byteAt (firstOf bytes count) i = byteAt bytes i := by
  unfold firstOf
  split
  · rfl
  · next hmore =>
      have hsize : i < bytes.size := by omega
      rw [byteAt_of_lt hsize, byteAt_of_lt (by simp only [Array.size_extract]; omega)]
      simp

namespace Mailbox

theorem size_overlay {bytes beginning : Array UInt8} (hfits : beginning.size ≤ bytes.size) :
    (overlay bytes beginning).size = bytes.size := by
  simp only [overlay, Array.size_append, Array.size_extract]
  omega

theorem byteAt_overlay (bytes beginning : Array UInt8) (i : Nat) :
    byteAt (overlay bytes beginning) i =
      if i < beginning.size then byteAt beginning i else byteAt bytes i := by
  simp only [byteAt, overlay, Array.getD_eq_getD_getElem?, Array.getElem?_append]
  split
  · rfl
  · next hi =>
      -- behind the beginning, the place in the rest is counted from its end
      simp only [Array.getElem?_extract]
      have hplace : beginning.size + (i - beginning.size) = i := by omega
      by_cases hsize : i < bytes.size
      · rw [if_pos (by omega), hplace]
      · rw [if_neg (by omega), Array.getElem?_eq_none (by omega)]

/-- Storage lengthened by zeros to `needed` bytes. -/
def lengthened (bytes : Array UInt8) (needed : Nat) : Array UInt8 :=
  bytes ++ Array.replicate (needed - bytes.size) 0

@[simp] theorem size_lengthened (bytes : Array UInt8) (needed : Nat) :
    (lengthened bytes needed).size = max bytes.size needed := by
  simp only [lengthened, Array.size_append, Array.size_replicate]
  omega

@[simp] theorem byteAt_lengthened (bytes : Array UInt8) (needed i : Nat) :
    byteAt (lengthened bytes needed) i = byteAt bytes i := by
  by_cases hi : i < bytes.size
  · simp [byteAt, lengthened, Array.getElem?_append, hi]
  · rw [byteAt_of_le (Nat.le_of_not_lt hi)]
    simp only [byteAt, lengthened, Array.getD_eq_getD_getElem?, Array.getElem?_append, hi,
      if_false, Array.getElem?_replicate]
    split <;> rfl

/-- Storage with the first `needed` bytes of `marks` written over its beginning. -/
def drawn (bytes marks : Array UInt8) (needed : Nat) : Array UInt8 :=
  overlay (lengthened bytes needed) (firstOf marks needed)

@[simp] theorem size_drawn (bytes marks : Array UInt8) (needed : Nat) :
    (drawn bytes marks needed).size = max bytes.size needed := by
  unfold drawn
  rw [size_overlay]
  · exact size_lengthened bytes needed
  · simp only [size_firstOf, size_lengthened]
    omega

theorem byteAt_drawn (bytes marks : Array UInt8) (needed i : Nat) :
    byteAt (drawn bytes marks needed) i =
      if i < needed then marks.getD i (byteAt bytes i) else byteAt bytes i := by
  simp only [drawn, byteAt_overlay, size_firstOf, byteAt_lengthened]
  by_cases hneeded : i < needed
  · rw [if_pos hneeded]
    by_cases hmarks : i < marks.size
    · rw [if_pos (by omega), byteAt_firstOf marks hneeded, byteAt_of_lt hmarks]
      simp [hmarks]
    · rw [if_neg (by omega)]
      simp [hmarks]
  · rw [if_neg hneeded, if_neg (by omega)]

end Mailbox

/-! ## Refusals -/

/-- Why a mailbox does not take a picture with this layout of which `supplied` bytes
are there, if it has or gets storage for `room` bytes; nothing where it takes it. -/
def Layout.refusal? (layout : Layout) (closed : Bool) (supplied room : Nat) : Option Fault :=
  if layout.stride < pixelBytes * layout.width then
    some (.narrowStride layout.width layout.stride)
  else if wordCount ≤ layout.height * layout.stride then
    some (.outOfMemory maxWord)
  else if supplied < layout.height * layout.stride then
    some (.shortPicture (layout.height * layout.stride) supplied)
  else if closed then
    some .notReady
  else if room < layout.height * layout.stride then
    some (.outOfMemory (layout.height * layout.stride))
  else
    none

namespace Mailbox

/-- The storage covers the picture that lies in it and is one allocation. -/
structure WellFormed (box : Mailbox) : Prop where
  covers : box.layout.byteCount ≤ box.pixels.size
  allocated : box.pixels.size ≤ maxAllocation

theorem wellFormed_shut : shut.WellFormed := by
  constructor
  case covers => decide
  case allocated => decide

/-- The bytes that a mailbox has or can get. -/
def room (box : Mailbox) (memory : Memory) : Nat := max box.allocated memory.limit

variable {box : Mailbox} {memory : Memory}

theorem room_le (hbox : box.WellFormed) (memory : Memory) : box.room memory ≤ maxAllocation :=
  Nat.max_le.mpr ⟨hbox.allocated, memory.limit_le⟩

theorem reserve_eq (box : Mailbox) (needed : Nat) (memory : Memory) :
    box.reserve needed memory =
      if box.room memory < needed then .refused (.outOfMemory needed)
      else .done (lengthened box.pixels needed) := by
  unfold reserve room allocated
  by_cases hfits : needed ≤ box.pixels.size
  · have hnone : needed - box.pixels.size = 0 := by omega
    rw [if_pos hfits, if_neg (by omega), lengthened, hnone]
    simp
  · by_cases hlarge : memory.limit < needed
    · rw [if_neg hfits, if_pos hlarge, if_pos (by omega)]
    · rw [if_neg hfits, if_neg hlarge, if_neg (by omega)]
      rfl

theorem submit_eq (box : Mailbox) (layout : Layout) (pixels : Array UInt8) (memory : Memory) :
    box.submit layout pixels memory =
      match layout.refusal? box.closed pixels.size (box.room memory) with
      | some fault => (.refused fault, box)
      | none =>
        (.done (),
          { box with
            pixels := drawn box.pixels pixels layout.byteCount, layout, available := true }) := by
  -- Both sides make the same checks; only the allocation comes last in either.
  unfold submit Layout.refusal? Layout.measure Layout.rowBytes Layout.byteCount
  by_cases hstride : layout.stride < pixelBytes * layout.width
  · simp only [if_pos hstride]
  · by_cases hword : wordCount ≤ layout.height * layout.stride
    · simp only [if_neg hstride, if_pos hword]
    · simp only [if_neg hstride, if_neg hword]
      by_cases hshort : pixels.size < layout.height * layout.stride
      · simp only [if_pos hshort]
      · simp only [if_neg hshort]
        cases hclosed : box.closed with
        | true => simp
        | false =>
            simp only [Bool.false_eq_true, if_false, reserve_eq]
            by_cases hlarge : box.room memory < layout.height * layout.stride
            · simp only [if_pos hlarge]
            · simp only [if_neg hlarge]
              rfl

/-- A painter is given the beginning of the storage and its marks stay, whether or not
it comes to its end. -/
theorem paint_eq (box : Mailbox) (layout : Layout) (painter : Painter) (memory : Memory) :
    box.paint layout painter memory =
      match layout.refusal? box.closed layout.byteCount (box.room memory) with
      | some fault => (.refused fault, box)
      | none =>
        let given := firstOf (lengthened box.pixels layout.byteCount) layout.byteCount
        (if (painter given).finished then .done given else .aborted,
          { box with
            pixels := drawn box.pixels (painter given).pixels layout.byteCount, layout }) := by
  unfold paint Layout.refusal? Layout.measure Layout.rowBytes Layout.byteCount
  by_cases hstride : layout.stride < pixelBytes * layout.width
  · simp only [if_pos hstride]
  · by_cases hword : wordCount ≤ layout.height * layout.stride
    · simp only [if_neg hstride, if_pos hword]
    · simp only [if_neg hstride, if_neg hword, Nat.lt_irrefl, if_false]
      cases hclosed : box.closed with
      | true => simp
      | false =>
          simp only [Bool.false_eq_true, if_false, reserve_eq]
          by_cases hlarge : box.room memory < layout.height * layout.stride
          · simp only [if_pos hlarge]
          · simp only [if_neg hlarge]
            rfl

theorem collect_eq (hbox : box.WellFormed) :
    box.collect =
      if box.closed then (.done .closed, box)
      else if box.available then
        (.done (if 0 < box.layout.width ∧ 0 < box.layout.height then
            .presented ⟨box.layout, firstOf box.pixels box.layout.byteCount⟩ else .empty),
          { box with available := false })
      else (.done .timedOut, box) := by
  unfold collect
  cases box.closed with
  | true => rfl
  | false =>
      cases box.available with
      | false => rfl
      | true =>
          by_cases hpixels : 0 < box.layout.width ∧ 0 < box.layout.height
          · have hblank : box.layout.isBlank = false := by
              simp only [Layout.isBlank, Bool.or_eq_false_iff, beq_eq_false_iff_ne]
              omega
            simp [hpixels, hblank, hbox.covers]
          · have hblank : box.layout.isBlank = true := by
              simp only [Layout.isBlank, Bool.or_eq_true, beq_iff_eq]
              omega
            simp [hpixels, hblank]

/-- A host that looks into an open mailbox finds it open, and nothing is announced in it
afterwards. -/
theorem collect_of_open (hbox : box.WellFormed) (hopen : box.closed = false) :
    ∃ found, found ≠ .closed ∧ box.collect = (.done found, { box with available := false }) := by
  have hclosed : ¬ box.closed = true := by simp [hopen]
  rw [collect_eq hbox, if_neg hclosed]
  by_cases havailable : box.available
  · rw [if_pos havailable]
    split
    · exact ⟨_, by simp, rfl⟩
    · exact ⟨_, by simp, rfl⟩
  · have hsame : { box with available := false } = box := by
      rw [Bool.not_eq_true] at havailable
      rw [← havailable]
    rw [if_neg havailable, hsame]
    exact ⟨.timedOut, by simp, rfl⟩

theorem collect_eq_presented_iff (hbox : box.WellFormed) {view : View} :
    box.collect.1 = .done (.presented view) ↔
      box.closed = false ∧ box.available = true ∧
        (0 < box.layout.width ∧ 0 < box.layout.height) ∧
        view = ⟨box.layout, firstOf box.pixels box.layout.byteCount⟩ := by
  rw [collect_eq hbox]
  by_cases hclosed : box.closed
  · simp [hclosed]
  · by_cases havailable : box.available
    · by_cases hpixels : 0 < box.layout.width ∧ 0 < box.layout.height
      · simp [hclosed, havailable, hpixels, eq_comm]
      · simp [hclosed, havailable, hpixels]
    · simp [hclosed, havailable]

end Mailbox

/-- A picture is taken where its rows fit, its bytes are there and can be stored, and
the mailbox is open. -/
theorem Layout.refusal?_eq_none_iff {layout : Layout} {closed : Bool} {supplied room : Nat}
    (hroom : room ≤ maxAllocation) :
    layout.refusal? closed supplied room = none ↔
      layout.rowBytes ≤ layout.stride ∧ layout.byteCount ≤ supplied ∧ closed = false ∧
        layout.byteCount ≤ room := by
  have hword : maxAllocation < wordCount := by decide
  unfold refusal? byteCount rowBytes
  constructor
  · intro hnone
    -- each check that stops the picture answers with a fault
    grind
  · rintro ⟨hrows, hsupplied, hclosed, hlarge⟩
    rw [if_neg (by omega), if_neg (by omega), if_neg (by omega), hclosed,
      if_neg Bool.false_ne_true, if_neg (by omega)]

/-- A mailbox that has taken a picture is in order. -/
theorem Mailbox.wellFormed_drawn {box : Mailbox} (hbox : box.WellFormed) {layout : Layout}
    {supplied : Nat} {memory : Memory}
    (htaken : layout.refusal? box.closed supplied (box.room memory) = none)
    (marks : Array UInt8) (available : Bool) :
    WellFormed
      { box with pixels := drawn box.pixels marks layout.byteCount, layout, available } := by
  have hroom := room_le hbox memory
  obtain ⟨-, -, -, hlarge⟩ := (Layout.refusal?_eq_none_iff hroom).mp htaken
  have hallocated := hbox.allocated
  constructor
  case covers =>
    rw [size_drawn]
    exact Nat.le_max_right _ _
  case allocated =>
    rw [size_drawn]
    exact Nat.max_le.mpr ⟨hallocated, Nat.le_trans hlarge hroom⟩

end Framestep
