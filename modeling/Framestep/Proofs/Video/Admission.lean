import Framestep.Proofs.Video.Draft

/-!
# What a mailbox takes

A picture is handed over finished (`Mailbox.submit`), or it is drawn in the storage and
announced there (`Mailbox.paint`, `Mailbox.signal`).  Either way it must pass the same checks.
`Mailbox.Objection` names what a mailbox can have against a picture: one cause each, and every
cause stands behind those that would have been found before it.

There are two main statements about every mailbox that can be reached.
`Mailbox.objections_exact` says that a picture is refused for its objection and for nothing
else, that a refusal leaves the mailbox as it was, and that a painter is let to the storage
exactly if there is none.  `Mailbox.copyIn_eq_submit` says that a picture which is copied in by
a painter and then announced has come in as if it had been handed over.
-/

namespace Framestep
namespace Mailbox

/-! ## Objections -/

/-- What a mailbox that finds this memory has against a picture with this layout of which
`supplied` bytes are there. -/
inductive Objection (box : Mailbox) (layout : Layout) (supplied : Nat) (memory : Memory) :
    Fault → Prop where
  | narrow (hrows : layout.stride < layout.rowBytes) :
      Objection box layout supplied memory (.narrowStride layout.width layout.stride)
  | uncountable (hrows : layout.rowBytes ≤ layout.stride) (hword : wordCount ≤ layout.byteCount) :
      Objection box layout supplied memory (.outOfMemory maxWord)
  | short (hrows : layout.rowBytes ≤ layout.stride) (hword : layout.byteCount < wordCount)
      (hsupplied : supplied < layout.byteCount) :
      Objection box layout supplied memory (.shortPicture layout.byteCount supplied)
  | closed (hrows : layout.rowBytes ≤ layout.stride) (hword : layout.byteCount < wordCount)
      (hsupplied : layout.byteCount ≤ supplied) (hclosed : box.closed = true) :
      Objection box layout supplied memory .notReady
  /-- The storage would have to grow to more bytes than are granted. -/
  | unobtainable (hrows : layout.rowBytes ≤ layout.stride) (hword : layout.byteCount < wordCount)
      (hsupplied : layout.byteCount ≤ supplied) (hopen : box.closed = false)
      (hgrows : box.pixels.size < layout.byteCount) (hlarge : memory.limit < layout.byteCount) :
      Objection box layout supplied memory (.outOfMemory layout.byteCount)

/-- A picture that passes every check: its rows fit, its bytes can be counted and are there, and
an open mailbox has or can get the storage for them. -/
structure Admits (box : Mailbox) (layout : Layout) (supplied : Nat) (memory : Memory) :
    Prop where
  rows : layout.rowBytes ≤ layout.stride
  word : layout.byteCount < wordCount
  supplied : layout.byteCount ≤ supplied
  opened : box.closed = false
  storage : layout.byteCount ≤ box.pixels.size ∨ layout.byteCount ≤ memory.limit

variable {box : Mailbox} {layout : Layout} {supplied : Nat} {memory : Memory} {fault : Fault}

/-- A picture that passes every check meets no objection, and any other meets one. -/
theorem admits_iff :
    box.Admits layout supplied memory ↔ ∀ fault, ¬ box.Objection layout supplied memory fault := by
  constructor
  · rintro ⟨hrows, hword, hsupplied, hopened, hstorage⟩ fault hfault
    cases hfault with
    | narrow hnarrow => omega
    | uncountable _ hlarge => omega
    | short _ _ hshort => omega
    | closed _ _ _ hclosed => simp [hopened] at hclosed
    | unobtainable _ _ _ _ hgrows hlarge => omega
  · intro hnone
    by_cases hrows : layout.rowBytes ≤ layout.stride
    case neg => exact (hnone _ (.narrow (by omega))).elim
    by_cases hword : layout.byteCount < wordCount
    case neg => exact (hnone _ (.uncountable hrows (by omega))).elim
    by_cases hsupplied : layout.byteCount ≤ supplied
    case neg => exact (hnone _ (.short hrows hword (by omega))).elim
    cases hclosed : box.closed with
    | true => exact (hnone _ (.closed hrows hword hsupplied hclosed)).elim
    | false =>
        by_cases hstorage : layout.byteCount ≤ box.pixels.size ∨ layout.byteCount ≤ memory.limit
        case neg =>
          exact (hnone _ (.unobtainable hrows hword hsupplied hclosed (by omega) (by omega))).elim
        exact ⟨hrows, hword, hsupplied, hclosed, hstorage⟩

/-- The checks of a mailbox are made in the order of the objections. -/
theorem Objection.refusal? (h : box.Objection layout supplied memory fault) :
    layout.refusal? box.closed supplied (box.room memory) = some fault := by
  have hrowBytes : pixelBytes * layout.width = layout.rowBytes := rfl
  have hbyteCount : layout.height * layout.stride = layout.byteCount := rfl
  have hroom : box.room memory = max box.pixels.size memory.limit := rfl
  unfold Layout.refusal?
  rw [hrowBytes, hbyteCount]
  cases h with
  | narrow hnarrow => rw [if_pos hnarrow]
  | uncountable hrows hlarge => rw [if_neg (by omega), if_pos hlarge]
  | short hrows hword hshort => rw [if_neg (by omega), if_neg (by omega), if_pos hshort]
  | closed hrows hword hsupplied hclosed =>
      rw [if_neg (by omega), if_neg (by omega), if_neg (by omega), if_pos hclosed]
  | unobtainable hrows hword hsupplied hopen hgrows hlarge =>
      rw [if_neg (by omega), if_neg (by omega), if_neg (by omega), if_neg (by simp [hopen]),
        if_pos (by omega)]

theorem refusal?_eq_none_iff (hbox : box.WellFormed) :
    layout.refusal? box.closed supplied (box.room memory) = none ↔
      box.Admits layout supplied memory := by
  have hlimit := box.room_le hbox memory
  have hroom : box.room memory = max box.pixels.size memory.limit := rfl
  have hword : maxAllocation < wordCount := by decide
  rw [Layout.refusal?_eq_none_iff hlimit]
  constructor
  · rintro ⟨hrows, hsupplied, hopen, hstorage⟩
    exact ⟨hrows, by omega, hsupplied, hopen, by omega⟩
  · rintro ⟨hrows, -, hsupplied, hopen, hstorage⟩
    exact ⟨hrows, hsupplied, hopen, by omega⟩

theorem refusal?_eq_some_iff (hbox : box.WellFormed) :
    layout.refusal? box.closed supplied (box.room memory) = some fault ↔
      box.Objection layout supplied memory fault := by
  constructor
  · intro hrefusal
    -- A picture that is refused is not admitted, so it meets an objection, which is this one.
    have hbarred : ¬ box.Admits layout supplied memory := by
      rw [← refusal?_eq_none_iff hbox, hrefusal]
      simp
    rw [admits_iff, not_forall] at hbarred
    obtain ⟨other, hother⟩ := hbarred
    rw [not_not] at hother
    have hsame := hother.refusal?
    rw [hrefusal, Option.some.injEq] at hsame
    rw [hsame]
    exact hother
  · exact Objection.refusal?

theorem Objection.unique {other : Fault} (h : box.Objection layout supplied memory fault)
    (hother : box.Objection layout supplied memory other) : fault = other :=
  Option.some.inj (h.refusal?.symm.trans hother.refusal?)

/-! ## Refusals -/

/-- A finished picture is refused or comes in. -/
theorem submit_cases (hbox : box.WellFormed) (layout : Layout) (pixels : Array UInt8)
    (memory : Memory) :
    (∃ fault, box.Objection layout pixels.size memory fault ∧
        box.submit layout pixels memory = (.refused fault, box)) ∨
      box.Admits layout pixels.size memory ∧ box.submit layout pixels memory = (.done (),
        { box with
          pixels := drawn box.pixels pixels layout.byteCount, layout, available := true }) := by
  rw [submit_eq]
  cases hrefusal : layout.refusal? box.closed pixels.size (box.room memory) with
  | some fault => exact .inl ⟨fault, (refusal?_eq_some_iff hbox).mp hrefusal, rfl⟩
  | none => exact .inr ⟨(refusal?_eq_none_iff hbox).mp hrefusal, rfl⟩

/-- A picture to be drawn is refused whoever the painter is, or every painter is given the same
bytes, as many as the layout covers. -/
theorem paint_cases (hbox : box.WellFormed) (layout : Layout) (memory : Memory) :
    (∃ fault, box.Objection layout layout.byteCount memory fault ∧
        ∀ painter, box.paint layout painter memory = (.refused fault, box)) ∨
      box.Admits layout layout.byteCount memory ∧
        ∃ given : Array UInt8, given.size = layout.byteCount ∧
        ∀ painter, box.paint layout painter memory =
          (if (painter given).finished then .done given else .aborted,
            { box with
              pixels := drawn box.pixels (painter given).pixels layout.byteCount, layout }) := by
  cases hrefusal : layout.refusal? box.closed layout.byteCount (box.room memory) with
  | some fault =>
      refine .inl ⟨fault, (refusal?_eq_some_iff hbox).mp hrefusal, fun painter => ?_⟩
      rw [paint_eq, hrefusal]
  | none =>
      have hgiven : (firstOf (lengthened box.pixels layout.byteCount) layout.byteCount).size =
          layout.byteCount := by
        simp only [size_firstOf, size_lengthened]
        omega
      refine .inr ⟨(refusal?_eq_none_iff hbox).mp hrefusal, _, hgiven, fun painter => ?_⟩
      rw [paint_eq, hrefusal]

/-- A finished picture is refused for its objection and for nothing else, and a refusal leaves
the mailbox as it was. -/
structure SubmitsExactly (box : Mailbox) (layout : Layout) (pixels : Array UInt8)
    (memory : Memory) : Prop where
  refused_iff : ∀ fault, (box.submit layout pixels memory).1 = .refused fault ↔
    box.Objection layout pixels.size memory fault
  done_iff : (box.submit layout pixels memory).1 = .done () ↔ box.Admits layout pixels.size memory
  keeps : ∀ fault, (box.submit layout pixels memory).1 = .refused fault →
    (box.submit layout pixels memory).2 = box

/-- What comes of drawing a picture with this layout hangs on the painter, so painters are let to
the storage. -/
def LetsPaint (box : Mailbox) (layout : Layout) (memory : Memory) : Prop :=
  ∃ one other : Painter, box.paint layout one memory ≠ box.paint layout other memory

/-- Drawing a picture meets the same objections, except that a picture which is still to be drawn
cannot come short.  A painter is let to the storage exactly if there is none; it is given as many
bytes as the layout covers, and the outcome is how it has ended. -/
structure PaintsExactly (box : Mailbox) (layout : Layout) (painter : Painter) (memory : Memory) :
    Prop where
  refused_iff : ∀ fault, (box.paint layout painter memory).1 = .refused fault ↔
    box.Objection layout layout.byteCount memory fault
  not_short : ∀ needed got,
    (box.paint layout painter memory).1 ≠ .refused (.shortPicture needed got)
  keeps : ∀ fault, (box.paint layout painter memory).1 = .refused fault →
    (box.paint layout painter memory).2 = box
  runs_iff : box.LetsPaint layout memory ↔
    ∀ fault, (box.paint layout painter memory).1 ≠ .refused fault
  ends : box.Admits layout layout.byteCount memory →
    ∃ given : Array UInt8, given.size = layout.byteCount ∧
      (box.paint layout painter memory).1 =
        if (painter given).finished then .done given else .aborted

theorem submitsExactly (hbox : box.WellFormed) (layout : Layout) (pixels : Array UInt8)
    (memory : Memory) :
    box.SubmitsExactly layout pixels memory := by
  rcases submit_cases hbox layout pixels memory with ⟨cause, hcause, hsubmit⟩ | ⟨hadmits, hsubmit⟩
  · constructor
    case refused_iff =>
      intro fault
      rw [hsubmit, Outcome.refused.injEq]
      exact ⟨fun h => h ▸ hcause, fun h => hcause.unique h⟩
    case done_iff =>
      rw [hsubmit]
      exact ⟨nofun, fun h => (admits_iff.mp h cause hcause).elim⟩
    case keeps => exact fun _ _ => congrArg Prod.snd hsubmit
  · constructor
    case refused_iff =>
      intro fault
      rw [hsubmit]
      exact ⟨nofun, fun h => (admits_iff.mp hadmits fault h).elim⟩
    case done_iff =>
      rw [hsubmit]
      exact ⟨fun _ => hadmits, fun _ => rfl⟩
    case keeps =>
      intro fault hrefused
      rw [hsubmit] at hrefused
      cases hrefused

theorem paintsExactly (hbox : box.WellFormed) (layout : Layout) (painter : Painter)
    (memory : Memory) :
    box.PaintsExactly layout painter memory := by
  rcases paint_cases hbox layout memory with
    ⟨cause, hcause, hpaint⟩ | ⟨hadmits, given, hgiven, hpaint⟩
  · have houtcome : (box.paint layout painter memory).1 = .refused cause :=
      congrArg Prod.fst (hpaint painter)
    constructor
    case refused_iff =>
      intro fault
      rw [houtcome, Outcome.refused.injEq]
      exact ⟨fun h => h ▸ hcause, fun h => hcause.unique h⟩
    case not_short =>
      intro needed got hshort
      rw [houtcome, Outcome.refused.injEq] at hshort
      rw [hshort] at hcause
      cases hcause with
      | short _ _ hsupplied => exact Nat.lt_irrefl _ hsupplied
    case keeps => exact fun _ _ => congrArg Prod.snd (hpaint painter)
    case runs_iff =>
      constructor
      · rintro ⟨one, other, hdiffers⟩
        rw [hpaint one, hpaint other] at hdiffers
        exact (hdiffers rfl).elim
      · exact fun h => (h cause houtcome).elim
    case ends => exact fun h => (admits_iff.mp h cause hcause).elim
  · have houtcome (other : Painter) : (box.paint layout other memory).1 =
        if (other given).finished then .done given else .aborted :=
      congrArg Prod.fst (hpaint other)
    have htaken (fault : Fault) : (box.paint layout painter memory).1 ≠ .refused fault := by
      rw [houtcome]
      split <;> simp
    constructor
    case refused_iff =>
      exact fun fault =>
        ⟨fun h => (htaken fault h).elim, fun h => (admits_iff.mp hadmits fault h).elim⟩
    case not_short => exact fun needed got => htaken _
    case keeps => exact fun fault h => (htaken fault h).elim
    case runs_iff =>
      refine ⟨fun _ => htaken, fun _ => ?_⟩
      -- A painter that comes to its end and one that gives up are told apart.
      refine ⟨fun bytes => ⟨bytes, true⟩, fun bytes => ⟨bytes, false⟩, fun hsame => ?_⟩
      have hends := congrArg Prod.fst hsame
      rw [houtcome, houtcome] at hends
      cases hends
    case ends => exact fun _ => ⟨given, hgiven, houtcome painter⟩

/-- In every mailbox that can be reached a picture is refused for the first objection to it and
for nothing else, handed over or drawn, and leaves no trace then. -/
theorem objections_exact (ops : List Op) (layout : Layout) (pixels : Array UInt8)
    (painter : Painter) (memory : Memory) :
    (shut.after ops).SubmitsExactly layout pixels memory ∧
      (shut.after ops).PaintsExactly layout painter memory := by
  have hbox := wellFormed_after ops
  exact ⟨submitsExactly hbox layout pixels memory, paintsExactly hbox layout painter memory⟩

end Mailbox

/-! ## Copying a picture in -/

/-- The painter that copies the beginning of a finished picture, and gives up where there is too
little of it. -/
def Painter.copy (source : Array UInt8) : Painter := fun given =>
  if given.size ≤ source.size then ⟨firstOf source given.size, true⟩ else ⟨given, false⟩

namespace Mailbox

/-- Lets a painter copy a finished picture into the storage, and announces it there if it was
taken. -/
def copyIn (box : Mailbox) (layout : Layout) (pixels : Array UInt8)
    (memory : Memory := .ample) : Outcome Unit × Mailbox :=
  match box.paint layout (Painter.copy pixels) memory with
  | (.done _, later) => (.done (), later.signal)
  | (.refused fault, later) => (.refused fault, later)
  | (.aborted, later) => (.aborted, later)

theorem drawn_firstOf (bytes marks : Array UInt8) (needed : Nat) :
    drawn bytes (firstOf marks needed) needed = drawn bytes marks needed := by
  have hfirst : firstOf (firstOf marks needed) needed = firstOf marks needed := by
    have hsize : (firstOf marks needed).size ≤ needed := by
      rw [size_firstOf]
      exact Nat.min_le_left _ _
    rw [firstOf, if_pos hsize]
  rw [drawn, drawn, hfirst]

variable {box : Mailbox} {layout : Layout} {supplied : Nat} {memory : Memory} {fault : Fault}

/-- More bytes than the layout covers are of no consequence, and none is looked for where they
cannot be counted. -/
theorem objection_iff_of_covers
    (hcovers : layout.byteCount ≤ supplied ∨ wordCount ≤ layout.byteCount) :
    box.Objection layout supplied memory fault ↔
      box.Objection layout layout.byteCount memory fault := by
  constructor
  all_goals
    intro h
    cases h with
    | narrow hnarrow => exact .narrow hnarrow
    | uncountable hrows hlarge => exact .uncountable hrows hlarge
    | short hrows hword hshort => omega
    | closed hrows hword _ hclosed => exact .closed hrows hword (by omega) hclosed
    | unobtainable hrows hword _ hopen hgrows hlarge =>
        exact .unobtainable hrows hword (by omega) hopen hgrows hlarge

/-- In every mailbox that can be reached, a finished picture that is copied into the storage and
announced has the same outcome as one that is handed over, and leaves the same mailbox.  The
picture may bring bytes beyond those of its layout. -/
theorem copyIn_eq_submit (ops : List Op) (layout : Layout) (pixels : Array UInt8)
    (memory : Memory) (hcovers : layout.byteCount ≤ pixels.size ∨ wordCount ≤ layout.byteCount) :
    (shut.after ops).copyIn layout pixels memory =
      (shut.after ops).submit layout pixels memory := by
  obtain ⟨box, hboxEq⟩ : ∃ box, box = shut.after ops := ⟨_, rfl⟩
  have hbox : box.WellFormed := by
    rw [hboxEq]
    exact wellFormed_after ops
  rw [← hboxEq]
  rcases submit_cases hbox layout pixels memory with ⟨fault, hfault, hsubmit⟩ | ⟨hadmits, hsubmit⟩
  · rcases paint_cases hbox layout memory with ⟨cause, hcause, hpaint⟩ | ⟨hadmits, -, -, -⟩
    · have hsame := ((objection_iff_of_covers hcovers).mp hfault).unique hcause
      rw [copyIn, hpaint, hsubmit, hsame]
    · exact (admits_iff.mp hadmits fault ((objection_iff_of_covers hcovers).mp hfault)).elim
  · rcases paint_cases hbox layout memory with ⟨cause, hcause, -⟩ | ⟨-, given, hgiven, hpaint⟩
    · exact (admits_iff.mp hadmits cause ((objection_iff_of_covers hcovers).mpr hcause)).elim
    · have hcopied : Painter.copy pixels given = ⟨firstOf pixels layout.byteCount, true⟩ := by
        rw [Painter.copy, hgiven, if_pos hadmits.supplied]
      rw [copyIn, hpaint, hsubmit, hcopied]
      simp only [if_true, drawn_firstOf, signal_eq, hadmits.opened, Bool.not_false, Bool.or_true]

/-- The law at work on storage for eight bytes in which a picture waits: one of five bytes, of
which six are brought, is copied over its beginning. -/
theorem copyIn_eq_submit_over_waiting :
    let ops : List Op := [.reopen, .submit ⟨2, 1, 8⟩ #[1, 2, 3, 4, 5, 6, 7, 8]]
    let layout : Layout := ⟨1, 1, 5⟩
    let pixels : Array UInt8 := #[9, 9, 9, 9, 9, 10]
    (layout.byteCount ≤ pixels.size ∨ wordCount ≤ layout.byteCount) ∧
      (shut.after ops).copyIn layout pixels = (shut.after ops).submit layout pixels ∧
      (shut.after ops).copyIn layout pixels =
        (.done (), ⟨#[9, 9, 9, 9, 9, 6, 7, 8], layout, true, false⟩) := by
  intro ops layout pixels
  have hcovers : layout.byteCount ≤ pixels.size ∨ wordCount ≤ layout.byteCount := .inl (by decide)
  exact ⟨hcovers, copyIn_eq_submit ops layout pixels .ample hcovers, by decide⟩

end Mailbox
end Framestep
