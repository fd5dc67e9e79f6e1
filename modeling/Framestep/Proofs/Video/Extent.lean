import Framestep.Proofs.Video.Admission

/-!
# How far the storage reaches

The storage of a mailbox is as large as the largest picture that was taken since the mailbox was
last closed, and the layout in the mailbox may be a smaller one.  What is cut out of the storage
for a painter or for a host is cut by the layout, so the two must fit together after every
operation, also after one in which a painter or a host has given up.

`Mailbox.Reached` follows a mailbox from the new one through any such operations, and keeps the
layouts of the pictures that were taken.  The main statement, `Mailbox.reached_fits`, gives the
size of the storage by these layouts and says that every operation stays within it.
-/

namespace Framestep
namespace Mailbox

/-! ## Pictures that are taken -/

/-- The layout of the picture that an operation brings or has drawn. -/
def Op.layout? : Op → Option Layout
  | .submit layout _ _ | .paint layout _ _ => some layout
  | _ => none

/-- The layouts of the pictures taken since the mailbox was last closed, the newest first.  A
picture is taken also if its painter gives up. -/
def takenBy (box : Mailbox) (op : Op) (taken : List Layout) : List Layout :=
  match op with
  | .close => []
  | op => if box.refuses op then taken else op.layout?.toList ++ taken

/-- The layouts of the pictures taken in the course of operations and before. -/
def takenIn (box : Mailbox) : List Op → List Layout → List Layout
  | [], taken => taken
  | op :: ops, taken => (box.perform op).2.takenIn ops (box.takenBy op taken)

/-- Shows the picture that a host finds to the host, which may not come back from that. -/
def present (box : Mailbox) (returns : View → Bool) : Outcome Arrival × Mailbox :=
  match box.collect with
  | (.done (.presented view), rest) =>
    (if returns view then .done (.presented view) else .aborted, rest)
  | (outcome, rest) => (outcome, rest)

/-- A mailbox that was new and then used in any way, with the pictures it has taken since it was
last closed. -/
inductive Reached : List Layout → Mailbox → Prop where
  | unused : Reached [] shut
  | performed {taken : List Layout} {box : Mailbox} (hbox : Reached taken box) (op : Op) :
      Reached (box.takenBy op taken) (box.perform op).2
  | presented {taken : List Layout} {box : Mailbox} (hbox : Reached taken box)
      (returns : View → Bool) : Reached taken (box.present returns).2

/-- The largest number of bytes that one of these pictures covers. -/
def largest (taken : List Layout) : Nat := (taken.map Layout.byteCount).foldr max 0

/-- The storage fits the picture in it and those that were taken. -/
structure Fits (box : Mailbox) (taken : List Layout) : Prop where
  rows : box.layout.rowBytes ≤ box.layout.stride
  covers : box.layout.byteCount ≤ box.allocated
  allocated_le : box.allocated ≤ maxAllocation
  closed : box.closed = true → box = shut
  extent : box.allocated = largest taken

variable {box : Mailbox} {taken : List Layout}

theorem Fits.wellFormed (h : box.Fits taken) : box.WellFormed := ⟨h.covers, h.allocated_le⟩

/-! ## Single operations -/

/-- A picture that is taken comes to lie in storage that has grown for it if it had to. -/
theorem perform_of_taken (hbox : box.WellFormed) {op : Op} {layout : Layout}
    (hop : op.layout? = some layout) (htaken : box.refuses op = false) :
    (layout.rowBytes ≤ layout.stride ∧ layout.byteCount ≤ maxAllocation) ∧ box.closed = false ∧
      ∃ pixels available, pixels.size = max box.pixels.size layout.byteCount ∧
        (box.perform op).2 = { box with pixels, layout, available } := by
  cases op with
  | submit given pixels memory =>
      obtain rfl : given = layout := Option.some.inj hop
      have hroom := room_le hbox memory
      simp only [refuses, perform, submit_eq] at htaken ⊢
      cases hrefusal : given.refusal? box.closed pixels.size (box.room memory) with
      | some fault => simp [hrefusal, Answer.isRefusal] at htaken
      | none =>
          obtain ⟨hrows, -, hopen, hlarge⟩ := (Layout.refusal?_eq_none_iff hroom).mp hrefusal
          exact ⟨⟨hrows, Nat.le_trans hlarge hroom⟩, hopen, _, _, size_drawn .., rfl⟩
  | paint given painter memory =>
      obtain rfl : given = layout := Option.some.inj hop
      have hroom := room_le hbox memory
      simp only [refuses, perform, paint_eq] at htaken ⊢
      cases hrefusal : given.refusal? box.closed given.byteCount (box.room memory) with
      | some fault => simp [hrefusal, Answer.isRefusal] at htaken
      | none =>
          obtain ⟨hrows, -, hopen, hlarge⟩ := (Layout.refusal?_eq_none_iff hroom).mp hrefusal
          exact ⟨⟨hrows, Nat.le_trans hlarge hroom⟩, hopen, _, _, size_drawn .., rfl⟩
  | _ => cases hop

/-- An operation that has to do with no picture leaves the storage and the layout, and closes no
mailbox. -/
theorem perform_of_none (hbox : box.WellFormed) {op : Op} (hop : op.layout? = none)
    (hkeeps : op ≠ .close) :
    (box.perform op).2.pixels = box.pixels ∧ (box.perform op).2.layout = box.layout ∧
      ((box.perform op).2.closed = true → (box.perform op).2 = box) := by
  cases op with
  | reopen => exact ⟨rfl, rfl, nofun⟩
  | close => exact (hkeeps rfl).elim
  | submit layout pixels memory => cases hop
  | paint layout painter memory => cases hop
  | signal =>
      refine ⟨by simp only [perform, signal_eq], by simp only [perform, signal_eq], ?_⟩
      simp only [perform, signal]
      split
      · exact fun _ => rfl
      · next hopen => exact fun hclosed => (hopen hclosed).elim
  | collect =>
      simp only [perform, collect_eq hbox]
      by_cases hclosed : box.closed
      · simp [hclosed]
      · by_cases havailable : box.available
        · simp [hclosed, havailable]
        · simp [hclosed, havailable]

theorem snd_present (box : Mailbox) (returns : View → Bool) :
    (box.present returns).2 = (box.perform .collect).2 := by
  simp only [present, perform]
  split
  · next hcollect => rw [hcollect]
  · next hcollect => rw [hcollect]

/-- How a host fares that is shown what it finds: nothing but its own giving up stops it. -/
theorem fst_present (hbox : box.WellFormed) (returns : View → Bool) :
    ∃ arrival, box.collect.1 = .done arrival ∧
      (box.present returns).1 =
        match arrival with
        | .presented view => if returns view then .done (.presented view) else .aborted
        | other => .done other := by
  obtain ⟨hfound, -⟩ := collect_view hbox
  refine ⟨box.view.collect.1, hfound, ?_⟩
  obtain ⟨rest, hcollect⟩ : ∃ rest, box.collect = (.done box.view.collect.1, rest) :=
    ⟨_, Prod.ext hfound rfl⟩
  simp only [present, hcollect]
  cases box.view.collect.1 <;> rfl

/-! ## Runs -/

theorem fits_shut : shut.Fits [] := by
  constructor
  case rows => decide
  case covers => decide
  case allocated_le => decide
  case closed => exact fun _ => rfl
  case extent => rfl

theorem fits_perform (hbox : box.Fits taken) (op : Op) :
    (box.perform op).2.Fits (box.takenBy op taken) := by
  have hwell := hbox.wellFormed
  by_cases hclose : op = .close
  · subst hclose
    exact fits_shut
  have htakenBy : box.takenBy op taken =
      if box.refuses op then taken else op.layout?.toList ++ taken := by
    cases op with
    | close => exact (hclose rfl).elim
    | _ => rfl
  rw [htakenBy]
  -- A picture that is refused changes nothing, and any other one is taken.
  by_cases hrefuses : box.refuses op = true
  · rw [if_pos hrefuses, perform_of_refuses hrefuses]
    exact hbox
  rw [if_neg hrefuses]
  cases hlayout : op.layout? with
  | none =>
      obtain ⟨hpixels, hkept, hclosed⟩ := perform_of_none hwell hlayout hclose
      have hallocated : (box.perform op).2.allocated = box.allocated := congrArg Array.size hpixels
      constructor
      case rows => rw [hkept]; exact hbox.rows
      case covers => rw [hkept, hallocated]; exact hbox.covers
      case allocated_le => rw [hallocated]; exact hbox.allocated_le
      case closed =>
        intro h
        have hsame := hclosed h
        rw [hsame] at h ⊢
        exact hbox.closed h
      case extent => rw [hallocated]; exact hbox.extent
  | some layout =>
      rw [Bool.not_eq_true] at hrefuses
      obtain ⟨⟨hrows, hlarge⟩, hopen, pixels, available, hsize, hlater⟩ :=
        perform_of_taken hwell hlayout hrefuses
      have hallocated := hbox.allocated_le
      have hextent := hbox.extent
      simp only [allocated] at hallocated hextent
      rw [hlater]
      constructor
      case rows => exact hrows
      case covers =>
        simp only [allocated, hsize]
        exact Nat.le_max_right _ _
      case allocated_le =>
        simp only [allocated, hsize]
        exact Nat.max_le.mpr ⟨hallocated, hlarge⟩
      case closed =>
        intro hclosed
        rw [hopen] at hclosed
        cases hclosed
      case extent =>
        simp only [allocated, hsize, hextent, largest, Option.toList_some, List.singleton_append,
          List.map_cons, List.foldr_cons]
        exact Nat.max_comm _ _

theorem Reached.after (h : Reached taken box) (ops : List Op) :
    Reached (box.takenIn ops taken) (box.after ops) := by
  induction ops generalizing box taken with
  | nil => exact h
  | cons op ops ih => exact ih (h.performed op)

theorem Reached.fits (h : Reached taken box) : box.Fits taken := by
  induction h with
  | unused => exact fits_shut
  | performed _ op ih => exact fits_perform ih op
  | presented _ returns ih =>
      rw [snd_present]
      exact fits_perform ih .collect

/-! ## Staying within the storage -/

/-- What is copied into the storage, let to a painter or shown to a host is there. -/
structure StaysWithin (box : Mailbox) : Prop where
  /-- A picture that comes in brings the bytes that its layout covers, and finds room for them. -/
  copies : ∀ layout pixels memory, (box.submit layout pixels memory).1 = .done () →
    (firstOf pixels layout.byteCount).size = layout.byteCount ∧
      layout.byteCount ≤ (box.submit layout pixels memory).2.allocated
  /-- A painter that is let to the storage is given as many bytes as the layout covers, which the
  storage has. -/
  lets : ∀ layout painter memory, (∀ fault, (box.paint layout painter memory).1 ≠ .refused fault) →
    layout.byteCount ≤ (box.paint layout painter memory).2.allocated ∧
      ∃ given : Array UInt8, given.size = layout.byteCount ∧
        (box.paint layout painter memory).1 =
          if (painter given).finished then .done given else .aborted
  /-- A host is shown all bytes of the picture and no others. -/
  shows : ∀ view, box.collect.1 = .done (.presented view) →
    view.layout = box.layout ∧ view.pixels.size = view.layout.height * view.layout.stride
  /-- Looking into the mailbox is stopped by no check, only by a host that gives up. -/
  finds : ∀ returns, (box.present returns).1 = .aborted ↔
    ∃ view, box.collect.1 = .done (.presented view) ∧ returns view = false
  /-- Storage is given back by closing the mailbox and by nothing else. -/
  keeps : ∀ op, op ≠ .close → box.allocated ≤ (box.perform op).2.allocated

theorem allocated_le_perform (hbox : box.WellFormed) {op : Op} (hop : op ≠ .close) :
    box.allocated ≤ (box.perform op).2.allocated := by
  by_cases hrefuses : box.refuses op = true
  · exact Nat.le_of_eq (congrArg allocated (perform_of_refuses hrefuses).symm)
  · cases hlayout : op.layout? with
    | none =>
        obtain ⟨hpixels, -⟩ := perform_of_none hbox hlayout hop
        exact Nat.le_of_eq (congrArg Array.size hpixels.symm)
    | some layout =>
        rw [Bool.not_eq_true] at hrefuses
        obtain ⟨-, -, pixels, available, hsize, hlater⟩ := perform_of_taken hbox hlayout hrefuses
        simp only [hlater, allocated, hsize]
        exact Nat.le_max_left _ _

theorem staysWithin (hbox : box.WellFormed) : box.StaysWithin := by
  constructor
  case copies =>
    intro layout pixels memory hdone
    have hadmits := (submitsExactly hbox layout pixels memory).done_iff.mp hdone
    rcases submit_cases hbox layout pixels memory with ⟨fault, hfault, -⟩ | ⟨-, hsubmit⟩
    · exact (admits_iff.mp hadmits fault hfault).elim
    · rw [hsubmit, size_firstOf]
      refine ⟨Nat.min_eq_left hadmits.supplied, ?_⟩
      simp only [allocated, size_drawn]
      exact Nat.le_max_right _ _
  case lets =>
    intro layout painter memory htaken
    rcases paint_cases hbox layout memory with ⟨fault, -, hpaint⟩ | ⟨-, given, hgiven, hpaint⟩
    · exact (htaken fault (congrArg Prod.fst (hpaint painter))).elim
    · rw [hpaint painter]
      refine ⟨?_, given, hgiven, rfl⟩
      simp only [allocated, size_drawn]
      exact Nat.le_max_right _ _
  case shows =>
    intro view hshown
    obtain ⟨-, -, -, hview⟩ := (collect_eq_presented_iff hbox).mp hshown
    rw [hview]
    refine ⟨rfl, ?_⟩
    rw [size_firstOf]
    exact Nat.min_eq_left hbox.covers
  case finds =>
    intro returns
    obtain ⟨arrival, hfound, hpresent⟩ := fst_present hbox returns
    rw [hpresent, hfound]
    cases arrival with
    | presented view => cases hreturns : returns view <;> simp [hreturns]
    | _ => simp
  case keeps => exact fun op hop => allocated_le_perform hbox hop

/-- In every mailbox that can be reached, the picture fits the storage, the storage is exactly as
large as the largest picture taken since the mailbox was last closed, a closed mailbox is a new
one, and every operation stays within the storage. -/
theorem reached_fits (hreached : Reached taken box) :
    box.layout.height * box.layout.stride < wordCount ∧
      box.layout.height * box.layout.stride ≤ box.allocated ∧
      pixelBytes * box.layout.width ≤ box.layout.stride ∧
      (box.closed = true → box.allocated = 0 ∧ box.layout = ⟨0, 0, 0⟩ ∧ box.available = false) ∧
      box.allocated = largest taken ∧ box.StaysWithin := by
  have hfits := hreached.fits
  have hword : maxAllocation < wordCount := by decide
  refine ⟨?_, hfits.covers, hfits.rows, ?_, hfits.extent, staysWithin hfits.wellFormed⟩
  · exact Nat.lt_of_le_of_lt (Nat.le_trans hfits.covers hfits.allocated_le) hword
  · intro hclosed
    rw [hfits.closed hclosed]
    exact ⟨rfl, rfl, rfl⟩

/-- The law at work after a large picture, a smaller one whose painter gave up half way, a refused
one, and a host that did not come back from being shown it. -/
theorem reached_fits_of_gaveUp :
    let ops : List Op :=
      [.submit ⟨9, 9, 36⟩ #[], .reopen, .submit ⟨1, 2, 4⟩ #[1, 2, 3, 4, 5, 6, 7, 8],
        .paint ⟨1, 1, 5⟩ fun given => ⟨given.set! 0 9, false⟩, .submit ⟨2, 1, 7⟩ #[]]
    ∃ box, box = ((shut.after ops).present fun _ => false).2 ∧
      Reached [⟨1, 1, 5⟩, ⟨1, 2, 4⟩] box ∧
      box = ⟨#[9, 2, 3, 4, 5, 6, 7, 8], ⟨1, 1, 5⟩, false, false⟩ ∧
      ((shut.after ops).present fun _ => false).1 = .aborted ∧
      (shut.after ops).collect.1 = .done (.presented ⟨⟨1, 1, 5⟩, #[9, 2, 3, 4, 5]⟩) ∧
      box.allocated = largest [⟨1, 1, 5⟩, ⟨1, 2, 4⟩] ∧ box.StaysWithin := by
  intro ops
  obtain ⟨box, hbox⟩ : ∃ box, box = ((shut.after ops).present fun _ => false).2 := ⟨_, rfl⟩
  have htaken : shut.takenIn ops [] = [⟨1, 1, 5⟩, ⟨1, 2, 4⟩] := by decide
  have hreached : Reached [⟨1, 1, 5⟩, ⟨1, 2, 4⟩] box := by
    rw [hbox]
    rw [← htaken]
    exact (Reached.unused.after ops).presented _
  obtain ⟨-, -, -, -, hextent, hwithin⟩ := reached_fits hreached
  refine ⟨box, hbox, hreached, ?_, by decide, by decide, hextent, hwithin⟩
  rw [hbox]
  decide

end Mailbox
end Framestep
