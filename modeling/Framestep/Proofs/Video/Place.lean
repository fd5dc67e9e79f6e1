import Framestep.Proofs.Trace
import Framestep.Proofs.Video.Storage

/-!
# The mailbox is a single place

`Place` is a place for one picture: two flags, a layout, and a tape of bytes that is
zero from the start on and knows nothing of storage.  The main statement,
`Mailbox.trace_matches_place`, follows a new mailbox and such a place through any
sequence of operations: they give the same answers, and what is in the mailbox is
what is in the place after every one of them.  So nothing that a host finds depends
on how the storage has grown, and no check in the mailbox ever fails.
-/

namespace Framestep

/-- An operation on a mailbox.  Nothing else happens while a host looks into it. -/
inductive Mailbox.Op where
  | reopen
  | close
  | submit (layout : Layout) (pixels : Array UInt8) (memory : Memory := .ample)
  | paint (layout : Layout) (painter : Painter) (memory : Memory := .ample)
  | signal
  | collect

inductive Mailbox.Answer where
  | nothing
  | submitted (outcome : Outcome Unit)
  | painted (outcome : Outcome (Array UInt8))
  | found (outcome : Outcome Arrival)
  deriving DecidableEq, Repr

/-! ## The place -/

structure Place where
  closed : Bool
  /-- Whether a picture is announced that no host has found. -/
  pending : Bool
  layout : Layout
  bytes : Nat → UInt8
  /-- Bytes of the largest picture since the place was closed. -/
  extent : Nat

namespace Place

def shut : Place :=
  { closed := true, pending := false, layout := ⟨0, 0, 0⟩, bytes := fun _ => 0, extent := 0 }

def first (place : Place) (count : Nat) : Array UInt8 :=
  Array.ofFn fun i : Fin count => place.bytes i

/-- The bytes of the largest picture that the place takes: one as large as another before it
needs no memory. -/
def room (place : Place) (memory : Memory) : Nat := max place.extent memory.limit

/-- The place with the marks of a picture over its first bytes. -/
def draw (place : Place) (layout : Layout) (marks : Array UInt8) : Place :=
  { place with
    layout
    bytes := fun i =>
      if i < layout.byteCount then marks.getD i (place.bytes i) else place.bytes i
    extent := max place.extent layout.byteCount }

def collect (place : Place) : Arrival × Place :=
  if place.closed then (.closed, place)
  else if place.pending then
    (if 0 < place.layout.width ∧ 0 < place.layout.height then
        .presented ⟨place.layout, place.first place.layout.byteCount⟩
      else .empty,
      { place with pending := false })
  else (.timedOut, place)

def perform (place : Place) : Mailbox.Op → Mailbox.Answer × Place
  | .reopen => (.nothing, { place with closed := false, pending := false })
  | .close => (.nothing, shut)
  | .submit layout pixels memory =>
    match layout.refusal? place.closed pixels.size (place.room memory) with
    | some fault => (.submitted (.refused fault), place)
    | none => (.submitted (.done ()), { place.draw layout pixels with pending := true })
  | .paint layout painter memory =>
    match layout.refusal? place.closed layout.byteCount (place.room memory) with
    | some fault => (.painted (.refused fault), place)
    | none =>
      let given := place.first layout.byteCount
      (.painted (if (painter given).finished then .done given else .aborted),
        place.draw layout (painter given).pixels)
  | .signal => (.nothing, { place with pending := place.pending || !place.closed })
  | .collect =>
    let (arrival, place) := place.collect
    (.found (.done arrival), place)

end Place

/-! ## The mailbox beside it -/

namespace Mailbox

def perform (box : Mailbox) : Op → Answer × Mailbox
  | .reopen => (.nothing, box.reopen)
  | .close => (.nothing, box.close)
  | .submit layout pixels memory =>
    let (outcome, box) := box.submit layout pixels memory
    (.submitted outcome, box)
  | .paint layout painter memory =>
    let (outcome, box) := box.paint layout painter memory
    (.painted outcome, box)
  | .signal => (.nothing, box.signal)
  | .collect =>
    let (outcome, box) := box.collect
    (.found outcome, box)

def view (box : Mailbox) : Place :=
  { closed := box.closed, pending := box.available, layout := box.layout,
    bytes := byteAt box.pixels, extent := box.allocated }

/-- What is in the mailbox is what is in the place. -/
def StandsFor (box : Mailbox) (place : Place) : Prop := box.view = place

variable {box : Mailbox}

theorem signal_eq (box : Mailbox) :
    box.signal = { box with available := box.available || !box.closed } := by
  unfold signal
  cases hclosed : box.closed with
  | true => cases box; simp_all
  | false => simp

/-- The first bytes of storage are the first bytes of the tape. -/
theorem first_eq_firstOf {place : Place} {bytes : Array UInt8} {count : Nat}
    (hfits : count ≤ bytes.size) (hbytes : ∀ i, place.bytes i = byteAt bytes i) :
    place.first count = firstOf bytes count := by
  apply ext_byteAt
  · simp only [Place.first, Array.size_ofFn, size_firstOf]
    omega
  · intro i hi
    have hcount : i < count := by simpa [Place.first] using hi
    rw [byteAt_of_lt hi, byteAt_firstOf bytes hcount]
    simp only [Place.first, Array.getElem_ofFn]
    exact hbytes i

/-- A picture drawn in the storage is drawn on the tape. -/
theorem view_drawn (layout : Layout) (marks : Array UInt8) (available : Bool) :
    view { box with pixels := drawn box.pixels marks layout.byteCount, layout, available } =
      { box.view.draw layout marks with pending := available } := by
  have hbytes : byteAt (drawn box.pixels marks layout.byteCount) =
      fun i => if i < layout.byteCount then marks.getD i (byteAt box.pixels i)
        else byteAt box.pixels i := by
    funext i
    exact byteAt_drawn box.pixels marks layout.byteCount i
  simp only [view, Place.draw, hbytes, allocated, size_drawn]

/-- A host finds in the mailbox what it would find in the place. -/
theorem collect_view (hbox : box.WellFormed) :
    box.collect.1 = .done box.view.collect.1 ∧ box.collect.2.view = box.view.collect.2 ∧
      box.collect.2.WellFormed := by
  have hfirst : box.view.first box.layout.byteCount =
      firstOf box.pixels box.layout.byteCount :=
    first_eq_firstOf hbox.covers fun i => rfl
  have hplace : box.view.collect =
      if box.closed then (.closed, box.view)
      else if box.available then
        (if 0 < box.layout.width ∧ 0 < box.layout.height then
            .presented ⟨box.layout, firstOf box.pixels box.layout.byteCount⟩ else .empty,
          { box.view with pending := false })
      else (.timedOut, box.view) := by
    rw [← hfirst]
    rfl
  rw [collect_eq hbox, hplace]
  by_cases hclosed : box.closed
  · simp only [if_pos hclosed]
    exact ⟨trivial, trivial, hbox⟩
  · simp only [if_neg hclosed]
    by_cases havailable : box.available
    · simp only [if_pos havailable]
      exact ⟨trivial, rfl, hbox.covers, hbox.allocated⟩
    · simp only [if_neg havailable]
      exact ⟨trivial, trivial, hbox⟩

/-- One operation: the mailbox answers as the place does, stands for what becomes of the
place, and stays in order. -/
theorem perform_view (hbox : box.WellFormed) (op : Op) :
    (box.perform op).1 = (box.view.perform op).1 ∧
      (box.perform op).2.view = (box.view.perform op).2 ∧ (box.perform op).2.WellFormed := by
  cases op with
  | reopen => exact ⟨rfl, rfl, hbox.covers, hbox.allocated⟩
  | close => exact ⟨rfl, rfl, wellFormed_shut⟩
  | submit layout pixels memory =>
      simp only [perform, Place.perform, submit_eq]
      have hclosed : box.view.closed = box.closed := rfl
      have hroom : box.view.room memory = box.room memory := rfl
      rw [hclosed, hroom]
      cases hrefusal : layout.refusal? box.closed pixels.size (box.room memory) with
      | some fault => exact ⟨rfl, rfl, hbox⟩
      | none =>
          exact ⟨rfl, view_drawn layout pixels true, wellFormed_drawn hbox hrefusal pixels true⟩
  | paint layout painter memory =>
      simp only [perform, Place.perform, paint_eq]
      have hclosed : box.view.closed = box.closed := rfl
      have hroom : box.view.room memory = box.room memory := rfl
      -- The painter sees the tape: zeros where the storage has just been lengthened.
      have hgiven : box.view.first layout.byteCount =
          firstOf (lengthened box.pixels layout.byteCount) layout.byteCount := by
        apply first_eq_firstOf
        · rw [size_lengthened]
          exact Nat.le_max_right _ _
        · intro i
          exact (byteAt_lengthened box.pixels layout.byteCount i).symm
      rw [hclosed, hroom, hgiven]
      cases hrefusal : layout.refusal? box.closed layout.byteCount (box.room memory) with
      | some fault => exact ⟨rfl, rfl, hbox⟩
      | none =>
          exact ⟨rfl, view_drawn layout _ box.available,
            wellFormed_drawn hbox hrefusal _ box.available⟩
  | signal =>
      simp only [perform, Place.perform, signal_eq]
      exact ⟨trivial, rfl, hbox.covers, hbox.allocated⟩
  | collect =>
      obtain ⟨hfound, hview, hnext⟩ := collect_view hbox
      exact ⟨congrArg Answer.found hfound, hview, hnext⟩

/-- A mailbox that is in order, and the place it stands for. -/
def InStep (box : Mailbox) (place : Place) : Prop := box.WellFormed ∧ box.view = place

theorem agrees_perform {place : Place} (hstep : box.InStep place) (op : Op) :
    Agrees InStep (box.perform op) (place.perform op) := by
  obtain ⟨hbox, rfl⟩ := hstep
  obtain ⟨hanswer, hview, hnext⟩ := perform_view hbox op
  exact ⟨hanswer, hnext, hview⟩

/-- A mailbox behaves as a single place: after each of any operations on a new one, both
have answered alike and what is in the mailbox is what is in the place. -/
theorem trace_matches_place (ops : List Op) :
    List.Forall₂ (Agrees StandsFor) (trace perform shut ops)
      (trace Place.perform Place.shut ops) := by
  have hnew : shut.InStep Place.shut := by
    have hbytes : byteAt #[] = fun _ => 0 := by
      funext i
      rfl
    refine ⟨wellFormed_shut, ?_⟩
    simp only [view, shut, hbytes]
    rfl
  have htrace := forall₂_trace (fun _ _ op hstep _ => agrees_perform hstep op) hnew ops
    fun _ _ => trivial
  exact htrace.imp fun _ _ h => h.mono fun _ _ hstep => hstep.2

end Mailbox

end Framestep
