import Framestep.Control.Tracker
import Mathlib.Data.List.Basic

/-!
# One round of reading

A round of reading is evaluated here once.  The level of a slot is what the reader
answers after the reads of the slots in front of it: `Reader.level?` says so without the
recursion of `Tracker.readSlots`, and `Tracker.readSlots_of_complete` proves that the
recursion finds just that.

The main statement is `Tracker.sample_of_complete`: a round that comes to its end
records which slots are on, and its events are the changes of the slots, with the move
of the pointer between the leading and the trailing ones.
-/

namespace Framestep

/-! ## Slots and their levels -/

namespace Slot

theorem mem_all (slot : Slot) : slot ∈ all := by
  cases slot with
  | action n => revert n; decide
  | pointer button => cases button <;> decide
  | _ => decide

theorem nodup_all : all.Nodup := by decide

end Slot

namespace Controls

variable (controls : Controls)

/-- The sources of the bound ones of these slots, in their order. -/
def sources (slots : List Slot) : List Source :=
  slots.filterMap fun slot => (controls slot).map Binding.source

theorem sources_append (first rest : List Slot) :
    controls.sources (first ++ rest) = controls.sources first ++ controls.sources rest :=
  List.filterMap_append

theorem sources_cons (first : Slot) (rest : List Slot) :
    controls.sources (first :: rest) = controls.sources [first] ++ controls.sources rest :=
  controls.sources_append [first] rest

/-- What the edges of a slot turn into.  There is nothing for a slot that is not bound,
and nothing for one of which only the level counts. -/
def action? (slot : Slot) : Option Action := (controls slot).bind Binding.action

/-- The event of a slot whose level was on or off and now is. -/
def change? (slot : Slot) (was is : Bool) : Option Event :=
  match controls.action? slot, was, is with
  | some action, false, true => some (action.edge true)
  | some action, true, false => some (action.edge false)
  | _, _, _ => none

theorem change?_of_action {slot : Slot} {action : Action}
    (haction : controls.action? slot = some action) (was is : Bool) :
    controls.change? slot was is = if was = is then none else some (action.edge is) := by
  simp only [change?, haction]
  cases was <;> cases is <;> rfl

end Controls

namespace Reader

variable {read : Reader} {controls : Controls} {first slot : Slot} {slots : List Slot}
  {asked : List Source}

/-- The level of a slot when `slots` are read in order, after the reads of `asked`: those in
front of it have been read by then. -/
def level? (read : Reader) (controls : Controls) (slots : List Slot) (asked : List Source)
    (slot : Slot) : Option Int16 := do
  let binding ← controls slot
  read ((controls.sources (slots.takeWhile (· ≠ slot))).reverse ++ asked) binding.source

/-- Whether the level of a slot is other than zero. -/
def isOn (read : Reader) (controls : Controls) (slots : List Slot) (asked : List Source)
    (slot : Slot) : Bool := (read.level? controls slots asked slot).any (· ≠ 0)

theorem level?_first :
    read.level? controls (first :: slots) asked first =
      (controls first).bind fun binding => read asked binding.source := by
  have hnone : (first :: slots).takeWhile (· ≠ first) = [] := by simp
  simp only [level?, hnone]
  rfl

theorem level?_later (hslot : slot ≠ first) :
    read.level? controls (first :: slots) asked slot =
      read.level? controls slots ((controls.sources [first]).reverse ++ asked) slot := by
  have hsome : (first :: slots).takeWhile (· ≠ slot) = [first] ++ slots.takeWhile (· ≠ slot) := by
    simp [hslot.symm]
  simp only [level?, hsome, Controls.sources_append, List.reverse_append, List.append_assoc]

end Reader

/-- Width and height can be told by signed 32-bit numbers. -/
def Size.FitsInt32 (size : Size) : Prop :=
  (size.width : Int) ≤ maxInt32 ∧ (size.height : Int) ≤ maxInt32

/-- A number that fits into 32 bits with its sign is still there when only those are left. -/
theorem wrapInt32_of_le {n : Nat} (h : (n : Int) ≤ maxInt32) : wrapInt32 n = n := by
  have hhalf : Nat.pow 2 31 = 2147483648 := rfl
  have hfull : Nat.pow 2 32 = 4294967296 := rfl
  rw [maxInt32] at h
  simp only [wrapInt32, hhalf, hfull]
  rw [Nat.mod_eq_of_lt (by omega), if_pos (by omega)]
  rfl

namespace Tracker

/-! ## The reads of a round -/

/-- Reads that all come back: the bound slots have been asked in order, and those are
pressed whose level is not zero. -/
theorem readSlots_of_complete {read : Reader} {controls : Controls} {slots : List Slot}
    {asked : List Source} (hslots : slots.Nodup) {now : List Slot}
    (h : (readSlots read controls slots asked).2 = some now) :
    (readSlots read controls slots asked).1 = (controls.sources slots).reverse ++ asked ∧
      now = slots.filter (read.isOn controls slots asked) := by
  induction slots generalizing asked now with
  | nil =>
      rw [readSlots, Option.some.injEq] at h
      exact ⟨rfl, h.symm⟩
  | cons first slots ih =>
      obtain ⟨hfirst, hslots⟩ := List.nodup_cons.mp hslots
      -- The other slots are read after the first, so their levels are those of a read of
      -- `slots` that starts from one source more.
      have hlater : slots.filter (read.isOn controls (first :: slots) asked) =
          slots.filter
            (read.isOn controls slots ((controls.sources [first]).reverse ++ asked)) := by
        apply List.filter_congr
        intro slot hslot
        rw [Reader.isOn, Reader.level?_later (ne_of_mem_of_not_mem hslot hfirst), Reader.isOn]
      rw [List.filter_cons, hlater, Reader.isOn, Reader.level?_first]
      cases hbound : controls first with
      | none =>
          have hnone : controls.sources [first] = [] := by simp [Controls.sources, hbound]
          simp only [readSlots, hbound] at h ⊢
          obtain ⟨hasked, hnow⟩ := ih hslots h
          rw [controls.sources_cons, hnone]
          exact ⟨hasked, hnow⟩
      | some binding =>
          have hsource : controls.sources [first] = [binding.source] := by
            simp [Controls.sources, hbound]
          cases hlevel : read asked binding.source with
          | none => simp [readSlots, hbound, hlevel] at h
          | some level =>
              simp only [readSlots, hbound, hlevel, Option.map_eq_some_iff] at h ⊢
              obtain ⟨rest, hrest, hnow⟩ := h
              obtain ⟨hasked, hpressed⟩ := ih hslots hrest
              rw [controls.sources_cons, hsource]
              refine ⟨by simpa using hasked, ?_⟩
              rw [← hnow, hpressed]
              by_cases hzero : level = 0 <;> simp [hlevel, hzero]

/-- Reads that never give up come to their end. -/
theorem readSlots_isSome {read : Reader} (hread : ∀ asked source, (read asked source).isSome)
    (controls : Controls) (slots : List Slot) (asked : List Source) :
    (readSlots read controls slots asked).2.isSome := by
  fun_induction readSlots read controls slots asked with
  | case1 => rfl
  | case2 slot slots asked hbound ih => exact ih
  | case3 slot slots asked binding hbound hlevel =>
      have hanswer := hread asked binding.source
      rw [hlevel] at hanswer
      cases hanswer
  | case4 slot slots asked binding hbound level hlevel later pressed hlater ih =>
      rw [Option.isSome_map]
      rw [hlater] at ih
      exact ih

/-! ## The events of a round -/

@[simp] theorem controls_sample (tracker : Tracker) (read : Reader) (size : Option Size) :
    (tracker.sample read size).tracker.controls = tracker.controls := by
  simp only [sample]
  split
  · rfl
  · split <;> rfl

@[simp] theorem mode_sample (tracker : Tracker) (read : Reader) (size : Option Size) :
    (tracker.sample read size).tracker.mode = tracker.mode := by
  simp only [sample]
  split
  · rfl
  · split <;> rfl

theorem edge?_eq (controls : Controls) (before now : List Slot) (slot : Slot) :
    edge? controls before now slot =
      controls.change? slot (decide (slot ∈ before)) (decide (slot ∈ now)) := by
  unfold edge? Controls.change? Controls.action?
  generalize decide (slot ∈ before) = was
  generalize decide (slot ∈ now) = is
  cases controls slot with
  | none => rfl
  | some binding =>
      obtain ⟨source, action⟩ := binding
      cases action with
      | none => rfl
      | some action => cases was <;> cases is <;> rfl

theorem length_move_le (before now : Cursor) : (move before now).length ≤ 1 := by
  unfold move
  split
  · exact Nat.zero_le 1
  · exact Nat.le_refl 1

theorem eq_moved_of_mem_move {before now : Cursor} {event : Event}
    (hevent : event ∈ move before now) : event = .moved now.x now.y := by
  unfold move at hevent
  split at hevent
  · cases hevent
  · exact List.mem_singleton.mp hevent

variable {tracker : Tracker} {read : Reader} {size : Option Size}

/-- A round whose slots could not all be read changes nothing. -/
theorem sample_of_lost {asked : List Source}
    (hreads : readSlots read tracker.controls Slot.all [] = (asked, none)) :
    tracker.sample read size = { asked, events := [], tracker, complete := false } := by
  cases tracker with
  | mk controls mode pressed cursor =>
      simp only at hreads
      simp only [sample, hreads]

/-- What a round does once its slots are read. -/
theorem sample_of_reads {asked : List Source} {now : List Slot}
    (hreads : readSlots read tracker.controls Slot.all [] = (asked, some now)) :
    tracker.sample read size =
      match tracker.aim read size now asked with
      | (asked, none) =>
        { asked, events := edges tracker.controls tracker.pressed now Slot.leading
          tracker :=
            { tracker with
              pressed := now.filter (· ∈ Slot.leading) ++
                tracker.pressed.filter (· ∈ Slot.trailing) }
          complete := false }
      | (asked, some target) =>
        { asked
          events := edges tracker.controls tracker.pressed now Slot.leading ++
            move tracker.cursor target ++ edges tracker.controls tracker.pressed now Slot.trailing
          tracker := { tracker with pressed := now, cursor := target }
          complete := true } := by
  -- With the tracker opened the kernel compares the reads as they stand; otherwise it
  -- unfolds them for all the slots.
  cases tracker with
  | mk controls mode pressed cursor =>
      simp only at hreads
      unfold sample
      dsimp only
      rewrite [hreads]
      rfl

/-- A round that comes to its end has recorded the slots that it found on.  Its events are
the changes of the leading slots, a move of the pointer if it has moved, and the changes
of the trailing slots. -/
theorem sample_of_complete (h : (tracker.sample read size).complete = true) :
    let sample := tracker.sample read size
    let on := read.isOn tracker.controls Slot.all []
    let changes := fun slot => tracker.controls.change? slot (tracker.isPressed slot) (on slot)
    (∀ slot, sample.tracker.isPressed slot = on slot) ∧
      sample.events = Slot.leading.filterMap changes ++
        move tracker.cursor sample.tracker.cursor ++ Slot.trailing.filterMap changes := by
  intro sample on changes
  cases hreads : readSlots read tracker.controls Slot.all [] with
  | mk asked found =>
      cases found with
      | none =>
          rw [sample_of_lost hreads] at h
          cases h
      | some now =>
          have hnow : now = Slot.all.filter on :=
            (readSlots_of_complete Slot.nodup_all (congrArg Prod.snd hreads)).2
          have hpressed (slot : Slot) : decide (slot ∈ now) = on slot := by
            simp [hnow, slot.mem_all]
          have hedges (slots : List Slot) :
              edges tracker.controls tracker.pressed now slots = slots.filterMap changes := by
            apply List.filterMap_congr
            intro slot _
            rw [edge?_eq, hpressed]
            rfl
          simp only [sample]
          rw [sample_of_reads hreads] at h ⊢
          cases haim : tracker.aim read size now asked with
          | mk later target =>
              cases target with
              | none =>
                  rw [haim] at h
                  cases h
              | some target =>
                  refine ⟨hpressed, ?_⟩
                  simp only [hedges]

theorem lastPixel?_of_le {pixels : Nat} (h : (pixels : Int) ≤ maxInt32) :
    lastPixel? pixels = some (max ((pixels : Int) - 1) 0) := by
  have hsmallest : ¬ (pixels : Int) = minInt32 := by
    rw [minInt32]
    omega
  simp only [lastPixel?, wrapInt32_of_le h, if_neg hsmallest]

/-- The directions take the cursor somewhere, within any picture whose size fits into 32 bits. -/
theorem steer?_isSome (cursor : Cursor) (step : Int) (now : List Slot)
    (hsize : ∀ known, size = some known → known.FitsInt32) :
    (steer? cursor step now size).isSome := by
  cases hknown : size with
  | none => rfl
  | some known =>
      obtain ⟨hwidth, hheight⟩ := hsize known hknown
      simp [steer?, lastPixel?_of_le hwidth, lastPixel?_of_le hheight]

/-- A round in which no read gives up comes to its end, if the size it is given fits into
32 bits. -/
theorem complete_sample (hread : ∀ asked source, (read asked source).isSome)
    (hsize : ∀ known, size = some known → known.FitsInt32) :
    (tracker.sample read size).complete = true := by
  -- The directions fail only for a size without a last pixel, a position only by its reads.
  have haims (now : List Slot) (asked : List Source) :
      ∃ later target, tracker.aim read size now asked = (later, some target) := by
    unfold aim
    split
    · exact ⟨_, _, rfl⟩
    · obtain ⟨target, htarget⟩ := Option.isSome_iff_exists.mp (steer?_isSome _ _ _ hsize)
      exact ⟨_, target, by rw [htarget]⟩
    · next xSource ySource hmode =>
        obtain ⟨x, hx⟩ := Option.isSome_iff_exists.mp (hread asked xSource)
        obtain ⟨y, hy⟩ := Option.isSome_iff_exists.mp (hread (xSource :: asked) ySource)
        simp [hx, hy]
  have hfound := readSlots_isSome hread tracker.controls Slot.all []
  cases hreads : readSlots read tracker.controls Slot.all [] with
  | mk asked found =>
      rw [hreads] at hfound
      obtain ⟨now, rfl⟩ := Option.isSome_iff_exists.mp hfound
      obtain ⟨later, target, haim⟩ := haims now asked
      rw [sample_of_reads hreads, haim]

/-- Only the directions take the picture into account. -/
theorem sample_of_not_directional (hmode : ∀ step, tracker.mode ≠ .directional step)
    (other : Option Size) : tracker.sample read size = tracker.sample read other := by
  have haim (now : List Slot) (asked : List Source) :
      tracker.aim read size now asked = tracker.aim read other now asked := by
    unfold aim
    split
    · rfl
    · next step hdirectional => exact (hmode step hdirectional).elim
    · rfl
  unfold sample
  simp only [haim]

/-- Where the directions can be steered the levels hang on the reads alone. -/
theorem pressed_sample_of_directional {step : Int} (hmode : tracker.mode = .directional step)
    (hsize : ∀ known, size = some known → known.FitsInt32) :
    (tracker.sample read size).tracker.pressed =
      (readSlots read tracker.controls Slot.all []).2.getD tracker.pressed := by
  cases hreads : readSlots read tracker.controls Slot.all [] with
  | mk asked found =>
      cases found with
      | none => rw [sample_of_lost hreads, Option.getD_none]
      | some now =>
          obtain ⟨target, htarget⟩ :=
            Option.isSome_iff_exists.mp (steer?_isSome tracker.cursor step now hsize)
          have haim : tracker.aim read size now asked = (asked, some target) := by
            simp only [aim, hmode, htarget]
          rw [sample_of_reads hreads, haim, Option.getD_some]

end Tracker

end Framestep
