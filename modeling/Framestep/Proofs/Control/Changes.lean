import Framestep.Proofs.Control.Rounds

/-!
# Changes of a slot

The levels of a slot, one after the other, change wherever one differs from the last.
`Controls.changes` gives the events of these changes and looks at no tracker.  A tracker that
misses a level can only miss changes: `Controls.changes_sublist_cons`.

A round of reading is described here whether or not it comes to its end: `Tracker.sample_records`.
What is recorded of a slot is then what was recorded before or what the round has found, and
the events are those that stand between the two records.  `Tracker.labelled` has beside each
of them the slot that it comes from.
-/

namespace Framestep

/-! ## Sequences of levels -/

namespace Controls

/-- The events of a slot that was on or off and is then found at these levels. -/
def changes (controls : Controls) (slot : Slot) : Bool → List Bool → List Event
  | _, [] => []
  | was, is :: levels => (controls.change? slot was is).toList ++ controls.changes slot is levels

variable (controls : Controls) (slot : Slot)

@[simp] theorem change?_self (level : Bool) : controls.change? slot level level = none := by
  unfold change?
  cases controls.action? slot <;> cases level <;> rfl

theorem changes_cons_self (was : Bool) (levels : List Bool) :
    controls.changes slot was (was :: levels) = controls.changes slot was levels := by
  rw [changes, change?_self, Option.toList_none, List.nil_append]

/-- Without the first of the levels there are not more changes, and none in another order. -/
theorem changes_sublist_cons (was level : Bool) (levels : List Bool) :
    (controls.changes slot was levels).Sublist (controls.changes slot was (level :: levels)) := by
  by_cases hlevel : level = was
  · rw [hlevel, changes_cons_self]
  · cases levels with
    | nil => exact List.nil_sublist _
    | cons next rest =>
        -- The next level is one of these two, and what follows it is the same for both.
        by_cases hnext : next = was
        · rw [hnext, changes_cons_self, changes, changes]
          exact (List.sublist_append_right _ _).trans (List.sublist_append_right _ _)
        · have hsame : next = level :=
            (Bool.eq_not_of_ne hnext).trans (Bool.eq_not_of_ne hlevel).symm
          rw [hsame, changes, changes, changes_cons_self]

/-- A slot that is recorded as it was, or as it is found, gives an event only for a change of
the levels that are found. -/
theorem changes_recorded {was is : Bool} {found : Option Bool} (h : is = was ∨ found = some is)
    (levels : List Bool) :
    ((controls.change? slot was is).toList ++ controls.changes slot is levels).Sublist
      (controls.changes slot was (found.toList ++ levels)) := by
  rcases h with rfl | rfl
  · rw [change?_self, Option.toList_none, List.nil_append]
    cases found with
    | none => exact List.Sublist.refl _
    | some level => exact controls.changes_sublist_cons slot is level levels
  · exact List.Sublist.refl _

end Controls

/-! ## What a round finds -/

namespace Reader

variable {read : Reader} {controls : Controls}

/-- Whether the reads of all these slots come back when they are made in order. -/
def answersAll (read : Reader) (controls : Controls) (slots : List Slot) (asked : List Source) :
    Bool :=
  slots.all fun slot => (controls slot).isNone || (read.level? controls slots asked slot).isSome

/-- Whether a slot is on in a round that can read every slot. -/
def found? (read : Reader) (controls : Controls) (slot : Slot) : Option Bool :=
  if read.answersAll controls Slot.all [] then some (read.isOn controls Slot.all [] slot)
  else none

theorem answersAll_of_complete {slots : List Slot} {asked : List Source} (hslots : slots.Nodup)
    (h : (Tracker.readSlots read controls slots asked).2.isSome = true) :
    read.answersAll controls slots asked = true := by
  rw [answersAll, List.all_eq_true]
  induction slots generalizing asked with
  | nil => exact nofun
  | cons first slots ih =>
      obtain ⟨hfirst, hslots⟩ := List.nodup_cons.mp hslots
      intro slot hslot
      -- The reads of the other slots start behind that of the first, if there is one.
      have hreads : (controls first).isNone = true ∨
          (read.level? controls (first :: slots) asked first).isSome = true := by
        rw [level?_first]
        cases hbound : controls first with
        | none => exact .inl rfl
        | some binding =>
            cases hlevel : read asked binding.source with
            | none => simp [Tracker.readSlots, hbound, hlevel] at h
            | some level => simp [hlevel]
      have hlater : (Tracker.readSlots read controls slots
          ((controls.sources [first]).reverse ++ asked)).2.isSome = true := by
        cases hbound : controls first with
        | none => simpa [Tracker.readSlots, hbound, Controls.sources] using h
        | some binding =>
            cases hlevel : read asked binding.source with
            | none => simp [Tracker.readSlots, hbound, hlevel] at h
            | some level => simpa [Tracker.readSlots, hbound, hlevel, Controls.sources] using h
      rw [Bool.or_eq_true]
      rcases List.mem_cons.mp hslot with rfl | hother
      · exact hreads
      · have hanswer := ih hslots hlater slot hother
        rw [Bool.or_eq_true] at hanswer
        rw [level?_later (ne_of_mem_of_not_mem hother hfirst)]
        exact hanswer

/-- A round that reads every slot finds just those on that it has listed. -/
theorem found?_of_reads {asked : List Source} {now : List Slot}
    (h : Tracker.readSlots read controls Slot.all [] = (asked, some now)) (slot : Slot) :
    read.found? controls slot = some (decide (slot ∈ now)) := by
  have hsome : (Tracker.readSlots read controls Slot.all []).2.isSome = true := by rw [h]; rfl
  obtain ⟨-, hnow⟩ := Tracker.readSlots_of_complete Slot.nodup_all (congrArg Prod.snd h)
  rw [found?, if_pos (answersAll_of_complete Slot.nodup_all hsome), hnow]
  simp [slot.mem_all]

end Reader

/-! ## What a round records -/

/-- The events of these slots, each beside the slot that it comes from. -/
def Slot.labelled (change? : Slot → Option Event) (slots : List Slot) :
    List (Option Slot × Event) :=
  slots.filterMap fun slot => (change? slot).map (Prod.mk (some slot))

theorem Slot.map_labelled (change? : Slot → Option Event) (slots : List Slot) :
    (labelled change? slots).map Prod.snd = slots.filterMap change? := by
  simp [labelled, List.map_filterMap, Option.map_map, Function.comp_def]

/-- A slot is the label of its own event and of no other. -/
theorem Slot.filter_labelled (change? : Slot → Option Event) {slots : List Slot}
    (hslots : slots.Nodup) (slot : Slot) :
    ((labelled change? slots).filter (·.1 = some slot)).map Prod.snd =
      if slot ∈ slots then (change? slot).toList else [] := by
  induction slots with
  | nil => rfl
  | cons first slots ih =>
      obtain ⟨hfirst, hslots⟩ := List.nodup_cons.mp hslots
      have hrest := ih hslots
      unfold labelled at hrest ⊢
      by_cases hsame : first = slot
      · subst hsame
        rw [if_neg hfirst] at hrest
        cases hevent : change? first <;> simp [hevent, hrest]
      · have hmem : slot ∈ first :: slots ↔ slot ∈ slots := by simp [Ne.symm hsame]
        cases hevent : change? first <;> simp [hevent, hrest, hsame, hmem]

theorem Slot.mem_trailing_iff {slot : Slot} : slot ∈ trailing ↔ slot ∉ leading := by
  cases slot with
  | action n => revert n; decide
  | pointer button => cases button <;> decide
  | _ => decide

namespace Tracker

/-- The event of a slot between two records of a tracker. -/
def changeTo? (before after : Tracker) (slot : Slot) : Option Event :=
  before.controls.change? slot (before.isPressed slot) (after.isPressed slot)

/-- The events between two records of a tracker, each beside the slot that it comes from; a move
of the pointer comes from none. -/
def labelled (before after : Tracker) : List (Option Slot × Event) :=
  Slot.labelled (before.changeTo? after) Slot.leading ++
    (move before.cursor after.cursor).map (Prod.mk none) ++
    Slot.labelled (before.changeTo? after) Slot.trailing

variable {tracker : Tracker} {read : Reader} {size : Option Size}

theorem map_labelled (before after : Tracker) :
    (before.labelled after).map Prod.snd =
      Slot.leading.filterMap (before.changeTo? after) ++ move before.cursor after.cursor ++
        Slot.trailing.filterMap (before.changeTo? after) := by
  simp [labelled, Slot.map_labelled, Function.comp_def]

theorem filter_labelled (before after : Tracker) (slot : Slot) :
    ((before.labelled after).filter (·.1 = some slot)).map Prod.snd =
      (before.changeTo? after slot).toList := by
  have hmove : ((move before.cursor after.cursor).map
      (Prod.mk (none : Option Slot))).filter (·.1 = some slot) = [] := by
    simp
  have hall : Slot.labelled (before.changeTo? after) Slot.all =
      Slot.labelled (before.changeTo? after) Slot.leading ++
        Slot.labelled (before.changeTo? after) Slot.trailing := List.filterMap_append
  have hlabel := Slot.filter_labelled (before.changeTo? after) Slot.nodup_all slot
  rw [if_pos slot.mem_all, hall] at hlabel
  rw [← hlabel, labelled]
  simp only [List.filter_append, hmove, List.append_nil]

theorem eq_moved_of_mem_labelled {before after : Tracker} {event : Event}
    (hevent : (none, event) ∈ before.labelled after) : ∃ x y, event = .moved x y := by
  have hmove : event ∈ move before.cursor after.cursor := by
    simpa [labelled, Slot.labelled] using hevent
  exact ⟨_, _, eq_moved_of_mem_move hmove⟩

theorem edges_eq (controls : Controls) (before now slots : List Slot) :
    edges controls before now slots = slots.filterMap fun slot =>
      controls.change? slot (decide (slot ∈ before)) (decide (slot ∈ now)) := by
  apply List.filterMap_congr
  intro slot _
  exact edge?_eq controls before now slot

/-- The record of a round that reads every slot and then fails to read where the pointer is: the
trailing slots stay as they were. -/
def recordLeading (tracker : Tracker) (now : List Slot) : Tracker :=
  { tracker with
    pressed := now.filter (· ∈ Slot.leading) ++ tracker.pressed.filter (· ∈ Slot.trailing) }

theorem isPressed_recordLeading (tracker : Tracker) (now : List Slot) (slot : Slot) :
    (tracker.recordLeading now).isPressed slot =
      if slot ∈ Slot.leading then decide (slot ∈ now) else tracker.isPressed slot := by
  split
  · next hleading => simp [recordLeading, isPressed, hleading, Slot.mem_trailing_iff]
  · next htrailing => simp [recordLeading, isPressed, htrailing, Slot.mem_trailing_iff]

theorem map_labelled_recordLeading (tracker : Tracker) (now : List Slot) :
    (tracker.labelled (tracker.recordLeading now)).map Prod.snd =
      edges tracker.controls tracker.pressed now Slot.leading := by
  have hleading : Slot.leading.filterMap (tracker.changeTo? (tracker.recordLeading now)) =
      edges tracker.controls tracker.pressed now Slot.leading := by
    rw [edges_eq]
    apply List.filterMap_congr
    intro slot hslot
    rw [changeTo?, isPressed_recordLeading, if_pos hslot]
    rfl
  have htrailing :
      Slot.trailing.filterMap (tracker.changeTo? (tracker.recordLeading now)) = [] := by
    apply List.filterMap_eq_nil_iff.mpr
    intro slot hslot
    rw [changeTo?, isPressed_recordLeading, if_neg (Slot.mem_trailing_iff.mp hslot),
      Controls.change?_self]
  have hstill : move tracker.cursor (tracker.recordLeading now).cursor = [] := if_pos rfl
  rw [map_labelled, hleading, htrailing, hstill, List.append_nil, List.append_nil]

/-- A round of reading, whether or not it comes to its end: its events are those between what was
recorded before and what is recorded now, and of every slot that is what was recorded before
or what the round has found. -/
theorem sample_records (tracker : Tracker) (read : Reader) (size : Option Size) :
    let sample := tracker.sample read size
    sample.events = (tracker.labelled sample.tracker).map Prod.snd ∧
      ∀ slot, sample.tracker.isPressed slot = tracker.isPressed slot ∨
        read.found? tracker.controls slot = some (sample.tracker.isPressed slot) := by
  intro sample
  simp only [sample]
  cases hreads : readSlots read tracker.controls Slot.all [] with
  | mk asked found =>
      cases found with
      | none =>
          rw [sample_of_lost hreads]
          refine ⟨?_, fun slot => .inl rfl⟩
          simp [map_labelled, changeTo?, move]
      | some now =>
          have hfound := Reader.found?_of_reads hreads
          rw [sample_of_reads hreads]
          cases tracker.aim read size now asked with
          | mk later target =>
              cases target with
              | none =>
                  refine ⟨(tracker.map_labelled_recordLeading now).symm, ?_⟩
                  intro slot
                  show (tracker.recordLeading now).isPressed slot = tracker.isPressed slot ∨
                    _ = some ((tracker.recordLeading now).isPressed slot)
                  rw [isPressed_recordLeading, hfound]
                  split
                  · exact .inr rfl
                  · exact .inl rfl
              | some target =>
                  refine ⟨?_, fun slot => .inr (hfound slot)⟩
                  rw [map_labelled, edges_eq, edges_eq]
                  rfl

end Tracker

end Framestep
