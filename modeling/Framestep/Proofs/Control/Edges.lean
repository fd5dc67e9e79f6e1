import Framestep.Proofs.Control.Rounds

/-!
# Edges over many rounds

What a tracker appends to a list of events, round after round, is read off the levels
that the rounds find, with every slot off at first.  `wasOn` is the sequence of the levels
of one slot and `changeAt?` the event between two of them; neither looks at a tracker.

The main statement is `Tracker.rounds_append_edges`.  What carries it is that a tracker
has recorded as pressed, after any number of rounds, what the last one found on:
`Recording.isPressed_addAll`.
-/

namespace Framestep

/-- What a tracker is given in one round: how its reads are answered, and the size of the
last picture shown. -/
structure Round where
  read : Reader
  size : Option Size

/-- A tracker, and the events that its rounds are appended to. -/
structure Recording where
  tracker : Tracker
  events : List Event

namespace Recording

def add (recording : Recording) (round : Round) : Recording :=
  let sample := recording.tracker.sample round.read round.size
  { tracker := sample.tracker, events := recording.events ++ sample.events }

def addAll (recording : Recording) (rounds : List Round) : Recording :=
  rounds.foldl add recording

/-- Each of the rounds comes to its end. -/
def Completes (recording : Recording) (rounds : List Round) : Prop :=
  ∀ t, ∀ ht : t < rounds.length,
    ((recording.addAll (rounds.take t)).tracker.sample rounds[t].read
      rounds[t].size).complete = true

end Recording

/-! ## The levels of a slot and its edges -/

section
variable (controls : Controls) (rounds : List Round) (slot : Slot)

/-- Whether a slot was on when so many rounds had been made. -/
def wasOn : Nat → Bool
  | 0 => false
  | t + 1 => rounds[t]?.any fun round => round.read.isOn controls Slot.all [] slot

theorem wasOn_succ {t : Nat} (ht : t < rounds.length) :
    wasOn controls rounds slot (t + 1) = rounds[t].read.isOn controls Slot.all [] slot := by
  rw [wasOn, List.getElem?_eq_getElem ht, Option.any_some]

/-- The event of a slot in the round after the first `t`. -/
def changeAt? (t : Nat) : Option Event :=
  controls.change? slot (wasOn controls rounds slot t) (wasOn controls rounds slot (t + 1))

/-- The events of a slot in all rounds. -/
def slotEvents : List Event := (List.range rounds.length).filterMap (changeAt? controls rounds slot)

end

/-- Down, up, down and so on. -/
def Alternates (action : Action) (events : List Event) : Prop :=
  ∀ i, ∀ hi : i < events.length, events[i] = action.edge (i % 2 == 0)

theorem Alternates.concat {action : Action} {events : List Event} (h : Alternates action events) :
    Alternates action (events ++ [action.edge (events.length % 2 == 0)]) := by
  intro i hi
  rw [List.length_append, List.length_singleton] at hi
  by_cases hlast : i = events.length
  · subst hlast
    simp
  · have hearlier : i < events.length := by omega
    rw [List.getElem_append_left hearlier]
    exact h i hearlier

/-- The events of any sequence of levels that starts off alternate, and the level is on after
an odd number of them. -/
theorem Controls.alternates_changes {controls : Controls} {slot : Slot} {action : Action}
    (haction : controls.action? slot = some action) {levels : Nat → Bool}
    (hstart : levels 0 = false) (count : Nat) :
    let changes := (List.range count).filterMap fun t =>
      controls.change? slot (levels t) (levels (t + 1))
    Alternates action changes ∧ levels count = (changes.length % 2 == 1) := by
  intro changes
  induction count with
  | zero => exact ⟨nofun, hstart⟩
  | succ count ih =>
      obtain ⟨earlier, hearlier⟩ : ∃ earlier, earlier = (List.range count).filterMap fun t =>
        controls.change? slot (levels t) (levels (t + 1)) := ⟨_, rfl⟩
      rw [← hearlier] at ih
      obtain ⟨halternates, hlevel⟩ := ih
      have hchanges : changes =
          earlier ++ (controls.change? slot (levels count) (levels (count + 1))).toList := by
        simp only [changes, List.range_succ, List.filterMap_append, ← hearlier]
        cases hchange : controls.change? slot (levels count) (levels (count + 1)) <;>
          simp [hchange]
      rw [hchanges, controls.change?_of_action haction]
      by_cases hsame : levels count = levels (count + 1)
      · rw [if_pos hsame, Option.toList_none, List.append_nil, ← hsame]
        exact ⟨halternates, hlevel⟩
      · -- The level is now what it was not, and so is the number of events.
        have hnow : levels (count + 1) = (earlier.length % 2 == 0) := by
          have hother : levels (count + 1) = !levels count :=
            Bool.eq_not_of_ne fun h => hsame h.symm
          rw [hother, hlevel]
          rcases Nat.mod_two_eq_zero_or_one earlier.length with heven | hodd
          · rw [heven]
            rfl
          · rw [hodd]
            rfl
        rw [if_neg hsame, Option.toList_some, hnow]
        refine ⟨halternates.concat, ?_⟩
        rw [List.length_append, List.length_singleton, Bool.eq_iff_iff, beq_iff_eq, beq_iff_eq]
        omega

/-! ## What the tracker has recorded -/

namespace Recording

variable {recording : Recording} {rounds : List Round}

/-- The rounds up to one of them are those before it and that one. -/
theorem addAll_take_succ {t : Nat} (ht : t < rounds.length) :
    recording.addAll (rounds.take (t + 1)) = (recording.addAll (rounds.take t)).add rounds[t] := by
  rw [List.take_succ_eq_append_getElem ht, addAll, List.foldl_append]
  rfl

@[simp] theorem controls_addAll (recording : Recording) (rounds : List Round) :
    (recording.addAll rounds).tracker.controls = recording.tracker.controls := by
  induction rounds generalizing recording with
  | nil => rfl
  | cons round rounds ih => exact (ih (recording.add round)).trans (Tracker.controls_sample _ _ _)

/-- After any number of rounds, the tracker holds as pressed what the last one found on. -/
theorem isPressed_addAll (hstart : ∀ slot, recording.tracker.isPressed slot = false)
    (hcomplete : recording.Completes rounds) {t : Nat} (ht : t ≤ rounds.length) (slot : Slot) :
    (recording.addAll (rounds.take t)).tracker.isPressed slot =
      wasOn recording.tracker.controls rounds slot t := by
  cases t with
  | zero => exact hstart slot
  | succ t =>
      have hrecorded := (Tracker.sample_of_complete (hcomplete t ht)).1 slot
      rw [controls_addAll] at hrecorded
      rw [addAll_take_succ ht, wasOn_succ _ _ _ ht]
      exact hrecorded

/-- One more round leaves the events that are there.  It appends the changes of the leading
slots, a move of the pointer at most, and the changes of the trailing slots. -/
theorem events_addAll_succ (hstart : ∀ slot, recording.tracker.isPressed slot = false)
    (hcomplete : recording.Completes rounds) {t : Nat} (ht : t < rounds.length) :
    let changes := (changeAt? recording.tracker.controls rounds · t)
    ∃ move : List Event, move.length ≤ 1 ∧ (∀ event ∈ move, ∃ x y, event = .moved x y) ∧
      (recording.addAll (rounds.take (t + 1))).events =
        (recording.addAll (rounds.take t)).events ++
          (Slot.leading.filterMap changes ++ move ++ Slot.trailing.filterMap changes) := by
  intro changes
  obtain ⟨reached, hreached⟩ : ∃ reached, reached = recording.addAll (rounds.take t) := ⟨_, rfl⟩
  -- What the tracker compares is the level that this round finds with that of the last one.
  have hchanges (slot : Slot) :
      reached.tracker.controls.change? slot (reached.tracker.isPressed slot)
          (rounds[t].read.isOn reached.tracker.controls Slot.all [] slot) =
        changes slot := by
    simp only [changes, changeAt?]
    rw [hreached, isPressed_addAll hstart hcomplete (Nat.le_of_lt ht), controls_addAll,
      wasOn_succ _ _ _ ht]
  have hevents := (Tracker.sample_of_complete (hcomplete t ht)).2
  rw [← hreached] at hevents
  simp only [hchanges] at hevents
  refine ⟨Tracker.move reached.tracker.cursor
    (reached.tracker.sample rounds[t].read rounds[t].size).tracker.cursor,
    Tracker.length_move_le _ _, ?_, ?_⟩
  · intro event hevent
    exact ⟨_, _, Tracker.eq_moved_of_mem_move hevent⟩
  · rw [addAll_take_succ ht, ← hreached, add, hevents]

end Recording

/-! ## The law -/

namespace Tracker

/-- A tracker that was just made, or just reset. -/
inductive Fresh : Tracker → Prop where
  | created (controls : Controls) (mode : Pointing) : Fresh (create controls mode)
  | reset (tracker : Tracker) : Fresh tracker.reset

theorem Fresh.isPressed {tracker : Tracker} (h : tracker.Fresh) (slot : Slot) :
    tracker.isPressed slot = false := by
  cases h <;> rfl

/-- The law of the edges, for any rounds made with a fresh tracker.  They come to their end if
no read gives up.  Each of them leaves the events that are there and appends the changes of
the leading slots, one move of the pointer at most, and the changes of the trailing slots.
The events of each slot with an action alternate, and the other slots have none. -/
theorem rounds_append_edges {start : Tracker} (hstart : start.Fresh) (events : List Event)
    (rounds : List Round) :
    let recording : Recording := { tracker := start, events }
    ((∀ round ∈ rounds, (∀ asked source, (round.read asked source).isSome) ∧
        ∀ size, round.size = some size → size.FitsInt32) →
      recording.Completes rounds) ∧
    (recording.Completes rounds →
      (∀ t < rounds.length, ∃ move : List Event,
        move.length ≤ 1 ∧ (∀ event ∈ move, ∃ x y, event = .moved x y) ∧
        (recording.addAll (rounds.take (t + 1))).events =
          (recording.addAll (rounds.take t)).events ++
            (Slot.leading.filterMap (changeAt? start.controls rounds · t) ++ move ++
              Slot.trailing.filterMap (changeAt? start.controls rounds · t))) ∧
      ∀ slot, match start.controls.action? slot with
        | some action => Alternates action (slotEvents start.controls rounds slot)
        | none => slotEvents start.controls rounds slot = []) := by
  intro recording
  refine ⟨?_, fun hcomplete => ⟨?_, ?_⟩⟩
  · intro hrounds t ht
    obtain ⟨hread, hsize⟩ := hrounds _ (List.getElem_mem ht)
    exact complete_sample hread hsize
  · intro t ht
    exact Recording.events_addAll_succ hstart.isPressed hcomplete ht
  · intro slot
    cases haction : start.controls.action? slot with
    | none =>
        apply List.filterMap_eq_nil_iff.mpr
        intro t _
        simp only [changeAt?, Controls.change?, haction]
    | some action => exact (Controls.alternates_changes haction rfl rounds.length).1

/-- The law at work on two slots with one source and one key, whose level is also where the
pointer is. -/
theorem rounds_append_edges_of_shared_source :
    let controls := Controls.keyboardAndMouse.bind .down (Controls.padKey .up AdbKey.up)
    let start := create controls (.absolute (.pad .up) (.pad .down))
    let round (level : Int16) : Round :=
      { read := fun _ source => some (if source = .pad .up then level else 0)
        size := some ⟨640, 480⟩ }
    let rounds := [round 7, round 7, round 0]
    let recording : Recording := { tracker := start, events := [.moved 1 1] }
    start.Fresh ∧ recording.Completes rounds ∧
      (recording.addAll rounds).events =
        [.moved 1 1, .keyDown AdbKey.up, .keyDown AdbKey.up, .moved 7 0, .keyUp AdbKey.up,
          .keyUp AdbKey.up, .moved 0 0] ∧
      slotEvents controls rounds .up = [.keyDown AdbKey.up, .keyUp AdbKey.up] ∧
      Alternates (.key AdbKey.up) (slotEvents controls rounds .up) ∧
      ∃ move : List Event, move.length ≤ 1 ∧
        (recording.addAll rounds).events = (recording.addAll (rounds.take 2)).events ++
          (Slot.leading.filterMap (changeAt? controls rounds · 2) ++ move ++
            Slot.trailing.filterMap (changeAt? controls rounds · 2)) := by
  intro controls start round rounds recording
  have hfresh : start.Fresh := .created controls _
  obtain ⟨hends, hlaw⟩ := rounds_append_edges hfresh recording.events rounds
  have hcomplete : recording.Completes rounds := by
    apply hends
    intro other hother
    have hround : ∃ level, other = round level := by
      simp only [rounds, List.mem_cons, List.not_mem_nil, or_false] at hother
      rcases hother with rfl | rfl | rfl
      all_goals exact ⟨_, rfl⟩
    obtain ⟨level, rfl⟩ := hround
    refine ⟨fun _ _ => rfl, ?_⟩
    intro size hsize
    rw [← Option.some.inj hsize]
    exact ⟨by decide, by decide⟩
  obtain ⟨happends, halternates⟩ := hlaw hcomplete
  obtain ⟨move, hmove, -, hevents⟩ := happends 2 (by decide)
  exact ⟨hfresh, hcomplete, by decide +kernel, by decide +kernel, halternates .up, move, hmove,
    hevents⟩

end Tracker

end Framestep
