import Framestep.Proofs.Control.Changes
import Framestep.Proofs.Control.Edges
import Framestep.TestCard.Card
import Mathlib.Logic.Function.Basic

/-!
# A test card mirrors the tracker

A test card is given the events of a tracker and nothing else.  Its input state mirrors the
tracker all the same: `CardInput.Mirrors` says what it knows of which slots are on.

The changes of a round are taken slot by slot, and between two of them some slots are on as the
last round has found them and others as this one has.  So `Mirrors` is about any levels of the
slots, and `CardInput.mirrors_change` about the change of a single one.  The main statement,
`Card.mirrors_rounds`, follows a new card through any number of rounds.
-/

namespace Framestep

namespace Controls

variable (controls : Controls)

/-- Whether the edges of a slot are those of a key. -/
def isKey (slot : Slot) : Bool :=
  match controls.action? slot with
  | some (.key _) => true
  | _ => false

/-- How many slots that act as keys are on. -/
def keysOn (level : Slot → Bool) : Nat :=
  Slot.all.countP fun slot => controls.isKey slot && level slot

/-- One slot at most acts as this pointer button. -/
def BindsOnce (button : PointerButton) : Prop :=
  ∀ slot other, controls.action? slot = some (.button button) →
    controls.action? other = some (.button button) → slot = other

theorem keysOn_le (level : Slot → Bool) : controls.keysOn level ≤ Slot.all.length :=
  List.countP_le_length

theorem keysOn_pos {level : Slot → Bool} {slot : Slot} (hkey : controls.isKey slot = true)
    (hlevel : level slot = true) : 0 < controls.keysOn level := by
  rw [keysOn, List.countP_pos_iff]
  exact ⟨slot, slot.mem_all, by rw [hkey, hlevel]; rfl⟩

/-- A slot that is found at another level is counted with it, and the others as before. -/
theorem keysOn_update (level : Slot → Bool) (slot : Slot) (is : Bool) :
    controls.keysOn (Function.update level slot is) + (controls.isKey slot && level slot).toNat =
      controls.keysOn level + (controls.isKey slot && is).toNat := by
  have hcount (level : Slot → Bool) : controls.keysOn level =
      (controls.isKey slot && level slot).toNat +
        (Slot.all.erase slot).countP fun slot => controls.isKey slot && level slot := by
    rw [keysOn, (List.perm_cons_erase slot.mem_all).countP_eq, List.countP_cons, Nat.add_comm]
    cases controls.isKey slot && level slot <;> rfl
  have hothers : ((Slot.all.erase slot).countP fun other =>
        controls.isKey other && Function.update level slot is other) =
      (Slot.all.erase slot).countP fun other => controls.isKey other && level other := by
    apply List.countP_congr
    intro other hother
    rw [Function.update_of_ne (List.Nodup.mem_erase_iff Slot.nodup_all |>.mp hother).1]
  rw [hcount, hcount level, hothers, Function.update_self]
  omega

end Controls

namespace CardInput

/-! ## The bits of the pointer buttons -/

theorem bit_and_bit (button other : PointerButton) :
    bit button &&& bit other = if button = other then bit other else 0 := by
  cases button <;> cases other <;> rfl

theorem complement_and_bit (button other : PointerButton) :
    ~~~bit button &&& bit other = if button = other then 0 else bit other := by
  cases button <;> cases other <;> rfl

theorem bit_ne_zero (button : PointerButton) : bit button ≠ 0 := by
  cases button <;> decide

theorem or_and_distrib (a b c : UInt8) : (a ||| b) &&& c = (a &&& c) ||| (b &&& c) := by
  rw [← UInt8.toBitVec_inj]
  simp only [UInt8.toBitVec_and, UInt8.toBitVec_or]
  exact BitVec.and_or_distrib_right

theorem holds_or_bit (input : CardInput) (button other : PointerButton) :
    holds { input with buttons := input.buttons ||| bit button } other =
      (decide (button = other) || input.holds other) := by
  simp only [holds, or_and_distrib, bit_and_bit]
  by_cases hsame : button = other
  · simp [hsame, bit_ne_zero]
  · simp [hsame]

theorem holds_and_complement (input : CardInput) (button other : PointerButton) :
    holds { input with buttons := input.buttons &&& ~~~bit button } other =
      (!decide (button = other) && input.holds other) := by
  simp only [holds, UInt8.and_assoc, complement_and_bit]
  by_cases hsame : button = other
  · simp [hsame]
  · simp [hsame]

/-- The bits that stand for no pointer button. -/
def spareBits : UInt8 := 0xF8

theorem bit_and_spareBits (button : PointerButton) : bit button &&& spareBits = 0 := by
  cases button <;> rfl

theorem buttons_eq_zero {input : CardInput} (hspare : input.buttons &&& spareBits = 0)
    (hholds : ∀ button, input.holds button = false) : input.buttons = 0 := by
  have hbit (button : PointerButton) : input.buttons &&& bit button = 0 := by
    simpa [holds] using hholds button
  have hall : spareBits ||| bit .left ||| bit .right ||| bit .middle = -1 := rfl
  rw [← UInt8.and_neg_one (a := input.buttons), ← hall, UInt8.and_comm]
  simp only [or_and_distrib]
  simp only [UInt8.and_comm _ input.buttons, hspare, hbit]
  rfl

/-! ## Events that are counted -/

/-- Neither end of the count stops this event: one more key can be counted, and a key that goes
up was counted. -/
def Counts (input : CardInput) : Event → Prop
  | .keyDown _ => input.keysHeld < maxKeys
  | .keyUp _ => 0 < input.keysHeld
  | _ => True

/-- Each of the events is counted when its turn comes. -/
def CountsAll (input : CardInput) : List Event → Prop
  | [] => True
  | event :: events => input.Counts event ∧ (input.acceptAll [event]).CountsAll events

theorem accept?_isSome {input : CardInput} {event : Event} (h : input.Counts event) :
    (input.accept? event).isSome = true := by
  cases event with
  | keyDown code => exact congrArg Option.isSome (if_pos h)
  | _ => rfl

theorem acceptAll_append (input : CardInput) (first rest : List Event) :
    input.acceptAll (first ++ rest) = (input.acceptAll first).acceptAll rest :=
  List.foldl_append

theorem countsAll_append {input : CardInput} {first rest : List Event}
    (hfirst : input.CountsAll first) (hrest : (input.acceptAll first).CountsAll rest) :
    input.CountsAll (first ++ rest) := by
  induction first generalizing input with
  | nil => exact hrest
  | cons event first ih => exact ⟨hfirst.1, ih hfirst.2 hrest⟩

theorem CountsAll.counts {input : CardInput} {earlier later : List Event} {event : Event}
    (h : input.CountsAll (earlier ++ event :: later)) :
    (input.acceptAll earlier).Counts event := by
  induction earlier generalizing input with
  | nil => exact h.1
  | cons first earlier ih => exact ih h.2

/-! ## The mirror -/

/-- What a card knows of its input if these slots are on and the cursor is there. -/
structure Mirrors (controls : Controls) (level : Slot → Bool) (cursor : Cursor)
    (input : CardInput) : Prop where
  cursor_eq : input.cursor = cursor
  keysHeld : input.keysHeld = controls.keysOn level
  buttons : ∀ button, controls.BindsOnce button →
    (input.holds button = true ↔
      ∃ slot, controls.action? slot = some (.button button) ∧ level slot = true)
  spare : input.buttons &&& spareBits = 0

variable {controls : Controls} {level : Slot → Bool} {cursor : Cursor} {input : CardInput}

theorem mirrors_released (hlevel : ∀ slot, level slot = false) :
    Mirrors controls level ⟨0, 0⟩ released := by
  constructor
  case cursor_eq => rfl
  case keysHeld => simp [Controls.keysOn, hlevel, released]
  case buttons => simp [hlevel, holds, released]
  case spare => rfl

/-- A slot that does not act as a button has no say in whether one that does is on. -/
theorem holds_update {slot : Slot} {is : Bool} {button : PointerButton}
    (hslot : controls.action? slot ≠ some (.button button)) :
    (∃ other, controls.action? other = some (.button button) ∧
        Function.update level slot is other = true) ↔
      ∃ other, controls.action? other = some (.button button) ∧ level other = true := by
  apply exists_congr
  intro other
  apply and_congr_right
  intro hother
  have hne : other ≠ slot := fun h => hslot (h ▸ hother)
  rw [Function.update_of_ne hne]

/-- The edge of a key is counted, and the pointer buttons are what they were. -/
theorem mirrors_keyEdge (h : Mirrors controls level cursor input) {slot : Slot} {code : Nat}
    (haction : controls.action? slot = some (.key code)) {is : Bool} (hlevel : level slot = !is) :
    input.Counts (Action.edge (.key code) is) ∧
      Mirrors controls (Function.update level slot is) cursor
        (input.acceptAll [Action.edge (.key code) is]) := by
  have hkey : controls.isKey slot = true := by simp [Controls.isKey, haction]
  have hcount := controls.keysOn_update level slot is
  have hheld := h.keysHeld
  have hslot (button : PointerButton) : controls.action? slot ≠ some (.button button) := by
    simp [haction]
  have hbuttons (button : PointerButton) (honce : controls.BindsOnce button) :
      input.holds button = true ↔ ∃ other, controls.action? other = some (.button button) ∧
        Function.update level slot is other = true :=
    (h.buttons button honce).trans (holds_update (hslot button)).symm
  rw [hkey, hlevel] at hcount
  cases is with
  | true =>
      have hroom : input.keysHeld < maxKeys := by
        have hslots : Slot.all.length = 11 := rfl
        have hmax : 11 < maxKeys := by decide
        have hle := controls.keysOn_le level
        omega
      have haccept : input.acceptAll [Action.edge (.key code) true] =
          { input with keysHeld := input.keysHeld + 1 } := by
        simp [acceptAll, accept?, Action.edge, hroom]
      rw [haccept]
      refine ⟨hroom, h.cursor_eq, ?_, hbuttons, h.spare⟩
      simp only [Bool.not_true, Bool.and_false, Bool.and_true, Bool.toNat_true,
        Bool.toNat_false] at hcount
      show input.keysHeld + 1 = _
      omega
  | false =>
      have hpos := controls.keysOn_pos hkey hlevel
      refine ⟨by rw [← hheld] at hpos; exact hpos, h.cursor_eq, ?_, hbuttons, h.spare⟩
      simp only [Bool.not_false, Bool.and_false, Bool.and_true, Bool.toNat_true,
        Bool.toNat_false] at hcount
      show input.keysHeld - 1 = _
      omega

theorem acceptAll_buttonEdge (input : CardInput) (which : PointerButton) (is : Bool) :
    input.acceptAll [Action.edge (.button which) is] =
      { input with
        buttons :=
          if is then input.buttons ||| bit which else input.buttons &&& ~~~bit which } := by
  cases is <;> rfl

/-- The edge of a pointer button sets or clears its own bit. -/
theorem holds_buttonEdge (input : CardInput) (which : PointerButton) (is : Bool)
    (button : PointerButton) : (input.acceptAll [Action.edge (.button which) is]).holds button =
      if which = button then is else input.holds button := by
  rw [acceptAll_buttonEdge]
  cases is with
  | true =>
      refine (holds_or_bit input which button).trans ?_
      split <;> simp [*]
  | false =>
      refine (holds_and_complement input which button).trans ?_
      split <;> simp [*]

theorem spare_buttonEdge (hspare : input.buttons &&& spareBits = 0) (which : PointerButton)
    (is : Bool) :
    (input.acceptAll [Action.edge (.button which) is]).buttons &&& spareBits = 0 := by
  rw [acceptAll_buttonEdge]
  cases is with
  | true =>
      show (input.buttons ||| bit which) &&& spareBits = 0
      rw [or_and_distrib, hspare, bit_and_spareBits]
      rfl
  | false =>
      show (input.buttons &&& ~~~bit which) &&& spareBits = 0
      rw [UInt8.and_assoc, UInt8.and_comm (~~~bit which), ← UInt8.and_assoc, hspare,
        UInt8.zero_and]

theorem mirrors_buttonEdge (h : Mirrors controls level cursor input) {slot : Slot}
    {which : PointerButton} (haction : controls.action? slot = some (.button which)) (is : Bool) :
    Mirrors controls (Function.update level slot is) cursor
      (input.acceptAll [Action.edge (.button which) is]) := by
  have hkey : controls.isKey slot = false := by simp [Controls.isKey, haction]
  have hcount := controls.keysOn_update level slot is
  rw [hkey, Bool.false_and, Bool.false_and] at hcount
  constructor
  case cursor_eq =>
    rw [acceptAll_buttonEdge]
    exact h.cursor_eq
  case keysHeld =>
    rw [acceptAll_buttonEdge]
    exact h.keysHeld.trans (Nat.add_right_cancel hcount).symm
  case buttons =>
    intro button honce
    rw [holds_buttonEdge]
    by_cases hwhich : which = button
    · subst hwhich
      rw [if_pos rfl]
      constructor
      · intro his
        exact ⟨slot, haction, by rw [Function.update_self]; exact his⟩
      · rintro ⟨other, hother, hlevel⟩
        rw [honce other slot hother haction, Function.update_self] at hlevel
        exact hlevel
    · have hslot : controls.action? slot ≠ some (.button button) := by
        rw [haction]
        intro hsame
        exact hwhich (Action.button.inj (Option.some.inj hsame))
      rw [if_neg hwhich, holds_update hslot]
      exact h.buttons button honce
  case spare => exact spare_buttonEdge h.spare which is

/-- One slot at a time: the event of a slot that is found at another level is counted, and the
mirror is that of the levels with this one changed. -/
theorem mirrors_change (h : Mirrors controls level cursor input) (slot : Slot) (is : Bool) :
    let event := (controls.change? slot (level slot) is).toList
    input.CountsAll event ∧
      Mirrors controls (Function.update level slot is) cursor (input.acceptAll event) := by
  intro event
  cases haction : controls.action? slot with
  | none =>
      have hkey : controls.isKey slot = false := by simp [Controls.isKey, haction]
      have hcount := controls.keysOn_update level slot is
      have hevent : event = [] := by simp [event, Controls.change?, haction]
      rw [hkey, Bool.false_and, Bool.false_and] at hcount
      rw [hevent]
      refine ⟨trivial, h.cursor_eq, h.keysHeld.trans (Nat.add_right_cancel hcount).symm, ?_,
        h.spare⟩
      intro button honce
      rw [holds_update (by simp [haction])]
      exact h.buttons button honce
  | some action =>
      by_cases hsame : level slot = is
      · have hevent : event = [] := by
          simp [event, hsame]
        have hlevel : Function.update level slot is = level := by
          rw [← hsame, Function.update_eq_self]
        rw [hevent, hlevel]
        exact ⟨trivial, h⟩
      · have hevent : event = [action.edge is] := by
          simp [event, controls.change?_of_action haction, hsame]
        rw [hevent]
        cases action with
        | key code =>
            obtain ⟨hcounts, hmirrors⟩ :=
              mirrors_keyEdge h haction (Bool.eq_not_of_ne hsame)
            exact ⟨⟨hcounts, trivial⟩, hmirrors⟩
        | button which =>
            have hcounts : input.Counts (Action.edge (.button which) is) := by
              cases is <;> exact trivial
            exact ⟨⟨hcounts, trivial⟩, mirrors_buttonEdge h haction is⟩

/-- The changes of several slots, one after the other, lead to the levels that are found. -/
theorem mirrors_changes (h : Mirrors controls level cursor input) (slots : List Slot)
    (hslots : slots.Nodup) (found : Slot → Bool) :
    let events := slots.filterMap fun slot => controls.change? slot (level slot) (found slot)
    input.CountsAll events ∧
      Mirrors controls (fun slot => if slot ∈ slots then found slot else level slot) cursor
        (input.acceptAll events) := by
  induction slots generalizing input level with
  | nil => exact ⟨trivial, by simpa [acceptAll] using h⟩
  | cons first slots ih =>
      obtain ⟨hfirst, hslots⟩ := List.nodup_cons.mp hslots
      obtain ⟨hcounts, hmirrors⟩ := mirrors_change h first (found first)
      obtain ⟨hcountsRest, hmirrorsRest⟩ := ih hmirrors hslots
      -- The slots behind the first one are at the levels that they had.
      have hsame (slot : Slot) (hslot : slot ∈ slots) :
          Function.update level first (found first) slot = level slot :=
        Function.update_of_ne (ne_of_mem_of_not_mem hslot hfirst) _ _
      have hrest : (slots.filterMap fun slot =>
            controls.change? slot (Function.update level first (found first) slot) (found slot)) =
          slots.filterMap fun slot => controls.change? slot (level slot) (found slot) := by
        apply List.filterMap_congr
        intro slot hslot
        rw [hsame slot hslot]
      have hlevels : (fun slot => if slot ∈ slots then found slot
            else Function.update level first (found first) slot) =
          fun slot => if slot ∈ first :: slots then found slot else level slot := by
        funext slot
        by_cases hslot : slot ∈ slots
        · simp [hslot]
        · by_cases hhead : slot = first
          · simp [hhead]
          · simp [hslot, hhead]
      have hevents : ((first :: slots).filterMap fun slot =>
            controls.change? slot (level slot) (found slot)) =
          (controls.change? first (level first) (found first)).toList ++
            slots.filterMap fun slot => controls.change? slot (level slot) (found slot) := by
        cases hchange : controls.change? first (level first) (found first) <;> simp [hchange]
      rw [hrest] at hcountsRest hmirrorsRest
      rw [hlevels, ← acceptAll_append] at hmirrorsRest
      intro events
      rw [show events = _ from hevents]
      exact ⟨countsAll_append hcounts hcountsRest, hmirrorsRest⟩

theorem mirrors_move (h : Mirrors controls level cursor input) (target : Cursor) :
    let events := Tracker.move cursor target
    input.CountsAll events ∧ Mirrors controls level target (input.acceptAll events) := by
  intro events
  by_cases hstill : target = cursor
  · have hevents : events = [] := if_pos hstill
    rw [hevents, hstill]
    exact ⟨trivial, h⟩
  · have hevents : events = [.moved target.x target.y] := if_neg hstill
    rw [hevents]
    exact ⟨⟨trivial, trivial⟩, rfl, h.keysHeld, h.buttons, h.spare⟩

/-- A card that mirrors a tracker still does so after the events of a round. -/
theorem mirrors_sample {tracker : Tracker} {read : Reader} {size : Option Size}
    (h : Mirrors tracker.controls tracker.isPressed tracker.cursor input)
    (hcomplete : (tracker.sample read size).complete = true) :
    let sample := tracker.sample read size
    input.CountsAll sample.events ∧
      Mirrors tracker.controls sample.tracker.isPressed sample.tracker.cursor
        (input.acceptAll sample.events) := by
  intro sample
  obtain ⟨found, hfound⟩ : ∃ found, found = read.isOn tracker.controls Slot.all [] := ⟨_, rfl⟩
  obtain ⟨hpressed, hevents⟩ := Tracker.sample_of_complete hcomplete
  rw [← hfound] at hpressed hevents
  obtain ⟨hcountsLeading, hleading⟩ := mirrors_changes h Slot.leading (by decide) found
  obtain ⟨hcountsMove, hmoved⟩ := mirrors_move hleading sample.tracker.cursor
  obtain ⟨hcountsTrailing, htrailing⟩ :=
    mirrors_changes hmoved Slot.trailing (by decide) found
  have hlast : (Slot.trailing.filterMap fun slot => tracker.controls.change? slot
        (if slot ∈ Slot.leading then found slot else tracker.isPressed slot) (found slot)) =
      Slot.trailing.filterMap fun slot =>
        tracker.controls.change? slot (tracker.isPressed slot) (found slot) := by
    apply List.filterMap_congr
    intro slot hslot
    rw [if_neg (Slot.mem_trailing_iff.mp hslot)]
  have hlevels : (fun slot => if slot ∈ Slot.trailing then found slot
        else if slot ∈ Slot.leading then found slot else tracker.isPressed slot) =
      sample.tracker.isPressed := by
    funext slot
    rw [hpressed slot]
    by_cases hslot : slot ∈ Slot.leading
    · simp [hslot]
    · simp [Slot.mem_trailing_iff, hslot]
  rw [hlast] at hcountsTrailing htrailing
  rw [hlevels] at htrailing
  rw [show sample.events = _ from hevents, List.append_assoc, acceptAll_append, acceptAll_append]
  exact ⟨countsAll_append hcountsLeading (countsAll_append hcountsMove hcountsTrailing), htrailing⟩

/-- A card that is given the events of all rounds, as many as there have been, mirrors the
tracker. -/
theorem mirrors_addAll {start : Tracker} (hstart : start.Fresh) {rounds : List Round}
    (hcomplete : Recording.Completes ⟨start, []⟩ rounds) {t : Nat} (ht : t ≤ rounds.length) :
    let reached := Recording.addAll ⟨start, []⟩ (rounds.take t)
    released.CountsAll reached.events ∧
      Mirrors start.controls reached.tracker.isPressed reached.tracker.cursor
        (released.acceptAll reached.events) := by
  induction t with
  | zero =>
      have hcursor : start.cursor = ⟨0, 0⟩ := by cases hstart <;> rfl
      rw [List.take_zero]
      refine ⟨trivial, ?_⟩
      show Mirrors start.controls start.isPressed start.cursor released
      rw [hcursor]
      exact mirrors_released hstart.isPressed
  | succ t ih =>
      obtain ⟨reached, hreached⟩ :
          ∃ reached, reached = Recording.addAll ⟨start, []⟩ (rounds.take t) := ⟨_, rfl⟩
      have hcontrols : reached.tracker.controls = start.controls := by
        rw [hreached, Recording.controls_addAll]
      have hround := hcomplete t ht
      obtain ⟨hcounts, hmirrors⟩ := ih (Nat.le_of_lt ht)
      rw [← hreached] at hcounts hmirrors hround
      rw [← hcontrols] at hmirrors
      obtain ⟨hcountsRound, hmirrorsRound⟩ := mirrors_sample hmirrors hround
      rw [hcontrols, ← acceptAll_append] at hmirrorsRound
      rw [Recording.addAll_take_succ ht, ← hreached]
      exact ⟨countsAll_append hcounts hcountsRound, hmirrorsRound⟩

end CardInput

namespace Card

/-- The input of a new card follows the tracker whose events it is given.  After any number of
rounds it has the cursor of the tracker and as many keys as key slots are recorded as pressed,
and a pointer button that is bound once at most is held just when its slot is pressed.  No key
was ever too many to be counted, and none went up that was not counted.  Once everything is
released, so is the card. -/
theorem mirrors_rounds {start : Tracker} (hstart : start.Fresh) (rounds : List Round)
    (hcomplete : Recording.Completes ⟨start, []⟩ rounds) (size : Size) (frequency : Float32) :
    let card := create size frequency
    ∀ t ≤ rounds.length,
      let reached := Recording.addAll ⟨start, []⟩ (rounds.take t)
      let input := (card.take reached.events).input
      input.cursor = reached.tracker.cursor ∧
      input.keysHeld = start.controls.keysOn reached.tracker.isPressed ∧
      (∀ button, start.controls.BindsOnce button →
        (input.holds button = true ↔
          ∃ slot, start.controls.action? slot = some (.button button) ∧
            reached.tracker.isPressed slot = true)) ∧
      (∀ earlier event later, reached.events = earlier ++ event :: later →
        let before := (card.take earlier).input
        (before.accept? event).isSome = true ∧
          ∀ code, event = .keyUp code → 0 < before.keysHeld) ∧
      ((∀ slot, reached.tracker.isPressed slot = false) →
        input.keysHeld = 0 ∧
          ((∀ button, start.controls.BindsOnce button) → input.buttons = 0)) := by
  intro card t ht reached input
  obtain ⟨hcounts, hmirrors⟩ := CardInput.mirrors_addAll hstart hcomplete ht
  refine ⟨hmirrors.cursor_eq, hmirrors.keysHeld, hmirrors.buttons, ?_, ?_⟩
  · intro earlier event later hevents before
    have hcounted : CardInput.released.CountsAll (earlier ++ event :: later) := by
      rw [← hevents]
      exact hcounts
    refine ⟨CardInput.accept?_isSome hcounted.counts, ?_⟩
    rintro code rfl
    exact hcounted.counts
  · intro hreleased
    have hnone : start.controls.keysOn reached.tracker.isPressed = 0 := by
      simp [Controls.keysOn, hreleased]
    refine ⟨hmirrors.keysHeld.trans hnone, ?_⟩
    intro honce
    apply CardInput.buttons_eq_zero hmirrors.spare
    intro button
    rw [Bool.eq_false_iff]
    intro hholds
    obtain ⟨slot, -, hpressed⟩ := (hmirrors.buttons button (honce button)).mp hholds
    rw [hreleased slot] at hpressed
    cases hpressed

/-- The law at work on two slots with one source and one key, and on a pointer button that two
slots act as: the latter is let go by the first of them that goes up. -/
theorem mirrors_rounds_of_shared_key :
    let controls := ((Controls.keyboardAndMouse.bind .down (Controls.padKey .up AdbKey.up)).bind
      (.action 0) (some ⟨.pad .a, some (.button .right)⟩))
    let start := Tracker.create controls (.directional 4)
    let round (on : List Source) : Round :=
      { read := fun _ source => some (if source ∈ on then 1 else 0), size := some ⟨640, 480⟩ }
    let rounds := [round [.pad .up, .mouse .left, .mouse .right, .pad .a],
      round [.pad .up, .pad .right, .mouse .left, .mouse .right], round []]
    let card := create ⟨2, 2⟩ 0
    let input (t : Nat) := (card.take (Recording.addAll ⟨start, []⟩ (rounds.take t)).events).input
    start.Fresh ∧ Recording.Completes ⟨start, []⟩ rounds ∧
      input 1 = { cursor := ⟨0, 0⟩, buttons := 3, keysHeld := 2 } ∧
      input 2 = { cursor := ⟨4, 0⟩, buttons := 1, keysHeld := 3 } ∧
      (input 2).keysHeld =
        controls.keysOn (Recording.addAll ⟨start, []⟩ (rounds.take 2)).tracker.isPressed ∧
      controls.BindsOnce .left ∧
      ((input 2).holds .left = true ↔ ∃ slot, controls.action? slot = some (.button .left) ∧
        (Recording.addAll ⟨start, []⟩ (rounds.take 2)).tracker.isPressed slot = true) ∧
      (input 3).keysHeld = 0 := by
  intro controls start round rounds card input
  have hfresh : start.Fresh := .created controls _
  have hcomplete : Recording.Completes ⟨start, []⟩ rounds := by
    intro t ht
    have hround : ∃ on, rounds[t] = round on := by
      have hmem : rounds[t] ∈ rounds := List.getElem_mem ht
      simp only [rounds, List.mem_cons, List.not_mem_nil, or_false] at hmem
      rcases hmem with h | h | h
      all_goals exact ⟨_, h⟩
    obtain ⟨on, hon⟩ := hround
    rw [hon]
    apply Tracker.complete_sample fun _ _ => rfl
    intro size hsize
    rw [← Option.some.inj hsize]
    exact ⟨by decide, by decide⟩
  have honce : controls.BindsOnce .left := by
    have hleft (slot : Slot) (hslot : controls.action? slot = some (.button .left)) :
        slot = .pointer .left := by
      cases slot with
      | action n => revert n hslot; decide
      | pointer button => cases button <;> first | rfl | cases hslot
      | _ => cases hslot
    intro slot other hslot hother
    rw [hleft slot hslot, hleft other hother]
  have hlaw := mirrors_rounds hfresh rounds hcomplete ⟨2, 2⟩ 0
  obtain ⟨-, hkeys, hbuttons, -⟩ := hlaw 2 (by decide)
  obtain ⟨-, -, -, -, hreleased⟩ := hlaw 3 (by decide)
  refine ⟨hfresh, hcomplete, by decide +kernel, by decide +kernel, hkeys, honce,
    hbuttons .left honce, (hreleased ?_).1⟩
  intro slot
  have hnone : (Recording.addAll ⟨start, []⟩ (rounds.take 3)).tracker.pressed = [] := by
    decide +kernel
  simp [Tracker.isPressed, hnone]

end Card

end Framestep
