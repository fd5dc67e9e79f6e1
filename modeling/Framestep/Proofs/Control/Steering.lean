import Framestep.Proofs.Control.Reads

/-!
# Steering the cursor

The directions move the cursor by a step in each round.  Every sum stops at the limits of a signed
32-bit number, and the last picture shown holds the cursor back if there was one.
`Cursor.heading` and `Cursor.within` say the two separately and know of no machine word but those
limits.

Two main statements.  `Tracker.rounds_steer_cursor` follows the cursor through any rounds: it goes
where these two say, its moves are told once, and so the last move told is where it is.
`Tracker.steers_inside_iff` is about pictures of any size that 32 bits can tell without a sign.
Beyond half of these sizes the bound is computed from a number that has turned negative, and a
cursor that the picture has room for is taken to its first pixel, or the round is cut off.
-/

namespace Framestep

/-! ## Signed 32-bit numbers -/

/-- A number that a signed 32-bit number can be. -/
def IsInt32 (n : Int) : Prop := minInt32 ≤ n ∧ n ≤ maxInt32

instance (n : Int) : Decidable (IsInt32 n) := inferInstanceAs (Decidable (_ ∧ _))

theorem isInt32_clampInt32 (n : Int) : IsInt32 (clampInt32 n) := by
  simp only [IsInt32, clampInt32, minInt32, maxInt32]
  omega

/-- Beyond the largest signed number the low bits are those of a negative one. -/
theorem wrapInt32_of_lt {n : Nat} (h : maxInt32 < (n : Int)) (hword : n < Nat.pow 2 32) :
    wrapInt32 n = n - 4294967296 := by
  have hhalf : Nat.pow 2 31 = 2147483648 := rfl
  have hfull : Nat.pow 2 32 = 4294967296 := rfl
  rw [maxInt32] at h
  rw [hfull] at hword
  simp only [wrapInt32, hhalf, hfull]
  rw [Nat.mod_eq_of_lt hword, if_neg (by omega)]
  rfl

namespace Tracker

/-- The bound of a side that is too long for a signed number is zero.  One pixel over, there is
none. -/
theorem lastPixel?_of_lt {pixels : Nat} (h : maxInt32 < (pixels : Int))
    (hword : pixels < Nat.pow 2 32) :
    lastPixel? pixels = if (pixels : Int) = maxInt32 + 1 then none else some 0 := by
  have hfull : Nat.pow 2 32 = 4294967296 := rfl
  rw [hfull] at hword
  have hsmallest : (pixels : Int) - 4294967296 = minInt32 ↔ (pixels : Int) = maxInt32 + 1 := by
    rw [minInt32, maxInt32]
    omega
  have hnegative : max ((pixels : Int) - 4294967296 - 1) 0 = 0 := by omega
  simp only [lastPixel?, wrapInt32_of_lt h (by rwa [hfull]), hsmallest, hnegative]

/-- A side of so many pixels leaves a coordinate alone that lies within it. -/
def LeavesBe (pixels : Nat) (place : Int) : Prop :=
  (pixels : Int) ≤ maxInt32 ∨ maxInt32 + 1 < (pixels : Int) ∧ place = 0

theorem ite_eq_iff_leavesBe {pixels : Nat} {place : Int} (h : ¬ (pixels : Int) = maxInt32 + 1) :
    (if (pixels : Int) ≤ maxInt32 then place else 0) = place ↔ LeavesBe pixels place := by
  unfold LeavesBe
  split <;> omega

/-- What the bound of a side does to a coordinate within it. -/
theorem lastPixel?_of_inside {pixels : Nat} (hword : pixels < Nat.pow 2 32) {place : Int}
    (hinside : 0 ≤ place ∧ place < pixels) :
    match lastPixel? pixels with
    | none => (pixels : Int) = maxInt32 + 1
    | some last =>
      ¬ (pixels : Int) = maxInt32 + 1 ∧
        max 0 (min place last) = if (pixels : Int) ≤ maxInt32 then place else 0 := by
  -- Short enough, one pixel over, and longer than that.
  by_cases hfits : (pixels : Int) ≤ maxInt32
  · rw [lastPixel?_of_le hfits]
    simp only [if_pos hfits]
    omega
  · rw [lastPixel?_of_lt (Int.lt_of_not_ge hfits) hword]
    simp only [if_neg hfits]
    by_cases hover : (pixels : Int) = maxInt32 + 1
    · simp only [if_pos hover]
      exact hover
    · simp only [if_neg hover]
      exact ⟨hover, by omega⟩

end Tracker

/-! ## One step -/

namespace Cursor

/-- Where the directions that are on take the cursor if no picture holds it back. -/
def heading (cursor : Cursor) (step : Int) (on : Slot → Bool) : Cursor where
  x := clampInt32 (cursor.x + clampInt32 (((on .right).toInt - (on .left).toInt) * step))
  y := clampInt32 (cursor.y + clampInt32 (((on .down).toInt - (on .up).toInt) * step))

/-- The pixel of a picture that is next to the cursor. -/
def within (cursor : Cursor) (size : Size) : Cursor where
  x := max 0 (min cursor.x (max ((size.width : Int) - 1) 0))
  y := max 0 (min cursor.y (max ((size.height : Int) - 1) 0))

/-- The cursor held back by a picture, if there is one. -/
def heldBack (cursor : Cursor) (size : Option Size) : Cursor := size.elim cursor cursor.within

def IsInside (cursor : Cursor) (size : Size) : Prop :=
  (0 ≤ cursor.x ∧ cursor.x < size.width) ∧ 0 ≤ cursor.y ∧ cursor.y < size.height

/-- Both coordinates are signed 32-bit numbers. -/
def FitsInt32 (cursor : Cursor) : Prop := IsInt32 cursor.x ∧ IsInt32 cursor.y

/-- The cursor held back by the bounds of a picture, if they can be computed. -/
def held? (cursor : Cursor) : Option Size → Option Cursor
  | none => some cursor
  | some size => do
    let right ← Tracker.lastPixel? size.width
    let bottom ← Tracker.lastPixel? size.height
    return ⟨max 0 (min cursor.x right), max 0 (min cursor.y bottom)⟩

variable {cursor : Cursor} {size : Size}

theorem fitsInt32_heading (cursor : Cursor) (step : Int) (on : Slot → Bool) :
    (cursor.heading step on).FitsInt32 :=
  ⟨isInt32_clampInt32 _, isInt32_clampInt32 _⟩

theorem isInside_within (cursor : Cursor) (hwidth : 0 < size.width) (hheight : 0 < size.height) :
    (cursor.within size).IsInside size := by
  simp only [IsInside, within]
  omega

theorem held?_of_fits (cursor : Cursor) {known : Option Size}
    (hfits : ∀ size, known = some size → size.FitsInt32) :
    cursor.held? known = some (cursor.heldBack known) := by
  cases known with
  | none => rfl
  | some size =>
      obtain ⟨hwidth, hheight⟩ := hfits size rfl
      simp only [held?, Tracker.lastPixel?_of_le hwidth, Tracker.lastPixel?_of_le hheight]
      rfl

theorem held?_of_inside (hwidth : size.width < Nat.pow 2 32)
    (hheight : size.height < Nat.pow 2 32) (hinside : cursor.IsInside size) :
    cursor.held? (some size) =
      if (size.width : Int) = maxInt32 + 1 ∨ (size.height : Int) = maxInt32 + 1 then none
      else
        some ⟨if (size.width : Int) ≤ maxInt32 then cursor.x else 0,
          if (size.height : Int) ≤ maxInt32 then cursor.y else 0⟩ := by
  have hx := Tracker.lastPixel?_of_inside hwidth hinside.1
  have hy := Tracker.lastPixel?_of_inside hheight hinside.2
  simp only [held?, Option.bind_eq_bind]
  cases hright : Tracker.lastPixel? size.width with
  | none =>
      simp only [hright] at hx
      rw [if_pos (.inl hx)]
      rfl
  | some right =>
      simp only [hright] at hx
      cases hbottom : Tracker.lastPixel? size.height with
      | none =>
          simp only [hbottom] at hy
          rw [if_pos (.inr hy)]
          rfl
      | some bottom =>
          simp only [hbottom] at hy
          rw [if_neg (not_or.mpr ⟨hx.1, hy.1⟩), ← hx.2, ← hy.2]
          rfl

theorem fitsInt32_of_held? {known : Option Size} {target : Cursor} (hcursor : cursor.FitsInt32)
    (hheld : cursor.held? known = some target) : target.FitsInt32 := by
  cases known with
  | none =>
      cases hheld
      exact hcursor
  | some size =>
      obtain ⟨⟨-, hx⟩, -, hy⟩ := hcursor
      simp only [held?, Option.bind_eq_bind, Option.bind_eq_some_iff] at hheld
      obtain ⟨right, -, bottom, -, htarget⟩ := hheld
      cases htarget
      simp only [FitsInt32, IsInt32, minInt32, maxInt32] at hx hy ⊢
      omega

end Cursor

/-! ## One round -/

namespace Tracker

section
variable {tracker : Tracker} {read : Reader} {step : Int}

theorem steer?_eq_held? {now : List Slot} {on : Slot → Bool}
    (hnow : ∀ slot, decide (slot ∈ now) = on slot) (cursor : Cursor) (step : Int)
    (size : Option Size) :
    steer? cursor step now size = (cursor.heading step on).held? size := by
  simp only [steer?, shift, hnow]
  cases size <;> rfl

/-- A round whose slots are all read takes the cursor where the directions head, as far as the
picture lets it, and is cut off if its bounds cannot be computed. -/
theorem sample_of_directional (hmode : tracker.mode = .directional step)
    (hanswers : read.lost? [] (tracker.controls.sources Slot.all) = none) (size : Option Size) :
    match (tracker.cursor.heading step (read.isOn tracker.controls Slot.all [])).held? size with
    | none => (tracker.sample read size).complete = false
    | some target =>
      (tracker.sample read size).complete = true ∧
        (tracker.sample read size).tracker.cursor = target := by
  have hreads := readSlots_of_answers Slot.nodup_all hanswers
  have hnow (slot : Slot) :
      decide (slot ∈ Slot.all.filter (read.isOn tracker.controls Slot.all [])) =
        read.isOn tracker.controls Slot.all [] slot := by
    simp [slot.mem_all]
  rw [sample_of_reads hreads]
  simp only [aim, hmode, steer?_eq_held? hnow]
  cases (tracker.cursor.heading step (read.isOn tracker.controls Slot.all [])).held? size with
  | none => rfl
  | some target => exact ⟨rfl, rfl⟩

/-- A picture that is not too large cuts no round off, and the cursor ends inside it. -/
theorem sample_of_fits (hmode : tracker.mode = .directional step)
    (hanswers : read.lost? [] (tracker.controls.sources Slot.all) = none) {size : Option Size}
    (hsize : ∀ known, size = some known → known.FitsInt32) :
    let after := (tracker.sample read size).tracker.cursor
    let heading := tracker.cursor.heading step (read.isOn tracker.controls Slot.all [])
    (tracker.sample read size).complete = true ∧ after = heading.heldBack size ∧
      ∀ known, size = some known → 0 < known.width → 0 < known.height →
        after.IsInside known := by
  intro after heading
  have hsample := sample_of_directional hmode hanswers size
  rw [Cursor.held?_of_fits _ hsize] at hsample
  obtain ⟨hcomplete, hafter⟩ := hsample
  refine ⟨hcomplete, hafter, ?_⟩
  rintro known rfl hwidth hheight
  show Cursor.IsInside (tracker.sample read (some known)).tracker.cursor known
  rw [hafter]
  exact Cursor.isInside_within _ hwidth hheight

theorem fitsInt32_sample (hmode : tracker.mode = .directional step)
    (hcursor : tracker.cursor.FitsInt32) (size : Option Size) :
    (tracker.sample read size).tracker.cursor.FitsInt32 := by
  cases hcomplete : (tracker.sample read size).complete with
  | false => rwa [cursor_sample_of_cut hcomplete]
  | true =>
      cases hlost : read.lost? [] (tracker.controls.sources Slot.all) with
      | some n =>
          rw [sample_of_lost_slot size hlost] at hcomplete
          cases hcomplete
      | none =>
          have hsample := sample_of_directional hmode hlost size
          have hfits := Cursor.fitsInt32_heading tracker.cursor step
            (read.isOn tracker.controls Slot.all [])
          cases hheld : (tracker.cursor.heading step
              (read.isOn tracker.controls Slot.all [])).held? size with
          | none =>
              simp only [hheld, hcomplete] at hsample
              cases hsample
          | some target =>
              simp only [hheld] at hsample
              rw [hsample.2]
              exact Cursor.fitsInt32_of_held? hfits hheld

end

end Tracker

/-! ## The moves that are told -/

/-- Where an event moves the pointer, if it is a move. -/
def Event.moved? : Event → Option Cursor
  | .moved x y => some ⟨x, y⟩
  | _ => none

/-- Where the last move among these events has put the pointer, and the origin if there is none. -/
def lastMove (events : List Event) : Cursor :=
  ((events.filterMap Event.moved?).getLast?).getD ⟨0, 0⟩

@[simp] theorem Action.moved?_edge (action : Action) (pressed : Bool) :
    (action.edge pressed).moved? = none := by
  cases action <;> cases pressed <;> rfl

theorem Controls.moved?_of_change? {controls : Controls} {slot : Slot} {was is : Bool}
    {event : Event} (h : controls.change? slot was is = some event) : event.moved? = none := by
  cases haction : controls.action? slot with
  | none => simp [change?, haction] at h
  | some action =>
      rw [controls.change?_of_action haction] at h
      split at h
      · cases h
      · cases h
        exact action.moved?_edge is

namespace Tracker

theorem filterMap_moved?_changes (before after : Tracker) (slots : List Slot) :
    (slots.filterMap (before.changeTo? after)).filterMap Event.moved? = [] := by
  apply List.filterMap_eq_nil_iff.mpr
  intro event hevent
  obtain ⟨slot, -, hchange⟩ := List.mem_filterMap.mp hevent
  exact Controls.moved?_of_change? hchange

/-- A round tells of a move if and only if the cursor has moved, and tells where it is now. -/
theorem moves_sample (tracker : Tracker) (read : Reader) (size : Option Size) :
    let after := (tracker.sample read size).tracker.cursor
    (tracker.sample read size).events.filterMap Event.moved? =
      if after = tracker.cursor then [] else [after] := by
  intro after
  obtain ⟨hevents, -⟩ := tracker.sample_records read size
  rw [hevents, map_labelled, List.filterMap_append, List.filterMap_append,
    filterMap_moved?_changes, filterMap_moved?_changes, List.nil_append, List.append_nil]
  show (move tracker.cursor after).filterMap Event.moved? = _
  unfold move
  split
  · rfl
  · rfl

end Tracker

namespace Recording

variable {recording : Recording}

/-- The cursor stays where the last move that was told has put it. -/
theorem cursor_addAll (hstart : recording.tracker.cursor = lastMove recording.events)
    (rounds : List Round) :
    (recording.addAll rounds).tracker.cursor = lastMove (recording.addAll rounds).events := by
  induction rounds generalizing recording with
  | nil => exact hstart
  | cons round rounds ih =>
      -- One round: either it tells of no move and the cursor is still, or its move is the last.
      refine ih ?_
      have hmoves := recording.tracker.moves_sample round.read round.size
      simp only [add, lastMove, List.filterMap_append] at hstart hmoves ⊢
      rw [hmoves]
      split
      · next hstill => rw [List.append_nil, ← hstart, hstill]
      · rw [List.getLast?_append]
        rfl

theorem fitsInt32_addAll {step : Int} (hmode : recording.tracker.mode = .directional step)
    (hcursor : recording.tracker.cursor.FitsInt32) (rounds : List Round) :
    (recording.addAll rounds).tracker.cursor.FitsInt32 := by
  induction rounds generalizing recording with
  | nil => exact hcursor
  | cons round rounds ih =>
      exact ih ((Tracker.mode_sample _ _ _).trans hmode)
        (Tracker.fitsInt32_sample hmode hcursor round.size)

@[simp] theorem mode_addAll (recording : Recording) (rounds : List Round) :
    (recording.addAll rounds).tracker.mode = recording.tracker.mode := by
  induction rounds generalizing recording with
  | nil => rfl
  | cons round rounds ih => exact (ih (recording.add round)).trans (Tracker.mode_sample _ _ _)

end Recording

/-! ## The laws -/

/-- What a round computes without stopping at the limits: one difference for each axis, and the
sides of the picture as signed numbers, less one. -/
def Cursor.unsaturated (on : Slot → Bool) (size : Option Size) : List Int :=
  [(on .right).toInt - (on .left).toInt, (on .down).toInt - (on .up).toInt] ++
    match size with
    | none => []
    | some size =>
      [wrapInt32 size.width, wrapInt32 size.width - 1, wrapInt32 size.height,
        wrapInt32 size.height - 1]

theorem Cursor.isInt32_of_mem_unsaturated {on : Slot → Bool} {size : Option Size}
    (hsize : ∀ known, size = some known → known.FitsInt32) {n : Int}
    (hn : n ∈ unsaturated on size) : IsInt32 n := by
  have hsigns (forward back : Bool) : IsInt32 (forward.toInt - back.toInt) := by
    cases forward <;> cases back <;> exact ⟨by decide, by decide⟩
  rcases List.mem_append.mp hn with haxis | hside
  · rcases List.mem_cons.mp haxis with rfl | hlast
    · exact hsigns _ _
    · rw [List.mem_singleton.mp hlast]
      exact hsigns _ _
  · cases size with
    | none => cases hside
    | some size =>
        obtain ⟨hwidth, hheight⟩ := hsize size rfl
        simp only [wrapInt32_of_le hwidth, wrapInt32_of_le hheight, List.mem_cons,
          List.not_mem_nil, or_false] at hside
        rw [maxInt32] at hwidth hheight
        rw [IsInt32, minInt32, maxInt32]
        omega

namespace Tracker

theorem Fresh.cursor {tracker : Tracker} (h : tracker.Fresh) : tracker.cursor = ⟨0, 0⟩ := by
  cases h <;> rfl

/-- The law of the steered cursor, for any rounds made with a fresh tracker.  A round tells of a
move if and only if the cursor has moved, and tells where it is now.  If its slots can be read
and its picture is not too large it comes to its end without a number that 32 bits could not
tell; the cursor then is where the directions head, held back by the picture, and inside it
unless there is no pixel.  At all times the cursor is where the last move told has put it. -/
theorem rounds_steer_cursor {start : Tracker} (hstart : start.Fresh) {step : Int}
    (hmode : start.mode = .directional step) (rounds : List Round) :
    let recording : Recording := { tracker := start, events := [] }
    (∀ t, ∀ ht : t < rounds.length,
      let before := (recording.addAll (rounds.take t)).tracker
      let sample := before.sample rounds[t].read rounds[t].size
      let after := sample.tracker.cursor
      let on := rounds[t].read.isOn start.controls Slot.all []
      let heading := before.cursor.heading step on
      sample.events.filterMap Event.moved? = (if after = before.cursor then [] else [after]) ∧
      (rounds[t].read.lost? [] (start.controls.sources Slot.all) = none →
        (∀ known, rounds[t].size = some known → known.FitsInt32) →
          sample.complete = true ∧
          (∀ n ∈ Cursor.unsaturated on rounds[t].size, IsInt32 n) ∧
          after = heading.heldBack rounds[t].size ∧
          ∀ known, rounds[t].size = some known → 0 < known.width → 0 < known.height →
            after.IsInside known)) ∧
    ∀ t ≤ rounds.length,
      let reached := recording.addAll (rounds.take t)
      reached.tracker.cursor = lastMove reached.events ∧ reached.tracker.cursor.FitsInt32 := by
  intro recording
  have horigin : start.cursor.FitsInt32 := by
    rw [hstart.cursor]
    exact ⟨by decide, by decide⟩
  refine ⟨?_, fun t _ => ⟨?_, ?_⟩⟩
  · intro t ht before sample after on heading
    refine ⟨before.moves_sample rounds[t].read rounds[t].size, ?_⟩
    intro hanswers hsize
    have hcontrols : before.controls = start.controls :=
      Recording.controls_addAll recording (rounds.take t)
    have hdirectional : before.mode = .directional step :=
      (Recording.mode_addAll recording (rounds.take t)).trans hmode
    have hround := sample_of_fits hdirectional (hcontrols ▸ hanswers) hsize
    rw [hcontrols] at hround
    exact ⟨hround.1, fun n hn => Cursor.isInt32_of_mem_unsaturated hsize hn, hround.2⟩
  · exact Recording.cursor_addAll hstart.cursor _
  · exact Recording.fitsInt32_addAll hmode horigin _

/-- The law at work on steps as large as they can be.  The cursor stops at the largest number, is
brought into a picture, loses a round and follows the picture as it shrinks. -/
theorem rounds_steer_cursor_of_largest_step :
    let start := create Controls.keyboardAndMouse (.directional maxInt32)
    let read (held : List PadButton) : Reader := fun _ source =>
      some (if source ∈ held.map Source.pad then 1 else 0)
    let rounds : List Round :=
      [⟨read [.right], none⟩, ⟨read [.right, .down], some ⟨10, 6⟩⟩, ⟨fun _ _ => none, none⟩,
        ⟨read [.left, .right], some ⟨4, 0⟩⟩]
    let recording : Recording := { tracker := start, events := [] }
    start.Fresh ∧ start.mode = .directional maxInt32 ∧
      (recording.addAll rounds).events.filterMap Event.moved? =
        [⟨maxInt32, 0⟩, ⟨9, 5⟩, ⟨3, 0⟩] ∧
      (recording.addAll rounds).tracker.cursor = ⟨3, 0⟩ ∧
      (recording.addAll rounds).tracker.cursor = lastMove (recording.addAll rounds).events := by
  intro start read rounds recording
  have hfresh : start.Fresh := .created _ _
  obtain ⟨-, hlast⟩ := rounds_steer_cursor hfresh rfl rounds
  exact ⟨hfresh, rfl, by decide +kernel, by decide +kernel,
    (hlast rounds.length (Nat.le_refl _)).1⟩

/-- The exact bounds of steering within a picture.  Where the directions head for a pixel of the
picture, the round is cut off if and only if one of its sides is one pixel longer than the
largest signed number.  Otherwise the cursor gets there along the sides that are not longer,
and is taken to the first pixel along those that are. -/
theorem steers_inside_iff {tracker : Tracker} {step : Int}
    (hmode : tracker.mode = .directional step) {read : Reader}
    (hanswers : read.lost? [] (tracker.controls.sources Slot.all) = none) {size : Size}
    (hwidth : size.width < Nat.pow 2 32) (hheight : size.height < Nat.pow 2 32)
    (hinside : (tracker.cursor.heading step
      (read.isOn tracker.controls Slot.all [])).IsInside size) :
    let sample := tracker.sample read (some size)
    let heading := tracker.cursor.heading step (read.isOn tracker.controls Slot.all [])
    (sample.complete = false ↔
        (size.width : Int) = maxInt32 + 1 ∨ (size.height : Int) = maxInt32 + 1) ∧
      (sample.complete = true →
        sample.tracker.cursor =
          ⟨if (size.width : Int) ≤ maxInt32 then heading.x else 0,
            if (size.height : Int) ≤ maxInt32 then heading.y else 0⟩) ∧
      (sample.complete = true ∧ sample.tracker.cursor = heading ↔
        LeavesBe size.width heading.x ∧ LeavesBe size.height heading.y) := by
  intro sample heading
  have hsample := sample_of_directional hmode hanswers (some size)
  rw [Cursor.held?_of_inside hwidth hheight hinside] at hsample
  by_cases hover : (size.width : Int) = maxInt32 + 1 ∨ (size.height : Int) = maxInt32 + 1
  · rw [if_pos hover] at hsample
    have hcut : sample.complete = false := hsample
    refine ⟨⟨fun _ => hover, fun _ => hcut⟩, ?_, ?_⟩
    · intro hcomplete
      cases hcut.symm.trans hcomplete
    · constructor
      · rintro ⟨hcomplete, -⟩
        cases hcut.symm.trans hcomplete
      · -- One pixel over is the only size of which `LeavesBe` holds for no place.
        rintro ⟨hx, hy⟩
        simp only [LeavesBe] at hx hy
        omega
  · rw [if_neg hover] at hsample
    obtain ⟨hcomplete, hcursor⟩ : sample.complete = true ∧ sample.tracker.cursor = _ := hsample
    obtain ⟨hx, hy⟩ := not_or.mp hover
    refine ⟨⟨?_, fun h => absurd h hover⟩, fun _ => hcursor, ?_⟩
    · intro hcut
      cases hcomplete.symm.trans hcut
    · rw [hcursor, ← ite_eq_iff_leavesBe hx, ← ite_eq_iff_leavesBe hy]
      exact ⟨fun h => Cursor.mk.inj h.2, fun h => ⟨hcomplete, by rw [h.1, h.2]⟩⟩

/-- The law at work on a picture with one side of every kind: the cursor heads for a pixel of it
and ends in its first column. -/
theorem steers_inside_iff_of_wide_picture :
    let tracker := create Controls.keyboardAndMouse (.directional 5)
    let read : Reader := fun _ source =>
      some (if source ∈ [Source.pad .right, Source.pad .down] then 1 else 0)
    let size : Size := ⟨3000000000, 480⟩
    let on := read.isOn tracker.controls Slot.all []
    tracker.mode = .directional 5 ∧
      read.lost? [] (tracker.controls.sources Slot.all) = none ∧
      size.width < Nat.pow 2 32 ∧ size.height < Nat.pow 2 32 ∧
      (tracker.cursor.heading 5 on).IsInside size ∧
      (tracker.sample read (some size)).complete = true ∧
      (tracker.sample read (some size)).tracker.cursor = ⟨0, 5⟩ := by
  intro tracker read size on
  have hanswers : read.lost? [] (tracker.controls.sources Slot.all) = none := by decide +kernel
  have hheading : tracker.cursor.heading 5 on = ⟨5, 5⟩ := by decide +kernel
  have hinside : (tracker.cursor.heading 5 on).IsInside size := by
    rw [hheading]
    exact ⟨by decide, by decide⟩
  have hcomplete : (tracker.sample read (some size)).complete = true := by decide +kernel
  obtain ⟨-, hcursor, -⟩ :=
    steers_inside_iff rfl hanswers (by decide : size.width < Nat.pow 2 32) (by decide) hinside
  refine ⟨rfl, hanswers, by decide, by decide, hinside, hcomplete, ?_⟩
  rw [hcursor hcomplete]
  show (⟨0, (tracker.cursor.heading 5 on).y⟩ : Cursor) = ⟨0, 5⟩
  rw [hheading]

/-- A picture does not leave alone every cursor that is inside it. -/
theorem steers_inside_short_of_wide_picture :
    ¬ ∀ (tracker : Tracker) (step : Int) (read : Reader) (size : Size),
      tracker.mode = .directional step → (∀ asked source, (read asked source).isSome) →
      size.width < Nat.pow 2 32 → size.height < Nat.pow 2 32 →
      (tracker.cursor.heading step (read.isOn tracker.controls Slot.all [])).IsInside size →
        (tracker.sample read (some size)).complete = true ∧
          (tracker.sample read (some size)).tracker.cursor =
            tracker.cursor.heading step (read.isOn tracker.controls Slot.all []) := by
  intro hleaves
  have hstays := hleaves (create Controls.keyboardAndMouse (.directional 5)) 5
    (fun _ source => some (if source = .pad .right then 1 else 0)) ⟨3000000000, 480⟩ rfl
    (fun _ _ => rfl) (by decide) (by decide)
    ⟨⟨by decide +kernel, by decide +kernel⟩, by decide +kernel, by decide +kernel⟩
  exact absurd hstays.2 (by decide +kernel)

end Tracker

end Framestep
