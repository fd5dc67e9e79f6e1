import Framestep.Proofs.TestCard.Broadcast
import Framestep.Proofs.TestCard.Mirror

/-!
# Where the drawing of a test card stops

The directions take the cursor of a tracker up to the largest signed 32-bit number and leave it
there.  A test card follows the cursor, and finds the far corner of its square by an addition that
is not held back.  So there are places that a tracker can tell of and a card cannot draw.

`CardPicture.Overflows` names them.  The main statement, `Card.survives_iff`, takes a card through
the events of any rounds of a tracker and into any session: it comes to the end of its next turn
exactly if the cursor is at none of these places or no frame is drawn at all.  Only a steered
cursor gets there, and only while no picture holds it back, or one that is nearly as large as a
signed number can tell.  `Card.stops_at_limit` is a cursor that does.
-/

namespace Framestep
namespace CardPicture

/-! ## The drawing -/

/-- An addition leaves the signed 32-bit numbers when so many rows are drawn.  The lower corner is
only looked for in the columns of the square, and these are counted with a sign. -/
def Overflows (size : Size) (rows : Nat) (cursor : Cursor) : Prop :=
  0 < rows ∧ (maxInt32 < cursor.x + 8 ∨ maxInt32 < cursor.y + 8 ∧
    ∃ x < size.width, cursor.x ≤ wrapInt32 x ∧ wrapInt32 x < cursor.x + 8)

variable {size : Size} {frame : Nat} {input : CardInput}

theorem within?_eq_none_iff {start : Int} {place : Nat} :
    within? start place = none ↔ maxInt32 < start + 8 := by
  rw [within?, cursorSide]
  by_cases hover : maxInt32 < start + 8
  · simp [hover]
  · simp [hover]

theorem within?_eq_some_true_iff {start : Int} {place : Nat} :
    within? start place = some true ↔
      start + 8 ≤ maxInt32 ∧ start ≤ wrapInt32 place ∧ wrapInt32 place < start + 8 := by
  rw [within?, cursorSide]
  by_cases hover : maxInt32 < start + 8
  · simp [hover, Int.not_le.mpr hover]
  · simp [hover, Int.not_lt.mp hover]

/-- A pixel has no colour where the far corner of the square cannot be told, and that is asked
for. -/
theorem colour?_eq_none_iff {x y : Nat} :
    colour? size frame input x y = none ↔
      maxInt32 < input.cursor.x + 8 ∨ maxInt32 < input.cursor.y + 8 ∧
        input.cursor.x ≤ wrapInt32 x ∧ wrapInt32 x < input.cursor.x + 8 := by
  have hcolour : colour? size frame input x y = none ↔ covers? input.cursor x y = none := by
    cases hcovers : covers? input.cursor x y with
    | none => simp [colour?, hcovers]
    | some covered => cases covered <;> simp [colour?, hcovers]
  rw [hcolour]
  by_cases hx : maxInt32 < input.cursor.x + 8
  · simp [covers?, within?_eq_none_iff.mpr hx, hx]
  · simp only [hx, false_or]
    by_cases hcolumn : input.cursor.x ≤ wrapInt32 x ∧ wrapInt32 x < input.cursor.x + 8
    · have hinside := within?_eq_some_true_iff.mpr ⟨Int.not_lt.mp hx, hcolumn⟩
      simp [covers?, hinside, within?_eq_none_iff, hcolumn]
    · -- Beside the columns of the square the row is not looked at.
      have houtside : within? input.cursor.x x = some false := by
        cases hwithin : within? input.cursor.x x with
        | none => exact absurd (within?_eq_none_iff.mp hwithin) hx
        | some inside =>
            cases inside with
            | false => rfl
            | true => exact absurd (within?_eq_some_true_iff.mp hwithin).2 hcolumn
      simp [covers?, houtside, hcolumn]

/-- The drawing comes to its end exactly if every pixel has a colour. -/
theorem finished_drawFrom (count index : Nat) (pixels : Array UInt8) :
    (drawFrom size frame input count index pixels).finished = true ↔
      ∀ i, index ≤ i → i < index + count →
        colour? size frame input (i % size.width) (i / size.width) ≠ none := by
  induction count generalizing index pixels with
  | zero => exact ⟨fun _ i hfrom hto => by omega, fun _ => rfl⟩
  | succ count ih =>
      cases hcolour : colour? size frame input (index % size.width) (index / size.width) with
      | none =>
          simp only [drawFrom, hcolour]
          constructor
          · intro hstopped
            cases hstopped
          · exact fun h => absurd hcolour (h index (Nat.le_refl _) (by omega))
      | some colour =>
          simp only [drawFrom, hcolour, ih]
          constructor
          · intro hrest i hfrom hto
            by_cases hfirst : i = index
            · rw [hfirst, hcolour]
              simp
            · exact hrest i (by omega) (by omega)
          · exact fun h i hfrom hto => h i (by omega) (by omega)

/-- A card with columns cannot be drawn exactly where an addition leaves the signed 32-bit
numbers. -/
theorem draw_stops_iff (hwidth : 0 < size.width) (before : Array UInt8) :
    (draw size frame input before).finished = false ↔
      Overflows size (min size.height (before.size / (4 * size.width))) input.cursor := by
  obtain ⟨rows, hrows⟩ : ∃ rows, rows = min size.height (before.size / (4 * size.width)) :=
    ⟨_, rfl⟩
  rw [← hrows, draw, if_neg (Nat.ne_of_gt hwidth), pixelBytes, ← hrows, ← Bool.not_eq_true,
    finished_drawFrom]
  simp only [not_forall, ne_eq, not_not, exists_prop, colour?_eq_none_iff, Nat.zero_le, true_and,
    Nat.zero_add]
  constructor
  · rintro ⟨i, hi, hover⟩
    have hsome : 0 < rows := Nat.pos_of_mul_pos_right (Nat.zero_lt_of_lt hi)
    rcases hover with hx | ⟨hy, hcolumn⟩
    · exact ⟨hsome, .inl hx⟩
    · exact ⟨hsome, .inr ⟨hy, i % size.width, Nat.mod_lt i hwidth, hcolumn⟩⟩
  · rintro ⟨hsome, hover⟩
    have hall : size.width ≤ rows * size.width := Nat.le_mul_of_pos_left size.width hsome
    rcases hover with hx | ⟨hy, x, hx, hcolumn⟩
    · exact ⟨0, by omega, .inl hx⟩
    · refine ⟨x, by omega, .inr ⟨hy, ?_⟩⟩
      rw [Nat.mod_eq_of_lt hx]
      exact hcolumn

/-- Where the square can be placed, nothing overflows. -/
theorem not_overflows_of_hasSquare {rows : Nat} {cursor : Cursor} (h : HasSquare cursor) :
    ¬ Overflows size rows cursor := by
  rintro ⟨-, hx | ⟨hy, -⟩⟩
  · exact Int.not_lt.mpr h.1 hx
  · exact Int.not_lt.mpr h.2 hy

end CardPicture

/-! ## The turn of a card -/

namespace Card

open CardPicture

variable {card : Card} {feed : Feed} {floor : Nat} {memory : Memory}

/-- Nothing is drawn into a feed without a session. -/
theorem emitFrame_of_stopped (h : feed.Stopped) (n : Nat) (memory : Memory) :
    (card.emitFrame n feed memory).1 = .done () := by
  obtain ⟨fault, hpaint⟩ := Mailbox.paint_shut card.size.packedLayout memory
  simp only [emitFrame, Feed.paint, h.mailbox, hpaint]

/-- A card in a running session is aborted exactly where its picture can be stored and its drawing
stops. -/
theorem emitFrame_aborts_iff (h : feed.Running floor) (hwidth : 0 < card.size.width) (n : Nat)
    (memory : Memory) :
    (card.emitFrame n feed memory).1 = .aborted ↔
      card.size.packedLayout.byteCount ≤ feed.mailbox.room memory ∧
        Overflows card.size card.size.height card.input.cursor := by
  obtain ⟨hlarge, hemits⟩ | ⟨hobtained, given, painting, box, hgiven, hpainting, -, -, -, -, -,
      hemits⟩ := emitFrame_cases h card n memory
  · rw [hemits]
    exact ⟨nofun, fun hstops => absurd hstops.1 (Nat.not_le_of_lt hlarge)⟩
  · -- The bytes that the card is given have room for every row.
    have hlines : min card.size.height (given.size / (4 * card.size.width)) =
        card.size.height := by
      rw [hgiven, byteCount_packedLayout, Nat.mul_left_comm,
        Nat.mul_div_cancel _ (Nat.mul_pos (by decide) hwidth), Nat.min_self]
    have hstops : painting.finished = false ↔
        Overflows card.size card.size.height card.input.cursor := by
      rw [hpainting, draw_stops_iff hwidth, hlines]
    rw [hemits, ← hstops, and_iff_right hobtained]
    cases painting.finished with
    | true => simp
    | false => simp

/-- A card that is aborted takes no further turn; any other goes on. -/
theorem alive_turn (card : Card) (feed : Feed) (forFrame forSound : Memory) :
    (card.turn feed forFrame forSound).1.alive = true ↔
      card.alive = true ∧ (card.emitFrame card.frame feed forFrame).1 ≠ .aborted := by
  unfold turn
  cases halive : card.alive with
  | false => simp [halive]
  | true =>
      obtain ⟨outcome, later, hemits⟩ :
          ∃ outcome later, card.emitFrame card.frame feed forFrame = (outcome, later) :=
            ⟨_, _, rfl⟩
      cases outcome <;> simp [hemits, emitSound, halive]

end Card

/-! ## The cursor of a card -/

/-- The pointer of a card is where the last move has put it. -/
theorem CardInput.cursor_acceptAll (input : CardInput) (events : List Event) :
    (input.acceptAll events).cursor =
      ((events.filterMap Event.moved?).getLast?).getD input.cursor := by
  induction events generalizing input with
  | nil => rfl
  | cons event events ih =>
      have hsplit : input.acceptAll (event :: events) =
          ((input.accept? event).getD input).acceptAll events := rfl
      rw [hsplit, ih]
      cases event with
      | moved x y =>
          rw [List.filterMap_cons_some (by rfl : Event.moved? (.moved x y) = some ⟨x, y⟩),
            List.getLast?_cons]
          rfl
      | keyDown key =>
          rw [List.filterMap_cons_none rfl]
          simp only [accept?]
          split <;> rfl
      | _ =>
          rw [List.filterMap_cons_none rfl]
          rfl

namespace Tracker

/-- How a picture holds the cursor back far enough for the square: neither side comes near the
largest signed number. -/
def HoldsBack (known : Size) : Prop :=
  (known.width : Int) + 7 ≤ maxInt32 ∧ (known.height : Int) + 7 ≤ maxInt32

/-- The rounds leave room for the square: the directions do not steer, or a picture holds them back
each time. -/
def LeavesRoom (mode : Pointing) (size : Option Size) : Prop :=
  (∀ step, mode ≠ .directional step) ∨ ∃ known, size = some known ∧ HoldsBack known

theorem hasSquare_aim {tracker : Tracker} {read : Reader} {size : Option Size} {now : List Slot}
    {asked later : List Source} {target : Cursor} (hcursor : CardPicture.HasSquare tracker.cursor)
    (hroom : LeavesRoom tracker.mode size)
    (haim : tracker.aim read size now asked = (later, some target)) :
    CardPicture.HasSquare target := by
  unfold aim at haim
  split at haim
  · cases haim
    exact hcursor
  · next step hmode =>
      obtain hnot | ⟨known, rfl, hwidth, hheight⟩ := hroom
      · exact absurd hmode (hnot step)
      · -- The cursor ends on the picture, which leaves room for the square.
        have hright := lastPixel?_of_le (show (known.width : Int) ≤ maxInt32 by omega)
        have hbottom := lastPixel?_of_le (show (known.height : Int) ≤ maxInt32 by omega)
        simp only [steer?, hright, hbottom, Option.bind_eq_bind, Option.bind_some, Prod.mk.injEq,
          Option.pure_def, Option.some.injEq] at haim
        rw [← haim.2]
        simp only [CardPicture.HasSquare, maxInt32] at hwidth hheight ⊢
        omega
  · -- A position is read as two 16-bit numbers.
    have hshort (level : Int16) : level.toInt + 8 ≤ maxInt32 := by
      have hbound := Int16.toInt_lt level
      simp only [maxInt32]
      omega
    split at haim
    · cases haim
    · simp only at haim
      split at haim
      · cases haim
      · cases haim
        exact ⟨hshort _, hshort _⟩

theorem hasSquare_sample {tracker : Tracker} (hcursor : CardPicture.HasSquare tracker.cursor)
    (read : Reader) {size : Option Size} (hroom : LeavesRoom tracker.mode size) :
    CardPicture.HasSquare (tracker.sample read size).tracker.cursor := by
  cases hreads : readSlots read tracker.controls Slot.all [] with
  | mk asked found =>
      cases found with
      | none =>
          rw [sample_of_lost hreads]
          exact hcursor
      | some now =>
          rw [sample_of_reads hreads]
          split
          · exact hcursor
          · next later target haim => exact hasSquare_aim hcursor hroom haim

end Tracker

theorem Recording.hasSquare_addAll {recording : Recording}
    (hcursor : CardPicture.HasSquare recording.tracker.cursor) (rounds : List Round)
    (hrooms : ∀ round ∈ rounds, Tracker.LeavesRoom recording.tracker.mode round.size) :
    CardPicture.HasSquare (recording.addAll rounds).tracker.cursor := by
  induction rounds generalizing recording with
  | nil => exact hcursor
  | cons round rounds ih =>
      have hmode : (recording.add round).tracker.mode = recording.tracker.mode :=
        Tracker.mode_sample _ _ _
      refine ih (Tracker.hasSquare_sample hcursor round.read
        (hrooms round (List.mem_cons_self ..))) fun later hlater => ?_
      rw [hmode]
      exact hrooms later (List.mem_cons_of_mem _ hlater)

/-! ## The law -/

namespace Card

open CardPicture

variable {κ : Type}

/-- The exact reach of a card, after the events of any rounds made with a fresh tracker, in any
session that can be reached.  The card's pointer is the tracker's cursor.  A drawing stops exactly
where an addition overflows, a frame is aborted exactly if in addition the session runs and has the
storage for it, and only this keeps the card from its next turn.  Unless the cursor is steered by
directions in a round that no picture holds back, nothing overflows. -/
theorem survives_iff {start : Tracker} (hstart : start.Fresh) (rounds : List Round) {card : Card}
    (hinput : card.input = .released) (halive : card.alive = true) (hwidth : 0 < card.size.width)
    {settings : Settings} {asksGui : Bool} {session : Session κ}
    (hcreate : Session.create settings asksGui = .done session) (ops : List (Session.Op κ)) :
    let recording := Recording.addAll { tracker := start, events := [] } rounds
    let cursor := recording.tracker.cursor
    let served := card.take recording.events
    let feed := (session.performAll ops).2.feed
    let stops (memory : Memory) := feed.phase = .ready ∧
      card.size.packedLayout.byteCount ≤ feed.mailbox.room memory ∧
      Overflows card.size card.size.height cursor
    served.input.cursor = cursor ∧
      (∀ n before, (draw card.size n served.input before).finished = false ↔
        Overflows card.size (min card.size.height (before.size / (4 * card.size.width))) cursor) ∧
      (∀ n memory, (served.emitFrame n feed memory).1 = .aborted ↔ stops memory) ∧
      (∀ forFrame forSound, (served.turn feed forFrame forSound).1.alive = true ↔
        ¬ stops forFrame) ∧
      ((∀ round ∈ rounds, Tracker.LeavesRoom start.mode round.size) →
        ∀ rows, ¬ Overflows card.size rows cursor) := by
  intro recording cursor served feed stops
  have hcursor : served.input.cursor = cursor := by
    have htold : cursor = lastMove recording.events :=
      Recording.cursor_addAll hstart.cursor rounds
    have hserved : served.input = card.input.acceptAll recording.events := rfl
    rw [hserved, CardInput.cursor_acceptAll, hinput]
    exact htold.symm
  have haborts (n : Nat) (memory : Memory) :
      (served.emitFrame n feed memory).1 = .aborted ↔ stops memory := by
    rcases (Session.inOrder_of_create hcreate ops).feed with hrunning | hstopped
    · have hcolumns : 0 < served.size.width := hwidth
      rw [emitFrame_aborts_iff hrunning hcolumns n memory, hcursor]
      exact (and_iff_right hrunning.phase).symm
    · rw [emitFrame_of_stopped hstopped n memory]
      exact ⟨nofun, fun h => (hstopped.phase h.1).elim⟩
  refine ⟨hcursor, ?_, haborts, ?_, ?_⟩
  · intro n before
    rw [draw_stops_iff hwidth, hcursor]
  · intro forFrame forSound
    have hserved : served.alive = true := halive
    rw [alive_turn, ne_eq, haborts, and_iff_right hserved]
  · intro hrooms rows
    refine not_overflows_of_hasSquare (Recording.hasSquare_addAll ?_ rounds hrooms)
    show HasSquare start.cursor
    rw [hstart.cursor]
    exact ⟨by decide, by decide⟩

/-- The law at work on a cursor that one step has taken to the largest number.  The card is stopped
by a session that runs and not by one that was never started. -/
theorem survives_iff_of_largest_step :
    let start := Tracker.create Controls.keyboardAndMouse (.directional maxInt32)
    let rounds : List Round :=
      [⟨fun _ source => some (if source = .pad .right then 1 else 0), none⟩]
    let recording := Recording.addAll { tracker := start, events := [] } rounds
    let card := Card.create ⟨1, 1⟩ 0
    let served := card.take recording.events
    let settings : Settings := { audioCapacity := 2, audioCeiling := 3, audioBatch := 1 }
    let session : Session Unit := .unstarted settings false
    start.Fresh ∧ card.input = .released ∧ card.alive = true ∧ 0 < card.size.width ∧
      Session.create settings false = .done session ∧
      recording.events.filterMap Event.moved? = [⟨maxInt32, 0⟩] ∧
      served.input.cursor = ⟨maxInt32, 0⟩ ∧
      (served.turn (session.performAll [.start {}]).2.feed).1.alive ≠ true ∧
      (served.turn (session.performAll []).2.feed).1.alive = true := by
  intro start rounds recording card served settings session
  have hfresh : start.Fresh := .created _ _
  have hcreate : Session.create settings false = .done session := rfl
  have hcursor : recording.tracker.cursor = ⟨maxInt32, 0⟩ := by decide +kernel
  obtain ⟨hpointer, -, -, hruns, -⟩ :=
    survives_iff hfresh rounds (rfl : card.input = .released) rfl (by decide) hcreate [.start {}]
  obtain ⟨-, -, -, hidle, -⟩ :=
    survives_iff hfresh rounds (rfl : card.input = .released) rfl (by decide) hcreate []
  refine ⟨hfresh, rfl, rfl, by decide, hcreate, by decide +kernel, hpointer.trans hcursor, ?_, ?_⟩
  · rw [ne_eq, hruns, not_not, hcursor]
    exact ⟨by decide +kernel, by decide +kernel, by decide, .inl (by decide)⟩
  · rw [hidle]
    rintro ⟨hready, -⟩
    cases hready

/-- Not every cursor that a tracker tells of can be drawn. -/
theorem stops_at_limit :
    ¬ ∀ (start : Tracker) (rounds : List Round) (card : Card) (n : Nat) (settings : Settings)
      (session : Session Unit) (ops : List (Session.Op Unit)), start.Fresh →
      card.input = .released → 0 < card.size.width → Session.create settings false = .done session →
      ((card.take (Recording.addAll { tracker := start, events := [] } rounds).events).emitFrame n
        (session.performAll ops).2.feed).1 ≠ .aborted := by
  intro hdraws
  have hgoes := hdraws (Tracker.create Controls.keyboardAndMouse (.directional maxInt32))
    [⟨fun _ source => some (if source = .pad .right then 1 else 0), none⟩] (Card.create ⟨1, 1⟩ 0) 0
    { audioCapacity := 2, audioCeiling := 3, audioBatch := 1 } _ [.start {}] (.created _ _) rfl
    (by decide) rfl
  exact absurd hgoes (by decide +kernel)

end Card

end Framestep
