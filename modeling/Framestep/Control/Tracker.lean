import Framestep.Limits
import Framestep.Video.Layout
import Framestep.Control.Event

/-!
# The control tracker

Once in each frame the tracker reads the level of every bound control and turns
what has changed since the last time into events, one for each transition.
Their order is fixed: the directions and action buttons, then a move of the
pointer, then the pointer buttons.

A read may give up.  What the tracker has done until then stays: nothing at all
if a slot could not be read, and the edges of the directions and action buttons
if a coordinate of the pointer could not be read.
-/

namespace Framestep

structure Cursor where
  x : Int
  y : Int
  deriving DecidableEq, Repr

/-- What was pressed and where the pointer was in the last frame, with the table
that the levels are read by. -/
structure Tracker where
  controls : Controls
  mode : Pointing
  /-- The slots whose level was on. -/
  pressed : List Slot
  cursor : Cursor

/-- What one round of reading did. -/
structure Sample where
  /-- The sources that were read, the last one first. -/
  asked : List Source
  events : List Event
  tracker : Tracker
  /-- Whether the round came to its end. -/
  complete : Bool

/-- Answers the read of a source after the reads that came before it, the last
one first.  A missing answer is a read that gave up. -/
abbrev Reader := List Source → Source → Option Int16

namespace Tracker

/-- A tracker that has seen nothing pressed, with the pointer at the origin. -/
def create (controls : Controls) (mode : Pointing) : Tracker :=
  { controls, mode, pressed := [], cursor := ⟨0, 0⟩ }

/-- The tracker with everything released and the pointer at the origin. -/
def reset (tracker : Tracker) : Tracker :=
  { tracker with pressed := [], cursor := ⟨0, 0⟩ }

/-- Whether a slot was pressed when it was last recorded. -/
def isPressed (tracker : Tracker) (slot : Slot) : Bool := slot ∈ tracker.pressed

/-- Reads the bound ones of `slots` in order: the sources asked so far, and the
slots whose level is not zero unless a read gave up. -/
def readSlots (read : Reader) (controls : Controls) :
    List Slot → List Source → List Source × Option (List Slot)
  | [], asked => (asked, some [])
  | slot :: slots, asked =>
    match controls slot with
    | none => readSlots read controls slots asked
    | some binding =>
      match read asked binding.source with
      | none => (binding.source :: asked, none)
      | some level =>
        let (asked, pressed) := readSlots read controls slots (binding.source :: asked)
        (asked, pressed.map fun pressed => if level = 0 then pressed else slot :: pressed)

/-- The event of one slot between two frames, if its level has changed and it
has an action. -/
def edge? (controls : Controls) (before now : List Slot) (slot : Slot) : Option Event := do
  let binding ← controls slot
  let action ← binding.action
  guard (decide (slot ∈ before) ≠ decide (slot ∈ now))
  return action.edge (decide (slot ∈ now))

def edges (controls : Controls) (before now : List Slot) (slots : List Slot) : List Event :=
  slots.filterMap (edge? controls before now)

/-- The largest coordinate within `size` pixels, as far as a signed 32-bit number
can tell: from the size one is taken away, which fails at its smallest value. -/
def lastPixel? (size : Nat) : Option Int :=
  let size := wrapInt32 size
  if size = minInt32 then none else some (max (size - 1) 0)

/-- The movement along one axis in a frame: a step forward, back, or neither. -/
def shift (forward back : Bool) (step : Int) : Int :=
  clampInt32 ((forward.toInt - back.toInt) * step)

/-- Where the directions take the cursor, within a picture of the given size. -/
def steer? (cursor : Cursor) (step : Int) (now : List Slot) (size : Option Size) :
    Option Cursor :=
  let x := clampInt32 (cursor.x + shift (.right ∈ now) (.left ∈ now) step)
  let y := clampInt32 (cursor.y + shift (.down ∈ now) (.up ∈ now) step)
  match size with
  | none => some ⟨x, y⟩
  | some size => do
    let right ← lastPixel? size.width
    let bottom ← lastPixel? size.height
    return ⟨max 0 (min x right), max 0 (min y bottom)⟩

/-- Where the pointer goes in this frame, and the sources asked so far. -/
def aim (tracker : Tracker) (read : Reader) (size : Option Size) (now : List Slot)
    (asked : List Source) : List Source × Option Cursor :=
  match tracker.mode with
  | .disabled => (asked, some tracker.cursor)
  | .directional step => (asked, steer? tracker.cursor step now size)
  | .absolute xSource ySource =>
    match read asked xSource with
    | none => (xSource :: asked, none)
    | some x =>
      let asked := xSource :: asked
      match read asked ySource with
      | none => (ySource :: asked, none)
      | some y => (ySource :: asked, some ⟨x.toInt, y.toInt⟩)

def move (before now : Cursor) : List Event :=
  if now = before then [] else [.moved now.x now.y]

/-- One round of reading.  `size` is that of the last picture shown. -/
def sample (tracker : Tracker) (read : Reader) (size : Option Size) : Sample :=
  let { controls, pressed, cursor, .. } := tracker
  match readSlots read controls Slot.all [] with
  | (asked, none) => { asked, events := [], tracker, complete := false }
  | (asked, some now) =>
    let early := edges controls pressed now Slot.leading
    match tracker.aim read size now asked with
    | (asked, none) =>
      let recorded := now.filter (· ∈ Slot.leading) ++ pressed.filter (· ∈ Slot.trailing)
      { asked, events := early, tracker := { tracker with pressed := recorded },
        complete := false }
    | (asked, some target) =>
      let late := edges controls pressed now Slot.trailing
      { asked, events := early ++ move cursor target ++ late,
        tracker := { tracker with pressed := now, cursor := target }, complete := true }

end Tracker

end Framestep
