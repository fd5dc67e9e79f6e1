import Framestep.Video.Mailbox
import Framestep.TestCard.Input

/-!
# The picture of a test card

Eight vertical bars that move to the left by one pixel in each frame, and on top
of them a square at the pointer, white, or orange while a pointer button is
held.

The corner of the square opposite to the pointer is found by signed 32-bit
addition.  Where that overflows the drawing stops; what has been drawn before
stays.
-/

namespace Framestep

namespace CardPicture

def barColours : Array UInt32 :=
  #[0xFFFFFF, 0xFFFF00, 0x00FFFF, 0x00FF00, 0xFF00FF, 0xFF0000, 0x0000FF, 0x000000]

/-- The side of the square at the pointer. -/
def cursorSide : Int := 8

/-- The square while no button is held. -/
def idleColour : UInt32 := 0xFFFFFF

/-- The square while a button is held. -/
def heldColour : UInt32 := 0xFF8000

/-- The width of a bar, at least one pixel. -/
def barWidth (width : Nat) : Nat := max (width / barColours.size) 1

/-- The colour of the bar at column `x`. -/
def barColour (width frame x : Nat) : UInt32 :=
  barColours.getD ((x + frame) / barWidth width % barColours.size) 0

/-- Whether a place lies within the side of the square that begins at `start`.
Fails where the end of the side is beyond a signed 32-bit number. -/
def within? (start : Int) (place : Nat) : Option Bool :=
  if maxInt32 < start + cursorSide then
    none
  else
    let place := wrapInt32 place
    some (start ≤ place && place < start + cursorSide)

/-- Whether the square covers a pixel.  The row only counts within the columns of
the square. -/
def covers? (cursor : Cursor) (x y : Nat) : Option Bool := do
  if ← within? cursor.x x then within? cursor.y y else return false

def colour? (size : Size) (frame : Nat) (input : CardInput) (x y : Nat) : Option UInt32 := do
  if ← covers? input.cursor x y then
    return if input.buttons = 0 then idleColour else heldColour
  else
    return barColour size.width frame x

/-- Writes a colour to the four bytes from `start` on, lowest byte first. -/
def putColour (pixels : Array UInt8) (start : Nat) (colour : UInt32) : Array UInt8 :=
  (((pixels.setIfInBounds start colour.toUInt8).setIfInBounds (start + 1)
    (colour >>> 8).toUInt8).setIfInBounds (start + 2)
    (colour >>> 16).toUInt8).setIfInBounds (start + 3) (colour >>> 24).toUInt8

/-- Draws `count` pixels, row by row, from the pixel `index` on. -/
def drawFrom (size : Size) (frame : Nat) (input : CardInput) :
    Nat → Nat → Array UInt8 → Painting
  | 0, _, pixels => { pixels, finished := true }
  | count + 1, index, pixels =>
    match colour? size frame input (index % size.width) (index / size.width) with
    | none => { pixels, finished := false }
    | some colour =>
      drawFrom size frame input count (index + 1)
        (putColour pixels (pixelBytes * index) colour)

/-- Draws a frame over as many rows as there are bytes for.  A card without
columns cannot be drawn. -/
def draw (size : Size) (frame : Nat) (input : CardInput) : Painter := fun pixels =>
  if size.width = 0 then
    { pixels, finished := false }
  else
    let rows := min size.height (pixels.size / (pixelBytes * size.width))
    drawFrom size frame input (rows * size.width) 0 pixels

end CardPicture

end Framestep
