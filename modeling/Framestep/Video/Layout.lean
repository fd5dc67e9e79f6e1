import Framestep.Fault
import Framestep.Limits

/-!
# Picture layouts

Pictures are rows of packed 32-bit pixels.  A layout says how many there are and
how far apart the rows begin; the bytes between the end of a row and the
beginning of the next are padding.
-/

namespace Framestep

def pixelBytes : Nat := 4

structure Size where
  width : Nat
  height : Nat
  deriving DecidableEq, Repr

/-- How a picture lies in memory: its size in pixels, and the bytes from the
beginning of one row to that of the next. -/
structure Layout where
  width : Nat
  height : Nat
  stride : Nat
  deriving DecidableEq, Repr

namespace Size

/-- The layout of a picture of this size whose rows have no padding. -/
def packedLayout (size : Size) : Layout := ⟨size.width, size.height, pixelBytes * size.width⟩

end Size

namespace Layout

def size (layout : Layout) : Size := ⟨layout.width, layout.height⟩

/-- Bytes of one row without its padding. -/
def rowBytes (layout : Layout) : Nat := pixelBytes * layout.width

/-- Bytes of all rows with their padding. -/
def byteCount (layout : Layout) : Nat := layout.height * layout.stride

/-- Whether the layout has no pixel at all. -/
def isBlank (layout : Layout) : Bool := layout.width == 0 || layout.height == 0

/-- The byte count of a layout, if its rows fit into their stride and a machine
word can hold it. -/
def measure (layout : Layout) : Outcome Nat :=
  if layout.stride < layout.rowBytes then
    .refused (.narrowStride layout.width layout.stride)
  else if wordCount ≤ layout.byteCount then
    .refused (.outOfMemory maxWord)
  else
    .done layout.byteCount

end Layout

/-- A picture as it is shown: a layout and the bytes of its rows. -/
structure View where
  layout : Layout
  pixels : Array UInt8
  deriving DecidableEq, Repr

end Framestep
