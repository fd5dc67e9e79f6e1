import Framestep.Video.Layout

/-!
# Packed rows

Some hosts take a picture only without padding between its rows.  A picture
whose stride is its row already has that form and is passed on as it is; from
any other the rows are gathered one after the other in a buffer that is used
again for the next picture.
-/

namespace Framestep

/-- A picture without padding, and the buffer that gathers rows. -/
structure Packed where
  pixels : Array UInt8
  scratch : Array UInt8
  deriving DecidableEq, Repr

namespace View

/-- Gathers the first `row` bytes of each of at most `count` rows, the first of
which begins at `start`.  Fails at a row that begins within the picture and has
fewer bytes, up to its stride or the end of the picture. -/
def gatherRows (pixels : Array UInt8) (row stride : Nat) :
    Nat → Nat → Array UInt8 → Option (Array UInt8)
  | 0, _, gathered => some gathered
  | count + 1, start, gathered =>
    if pixels.size ≤ start then
      some gathered
    else if min stride (pixels.size - start) < row then
      none
    else
      gatherRows pixels row stride count (start + stride)
        (gathered ++ pixels.extract start (start + row))

/-- The rows of a picture without padding.  Fails where the picture has too few
bytes for its layout, where rows are gathered at stride zero, and where the
packed size is beyond a machine word or an allocation. -/
def packed? (view : View) (scratch : Array UInt8) : Option Packed :=
  let row := view.layout.rowBytes
  let total := row * view.layout.height
  if wordCount ≤ total then
    none
  else if view.layout.stride = row then
    if total ≤ view.pixels.size then
      some ⟨firstOf view.pixels total, scratch⟩
    else
      none
  else if maxAllocation < total then
    none
  else if view.layout.stride = 0 then
    none
  else
    (gatherRows view.pixels row view.layout.stride view.layout.height 0 #[]).map
      fun gathered => ⟨gathered, gathered⟩

end View

end Framestep
