/-!
# Control sources

A host names each of its controls by four numbers: the player, the class of the
device, an index and the control's id on that device.  This module gives the
classes and ids in use their names.
-/

namespace Framestep

/-- Where the host reads the level of one control. -/
structure Source where
  player : Nat
  device : Nat
  index : Nat
  id : Nat
  deriving DecidableEq, Repr

namespace Device

def none : Nat := 0

def joypad : Nat := 1

def mouse : Nat := 2

/-- A pointer with absolute coordinates. -/
def pointer : Nat := 6

end Device

inductive PadButton where
  | b | y | select | start | up | down | left | right | a | x
  | l1 | r1 | l2 | r2 | l3 | r3
  deriving DecidableEq, Repr

namespace PadButton

/-- Every joypad button, in the order of the ids. -/
def all : List PadButton :=
  [b, y, select, start, up, down, left, right, a, x, l1, r1, l2, r2, l3, r3]

def id : PadButton → Nat
  | b => 0
  | y => 1
  | select => 2
  | start => 3
  | up => 4
  | down => 5
  | left => 6
  | right => 7
  | a => 8
  | x => 9
  | l1 => 10
  | r1 => 11
  | l2 => 12
  | r2 => 13
  | l3 => 14
  | r3 => 15

/-- The joypad button with a given id. -/
def ofId? (id : Nat) : Option PadButton := all[id]?

def name : PadButton → String
  | b => "B"
  | y => "Y"
  | select => "Select"
  | start => "Start"
  | up => "Up"
  | down => "Down"
  | left => "Left"
  | right => "Right"
  | a => "A"
  | x => "X"
  | l1 => "L1"
  | r1 => "R1"
  | l2 => "L2"
  | r2 => "R2"
  | l3 => "L3"
  | r3 => "R3"

end PadButton

inductive PointerButton where
  | left | right | middle
  deriving DecidableEq, Repr

namespace PointerButton

/-- The number of a pointer button on the machine's side. -/
def index : PointerButton → Nat
  | left => 0
  | right => 1
  | middle => 2

def mouseId : PointerButton → Nat
  | left => 2
  | right => 3
  | middle => 6

end PointerButton

/-- The axes of a pointer, and whether it touches. -/
inductive PointerAxis where
  | x | y | pressed
  deriving DecidableEq, Repr

def PointerAxis.id : PointerAxis → Nat
  | x => 0
  | y => 1
  | pressed => 2

namespace Source

/-- The control with this id on the joypad of the first player. -/
def onJoypad (id : Nat) : Source := ⟨0, Device.joypad, 0, id⟩

/-- The control with this id on the mouse of the first player. -/
def onMouse (id : Nat) : Source := ⟨0, Device.mouse, 0, id⟩

/-- The control with this id on the pointer of the first player. -/
def onPointer (id : Nat) : Source := ⟨0, Device.pointer, 0, id⟩

def pad (button : PadButton) : Source := onJoypad button.id

def mouse (button : PointerButton) : Source := onMouse button.mouseId

def pointer (axis : PointerAxis) : Source := onPointer axis.id

end Source

end Framestep
