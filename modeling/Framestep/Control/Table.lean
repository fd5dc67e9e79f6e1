import Framestep.Control.Source

/-!
# Control tables

A control table says which control of the host feeds which event of the machine.
Its slots are fixed: four directions, four action buttons and three pointer
buttons.  A slot without a binding is never read.
-/

namespace Framestep

/-- What the edges of a control turn into. -/
inductive Action where
  /-- A key of the machine goes down and up. -/
  | key (code : Nat)
  /-- A pointer button of the machine goes down and up. -/
  | button (which : PointerButton)
  deriving DecidableEq, Repr

/-- A control of the host bound to an action.  Without an action only its level
counts. -/
structure Binding where
  source : Source
  action : Option Action
  deriving DecidableEq, Repr

def actionCount : Nat := 4

inductive Slot where
  | up | down | left | right
  | action (n : Fin 4)
  | pointer (button : PointerButton)
  deriving DecidableEq, Repr

namespace Slot

/-- The slots whose edges come before the pointer moves, in that order. -/
def leading : List Slot :=
  [up, down, left, right, action 0, action 1, action 2, action 3]

/-- The slots whose edges come after the pointer has moved, in that order. -/
def trailing : List Slot :=
  [pointer .left, pointer .right, pointer .middle]

def all : List Slot := leading ++ trailing

end Slot

/-- The binding of every slot. -/
abbrev Controls := Slot → Option Binding

namespace AdbKey

/-! Keycodes of the desktop bus that a classic keyboard sits on. -/

def up : Nat := 0x7E

def down : Nat := 0x7D

def left : Nat := 0x7B

def right : Nat := 0x7C

def enter : Nat := 0x24

def space : Nat := 0x31

end AdbKey

namespace Controls

def empty : Controls := fun _ => none

def bind (controls : Controls) (slot : Slot) (binding : Option Binding) : Controls :=
  fun other => if other = slot then binding else controls other

/-- A joypad button that acts as a key. -/
def padKey (button : PadButton) (code : Nat) : Option Binding :=
  some ⟨.pad button, some (.key code)⟩

/-- A joypad button of which only the level counts. -/
def padLevel (button : PadButton) : Option Binding :=
  some ⟨.pad button, none⟩

/-- A classic keyboard and mouse: the directions are arrow keys, two actions are
return and space, and the mouse buttons are the pointer's.  The last two actions
are read and forward nothing. -/
def keyboardAndMouse : Controls
  | .up => padKey .up AdbKey.up
  | .down => padKey .down AdbKey.down
  | .left => padKey .left AdbKey.left
  | .right => padKey .right AdbKey.right
  | .action 0 => padKey .a AdbKey.enter
  | .action 1 => padKey .b AdbKey.space
  | .action 2 => padLevel .x
  | .action _ => padLevel .y
  | .pointer button => some ⟨.mouse button, some (.button button)⟩

/-- The same for a host that offers joypads only: the shoulder buttons stand in
for the left and the right mouse button. -/
def joypadOnly : Controls
  | .pointer .left => some ⟨.pad .l1, some (.button .left)⟩
  | .pointer .right => some ⟨.pad .r1, some (.button .right)⟩
  | .pointer .middle => none
  | slot => keyboardAndMouse slot

end Controls

/-- How the pointer's position comes about, in each frame. -/
inductive Pointing where
  | disabled
  | absolute (x y : Source)
  /-- The four directions move a cursor by this many pixels in a frame, within
  the last picture shown if there was one. -/
  | directional (step : Int)
  deriving DecidableEq, Repr

/-- The coordinates of the pointer of the first player. -/
def Pointing.standard : Pointing := .absolute (.pointer .x) (.pointer .y)

end Framestep
