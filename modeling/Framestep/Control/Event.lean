import Framestep.Control.Table

/-!
# Input events

The discrete events that a machine takes: keys and pointer buttons going down
and up, and moves of the pointer.
-/

namespace Framestep

inductive Event where
  | keyDown (code : Nat)
  | keyUp (code : Nat)
  | moved (x y : Int)
  | buttonDown (button : PointerButton)
  | buttonUp (button : PointerButton)
  deriving DecidableEq, Repr

/-- The event of a control with this action that was just pressed or released. -/
def Action.edge : Action → (pressed : Bool) → Event
  | .key code, true => .keyDown code
  | .key code, false => .keyUp code
  | .button which, true => .buttonDown which
  | .button which, false => .buttonUp which

end Framestep
