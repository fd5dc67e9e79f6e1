import Framestep.Control.Tracker

/-!
# What a test card knows of its input

The test card shows where the pointer is and whether a button of it is held, and
counts the keys that are down.
-/

namespace Framestep

structure CardInput where
  cursor : Cursor
  /-- The pointer buttons held, one bit for each. -/
  buttons : UInt8
  keysHeld : Nat
  deriving DecidableEq, Repr

namespace CardInput

/-- Nothing held, the pointer at the origin. -/
def released : CardInput := { cursor := ⟨0, 0⟩, buttons := 0, keysHeld := 0 }

/-- The largest count of keys. -/
def maxKeys : Nat := Nat.pow 2 32 - 1

def bit (button : PointerButton) : UInt8 := 1 <<< UInt8.ofNat button.index

def holds (input : CardInput) (button : PointerButton) : Bool :=
  input.buttons &&& bit button != 0

/-- The input state after an event.  Fails where one more key cannot be counted;
a key that goes up while none is counted changes nothing. -/
def accept? (input : CardInput) : Event → Option CardInput
  | .keyDown _ =>
    if input.keysHeld < maxKeys then
      some { input with keysHeld := input.keysHeld + 1 }
    else
      none
  | .keyUp _ => some { input with keysHeld := input.keysHeld - 1 }
  | .moved x y => some { input with cursor := ⟨x, y⟩ }
  | .buttonDown button => some { input with buttons := input.buttons ||| bit button }
  | .buttonUp button => some { input with buttons := input.buttons &&& ~~~(bit button) }

/-- The input state after several events, as far as they can be taken. -/
def acceptAll (input : CardInput) (events : List Event) : CardInput :=
  events.foldl (fun input event => (input.accept? event).getD input) input

end CardInput

end Framestep
