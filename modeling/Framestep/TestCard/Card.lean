import Framestep.Session.Feed
import Framestep.TestCard.Picture
import Framestep.TestCard.Tone

/-!
# The test card

A machine with nothing behind it: bars that move, a square at the pointer and a
tone.  It takes a turn sixty times a second and in each one draws a frame into
its feed and then queues the sound of that frame.  What the feed refuses is lost.
-/

namespace Framestep

def framesPerSecond : Nat := 60

/-- A test card at work. -/
structure Card where
  size : Size
  /-- The frequency of the tone; zero is silence. -/
  frequency : Float32
  input : CardInput
  phase : Float32
  /-- The number of the next frame. -/
  frame : Nat
  /-- A card that could not draw a frame takes no further turn. -/
  alive : Bool

namespace Card

/-- The size of a test card when nobody asks for one. -/
def standardSize : Size := ⟨640, 480⟩

/-- The frequency of the tone when nobody asks for one. -/
def standardFrequency : Float32 := 440.0

/-- A frequency that is not negative.  What is not a number counts as zero. -/
def audible (frequency : Float32) : Float32 :=
  if frequency > 0.0 then frequency else 0.0

/-- A test card before its first turn. -/
def create (size : Size) (frequency : Float32) : Card :=
  { size, frequency := audible frequency, input := .released, phase := 0.0, frame := 0,
    alive := true }

/-- Draws the frame with number `n` into the feed and announces it. -/
def emitFrame (card : Card) (n : Nat) (feed : Feed) (memory : Memory := .ample) :
    Outcome Unit × Feed :=
  match feed.paint card.size.packedLayout (CardPicture.draw card.size n card.input) memory with
  | (.done _, feed) => (.done (), feed.signal)
  | (.refused _, feed) => (.done (), feed)
  | (.aborted, feed) => (.aborted, feed)

/-- Queues the sound of one frame. -/
def emitSound (card : Card) (feed : Feed) (memory : Memory := .ample) : Card × Feed :=
  let count := feed.rate / framesPerSecond
  let (samples, phase) := Tone.block card.frequency feed.rate count card.phase
  ({ card with phase }, (feed.pushBlock (.float32 samples) 1 memory).2)

/-- One turn: a frame and its sound, each with the memory that it finds. -/
def turn (card : Card) (feed : Feed) (forFrame : Memory := .ample)
    (forSound : Memory := .ample) : Card × Feed :=
  if card.alive then
    match card.emitFrame card.frame feed forFrame with
    | (.aborted, feed) => ({ card with alive := false }, feed)
    | (_, feed) =>
      let (card, feed) := card.emitSound feed forSound
      ({ card with frame := (card.frame + 1) % Nat.pow 2 32 }, feed)
  else
    (card, feed)

def take (card : Card) (events : List Event) : Card :=
  { card with input := card.input.acceptAll events }

end Card

end Framestep
