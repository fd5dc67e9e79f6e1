/-!
# The tone of a test card

A sine at a quarter of full scale, one sample after the other.  The phase goes
on from block to block and is kept within one turn.  All arithmetic is in 32-bit
floats; only the remainder by a turn is found in whole numbers, where it is
exact.
-/

namespace Framestep

namespace Tone

/-- A whole turn, as near as a 32-bit float comes: `turnUnits` times
`2 ^ -21`. -/
def turn : Float32 := Float32.ofBits 0x40C90FDB

/-- A whole turn in units of `2 ^ -21`. -/
def turnUnits : Nat := 13176795

/-- The remainder of a number, not negative, by a whole turn.  A float below 4 is
less than a turn.  One from 4 on is a whole number of units, and the remainder of
that has few enough digits to be a float again.  What is infinite or not a number
has no remainder. -/
def reduce (x : Float32) : Float32 :=
  let bits := x.toBits.toNat
  let exponent := bits / Nat.pow 2 23 % 256
  if exponent = 255 then
    0.0 / 0.0
  else if exponent < 129 then
    x
  else
    let units := (Nat.pow 2 23 + bits % Nat.pow 2 23) * Nat.pow 2 (exponent - 129)
    Float32.ofNat (units % turnUnits) / 2097152.0

/-- How far the phase goes on in one sample. -/
def step (frequency : Float32) (rate : Nat) : Float32 :=
  turn * frequency / (UInt32.ofNat rate).toFloat32

def sample (phase : Float32) : Float32 := phase.sin * 0.25

/-- So many samples from a phase on, put before those in `later` in reverse, and
the phase after them. -/
def samplesFrom (step : Float32) : Nat → Float32 → List Float32 → List Float32 × Float32
  | 0, phase, later => (later.reverse, phase)
  | count + 1, phase, later =>
    samplesFrom step count (reduce (phase + step)) (sample phase :: later)

/-- A block of `count` samples that begins at `phase`, and the phase after it.
A tone without a frequency is silent and its phase stands still. -/
def block (frequency : Float32) (rate count : Nat) (phase : Float32) :
    List Float32 × Float32 :=
  if frequency > 0.0 then
    samplesFrom (step frequency rate) count phase []
  else
    (List.replicate count 0.0, phase)

end Tone

end Framestep
