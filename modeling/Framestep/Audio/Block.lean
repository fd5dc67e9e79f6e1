/-!
# Sample blocks

Sound hardware hands its samples out in blocks of unsigned bytes, of signed
16-bit numbers or of 32-bit floats, with one channel or more.  Everything
downstream holds interleaved 16-bit stereo, so a block is brought to that form
first.  No rate conversion happens: a block of `n` frames gives `n` frames.
-/

namespace Framestep

/-- Channels of the stream that the host hears. -/
def channelCount : Nat := 2

/-- A block of samples in the encoding of its producer. -/
inductive Block where
  /-- Unsigned bytes; 128 is silence. -/
  | unsigned8 (samples : List UInt8)
  | signed16 (samples : List Int16)
  /-- Floats, full scale at -1 and 1. -/
  | float32 (samples : List Float32)

namespace Block

/-- A byte as a signed 16-bit sample: its distance from 128, times 256. -/
def centred (v : UInt8) : Int16 :=
  Int16.ofInt (((v.toNat : Int) - 128) * 256)

/-- A float cut to the interval from -1 to 1.  What is not a number stays so. -/
def clipped (v : Float32) : Float32 :=
  if v < -1.0 then -1.0 else if v > 1.0 then 1.0 else v

/-- A float as a signed 16-bit sample: clipped, scaled by 32767 and cut off
toward zero.  What is not a number is silence. -/
def quantized (v : Float32) : Int16 :=
  (clipped v * 32767.0).toInt16

/-- The samples of a block as signed 16-bit numbers, channels untouched. -/
def decoded : Block → List Int16
  | unsigned8 samples => samples.map centred
  | signed16 samples => samples
  | float32 samples => samples.map quantized

/-- The number of samples in a block, of all channels together. -/
def size : Block → Nat
  | unsigned8 samples => samples.length
  | signed16 samples => samples.length
  | float32 samples => samples.length

/-- The whole frames in a block of `channels` channels; none without a channel. -/
def frameCount (block : Block) (channels : Nat) : Nat :=
  if channels = 0 then 0 else block.size / channels

/-- The frames that a block contributes to the stream.  A block without
channels counts as one with a single channel. -/
def streamFrames (block : Block) (channels : Nat) : Nat :=
  block.frameCount (max channels 1)

/-- A block as interleaved stereo.  One channel is heard on both sides, two are
taken as they are, less a last incomplete frame; any other number of channels
becomes silence of the same length. -/
def stereo (block : Block) (channels : Nat) : List Int16 :=
  let frames := block.streamFrames channels
  match channels with
  | 1 => block.decoded.flatMap fun v => [v, v]
  | 2 => block.decoded.take (channelCount * frames)
  | _ => List.replicate (channelCount * frames) 0

/-- Appends a block to a stereo stream, and says how many frames that were. -/
def appendTo (block : Block) (channels : Nat) (stream : List Int16) :
    Nat × List Int16 :=
  (block.streamFrames channels, stream ++ block.stereo channels)

end Block

end Framestep
