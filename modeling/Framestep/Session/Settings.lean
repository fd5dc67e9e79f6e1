import Framestep.Fault
import Framestep.Control.Table

/-!
# Settings

Everything about a session that is policy: buffer sizes, the time to wait for a
picture, the control table and how the pointer is driven.
-/

namespace Framestep

structure Settings where
  /-- Frames that the audio ring holds at first. -/
  audioCapacity : Nat := 16384
  /-- Frames up to which the audio ring may grow. -/
  audioCeiling : Nat := 131072
  /-- Frames that the host is given in one audio call. -/
  audioBatch : Nat := 2048
  /-- Audio calls in one host frame, at most. -/
  batchesPerFrame : Nat := 8
  /-- Milliseconds that a host frame waits for a picture. -/
  pictureTimeout : Nat := 1000
  /-- The sample rate that holds until the machine sets one. -/
  sampleRate : Nat := 44100
  controls : Controls := Controls.empty
  pointer : Pointing := Pointing.standard

namespace Settings

/-- The plain settings: no control is bound. -/
def standard : Settings := {}

/-- Settings for a host that offers joypads only: the directions drive the
pointer by four pixels in a frame. -/
def joypadOnly : Settings :=
  { controls := Controls.joypadOnly, pointer := .directional 4 }

/-- The first contradiction in the settings, if there is one. -/
def fault? (settings : Settings) : Option SettingsFault :=
  if settings.audioCapacity = 0 then some .noAudioCapacity
  else if settings.audioCeiling < settings.audioCapacity then some .ceilingBelowCapacity
  else if settings.audioBatch = 0 then some .emptyBatch
  else if settings.batchesPerFrame = 0 then some .noBatches
  else if settings.sampleRate = 0 then some .zeroRate
  else none

def validate (settings : Settings) : Outcome Unit :=
  match settings.fault? with
  | some cause => .refused (.invalidSettings cause)
  | none => .done ()

end Settings

end Framestep
