import Framestep.Proofs.Session.Growth
import Mathlib.Data.Nat.ModEq

/-!
# Blocks in the stream

A block has to come to as many stereo frames as it lasts, whatever its encoding and however many
channels it has, or sound and picture drift apart.  `Block.appendTo_eq` says what a block adds to
a stream, and `Block.appendTo_of_joins` that a sound may be cut into blocks between any two of its
frames.  A block therefore always brings the samples of the frames that it declares: a machine that
pushes one is never told that there are too few (`Session.blocks_keep_time`).

How a float becomes a 16-bit number is left open in these statements.  They hold for any conversion
`quantize`, and for that of `Block.appendTo` in particular.
-/

namespace Framestep

variable {κ : Type}

namespace Block

variable {quantize : Float32 → Int16} {first second whole : Block}

/-! ## What a block adds -/

/-- The block with its floats made 16-bit numbers by `quantize`.  Other blocks stay as they are. -/
def quantizedBy (quantize : Float32 → Int16) : Block → Block
  | float32 samples => signed16 (samples.map quantize)
  | block => block

@[simp] theorem size_quantizedBy (quantize : Float32 → Int16) (block : Block) :
    (block.quantizedBy quantize).size = block.size := by
  cases block <;> simp [quantizedBy, size]

/-- Appends a block to a stereo stream with a conversion of its own for floats. -/
def appendBy (quantize : Float32 → Int16) (block : Block) (channels : Nat)
    (stream : List Int16) : Nat × List Int16 :=
  (block.quantizedBy quantize).appendTo channels stream

/-- Blocks are appended with the conversion `quantized`. -/
theorem appendBy_quantized (block : Block) : block.appendBy quantized = block.appendTo := by
  have hdecoded : (block.quantizedBy quantized).decoded = block.decoded := by
    cases block <;> rfl
  funext channels stream
  simp only [appendBy, appendTo, stereo, streamFrames, frameCount, size_quantizedBy, hdecoded]

/-- The 16-bit numbers that the samples of a block come to: a byte to 256 times its distance from
128, a float to what `quantize` makes of it. -/
inductive Converts (quantize : Float32 → Int16) : Block → List Int16 → Prop where
  | unsigned8 {samples : List UInt8} {values : List Int16}
      (hvalues : values.map Int16.toInt = samples.map fun v => ((v.toNat : Int) - 128) * 256) :
      Converts quantize (.unsigned8 samples) values
  | signed16 (samples : List Int16) : Converts quantize (.signed16 samples) samples
  | float32 (samples : List Float32) : Converts quantize (.float32 samples) (samples.map quantize)

/-- What so many frames of so many channels add to a stereo stream. -/
structure Renders (values : List Int16) (channels frames : Nat) (added : List Int16) : Prop where
  length : added.length = 2 * frames
  mono : channels = 1 → added = values.flatMap fun v => [v, v]
  stereo : channels = 2 → added = values.take (2 * frames)
  silent : channels ≠ 1 → channels ≠ 2 → added = List.replicate (2 * frames) 0

/-- No byte is so far from 128 that its sample leaves the range of a 16-bit number. -/
theorem toInt_centred (v : UInt8) : (centred v).toInt = ((v.toNat : Int) - 128) * 256 := by
  have hbyte := v.toNat_lt
  exact Int16.toInt_ofInt_of_le (by omega) (by omega)

theorem converts_decoded (quantize : Float32 → Int16) (block : Block) :
    block.Converts quantize (block.quantizedBy quantize).decoded := by
  cases block with
  | unsigned8 samples =>
      apply Converts.unsigned8
      show (samples.map centred).map Int16.toInt = _
      rw [List.map_map]
      exact List.map_congr_left fun v _ => toInt_centred v
  | signed16 samples => exact .signed16 samples
  | float32 samples => exact .float32 samples

theorem streamFrames_eq (block : Block) (channels : Nat) :
    block.streamFrames channels = block.size / max channels 1 :=
  if_neg (by omega)

theorem renders_stereo (block : Block) (channels : Nat) :
    Renders block.decoded channels (block.streamFrames channels) (block.stereo channels) := by
  constructor
  case length => exact length_stereo block channels
  case mono =>
    rintro rfl
    rfl
  case stereo =>
    rintro rfl
    rfl
  case silent =>
    intro hmono hstereo
    unfold stereo
    split
    · exact (hmono rfl).elim
    · exact (hstereo rfl).elim
    · rfl

/-- A block adds its frames behind what is there. -/
theorem appendTo_eq (block : Block) (channels : Nat) (stream : List Int16) :
    block.appendTo channels stream =
      (block.size / max channels 1, stream ++ block.stereo channels) := by
  rw [appendTo, streamFrames_eq]

/-! ## Blocks one after the other -/

/-- The samples of two blocks of the same encoding in one. -/
inductive Joins : Block → Block → Block → Prop where
  | unsigned8 (front back : List UInt8) :
      Joins (.unsigned8 front) (.unsigned8 back) (.unsigned8 (front ++ back))
  | signed16 (front back : List Int16) :
      Joins (.signed16 front) (.signed16 back) (.signed16 (front ++ back))
  | float32 (front back : List Float32) :
      Joins (.float32 front) (.float32 back) (.float32 (front ++ back))

namespace Joins

theorem quantizedBy (h : Joins first second whole) (quantize : Float32 → Int16) :
    Joins (first.quantizedBy quantize) (second.quantizedBy quantize)
      (whole.quantizedBy quantize) := by
  cases h with
  | unsigned8 front back => exact .unsigned8 front back
  | signed16 front back => exact .signed16 front back
  | float32 front back =>
      simp only [Block.quantizedBy, List.map_append]
      exact .signed16 _ _

theorem size (h : Joins first second whole) : whole.size = first.size + second.size := by
  cases h <;> simp [Block.size]

theorem decoded (h : Joins first second whole) :
    whole.decoded = first.decoded ++ second.decoded := by
  cases h <;> simp [Block.decoded]

/-- Whole frames in front of others do not change how many these are. -/
theorem streamFrames (h : Joins first second whole) {channels : Nat}
    (hframes : max channels 1 ∣ first.size) :
    whole.streamFrames channels = first.streamFrames channels + second.streamFrames channels := by
  rw [streamFrames_eq, streamFrames_eq, streamFrames_eq, h.size, Nat.add_div_of_dvd_right hframes]

theorem stereo (h : Joins first second whole) {channels : Nat}
    (hframes : max channels 1 ∣ first.size) :
    whole.stereo channels = first.stereo channels ++ second.stereo channels := by
  have hcount := h.streamFrames hframes
  have hfirst := renders_stereo first channels
  have hsecond := renders_stereo second channels
  have hwhole := renders_stereo whole channels
  by_cases hmono : channels = 1
  · rw [hwhole.mono hmono, hfirst.mono hmono, hsecond.mono hmono, h.decoded, List.flatMap_append]
  · by_cases hstereo : channels = 2
    · -- The first block ends with a frame, so all of its samples are taken.
      have hlength : first.decoded.length = 2 * first.streamFrames channels := by
        rw [length_decoded, streamFrames_eq, hstereo]
        rw [hstereo] at hframes
        exact (Nat.mul_div_cancel' hframes).symm
      rw [hwhole.stereo hstereo, hfirst.stereo hstereo, hsecond.stereo hstereo, h.decoded, hcount,
        Nat.mul_add, ← hlength, List.take_length_add_append, List.take_length]
    · rw [hwhole.silent hmono hstereo, hfirst.silent hmono hstereo,
        hsecond.silent hmono hstereo, hcount, Nat.mul_add, List.replicate_add]

end Joins

/-- A sound is appended as a whole as it is in two blocks, if the first of them ends with a
frame. -/
theorem appendTo_of_joins (h : Joins first second whole) {channels : Nat}
    (hframes : max channels 1 ∣ first.size) (stream : List Int16) :
    whole.appendTo channels stream =
      (first.streamFrames channels + second.streamFrames channels,
        (second.appendTo channels (first.appendTo channels stream).2).2) := by
  simp only [appendTo, h.streamFrames hframes, h.stereo hframes, List.append_assoc]

end Block

/-! ## Pushing a block -/

/-- A push that brings its samples is not refused, whatever the ring. -/
theorem Ring.push_ne_refused (ring : Ring) {samples : List Int16} {frames : Nat}
    (henough : 2 * frames ≤ samples.length) (fault : Fault) :
    (ring.push samples frames).1 ≠ .refused fault := by
  have hcount : ¬ samples.length < frames * channelCount := by
    simp only [channelCount]
    omega
  intro hrefused
  rw [push, if_neg hcount] at hrefused
  split at hrefused
  · cases hrefused
  · split at hrefused
    · cases hrefused
    · split at hrefused <;> cases hrefused

namespace Feed

variable {feed : Feed} {ring : Ring} {block : Block} {channels : Nat} {memory : Memory}
  {fault : Fault}

theorem pushBlock_eq (feed : Feed) (block : Block) (channels : Nat) (memory : Memory) :
    feed.pushBlock block channels memory =
      feed.push (block.stereo channels) (block.streamFrames channels) memory := rfl

/-- A block brings its samples, so nothing but the want of a ring keeps it out. -/
theorem pushBlock_refused (hrefused : (feed.pushBlock block channels memory).1 = .refused fault) :
    fault = .notReady ∧ feed.ring = none := by
  have henough := (block.length_stereo channels).ge
  rw [pushBlock_eq, push] at hrefused
  cases hring : feed.ring with
  | none =>
      rw [hring] at hrefused
      exact ⟨(Outcome.refused.inj hrefused).symm, rfl⟩
  | some ring =>
      rw [hring] at hrefused
      cases hroom : makeRoom ring (block.streamFrames channels) feed.ceiling memory with
      | mk outcome room =>
          simp only [hroom] at hrefused
          cases outcome with
          | aborted => cases hrefused
          | _ => exact (room.push_ne_refused henough fault hrefused).elim

/-- A block is queued whenever there is a ring, if its stereo frames can be held at all. -/
theorem pushBlock_eq_done (hfeed : feed.ring = some ring) (hring : ring.WellFormed)
    (hceiling : ring.capacity ≤ feed.ceiling)
    (hsize : 4 * block.streamFrames channels ≤ maxAllocation) (memory : Memory) :
    ∃ pushed, (feed.pushBlock block channels memory).1 = .done pushed := by
  have hfits : maxAllocation < wordCount := by decide
  obtain ⟨pushed, later, hpush, -⟩ := push_eq_done hfeed hring hceiling (by omega)
    (block.length_stereo channels).ge memory
  exact ⟨pushed, congrArg Prod.fst hpush⟩

end Feed

namespace Session

/-- Blocks keep the time of the stream.  With any conversion of floats, a block keeps the stream
that it is appended to and adds as many stereo frames as it has frames, and two blocks of which the
first ends with a frame add what they add as one.  A machine that pushes a block has the same effect
as with a push of the converted samples, is never told that there are too few of them, and is
accepted in every running session, if a buffer can hold the converted samples at all. -/
theorem blocks_keep_time {settings : Settings} {asksGui : Bool} {session : Session κ}
    (hcreate : create settings asksGui = .done session) (ops : List (Op κ))
    (quantize : Float32 → Int16) (channels : Nat) :
    (∀ (block : Block) (stream : List Int16), ∃ values added, block.Converts quantize values ∧
      block.appendBy quantize channels stream =
        (block.size / max channels 1, stream ++ added) ∧
      Block.Renders values channels (block.size / max channels 1) added) ∧
    (∀ (first second whole : Block) (stream : List Int16), Block.Joins first second whole →
      max channels 1 ∣ first.size →
        let one := first.appendBy quantize channels stream
        let both := second.appendBy quantize channels one.2
        whole.appendBy quantize channels stream = (one.1 + both.1, both.2)) ∧
    (∀ block : Block, block.appendBy Block.quantized = block.appendTo) ∧
    let feed := (session.performAll ops).2.feed
    ∀ (block : Block) (memory : Memory),
      let converted := block.appendTo channels []
      feed.perform (.pushBlock block channels memory) =
        feed.perform (.push converted.2 converted.1 memory) ∧
      (∀ fault, (feed.pushBlock block channels memory).1 = .refused fault →
        fault = .notReady ∧ feed.ring = none) ∧
      (feed.phase = .ready → 4 * block.streamFrames channels ≤ maxAllocation →
        ∃ pushed, (feed.pushBlock block channels memory).1 = .done pushed) := by
  have hreached := inOrder_of_create hcreate ops
  refine ⟨?_, ?_, Block.appendBy_quantized, ?_⟩
  · intro block stream
    have hrenders := (block.quantizedBy quantize).renders_stereo channels
    rw [Block.streamFrames_eq, Block.size_quantizedBy] at hrenders
    refine ⟨_, _, block.converts_decoded quantize, ?_, hrenders⟩
    rw [Block.appendBy, Block.appendTo_eq, Block.size_quantizedBy]
  · intro first second whole stream hjoins hframes
    rw [← Block.size_quantizedBy quantize first] at hframes
    exact Block.appendTo_of_joins (hjoins.quantizedBy quantize) hframes stream
  · intro feed block memory converted
    refine ⟨rfl, fun fault => Feed.pushBlock_refused, ?_⟩
    intro hready hsize
    rcases hreached.feed with hrunning | hstopped
    · obtain ⟨ring, hring, hwell, -, hbounded⟩ := hrunning.ring
      exact Feed.pushBlock_eq_done hring hwell hbounded hsize memory
    · exact (hstopped.phase hready).elim

/-- The law at work on five bytes of two channels, cut behind their first frame: the last byte has
no partner and is left out, and the block is accepted by a ring that is full then. -/
theorem blocks_keep_time_of_odd_bytes :
    let settings : Settings := { audioCapacity := 2, audioCeiling := 2, audioBatch := 1 }
    let session : Session Unit := unstarted settings false
    let ops : List (Op Unit) := [.start {}, .produce (.push [5, -5] 1)]
    let first : Block := .unsigned8 [0, 255]
    let second : Block := .unsigned8 [128, 1, 7]
    let whole : Block := .unsigned8 [0, 255, 128, 1, 7]
    create settings false = .done session ∧ Block.Joins first second whole ∧
      max 2 1 ∣ first.size ∧ 4 * whole.streamFrames 2 ≤ maxAllocation ∧
      whole.appendTo 2 [9] =
        ((first.appendTo 2 [9]).1 + (second.appendTo 2 (first.appendTo 2 [9]).2).1,
          (second.appendTo 2 (first.appendTo 2 [9]).2).2) ∧
      whole.appendTo 2 [9] = (2, [9, -32768, 32512, 0, -32512]) ∧
      ∃ feed, feed = (session.performAll ops).2.feed ∧ feed.phase = .ready ∧
        (∃ pushed, (feed.pushBlock whole 2).1 = .done pushed) ∧
        (feed.pushBlock whole 2).1 = .done ⟨2, 1⟩ := by
  intro settings session ops first second whole
  have hcreate : create settings false = .done session := rfl
  have hjoins : Block.Joins first second whole := .unsigned8 [0, 255] [128, 1, 7]
  have hframes : max 2 1 ∣ first.size := by decide
  have hsize : 4 * whole.streamFrames 2 ≤ maxAllocation := by decide
  have hready : (session.performAll ops).2.feed.phase = .ready := by decide +kernel
  obtain ⟨-, hjoined, hsame, hpush⟩ := blocks_keep_time hcreate ops Block.quantized 2
  have happended := hjoined first second whole [9] hjoins hframes
  simp only [hsame] at happended
  exact ⟨hcreate, hjoins, hframes, hsize, happended, by decide, _, rfl, hready,
    (hpush whole .ample).2.2 hready hsize, by decide +kernel⟩

end Session

end Framestep
