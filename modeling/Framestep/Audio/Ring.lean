import Framestep.Fault
import Framestep.Limits
import Framestep.Audio.Block

/-!
# The audio ring

A bounded queue of stereo frames.  The frames lie interleaved in an arena of
twice `capacity` samples; `read` and `write` are the places of the oldest frame
and of the next one, and `occupied` counts the frames between them, so that a
full ring and an empty one differ although both have `read = write`.

When room runs out the oldest frames go first, so a push always succeeds once
its arguments agree with each other.  `Ring.toFrames` is the queue that a ring
stands for.  Every access to the arena goes through the checked operations of
`Framestep.Limits`; an operation that left the arena would be aborted.
-/

namespace Framestep

structure Ring where
  storage : Array Int16
  capacity : Nat
  read : Nat
  write : Nat
  occupied : Nat
  deriving DecidableEq, Repr

/-- What a push did to the stream. -/
structure Pushed where
  /-- Frames of this push that are queued now. -/
  written : Nat
  /-- Oldest frames given up for them, queued ones or ones of this push. -/
  dropped : Nat
  deriving DecidableEq, Repr

namespace Ring

/-- An arena for `frames` silent frames. -/
def arena (frames : Nat) (memory : Memory := .ample) : Outcome (Array Int16) :=
  let samples := channelCount * frames
  if wordCount ≤ samples then
    .refused (.outOfMemory maxWord)
  else if memory.limit < 2 * samples then
    .refused (.outOfMemory (min (2 * samples) maxWord))
  else
    .done (Array.replicate samples 0)

/-- An empty ring for at least one frame. -/
def create (frames : Nat) (memory : Memory := .ample) : Outcome Ring :=
  let capacity := max frames 1
  (arena capacity memory).map fun storage =>
    { storage, capacity, read := 0, write := 0, occupied := 0 }

/-- Frames that can be pushed before one is given up. -/
def headroom (ring : Ring) : Nat := ring.capacity - ring.occupied

def isEmpty (ring : Ring) : Bool := ring.occupied == 0

/-- The frame `n` places behind the oldest one. -/
def frameAt (ring : Ring) (n : Nat) : Int16 × Int16 :=
  let place := (ring.read + n) % ring.capacity
  (ring.storage.getD (2 * place) 0, ring.storage.getD (2 * place + 1) 0)

/-- The queue that a ring stands for, oldest frame first. -/
def toFrames (ring : Ring) : List (Int16 × Int16) :=
  (List.range ring.occupied).map ring.frameAt

/-- The cursors stay within the arena and agree with the number of frames
between them. -/
structure WellFormed (ring : Ring) : Prop where
  capacity_pos : 1 ≤ ring.capacity
  read_lt : ring.read < ring.capacity
  write_lt : ring.write < ring.capacity
  occupied_le : ring.occupied ≤ ring.capacity
  write_eq : (ring.read + ring.occupied) % ring.capacity = ring.write
  storage_size : ring.storage.size = channelCount * ring.capacity

/-- The checks that end each operation on the cursors. -/
def checked (ring : Ring) : Option Ring := do
  guard (ring.occupied ≤ ring.capacity)
  let place ← modulo? (ring.read + ring.occupied) ring.capacity
  guard (place = ring.write)
  guard (ring.storage.size = ring.capacity * channelCount)
  return ring

/-- The first frames of a push of `frames` frames that the whole ring has no place
for. -/
def skipped? (ring : Ring) (frames : Nat) : Option Nat :=
  if ring.capacity < frames then minus? frames ring.capacity else some 0

/-- The ring without its oldest `count` frames, which make way for new ones. -/
def giveUp? (ring : Ring) (count : Nat) : Option Ring :=
  if 0 < count then do
    let read ← modulo? (ring.read + count) ring.capacity
    let occupied ← minus? ring.occupied count
    return { ring with read, occupied }
  else
    some ring

/-- The arena with whole frames written from the write cursor on.  They lie in at
most two runs: up to the end of the arena, then from its start. -/
def fill? (ring : Ring) (source : List Int16) : Option (Array Int16) := do
  let incoming := source.length / channelCount
  let untilEnd ← minus? ring.capacity ring.write
  let first := min incoming untilEnd
  let start := ring.write * channelCount
  let front ← portion? source 0 (first * channelCount)
  let storage ← overwrite? ring.storage start (start + first * channelCount) front
  let rest ← minus? incoming first
  if 0 < rest then do
    let back ← portion? source (first * channelCount) source.length
    overwrite? storage 0 (rest * channelCount) back
  else
    some storage

/-- Queues the first `frames` frames of `samples`, of which there are enough and
at least one.  A push of more than the whole ring keeps its last `capacity`
frames. -/
def append? (ring : Ring) (samples : List Int16) (frames : Nat) :
    Option (Pushed × Ring) := do
  let given ← portion? samples 0 (frames * channelCount)
  let skipped ← ring.skipped? frames
  let source ← portion? given (skipped * channelCount) given.length
  let incoming := source.length / channelCount
  let room ← minus? ring.capacity ring.occupied
  let overflow := incoming - room
  let ring ← ring.giveUp? overflow
  let storage ← ring.fill? source
  let write ← modulo? (ring.write + incoming) ring.capacity
  let ring ← checked { ring with storage, write, occupied := ring.occupied + incoming }
  return (⟨incoming, skipped + overflow⟩, ring)

/-- Queues `frames` interleaved frames, giving up the oldest ones if room runs
out.  Too few samples are refused; a count whose samples no machine word can
count is aborted. -/
def push (ring : Ring) (samples : List Int16) (frames : Nat) : Outcome Pushed × Ring :=
  if wordCount ≤ frames * channelCount then
    (.aborted, ring)
  else if samples.length < frames * channelCount then
    (.refused (.shortSamples frames samples.length), ring)
  else if frames = 0 then
    (.done ⟨0, 0⟩, ring)
  else
    match ring.append? samples frames with
    | some (pushed, ring) => (.done pushed, ring)
    | none => (.aborted, ring)

/-- The samples of the oldest `count` frames.  They lie in at most two runs, as
they were written. -/
def oldest? (ring : Ring) (count : Nat) : Option (List Int16) := do
  let untilEnd ← minus? ring.capacity ring.read
  let first := min count untilEnd
  let start := ring.read * channelCount
  let front ← stretch? ring.storage start (start + first * channelCount)
  let rest ← minus? count first
  if 0 < rest then do
    let back ← stretch? ring.storage 0 (rest * channelCount)
    return front ++ back
  else
    some front

/-- Takes the oldest `limit` frames, or all there are: their samples, and the
ring without them. -/
def take? (ring : Ring) (limit : Nat) : Option (List Int16 × Ring) :=
  let count := min limit ring.occupied
  if count = 0 then
    some ([], ring)
  else do
    let samples ← ring.oldest? count
    let read ← modulo? (ring.read + count) ring.capacity
    let occupied ← minus? ring.occupied count
    let ring ← checked { ring with read, occupied }
    return (samples, ring)

/-- Moves the oldest `limit` frames, or all there are, to the end of `stream`
and says how many frames that were. -/
def drainTo (ring : Ring) (stream : List Int16) (limit : Nat) :
    Outcome Nat × List Int16 × Ring :=
  match ring.take? limit with
  | some (samples, rest) => (.done (min limit ring.occupied), stream ++ samples, rest)
  | none => (.aborted, stream, ring)

/-- Takes the oldest `limit` frames, or all there are. -/
def drain (ring : Ring) (limit : Nat) : Outcome (List Int16) × Ring :=
  match ring.drainTo [] limit with
  | (.done _, samples, ring) => (.done samples, ring)
  | (.refused fault, _, ring) => (.refused fault, ring)
  | (.aborted, _, ring) => (.aborted, ring)

/-- Moves the queued frames to the start of a larger arena, by way of a buffer that
holds them meanwhile. -/
def moveTo? (ring : Ring) (storage : Array Int16) (frames : Nat) (memory : Memory) :
    Option Ring := do
  guard (2 * (channelCount * ring.occupied) ≤ memory.limit)
  let (pending, _) ← ring.take? ring.occupied
  let storage ← overwrite? storage 0 pending.length pending
  let write ← modulo? ring.occupied frames
  checked { storage, capacity := frames, read := 0, write, occupied := ring.occupied }

/-- Makes room for `frames` frames in all and says whether that took a larger
arena.  A ring never shrinks, and one that cannot grow stays as it is. -/
def growTo (ring : Ring) (frames : Nat) (memory : Memory := .ample) : Outcome Bool × Ring :=
  if frames ≤ ring.capacity then
    (.done false, ring)
  else
    match arena frames memory with
    | .refused fault => (.refused fault, ring)
    | .aborted => (.aborted, ring)
    | .done storage =>
      match ring.moveTo? storage frames memory with
      | some ring => (.done true, ring)
      | none => (.aborted, ring)

/-- Forgets the queued frames and keeps the arena. -/
def clear (ring : Ring) : Ring := { ring with read := 0, write := 0, occupied := 0 }

end Ring

end Framestep
