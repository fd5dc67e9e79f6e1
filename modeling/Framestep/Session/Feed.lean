import Framestep.Audio.Ring
import Framestep.Video.Mailbox

/-!
# The feed

The feed is the side of a session that a machine sees: it takes pictures, sound
and the sample rate, and outlives the session for a machine that still holds it.
A feed without a running session has a closed mailbox and no ring, so it refuses
pictures and sound.
-/

namespace Framestep

inductive Phase where
  | idle | ready | tornDown
  deriving DecidableEq, Repr

/-- The number that hosts know a stage by. -/
def Phase.number : Phase → Nat
  | idle => 0
  | ready => 1
  | tornDown => 2

structure Feed where
  phase : Phase
  ring : Option Ring
  mailbox : Mailbox
  /-- The sample rate of the queued sound. -/
  rate : Nat
  /-- Frames up to which the ring may grow. -/
  ceiling : Nat
  deriving DecidableEq, Repr

namespace Feed

/-- The feed before the first session, with the sample rate to start from. -/
def create (rate ceiling : Nat) : Feed :=
  { phase := .idle, ring := none, mailbox := .shut, rate, ceiling }

def isReady (feed : Feed) : Bool := feed.phase == .ready

/-- Frames waiting in the ring; none without a ring. -/
def queued (feed : Feed) : Nat := feed.ring.elim 0 Ring.occupied

/-- Frames that the ring holds; none without a ring. -/
def capacity (feed : Feed) : Nat := feed.ring.elim 0 Ring.capacity

/-- Hands over a finished picture. -/
def submit (feed : Feed) (layout : Layout) (pixels : Array UInt8)
    (memory : Memory := .ample) : Outcome Unit × Feed :=
  let (outcome, mailbox) := feed.mailbox.submit layout pixels memory
  (outcome, { feed with mailbox })

/-- Draws on the storage of the mailbox. -/
def paint (feed : Feed) (layout : Layout) (painter : Painter)
    (memory : Memory := .ample) : Outcome (Array UInt8) × Feed :=
  let (outcome, mailbox) := feed.mailbox.paint layout painter memory
  (outcome, { feed with mailbox })

/-- Announces what lies in the storage of the mailbox. -/
def signal (feed : Feed) : Feed := { feed with mailbox := feed.mailbox.signal }

/-- Room in the ring for a push of `frames` frames: one that is larger than the
whole ring first makes the ring grow, so that it holds what is queued and what
is new, up to the ceiling. -/
def makeRoom (ring : Ring) (frames ceiling : Nat) (memory : Memory) :
    Outcome Bool × Ring :=
  if ring.capacity < frames ∧ ring.capacity < ceiling then
    ring.growTo (min (saturatingAdd ring.occupied frames) ceiling) memory
  else
    (.done false, ring)

/-- Queues interleaved stereo frames.  The ring grows first if it has to; where
it cannot, it keeps its capacity and the newest frames. -/
def push (feed : Feed) (samples : List Int16) (frames : Nat)
    (memory : Memory := .ample) : Outcome Pushed × Feed :=
  match feed.ring with
  | none => (.refused .notReady, feed)
  | some ring =>
    match makeRoom ring frames feed.ceiling memory with
    | (.aborted, ring) => (.aborted, { feed with ring := some ring })
    | (_, ring) =>
      let (outcome, ring) := ring.push samples frames
      (outcome, { feed with ring := some ring })

/-- Brings a block to stereo and queues it. -/
def pushBlock (feed : Feed) (block : Block) (channels : Nat)
    (memory : Memory := .ample) : Outcome Pushed × Feed :=
  let (frames, samples) := block.appendTo channels []
  feed.push samples frames memory

/-- Sets the sample rate; zero changes nothing. -/
def setRate (feed : Feed) (rate : Nat) : Feed :=
  if 0 < rate then { feed with rate } else feed

/-- What a machine can ask of its feed. -/
structure Status where
  ready : Bool
  rate : Nat
  queued : Nat
  capacity : Nat
  deriving DecidableEq, Repr

def status (feed : Feed) : Status :=
  { ready := feed.isReady, rate := feed.rate, queued := feed.queued,
    capacity := feed.capacity }

/-- What a machine can do on its feed.  An operation that may allocate storage comes
with the memory that it finds. -/
inductive Op where
  | submit (layout : Layout) (pixels : Array UInt8) (memory : Memory := .ample)
  | paint (layout : Layout) (painter : Painter) (memory : Memory := .ample)
  | signal
  | push (samples : List Int16) (frames : Nat) (memory : Memory := .ample)
  | pushBlock (block : Block) (channels : Nat) (memory : Memory := .ample)
  | setRate (rate : Nat)
  | status

/-- Whether an operation is one on the mailbox. -/
def Op.isPicture : Op → Bool
  | .submit .. | .paint .. | .signal => true
  | _ => false

inductive Answer where
  | nothing
  | painted (given : Array UInt8)
  | pushed (pushed : Pushed)
  | status (status : Status)
  deriving DecidableEq, Repr

def perform (feed : Feed) : Op → Outcome Answer × Feed
  | .submit layout pixels memory =>
    let (outcome, feed) := feed.submit layout pixels memory
    (outcome.map fun _ => .nothing, feed)
  | .paint layout painter memory =>
    let (outcome, feed) := feed.paint layout painter memory
    (outcome.map .painted, feed)
  | .signal => (.done .nothing, feed.signal)
  | .push samples frames memory =>
    let (outcome, feed) := feed.push samples frames memory
    (outcome.map .pushed, feed)
  | .pushBlock block channels memory =>
    let (outcome, feed) := feed.pushBlock block channels memory
    (outcome.map .pushed, feed)
  | .setRate rate => (.done .nothing, feed.setRate rate)
  | .status => (.done (.status feed.status), feed)

/-- Operations that were carried out, in order, each with what came of it. -/
abbrev Log := List (Op × Outcome Answer)

/-- What is left of operations that were carried out one after the other. -/
structure Run where
  log : Log
  complete : Bool
  feed : Feed

/-- Carries out operations one after the other.  One that is refused does not keep the
next from its turn; one that is aborted takes whoever carries them out with it, and the
rest is not carried out. -/
def performAll (feed : Feed) : List Op → Run
  | [] => { log := [], complete := true, feed }
  | op :: ops =>
    match feed.perform op with
    | (.aborted, feed) => { log := [(op, .aborted)], complete := false, feed }
    | (answer, feed) =>
      let rest := feed.performAll ops
      { rest with log := (op, answer) :: rest.log }

end Feed

end Framestep
