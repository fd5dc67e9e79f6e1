import Framestep.Video.Layout

/-!
# The picture mailbox

One picture passes from the machine to the host through a mailbox with a single
place.  A newer picture replaces the one that lies there, and a picture is
shown once at most.  A closed mailbox refuses everything and holds nothing.

The machine may hand over a finished picture (`Mailbox.submit`) or draw into
the storage (`Mailbox.paint`) and then announce it (`Mailbox.signal`).  Storage
grows to the largest picture since the mailbox was opened and never shrinks.
-/

namespace Framestep

/-- What a painter leaves: the bytes it was given with its marks on them, and
whether it came to its end. -/
structure Painting where
  pixels : Array UInt8
  finished : Bool

/-- A painter draws on the bytes that it is given. -/
abbrev Painter := Array UInt8 → Painting

/-- The painter that repeats a pattern from the start on, and then comes to its
end or gives up.  Without a pattern it leaves the bytes as they are. -/
def Painter.tile (pattern : Array UInt8) (finished : Bool) : Painter := fun given =>
  { pixels :=
      if pattern.isEmpty then
        given
      else
        given.mapIdx fun i _ => pattern.getD (i % pattern.size) 0
    finished }

/-- What a host that looks into the mailbox finds. -/
inductive Arrival where
  | presented (view : View)
  | timedOut
  /-- A picture was announced, but it has no pixel. -/
  | empty
  | closed
  deriving DecidableEq, Repr

structure Mailbox where
  pixels : Array UInt8
  layout : Layout
  available : Bool
  closed : Bool
  deriving DecidableEq, Repr

namespace Mailbox

def shut : Mailbox :=
  { pixels := #[], layout := ⟨0, 0, 0⟩, available := false, closed := true }

/-- The mailbox made ready to receive, with nothing announced in it. -/
def reopen (box : Mailbox) : Mailbox :=
  { box with closed := false, available := false }

/-- The mailbox closed and its storage given back. -/
def close (_box : Mailbox) : Mailbox := shut

/-- The size of the last picture, if it has pixels. -/
def dimensions (box : Mailbox) : Option Size :=
  if box.layout.isBlank then none else some box.layout.size

def allocated (box : Mailbox) : Nat := box.pixels.size

/-- Storage for `needed` bytes: that of the mailbox, lengthened by zeros where
it is too short. -/
def reserve (box : Mailbox) (needed : Nat) (memory : Memory) : Outcome (Array UInt8) :=
  if needed ≤ box.pixels.size then
    .done box.pixels
  else if memory.limit < needed then
    .refused (.outOfMemory needed)
  else
    .done (box.pixels ++ Array.replicate (needed - box.pixels.size) 0)

def overlay (bytes beginning : Array UInt8) : Array UInt8 :=
  beginning ++ bytes.extract beginning.size bytes.size

/-- Hands over a finished picture and announces it. -/
def submit (box : Mailbox) (layout : Layout) (pixels : Array UInt8)
    (memory : Memory := .ample) : Outcome Unit × Mailbox :=
  match layout.measure with
  | .refused fault => (.refused fault, box)
  | .aborted => (.aborted, box)
  | .done needed =>
    if pixels.size < needed then
      (.refused (.shortPicture needed pixels.size), box)
    else if box.closed then
      (.refused .notReady, box)
    else
      match box.reserve needed memory with
      | .refused fault => (.refused fault, box)
      | .aborted => (.aborted, box)
      | .done storage =>
        (.done (),
          { box with
            pixels := overlay storage (firstOf pixels needed)
            layout
            available := true })

/-- Lets a painter draw on the storage of a picture with this layout, and tells
the bytes it was given.  The picture is not announced.  What a painter has drawn
stays, also when it does not come to its end. -/
def paint (box : Mailbox) (layout : Layout) (painter : Painter)
    (memory : Memory := .ample) : Outcome (Array UInt8) × Mailbox :=
  match layout.measure with
  | .refused fault => (.refused fault, box)
  | .aborted => (.aborted, box)
  | .done needed =>
    if box.closed then
      (.refused .notReady, box)
    else
      match box.reserve needed memory with
      | .refused fault => (.refused fault, box)
      | .aborted => (.aborted, box)
      | .done storage =>
        let given := firstOf storage needed
        let painting := painter given
        let pixels := overlay storage (firstOf painting.pixels needed)
        (if painting.finished then .done given else .aborted, { box with pixels, layout })

/-- Announces what lies in the storage as a new picture.  Nothing happens to a
closed mailbox. -/
def signal (box : Mailbox) : Mailbox :=
  if box.closed then box else { box with available := true }

/-- What a host finds, and the mailbox after it has looked.  An announced picture
is taken back before it is shown, so it is never shown again. -/
def collect (box : Mailbox) : Outcome Arrival × Mailbox :=
  if box.closed then
    (.done .closed, box)
  else if !box.available then
    (.done .timedOut, box)
  else
    let rest := { box with available := false }
    if box.layout.isBlank then
      (.done .empty, rest)
    else if box.layout.byteCount ≤ box.pixels.size then
      (.done (.presented ⟨box.layout, firstOf box.pixels box.layout.byteCount⟩), rest)
    else
      (.aborted, rest)

end Mailbox

end Framestep
