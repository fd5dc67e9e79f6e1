import Framestep.Proofs.Audio.View
import Framestep.Proofs.Trace

/-!
# The ring is a bounded queue

`FrameQueue` is a bounded queue of stereo frames as a list and a number: no arena,
no cursors, no runs.  The main statement, `Ring.trace_matches_queue`, follows a
ring and such a queue through any sequence of operations.  After every one of them
they have given the same answer, and whatever can be observed of the ring is what
the queue says.
-/

namespace Framestep

/-- A bounded queue of stereo frames, oldest frame first. -/
structure FrameQueue where
  frames : List StereoFrame
  capacity : Nat
  deriving DecidableEq, Repr

inductive Ring.Op where
  | push (samples : List Int16) (frames : Nat)
  | drain (limit : Nat)
  /-- Drains to the end of a stream that holds samples already. -/
  | drainTo (stream : List Int16) (limit : Nat)
  | growTo (frames : Nat) (memory : Memory := .ample)
  | clear
  deriving DecidableEq, Repr

inductive Ring.Answer where
  | pushed (outcome : Outcome Pushed)
  | drained (outcome : Outcome (List Int16))
  /-- The number of frames moved, and the stream they were moved to. -/
  | moved (outcome : Outcome Nat) (stream : List Int16)
  | grown (outcome : Outcome Bool)
  | cleared
  deriving DecidableEq, Repr

/-! ## The queue -/

namespace FrameQueue

def empty (capacity : Nat) : FrameQueue := ⟨[], capacity⟩

/-- Puts frames behind the others and keeps the last `capacity` of all. -/
def push (queue : FrameQueue) (new : List StereoFrame) : Pushed × FrameQueue :=
  let kept := (queue.frames ++ new).rtake queue.capacity
  (⟨min new.length queue.capacity, queue.frames.length + new.length - kept.length⟩,
    { queue with frames := kept })

def perform (queue : FrameQueue) : Ring.Op → Ring.Answer × FrameQueue
  | .push samples frames =>
    if samples.length < 2 * frames then
      (.pushed (.refused (.shortSamples frames samples.length)), queue)
    else
      let (pushed, queue) := queue.push ((StereoFrame.ofSamples samples).take frames)
      (.pushed (.done pushed), queue)
  | .drain limit =>
    (.drained (.done (StereoFrame.toSamples (queue.frames.take limit))),
      { queue with frames := queue.frames.drop limit })
  | .drainTo stream limit =>
    let taken := queue.frames.take limit
    (.moved (.done taken.length) (stream ++ StereoFrame.toSamples taken),
      { queue with frames := queue.frames.drop limit })
  | .growTo frames memory =>
    if frames ≤ queue.capacity then
      (.grown (.done false), queue)
    else if memory.limit < 4 * frames then
      (.grown (.refused (.outOfMemory (min (4 * frames) maxWord))), queue)
    else
      (.grown (.done true), { queue with capacity := frames })
  | .clear => (.cleared, { queue with frames := [] })

end FrameQueue

/-! ## The ring beside it -/

namespace Ring

def perform (ring : Ring) : Op → Answer × Ring
  | .push samples frames =>
    let (outcome, ring) := ring.push samples frames
    (.pushed outcome, ring)
  | .drain limit =>
    let (outcome, ring) := ring.drain limit
    (.drained outcome, ring)
  | .drainTo stream limit =>
    let (outcome, stream, ring) := ring.drainTo stream limit
    (.moved outcome stream, ring)
  | .growTo frames memory =>
    let (outcome, ring) := ring.growTo frames memory
    (.grown outcome, ring)
  | .clear => (.cleared, ring.clear)

/-- Whether a machine word can count the samples that an operation speaks of. -/
def Op.Countable : Op → Prop
  | .push _ frames => 2 * frames < wordCount
  | _ => True

/-- Whatever can be observed of a ring is what the queue says. -/
structure StandsFor (ring : Ring) (queue : FrameQueue) : Prop where
  frames : ring.toFrames = queue.frames
  capacity : ring.capacity = queue.capacity
  occupied : ring.occupied = queue.frames.length
  headroom : ring.headroom = queue.capacity - queue.frames.length
  isEmpty : ring.isEmpty = queue.frames.isEmpty
  bounded : queue.frames.length ≤ queue.capacity

def view (ring : Ring) : FrameQueue := ⟨ring.toFrames, ring.capacity⟩

theorem standsFor_view {ring : Ring} (hring : ring.WellFormed) : ring.StandsFor ring.view := by
  have hlength := length_toFrames ring
  constructor
  case frames => rfl
  case capacity => rfl
  case occupied => exact hlength.symm
  case headroom => simp only [view, headroom, hlength]
  case isEmpty =>
    rw [Bool.eq_iff_iff, isEmpty, beq_iff_eq, List.isEmpty_iff_length_eq_zero]
    simp only [view, hlength]
  case bounded =>
    simp only [view, hlength]
    exact hring.occupied_le

/-- What one operation does: the ring and its queue answer alike, and the ring that
is left is in order and stands for the queue that is left. -/
theorem perform_view {ring : Ring} (hring : ring.WellFormed) {op : Op} (hop : op.Countable) :
    (ring.perform op).1 = (ring.view.perform op).1 ∧
      (ring.perform op).2.view = (ring.view.perform op).2 ∧
      (ring.perform op).2.WellFormed := by
  cases op with
  | push samples frames =>
      have hcount : ¬ wordCount ≤ 2 * frames := Nat.not_le.mpr hop
      simp only [perform, FrameQueue.perform, push_eq hring, if_neg hcount]
      by_cases hshort : samples.length < 2 * frames
      · simp only [if_pos hshort]
        exact ⟨trivial, trivial, hring⟩
      · have henough : 2 * frames ≤ samples.length := Nat.le_of_not_lt hshort
        have hframes := toFrames_appended_fitting hring henough
        have hnew := StereoFrame.length_take_ofSamples henough
        have hkept : ((ring.toFrames ++ (StereoFrame.ofSamples samples).take frames).rtake
            ring.capacity).length = min ring.capacity (ring.occupied + frames) := by
          rw [length_rtake, List.length_append, length_toFrames, hnew]
        simp only [if_neg hshort, FrameQueue.push, view, hnew, hkept, length_toFrames]
        refine ⟨trivial, ?_, wellFormed_appended_fitting hring henough⟩
        rw [hframes, capacity_appended]
  | drain limit =>
      simp only [perform, FrameQueue.perform, drain_eq hring]
      refine ⟨rfl, ?_, wellFormed_without hring (Nat.min_le_right _ _)⟩
      rw [view, toFrames_without_min]
      rfl
  | drainTo stream limit =>
      simp only [perform, FrameQueue.perform, drainTo_eq hring]
      refine ⟨?_, ?_, wellFormed_without hring (Nat.min_le_right _ _)⟩
      · simp [view]
      · rw [view, toFrames_without_min]
        rfl
  | growTo frames memory =>
      simp only [perform, FrameQueue.perform, growTo_eq hring]
      by_cases hsmall : frames ≤ ring.capacity
      · have hqueue : frames ≤ ring.view.capacity := hsmall
        rw [if_pos hsmall, if_pos hqueue]
        exact ⟨rfl, rfl, hring⟩
      · have hlarger : ring.capacity < frames := Nat.lt_of_not_le hsmall
        have hqueue : ¬ frames ≤ ring.view.capacity := hsmall
        rw [if_neg hsmall, if_neg hqueue]
        by_cases hbytes : memory.limit < 4 * frames
        · simp only [if_pos hbytes]
          exact ⟨trivial, trivial, hring⟩
        · simp only [if_neg hbytes]
          refine ⟨trivial, ?_, wellFormed_moved hring hlarger⟩
          rw [view, toFrames_moved hring hlarger]
          rfl
  | clear => exact ⟨rfl, rfl, wellFormed_clear hring⟩

/-- A ring that is in order, and the queue it stands for. -/
def InStep (ring : Ring) (queue : FrameQueue) : Prop := ring.WellFormed ∧ ring.view = queue

theorem agrees_perform {ring : Ring} {queue : FrameQueue} {op : Op}
    (hstep : ring.InStep queue) (hop : op.Countable) :
    Agrees InStep (ring.perform op) (queue.perform op) := by
  obtain ⟨hring, rfl⟩ := hstep
  obtain ⟨hanswer, hview, hnext⟩ := perform_view hring hop
  exact ⟨hanswer, hnext, hview⟩

theorem InStep.standsFor {ring : Ring} {queue : FrameQueue} (hstep : ring.InStep queue) :
    ring.StandsFor queue := by
  obtain ⟨hring, rfl⟩ := hstep
  exact standsFor_view hring

/-- A ring behaves as a bounded queue, however much memory it finds.  A new ring stands
for the empty queue of its capacity, and after each of any operations the ring and the
queue have answered alike and the ring stands for the queue. -/
theorem trace_matches_queue {ring : Ring} {requested : Nat} {memory : Memory}
    (hcreate : create requested memory = .done ring) (ops : List Op)
    (hops : ∀ op ∈ ops, op.Countable) :
    ring.StandsFor (.empty (max requested 1)) ∧
      List.Forall₂ (Agrees StandsFor) (trace perform ring ops)
        (trace FrameQueue.perform (.empty (max requested 1)) ops) := by
  have hnew : ring.InStep (.empty (max requested 1)) := by
    refine ⟨wellFormed_of_create hcreate, ?_⟩
    rw [view, toFrames_of_create hcreate, capacity_of_create hcreate]
    rfl
  have htrace := forall₂_trace (fun _ _ _ => agrees_perform) hnew ops hops
  exact ⟨hnew.standsFor, htrace.imp fun _ _ h => h.mono fun _ _ => InStep.standsFor⟩

/-- The law at work on a ring for two frames: a push of three, of which the first is
given up, growth once it finds the memory, and a push that is refused. -/
theorem trace_matches_queue_of_two :
    let ops : List Op := [.push [1, -1, 2, -2, 3, -3] 3, .drain 1, .growTo 3 ⟨11⟩, .growTo 3,
      .push [4, -4, 5, -5] 2, .push [6] 1, .drainTo [7] 5, .clear]
    ∃ ring, create 2 = .done ring ∧ (∀ op ∈ ops, op.Countable) ∧
      ring.StandsFor (.empty 2) ∧
      List.Forall₂ (Agrees StandsFor) (trace perform ring ops)
        (trace FrameQueue.perform (.empty 2) ops) ∧
      (trace FrameQueue.perform (.empty 2) ops).map Prod.fst =
        [.pushed (.done ⟨2, 1⟩), .drained (.done [2, -2]), .grown (.refused (.outOfMemory 12)),
          .grown (.done true), .pushed (.done ⟨2, 0⟩), .pushed (.refused (.shortSamples 1 1)),
          .moved (.done 3) [7, 3, -3, 4, -4, 5, -5], .cleared] := by
  intro ops
  have hcreate : create 2 = .done ⟨#[0, 0, 0, 0], 2, 0, 0, 0⟩ := by decide
  have hops : ∀ op ∈ ops, op.Countable := by simp [ops, Op.Countable, wordCount]
  obtain ⟨hstart, htrace⟩ := trace_matches_queue hcreate ops hops
  exact ⟨_, hcreate, hops, hstart, htrace, by decide⟩

end Ring

end Framestep
