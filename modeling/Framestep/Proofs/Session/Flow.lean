import Framestep.Proofs.Audio.View
import Framestep.Proofs.Session.Wiring
import Mathlib.Algebra.GroupWithZero.Nat

/-!
# The flow of sound through a feed

`Flow` relates the queue before a stretch of time to the queue after it: what was
pushed meanwhile, what was played, and how many frames were given up.  Nothing is
lost without being counted, and nothing is doubled, moved or changed.  Flows are
put together one behind the other, and every operation on the feed of a running session
is one; so is everything that a log tells, `Feed.Leads.flow`.
-/

namespace Framestep

/-! ## Flows -/

/-- What remains of a queue and of what was pushed behind it: some of the frames, in
their order, played first and still queued then, and as many given up as are
missing. -/
structure Flow (before pushed played : List StereoFrame) (dropped : Nat)
    (after : List StereoFrame) : Prop where
  sublist : (played ++ after).Sublist (before ++ pushed)
  count : before.length + pushed.length = played.length + after.length + dropped

namespace Flow

variable {before middle after pushed pushed' played played' : List StereoFrame}
  {dropped dropped' : Nat}

theorem still (queue : List StereoFrame) : Flow queue [] [] 0 queue := by
  constructor
  case sublist => simp
  case count => simp

theorem trans (first : Flow before pushed played dropped middle)
    (second : Flow middle pushed' played' dropped' after) :
    Flow before (pushed ++ pushed') (played ++ played') (dropped + dropped') after := by
  have hsecond := first.count
  have hfirst := second.count
  constructor
  case sublist =>
    have hlater : (played ++ (played' ++ after)).Sublist (played ++ (middle ++ pushed')) :=
      second.sublist.append_left played
    have hearlier : ((played ++ middle) ++ pushed').Sublist ((before ++ pushed) ++ pushed') :=
      first.sublist.append_right pushed'
    simp only [List.append_assoc] at hlater hearlier ⊢
    exact hlater.trans hearlier
  case count =>
    simp only [List.length_append]
    omega

/-- Frames are pushed, and the youngest ones remain. -/
theorem push (queue new : List StereoFrame) (capacity : Nat) (hqueue : queue.length ≤ capacity) :
    Flow queue new [] (queue.length + new.length - min capacity (queue.length + new.length))
      ((queue ++ new).rtake capacity) := by
  constructor
  case sublist => exact List.drop_sublist _ _
  case count =>
    simp only [List.rtake, List.length_drop, List.length_append, List.length_nil]
    omega

theorem play (queue : List StereoFrame) (limit : Nat) :
    Flow queue [] (queue.take limit) 0 (queue.drop limit) := by
  constructor
  case sublist => simp
  case count =>
    simp only [List.length_nil, List.length_take, List.length_drop]
    omega

/-- A flow that gives up nothing keeps every frame in its place. -/
theorem intact (flow : Flow before pushed played 0 after) :
    played ++ after = before ++ pushed := by
  apply flow.sublist.eq_of_length
  have hcount := flow.count
  simp only [List.length_append]
  omega

end Flow

/-! ## Blocks -/

namespace Block

@[simp] theorem length_decoded (block : Block) : block.decoded.length = block.size := by
  cases block <;> simp [decoded, size]

/-- A block comes to exactly its frames. -/
theorem length_stereo (block : Block) (channels : Nat) :
    (block.stereo channels).length = 2 * block.streamFrames channels := by
  unfold stereo
  split
  · simp [streamFrames, frameCount, Nat.mul_comm]
  · simp [streamFrames, frameCount, channelCount]
    omega
  · simp [channelCount]

end Block

namespace Feed

/-! ## What a machine has pushed -/

/-- The frames that an operation brings along. -/
def Op.frames : Op → List StereoFrame
  | .push samples frames _ => (StereoFrame.ofSamples samples).take frames
  | .pushBlock block channels _ => StereoFrame.ofSamples (block.stereo channels)
  | _ => []

/-- The frames that an operation has queued, judged by its answer. -/
def Op.accepted (op : Op) : Outcome Answer → List StereoFrame
  | .done (.pushed _) => op.frames
  | _ => []

/-- The frames that were given up, as the answer reports them. -/
def givenUp : Outcome Answer → Nat
  | .done (.pushed pushed) => pushed.dropped
  | _ => 0

/-- The frames of all pushes of a log that were accepted. -/
def Log.accepted (log : Log) : List StereoFrame :=
  log.flatMap fun entry => entry.1.accepted entry.2

/-- The frames that were given up, as the pushes of a log have reported them. -/
def Log.givenUp (log : Log) : Nat := (log.map fun entry => Feed.givenUp entry.2).sum

@[simp] theorem Log.accepted_append (log rest : Log) :
    Log.accepted (log ++ rest) = log.accepted ++ rest.accepted := List.flatMap_append

@[simp] theorem Log.givenUp_append (log rest : Log) :
    Log.givenUp (log ++ rest) = log.givenUp + rest.givenUp := by
  simp [Log.givenUp]

/-- The feed of a running session whose ring is in order and stands for this queue. -/
def Queues (feed : Feed) (queue : List StereoFrame) : Prop :=
  feed.phase = .ready ∧
    ∃ ring, feed.ring = some ring ∧ ring.WellFormed ∧ ring.toFrames = queue

variable {feed : Feed} {queue : List StereoFrame}

theorem Queues.unique (h : feed.Queues queue) {other : List StereoFrame}
    (hother : feed.Queues other) : queue = other := by
  obtain ⟨-, ring, hring, -, rfl⟩ := h
  obtain ⟨-, same, hsame, -, rfl⟩ := hother
  rw [hring, Option.some.injEq] at hsame
  rw [hsame]

/-- The queue hangs on the ring and on the stage of the session alone. -/
theorem Queues.congr (h : feed.Queues queue) {other : Feed} (hphase : other.phase = feed.phase)
    (hring : other.ring = feed.ring) : other.Queues queue := by
  unfold Queues
  rw [hphase, hring]
  exact h

/-- Making room keeps the queue, whether or not the ring grows. -/
theorem makeRoom_keeps {ring : Ring} (hring : ring.WellFormed) (frames ceiling : Nat)
    (memory : Memory) :
    (makeRoom ring frames ceiling memory).1 ≠ .aborted ∧
      (makeRoom ring frames ceiling memory).2.WellFormed ∧
      (makeRoom ring frames ceiling memory).2.toFrames = ring.toFrames := by
  unfold makeRoom
  split
  · rw [Ring.growTo_eq hring]
    split
    · exact ⟨nofun, hring, rfl⟩
    · next hlarger =>
        have hlarger := Nat.lt_of_not_le hlarger
        split
        · exact ⟨nofun, hring, rfl⟩
        · exact ⟨nofun, Ring.wellFormed_moved hring hlarger, Ring.toFrames_moved hring hlarger⟩
  · exact ⟨nofun, hring, rfl⟩

/-- A push on the feed of a running session: room is made in the ring, and the push
goes there. -/
theorem push_eq {ring : Ring} (hfeed : feed.ring = some ring) (hring : ring.WellFormed)
    (samples : List Int16) (frames : Nat) (memory : Memory) :
    feed.push samples frames memory =
      let room := (makeRoom ring frames feed.ceiling memory).2
      ((room.push samples frames).1, { feed with ring := some (room.push samples frames).2 }) := by
  obtain ⟨houtcome, -, -⟩ := makeRoom_keeps hring frames feed.ceiling memory
  unfold push
  rw [hfeed]
  cases hmake : makeRoom ring frames feed.ceiling memory with
  | mk outcome room =>
      rw [hmake] at houtcome
      cases outcome with
      | done grown => simp only [hmake]
      | refused fault => simp only [hmake]
      | aborted => exact (houtcome rfl).elim

/-- A push is a flow: of its frames where it is accepted, of nothing where it is not. -/
theorem push_flow (h : feed.Queues queue) (samples : List Int16) (frames : Nat)
    (memory : Memory) :
    ∃ later, (feed.push samples frames memory).2.Queues later ∧
      Flow queue
        ((Op.push samples frames memory).accepted
          ((feed.push samples frames memory).1.map .pushed)) []
        (givenUp ((feed.push samples frames memory).1.map .pushed)) later := by
  obtain ⟨hphase, ring, hfeed, hring, hqueue⟩ := h
  obtain ⟨-, hroom, hkept⟩ := makeRoom_keeps hring frames feed.ceiling memory
  rw [push_eq hfeed hring]
  -- Only the ring with its new room matters from here on: it stands for the same queue.
  obtain ⟨room, hroomEq⟩ : ∃ room, room = (makeRoom ring frames feed.ceiling memory).2 :=
    ⟨_, rfl⟩
  rw [← hroomEq] at hroom hkept ⊢
  rw [hqueue] at hkept
  simp only [Ring.push_eq hroom]
  by_cases hword : wordCount ≤ 2 * frames
  · simp only [if_pos hword]
    exact ⟨queue, ⟨hphase, room, rfl, hroom, hkept⟩, Flow.still queue⟩
  · simp only [if_neg hword]
    by_cases hshort : samples.length < 2 * frames
    · simp only [if_pos hshort]
      exact ⟨queue, ⟨hphase, room, rfl, hroom, hkept⟩, Flow.still queue⟩
    · simp only [if_neg hshort]
      have henough : 2 * frames ≤ samples.length := Nat.le_of_not_lt hshort
      have hframes := Ring.toFrames_appended_fitting hroom henough
      have hlater := Ring.wellFormed_appended_fitting hroom henough
      have hoccupied : queue.length = room.occupied := by
        rw [← hkept, Ring.length_toFrames]
      have hnew := StereoFrame.length_take_ofSamples henough
      have hflow := Flow.push queue ((StereoFrame.ofSamples samples).take frames) room.capacity
        (by rw [hoccupied]; exact hroom.occupied_le)
      rw [hnew, hoccupied] at hflow
      rw [hkept] at hframes
      exact ⟨_, ⟨hphase, _, rfl, hlater, hframes⟩, hflow⟩

/-- A push comes back, accepted or not, unless its samples are too many to be counted. -/
theorem complete_push (h : feed.Queues queue) (samples : List Int16) {frames : Nat}
    (hframes : 2 * frames < wordCount) (memory : Memory) :
    (feed.performAll [.push samples frames memory]).complete = true := by
  obtain ⟨-, ring, hfeed, hring, -⟩ := h
  obtain ⟨-, hroom, -⟩ := makeRoom_keeps hring frames feed.ceiling memory
  have hcounted : ¬ wordCount ≤ 2 * frames := Nat.not_le.mpr hframes
  by_cases hshort : samples.length < 2 * frames
  · simp [performAll, perform, push_eq hfeed hring, Ring.push_eq hroom, if_neg hcounted, hshort,
      Outcome.map]
  · simp [performAll, perform, push_eq hfeed hring, Ring.push_eq hroom, if_neg hcounted, hshort,
      Outcome.map]

/-- A block brings along exactly the frames of the push that it becomes. -/
theorem frames_pushBlock (block : Block) (channels : Nat) (memory : Memory) :
    (Op.push (block.stereo channels) (block.streamFrames channels) memory).frames =
      (Op.pushBlock block channels memory).frames := by
  have hlength : (StereoFrame.ofSamples (block.stereo channels)).length =
      block.streamFrames channels := by
    rw [StereoFrame.length_ofSamples, Block.length_stereo]
    omega
  simp only [Op.frames]
  rw [List.take_of_length_le hlength.le]

/-- An answer that is not about a push queues nothing and gives nothing up. -/
theorem still_of_map {α : Type} (op : Op) (outcome : Outcome α) (answer : α → Answer)
    (hanswer : ∀ value pushed, answer value ≠ .pushed pushed) (queue : List StereoFrame) :
    Flow queue (op.accepted (outcome.map answer)) [] (givenUp (outcome.map answer)) queue := by
  cases outcome with
  | done value =>
      cases hvalue : answer value with
      | pushed pushed => exact (hanswer value pushed hvalue).elim
      | _ =>
          simp only [Outcome.map, hvalue, Op.accepted, givenUp]
          exact Flow.still queue
  | refused fault => exact Flow.still queue
  | aborted => exact Flow.still queue

/-- Every operation on the feed is a flow. -/
theorem perform_flow (h : feed.Queues queue) (op : Op) :
    ∃ later, (feed.perform op).2.Queues later ∧
      Flow queue (op.accepted (feed.perform op).1) [] (givenUp (feed.perform op).1) later := by
  cases op with
  | submit layout pixels memory =>
      exact ⟨queue, h.congr rfl rfl, still_of_map _ _ _ nofun queue⟩
  | paint layout painter memory =>
      exact ⟨queue, h.congr rfl rfl, still_of_map _ _ _ nofun queue⟩
  | signal => exact ⟨queue, h.congr rfl rfl, Flow.still queue⟩
  | push samples frames memory => exact push_flow h samples frames memory
  | pushBlock block channels memory =>
      have hflow := push_flow h (block.stereo channels) (block.streamFrames channels) memory
      simp only [Op.accepted, frames_pushBlock] at hflow
      exact hflow
  | setRate rate =>
      refine ⟨queue, h.congr ?_ ?_, Flow.still queue⟩
      all_goals
        simp only [perform, setRate]
        split <;> rfl
  | status => exact ⟨queue, h, Flow.still queue⟩

/-- So is everything that a log tells, one that was cut short included. -/
theorem Leads.flow {log : Log} {last : Feed} (h : feed.Leads log last) (hfeed : feed.Queues queue) :
    ∃ later, last.Queues later ∧ Flow queue log.accepted [] log.givenUp later := by
  induction h generalizing queue with
  | still feed => exact ⟨queue, hfeed, Flow.still queue⟩
  | step feed op _ ih =>
      obtain ⟨middle, hmiddle, hfirst⟩ := perform_flow hfeed op
      obtain ⟨later, hlater, hrest⟩ := ih hmiddle
      exact ⟨later, hlater, hfirst.trans hrest⟩

end Feed

end Framestep
