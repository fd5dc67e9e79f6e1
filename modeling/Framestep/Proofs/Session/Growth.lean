import Framestep.Proofs.Session.Room

/-!
# Pushes that make the ring grow

What becomes of the ring of a running session in the course of one push that brings its samples:
whether the ring grows and how far, which frames are queued afterwards, and how many were given
up.  `Ring.Accommodates` says it of two rings and the answer between them, in terms of the frames
that the rings stand for.

The main statement is `Session.push_accommodates`.  A push of more frames than the whole ring
holds makes it grow to hold the queued and the new frames together, as far as the ceiling lets it
and if the larger arena can be had; only where one of these fails are frames given up.
-/

namespace Framestep

variable {κ : Type}

namespace Ring

/-- An arena for so many frames can be had. -/
def Affordable (memory : Memory) (frames : Nat) : Prop :=
  ∃ storage, arena frames memory = .done storage

theorem affordable_iff (memory : Memory) (frames : Nat) :
    Affordable memory frames ↔ 4 * frames ≤ memory.limit := by
  unfold Affordable
  rw [arena_eq]
  constructor
  · rintro ⟨storage, harena⟩
    by_contra hlarge
    rw [if_pos (Nat.lt_of_not_le hlarge)] at harena
    cases harena
  · intro hfits
    rw [if_neg (Nat.not_lt.mpr hfits)]
    exact ⟨_, rfl⟩

/-- What a push of `new` frames makes of a ring that may grow up to `ceiling`, as far as there is
memory for it. -/
structure Accommodates (ring : Ring) (new : List StereoFrame) (ceiling : Nat) (memory : Memory)
    (pushed : Pushed) (later : Ring) : Prop where
  grown : ring.capacity < new.length → ring.capacity < ceiling →
    Affordable memory (min (ring.toFrames.length + new.length) ceiling) →
      later.capacity = min (ring.toFrames.length + new.length) ceiling ∧
        ring.capacity < later.capacity
  kept : ¬ (ring.capacity < new.length ∧ ring.capacity < ceiling ∧
      Affordable memory (min (ring.toFrames.length + new.length) ceiling)) →
    later.capacity = ring.capacity
  capacity_le : ring.capacity ≤ later.capacity
  le_ceiling : later.capacity ≤ ceiling
  frames : later.toFrames = (ring.toFrames ++ new).rtake later.capacity
  queued : later.toFrames.length = min later.capacity (ring.toFrames.length + new.length)
  written : pushed.written = min new.length later.capacity
  dropped : pushed.dropped + later.toFrames.length = ring.toFrames.length + new.length
  /-- Where the ring may grow far enough, nothing is given up. -/
  intact : ring.capacity < new.length → ring.toFrames.length + new.length ≤ ceiling →
    Affordable memory (ring.toFrames.length + new.length) →
      pushed.dropped = 0 ∧ later.toFrames = ring.toFrames ++ new
  /-- A push that the ring could hold by itself does not make it grow. -/
  small : new.length ≤ ring.capacity → later.capacity = ring.capacity

variable {ring later : Ring} {new : List StereoFrame} {ceiling : Nat} {memory : Memory}
  {pushed : Pushed}

theorem outgrown_iff (ring : Ring) (frames ceiling : Nat) (memory : Memory) :
    ring.Outgrown frames ceiling memory ↔ ring.capacity < frames ∧ ring.capacity < ceiling ∧
      Affordable memory (min (ring.toFrames.length + frames) ceiling) := by
  rw [affordable_iff, length_toFrames]
  rfl

/-- It is enough to know how much room there was for the new frames. -/
theorem accommodates_of_roomy (hceiling : ring.capacity ≤ ceiling)
    (hcapacity : later.capacity = (ring.roomy new.length ceiling memory).capacity)
    (hframes : later.toFrames = (ring.toFrames ++ new).rtake later.capacity)
    (hpushed : pushed = ⟨min new.length later.capacity, ring.toFrames.length + new.length -
      min later.capacity (ring.toFrames.length + new.length)⟩) :
    ring.Accommodates new ceiling memory pushed later := by
  have hlength : later.toFrames.length =
      min later.capacity (ring.toFrames.length + new.length) := by
    rw [hframes, length_rtake, List.length_append]
  -- The ring has outgrown its arena or it has not, and the capacity is known either way.
  have hgrown (h : ring.Outgrown new.length ceiling memory) :
      later.capacity = min (ring.toFrames.length + new.length) ceiling := by
    rw [hcapacity, roomy, if_pos h, length_toFrames]
  have hkept (h : ¬ ring.Outgrown new.length ceiling memory) : later.capacity = ring.capacity := by
    rw [hcapacity, roomy, if_neg h]
  have hbounds : ring.capacity ≤ later.capacity ∧ later.capacity ≤ ceiling := by
    by_cases h : ring.Outgrown new.length ceiling memory
    · rw [hgrown h]
      obtain ⟨hlarge, hroom, -⟩ := h
      omega
    · rw [hkept h]
      exact ⟨Nat.le_refl _, hceiling⟩
  constructor
  case grown =>
    intro hlarge hroom haffordable
    have hcapacity := hgrown ((outgrown_iff _ _ _ _).mpr ⟨hlarge, hroom, haffordable⟩)
    exact ⟨hcapacity, by omega⟩
  case kept => exact fun h => hkept fun houtgrown => h ((outgrown_iff _ _ _ _).mp houtgrown)
  case capacity_le => exact hbounds.1
  case le_ceiling => exact hbounds.2
  case frames => exact hframes
  case queued => exact hlength
  case written => rw [hpushed]
  case dropped =>
    rw [hpushed, hlength]
    exact Nat.sub_add_cancel (Nat.min_le_right _ _)
  case intact =>
    intro hlarge hfits haffordable
    have hwhole : min (ring.toFrames.length + new.length) ceiling =
        ring.toFrames.length + new.length := Nat.min_eq_left hfits
    have hcapacity := hgrown ((outgrown_iff _ _ _ _).mpr
      ⟨hlarge, by omega, by rw [hwhole]; exact haffordable⟩)
    rw [hwhole] at hcapacity
    constructor
    · rw [hpushed, hcapacity, Nat.min_self, Nat.sub_self]
    · rw [hframes, rtake_of_length_le (by rw [List.length_append, hcapacity])]
  case small => exact fun hsmall => hkept fun houtgrown => Nat.not_lt.mpr hsmall houtgrown.1

end Ring

namespace Feed

variable {feed : Feed} {ring : Ring} {samples : List Int16} {frames : Nat}

/-- A push that brings its samples is never refused while there is a ring. -/
theorem push_eq_done (hfeed : feed.ring = some ring) (hring : ring.WellFormed)
    (hceiling : ring.capacity ≤ feed.ceiling) (hword : 2 * frames < wordCount)
    (henough : 2 * frames ≤ samples.length) (memory : Memory) :
    ∃ pushed later,
      feed.push samples frames memory = (.done pushed, { feed with ring := some later }) ∧
      ring.Accommodates ((StereoFrame.ofSamples samples).take frames) feed.ceiling memory pushed
        later := by
  obtain ⟨-, hroom, hkept⟩ := makeRoom_keeps hring frames feed.ceiling memory
  have hview := view_makeRoom hring hword feed.ceiling memory
  obtain ⟨room, hroomEq⟩ : ∃ room, room = (makeRoom ring frames feed.ceiling memory).2 :=
    ⟨_, rfl⟩
  rw [← hroomEq] at hroom hkept hview
  have hnew := StereoFrame.length_take_ofSamples henough
  have hoccupied : room.occupied = ring.toFrames.length := by
    rw [← hkept, Ring.length_toFrames]
  have hpush : feed.push samples frames memory =
      (.done ⟨min frames room.capacity,
          room.occupied + frames - min room.capacity (room.occupied + frames)⟩,
        { feed with
          ring := some (room.appended (Ring.fitting samples frames room.capacity)) }) := by
    simp only [push_eq hfeed hring, ← hroomEq, Ring.push_eq hroom, if_neg (Nat.not_le.mpr hword),
      if_neg (Nat.not_lt.mpr henough)]
  refine ⟨_, _, hpush, Ring.accommodates_of_roomy hceiling ?_ ?_ ?_⟩
  · rw [hnew, Ring.capacity_appended, ← hview]
    rfl
  · rw [Ring.toFrames_appended_fitting hroom henough, hkept, Ring.capacity_appended]
  · rw [hnew, hoccupied, Ring.capacity_appended]

end Feed

namespace Session

/-- In every running session that can be reached, a push that brings its samples is accepted, and
the ring grows for it as far as it has to and may. -/
theorem push_accommodates {settings : Settings} {asksGui : Bool} {session : Session κ}
    (hcreate : create settings asksGui = .done session) (ops : List (Op κ))
    (hready : (session.performAll ops).2.feed.phase = .ready) {samples : List Int16}
    {frames : Nat} (hword : 2 * frames < wordCount) (henough : 2 * frames ≤ samples.length)
    (memory : Memory) :
    let feed := (session.performAll ops).2.feed
    let new := (StereoFrame.ofSamples samples).take frames
    new.length = frames ∧ ∃ ring pushed later, feed.ring = some ring ∧
      feed.push samples frames memory = (.done pushed, { feed with ring := some later }) ∧
      ring.Accommodates new settings.audioCeiling memory pushed later := by
  intro feed new
  have hceiling : feed.ceiling = settings.audioCeiling := ceiling_of_create hcreate ops
  rcases (inOrder_of_create hcreate ops).feed with hrunning | hstopped
  · obtain ⟨ring, hring, hwell, -, hbounded⟩ := hrunning.ring
    obtain ⟨pushed, later, hpush, haccommodates⟩ :=
      Feed.push_eq_done hring hwell hbounded hword henough memory
    refine ⟨StereoFrame.length_take_ofSamples henough, ring, pushed, later, hring, hpush, ?_⟩
    rw [← hceiling]
    exact haccommodates
  · exact (hstopped.phase hready).elim

/-- The law at work on a full ring for two frames whose oldest one lies in the second place: a push
of four frames makes it grow to its ceiling of five, and the oldest frame is given up. -/
theorem push_accommodates_up_to_ceiling :
    let settings : Settings := { audioCapacity := 2, audioCeiling := 5, audioBatch := 1 }
    let session : Session Unit := unstarted settings false
    let ops : List (Op Unit) :=
      [.start {}, .produce (.push [1, -1] 1), .produce (.push [2, -2, 3, -3] 2)]
    let samples : List Int16 := [4, -4, 5, -5, 6, -6, 7, -7]
    create settings false = .done session ∧ 2 * 4 < wordCount ∧ 2 * 4 ≤ samples.length ∧
      ∃ feed, feed = (session.performAll ops).2.feed ∧ feed.phase = .ready ∧
        feed.ring.map Ring.read = some 1 ∧
        feed.ring.map Ring.view = some ⟨[(2, -2), (3, -3)], 2⟩ ∧
        (feed.push samples 4).1 = .done ⟨4, 1⟩ ∧
        (feed.push samples 4).2.ring.map Ring.view =
          some ⟨[(3, -3), (4, -4), (5, -5), (6, -6), (7, -7)], 5⟩ ∧
        ∃ ring pushed later, feed.ring = some ring ∧
          feed.push samples 4 = (.done pushed, { feed with ring := some later }) ∧
          ring.Accommodates (StereoFrame.ofSamples samples) 5 .ample pushed later := by
  intro settings session ops samples
  have hcreate : create settings false = .done session := rfl
  have hready : (session.performAll ops).2.feed.phase = .ready := by decide +kernel
  have hword : 2 * 4 < wordCount := by decide
  have henough : 2 * 4 ≤ samples.length := by decide
  have hread : (session.performAll ops).2.feed.ring.map Ring.read = some 1 := by decide +kernel
  have hbefore : (session.performAll ops).2.feed.ring.map Ring.view =
      some ⟨[(2, -2), (3, -3)], 2⟩ := by decide +kernel
  have hanswer : ((session.performAll ops).2.feed.push samples 4).1 = .done ⟨4, 1⟩ := by
    decide +kernel
  have hafter : ((session.performAll ops).2.feed.push samples 4).2.ring.map Ring.view =
      some ⟨[(3, -3), (4, -4), (5, -5), (6, -6), (7, -7)], 5⟩ := by decide +kernel
  obtain ⟨-, ring, pushed, later, hring, hpush, haccommodates⟩ :=
    push_accommodates hcreate ops hready hword henough .ample
  exact ⟨hcreate, hword, henough, _, rfl, hready, hread, hbefore, hanswer, hafter, ring, pushed,
    later, hring, hpush, haccommodates⟩

end Session

end Framestep
