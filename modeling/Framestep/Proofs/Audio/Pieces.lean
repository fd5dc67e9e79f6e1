import Framestep.Proofs.Audio.Refusal
import Mathlib.Algebra.GroupWithZero.Nat

/-!
# Streams in pieces

The same stream can be pushed as a whole or in pieces, and the same queue can be drained at once or
bit by bit.  The ring goes different ways about it: pieces make it give up old frames again and
again, while a push of more than the whole ring skips frames that never get there.  What is queued
in the end, and how many frames were given up, does not depend on where the stream was cut.

`Ring.Takes` says what becomes of a ring that frames are pushed to, in whatever way that is done.
It is put together along a stream (`Takes.trans`) and leaves nothing open (`Takes.unique`), and the
main statement, `Ring.same_queue_of_pieces`, comes from these two.  The cursors are NOT part of it:
after pieces the same frames may lie in other places of the arena.
-/

namespace Framestep

/-- A push that brings its samples, and maybe more of them than its frames take up. -/
structure Parcel where
  samples : List Int16
  frames : Nat
  enough : 2 * frames ≤ samples.length

namespace Parcel

/-- The frames that a push brings. -/
def content (parcel : Parcel) : List StereoFrame :=
  (StereoFrame.ofSamples parcel.samples).take parcel.frames

@[simp] theorem length_content (parcel : Parcel) : parcel.content.length = parcel.frames :=
  StereoFrame.length_take_ofSamples parcel.enough

end Parcel

namespace Ring

variable {ring middle later other : Ring} {new newer : List StereoFrame} {dropped dropped' : Nat}

/-! ## Pushing -/

/-- What becomes of a ring that frames are pushed to, `dropped` frames being given up for them. -/
structure Takes (ring : Ring) (new : List StereoFrame) (dropped : Nat) (later : Ring) : Prop where
  wellFormed : later.WellFormed
  capacity : later.capacity = ring.capacity
  frames : later.toFrames = (ring.toFrames ++ new).rtake ring.capacity
  dropped : dropped + later.occupied = ring.occupied + new.length

namespace Takes

theorem nothing (hring : ring.WellFormed) : ring.Takes [] 0 ring := by
  constructor
  case wellFormed => exact hring
  case capacity => rfl
  case frames =>
    rw [List.append_nil, rtake_of_length_le ((length_toFrames ring).le.trans hring.occupied_le)]
  case dropped => exact Nat.zero_add _

/-- Frames that are pushed behind others. -/
theorem trans (first : ring.Takes new dropped middle) (second : middle.Takes newer dropped' later) :
    ring.Takes (new ++ newer) (dropped + dropped') later := by
  have hfirst := first.dropped
  have hsecond := second.dropped
  constructor
  case wellFormed => exact second.wellFormed
  case capacity => exact second.capacity.trans first.capacity
  case frames =>
    rw [second.frames, first.capacity, first.frames, rtake_rtake_append, List.append_assoc]
  case dropped =>
    rw [List.length_append]
    omega

/-- What is queued and what is given up depends on the frames alone. -/
theorem unique (h : ring.Takes new dropped later) (h' : ring.Takes new dropped' other) :
    later.view = other.view ∧ later.occupied = other.occupied ∧ dropped = dropped' := by
  have hframes : later.toFrames = other.toFrames := h.frames.trans h'.frames.symm
  have hcapacity : later.capacity = other.capacity := h.capacity.trans h'.capacity.symm
  have hoccupied : later.occupied = other.occupied := by
    rw [← length_toFrames, hframes, length_toFrames]
  have hcount := h.dropped
  have hcount' := h'.dropped
  refine ⟨?_, hoccupied, by omega⟩
  rw [view, view, hframes, hcapacity]

end Takes

/-- One push. -/
theorem takes_push (hring : ring.WellFormed) (parcel : Parcel)
    (hword : 2 * parcel.frames < wordCount) :
    ∃ pushed later, ring.push parcel.samples parcel.frames = (.done pushed, later) ∧
      ring.Takes parcel.content pushed.dropped later := by
  have henough := parcel.enough
  have hpush := push_eq hring parcel.samples parcel.frames
  rw [if_neg (Nat.not_le.mpr hword), if_neg (Nat.not_lt.mpr henough)] at hpush
  refine ⟨_, _, hpush, ?_⟩
  have hframes := toFrames_appended_fitting hring henough
  constructor
  case wellFormed => exact wellFormed_appended_fitting hring henough
  case capacity => rfl
  case frames => exact hframes
  case dropped =>
    have hoccupied := congrArg List.length hframes
    rw [length_rtake, List.length_append, length_toFrames, length_toFrames,
      StereoFrame.length_take_ofSamples henough] at hoccupied
    rw [hoccupied, Parcel.length_content]
    exact Nat.sub_add_cancel (Nat.min_le_right _ _)

/-- Pushes in turn. -/
theorem takes_pushes (hring : ring.WellFormed) (parcels : List Parcel)
    (hword : ∀ parcel ∈ parcels, 2 * parcel.frames < wordCount) :
    ∃ (each : List Pushed) (later : Ring),
      inTurn (fun ring parcel => ring.push parcel.samples parcel.frames) ring parcels =
        (each.map .done, later) ∧
      ring.Takes (parcels.flatMap Parcel.content) (each.map Pushed.dropped).sum later := by
  induction parcels generalizing ring with
  | nil => exact ⟨[], ring, rfl, Takes.nothing hring⟩
  | cons parcel parcels ih =>
      obtain ⟨pushed, middle, hpush, hfirst⟩ :=
        takes_push hring parcel (hword parcel (List.mem_cons_self ..))
      obtain ⟨each, later, hpushes, hrest⟩ := ih hfirst.wellFormed fun parcel hparcel =>
        hword parcel (List.mem_cons_of_mem _ hparcel)
      refine ⟨pushed :: each, later, inTurn_cons hpush hpushes, ?_⟩
      simpa using hfirst.trans hrest

/-! ## Draining -/

/-- Frames that are taken in two goes could have been taken in one. -/
theorem without_without (ring : Ring) (first second : Nat) :
    (ring.without (min first ring.occupied)).without
        (min second (ring.without (min first ring.occupied)).occupied) =
      ring.without (min (first + second) ring.occupied) := by
  have hcount : min first ring.occupied + min second (ring.occupied - min first ring.occupied) =
      min (first + second) ring.occupied := by omega
  rw [occupied_without, ← hcount]
  simp only [without, Nat.mod_add_mod, Nat.add_assoc, Nat.sub_sub]

/-- Drains in turn. -/
theorem inTurn_drain (hring : ring.WellFormed) (limits : List Nat) :
    ∃ each : List (List Int16),
      inTurn drain ring limits = (each.map .done, ring.without (min limits.sum ring.occupied)) ∧
      each.flatten = StereoFrame.toSamples (ring.toFrames.take limits.sum) := by
  induction limits generalizing ring with
  | nil =>
      refine ⟨[], ?_, rfl⟩
      rw [List.sum_nil, Nat.zero_min, without_zero hring]
      rfl
  | cons limit limits ih =>
      have hnext := wellFormed_without hring (Nat.min_le_right limit ring.occupied)
      obtain ⟨each, hdrains, hsamples⟩ := ih hnext
      rw [without_without] at hdrains
      rw [toFrames_without_min] at hsamples
      refine ⟨_ :: each, inTurn_cons (drain_eq hring limit) hdrains, ?_⟩
      rw [List.flatten_cons, hsamples, ← StereoFrame.toSamples_append, List.sum_cons, List.take_add]

/-- Drains in turn to the end of one stream. -/
theorem inTurn_drainTo (hring : ring.WellFormed) (stream : List Int16) (limits : List Nat) :
    ∃ each : List Nat,
      inTurn (fun state limit => drainTo state.2 state.1 limit) (stream, ring) limits =
        (each.map .done, stream ++ StereoFrame.toSamples (ring.toFrames.take limits.sum),
          ring.without (min limits.sum ring.occupied)) ∧
      each.sum = min limits.sum ring.occupied := by
  induction limits generalizing ring stream with
  | nil =>
      refine ⟨[], ?_, ?_⟩
      · rw [List.sum_nil, Nat.zero_min, without_zero hring, List.take_zero]
        simp [inTurn, StereoFrame.toSamples]
      · simp
  | cons limit limits ih =>
      have hnext := wellFormed_without hring (Nat.min_le_right limit ring.occupied)
      obtain ⟨each, hdrains, hcount⟩ :=
        ih hnext (stream ++ StereoFrame.toSamples (ring.toFrames.take limit))
      rw [without_without, toFrames_without_min, List.append_assoc, ← StereoFrame.toSamples_append,
        ← List.take_add] at hdrains
      refine ⟨_ :: each, inTurn_cons (drainTo_eq hring stream limit) hdrains, ?_⟩
      rw [List.sum_cons, hcount, occupied_without, List.sum_cons]
      omega

/-! ## The law of pieces -/

/-- A ring keeps nothing of where a stream was cut.  If a machine word can count the samples of the
whole, then pieces that are pushed one after the other are all accepted, and leave the frames, their
number and the capacity that one push of the whole leaves, with as many frames given up in all.
Drains one after the other give piece by piece what one drain of as many frames gives, and leave the
same ring. -/
theorem same_queue_of_pieces (hring : ring.Reached) {whole : Parcel} {pieces : List Parcel}
    (hcut : pieces.flatMap Parcel.content = whole.content)
    (hword : 2 * whole.frames < wordCount) (limits : List Nat) (stream : List Int16) :
    (∃ (each : List Pushed) (later : Ring) (pushed : Pushed) (once : Ring),
      inTurn (fun ring piece => ring.push piece.samples piece.frames) ring pieces =
        (each.map .done, later) ∧
      ring.push whole.samples whole.frames = (.done pushed, once) ∧
      later.toFrames = once.toFrames ∧ later.occupied = once.occupied ∧
      later.capacity = once.capacity ∧ (each.map Pushed.dropped).sum = pushed.dropped ∧
      once.toFrames = (ring.toFrames ++ whole.content).rtake ring.capacity) ∧
    (∃ (each : List (List Int16)) (later : Ring),
      inTurn drain ring limits = (each.map .done, later) ∧
      ring.drain limits.sum = (.done each.flatten, later) ∧
      StereoFrame.ofSamples each.flatten = ring.toFrames.take limits.sum) ∧
    ∃ (each : List Nat) (drained : List Int16) (later : Ring),
      inTurn (fun state limit => drainTo state.2 state.1 limit) (stream, ring) limits =
        (each.map .done, drained, later) ∧
      ring.drainTo stream limits.sum = (.done each.sum, drained, later) := by
  have hring := hring.wellFormed
  -- A piece is part of the whole, so a machine word can count its samples too.
  have hpiece (piece : Parcel) (hmem : piece ∈ pieces) : 2 * piece.frames < wordCount := by
    have hpart : piece.content.Sublist (pieces.flatMap Parcel.content) :=
      List.sublist_flatten_of_mem (List.mem_map_of_mem hmem)
    have hlength := hpart.length_le
    rw [hcut, Parcel.length_content, Parcel.length_content] at hlength
    omega
  refine ⟨?_, ?_, ?_⟩
  · -- Either way the same frames were pushed, and nothing else counts.
    obtain ⟨each, later, hpieces, htakes⟩ := takes_pushes hring pieces hpiece
    obtain ⟨pushed, once, hwhole, honce⟩ := takes_push hring whole hword
    rw [hcut] at htakes
    obtain ⟨hview, hoccupied, hdropped⟩ := htakes.unique honce
    exact ⟨each, later, pushed, once, hpieces, hwhole, congrArg FrameQueue.frames hview, hoccupied,
      congrArg FrameQueue.capacity hview, hdropped, honce.frames⟩
  · obtain ⟨each, hdrains, hsamples⟩ := inTurn_drain hring limits
    refine ⟨each, _, hdrains, ?_, ?_⟩
    · rw [drain_eq hring, hsamples]
    · rw [hsamples, StereoFrame.ofSamples_toSamples]
  · obtain ⟨each, hdrains, hcount⟩ := inTurn_drainTo hring stream limits
    refine ⟨each, _, _, hdrains, ?_⟩
    rw [drainTo_eq hring, hcount]

/-- The law at work on a ring for two frames whose cursors have gone round: a stream of three frames
is pushed as a whole, of which the first is skipped, and in pieces of one, two and no frame.  The
same frames are queued then, in other places. -/
theorem same_queue_of_pieces_of_larger_whole :
    let whole : Parcel := ⟨[4, -4, 5, -5, 6, -6], 3, by decide⟩
    let pieces : List Parcel :=
      [⟨[4, -4], 1, by decide⟩, ⟨[5, -5, 6, -6, 9], 2, by decide⟩, ⟨[], 0, by decide⟩]
    ∃ start ring, create 2 = .done start ∧
      ring = (((start.perform (.push [1, -1, 2, -2, 3, -3] 3)).2).perform (.drain 1)).2 ∧
      ring.Reached ∧ pieces.flatMap Parcel.content = whole.content ∧ 2 * whole.frames < wordCount ∧
      let pushes := inTurn (fun ring piece => ring.push piece.samples piece.frames) ring pieces
      let push := ring.push whole.samples whole.frames
      let drains := inTurn drain ring [0, 3, 1]
      pushes.2.toFrames = push.2.toFrames ∧ drains.2 = (ring.drain 4).2 ∧
        pushes.1 = [.done ⟨1, 0⟩, .done ⟨2, 2⟩, .done ⟨0, 0⟩] ∧ push.1 = .done ⟨2, 2⟩ ∧
        push.2.toFrames = [(5, -5), (6, -6)] ∧ pushes.2.write ≠ push.2.write ∧
        drains.1 = [.done [], .done [3, -3], .done []] := by
  intro whole pieces
  have hcreate : create 2 = .done ⟨#[0, 0, 0, 0], 2, 0, 0, 0⟩ := by decide
  have hreached := ((Reached.created hcreate).performed (.push [1, -1, 2, -2, 3, -3] 3)).performed
    (.drain 1)
  have hcut : pieces.flatMap Parcel.content = whole.content := by decide
  have hword : 2 * whole.frames < wordCount := by decide
  obtain ⟨⟨each, later, pushed, once, hpieces, hwhole, hframes, -⟩, ⟨drained, last, hdrains, hdrain,
    -⟩, -⟩ := same_queue_of_pieces hreached hcut hword [0, 3, 1] []
  refine ⟨_, _, hcreate, rfl, hreached, hcut, hword, ?_, ?_, by decide, by decide, by decide,
    by decide, by decide⟩
  · rw [hpieces, hwhole]
    exact hframes
  · rw [hdrains]
    exact (congrArg Prod.snd hdrain).symm

end Ring

end Framestep
