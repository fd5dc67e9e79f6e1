import Framestep.Proofs.Audio.Arena

/-!
# The ring through its queue

Each operation of a ring is evaluated here once, for a ring whose cursors are in
order (`Ring.WellFormed`): what it answers, which ring it leaves, that this ring
is in order again, and which queue the ring then stands for (`Ring.toFrames`).
None of the checks inside the operations ever stops one of them.

Later modules use these statements and do not look into the operations.
-/

namespace Framestep

namespace Ring

variable {ring : Ring} {requested : Nat} {memory : Memory}

@[simp] theorem length_toFrames (ring : Ring) : ring.toFrames.length = ring.occupied := by
  simp [toFrames]

theorem toFrames_eq_map_cellAt (ring : Ring) :
    ring.toFrames = (List.range ring.occupied).map fun n =>
      cellAt ring.storage ((ring.read + n) % ring.capacity) := rfl

theorem toFrames_getElem (ring : Ring) (n : Nat) (hn : n < ring.toFrames.length) :
    ring.toFrames[n] = cellAt ring.storage ((ring.read + n) % ring.capacity) := by
  simp only [toFrames_eq_map_cellAt, List.getElem_map, List.getElem_range]

theorem checked_eq_some (hring : ring.WellFormed) : ring.checked = some ring := by
  have hcapacity : 0 < ring.capacity := hring.capacity_pos
  have hsize : ring.storage.size = ring.capacity * channelCount := by
    rw [hring.storage_size, Nat.mul_comm]
  unfold checked guard
  simp [hring.occupied_le, modulo?_eq_some hcapacity, hring.write_eq, hsize]

/-! ## A new ring -/

/-- An arena is refused exactly where memory does not grant its bytes, and is silent
otherwise. -/
theorem arena_eq (frames : Nat) (memory : Memory) :
    arena frames memory =
      if memory.limit < 4 * frames then
        .refused (.outOfMemory (min (4 * frames) maxWord))
      else
        .done (Array.replicate (2 * frames) 0) := by
  have hlimit := memory.limit_le
  have hallocation : maxAllocation = 2 ^ 63 - 1 := rfl
  have hmaxWord : maxWord = 2 ^ 64 - 1 := rfl
  have hwordCount : wordCount = 2 ^ 64 := rfl
  have hsamples : channelCount * frames = 2 * frames := rfl
  have hbytes : 2 * (2 * frames) = 4 * frames := by omega
  unfold arena
  by_cases hword : wordCount ≤ channelCount * frames
  · rw [if_pos hword, if_pos (by omega), Nat.min_eq_right (by omega)]
  · rw [if_neg hword, hsamples, hbytes]

theorem create_eq_done (hcreate : create requested memory = .done ring) :
    ring = ⟨Array.replicate (2 * max requested 1) 0, max requested 1, 0, 0, 0⟩ := by
  simp only [create, arena_eq] at hcreate
  split at hcreate
  · simp [Outcome.map] at hcreate
  · simp only [Outcome.map, Outcome.done.injEq] at hcreate
    exact hcreate.symm

theorem wellFormed_of_create (hcreate : create requested memory = .done ring) :
    ring.WellFormed := by
  have hcapacity : 1 ≤ max requested 1 := Nat.le_max_right requested 1
  rw [create_eq_done hcreate]
  constructor
  case capacity_pos => exact hcapacity
  case read_lt => exact hcapacity
  case write_lt => exact hcapacity
  case occupied_le => exact Nat.zero_le _
  case write_eq => exact Nat.zero_mod _
  case storage_size => exact Array.size_replicate

theorem toFrames_of_create (hcreate : create requested memory = .done ring) :
    ring.toFrames = [] := by
  rw [create_eq_done hcreate]
  rfl

theorem capacity_of_create (hcreate : create requested memory = .done ring) :
    ring.capacity = max requested 1 := by
  rw [create_eq_done hcreate]

/-! ## Taking frames -/

def without (ring : Ring) (count : Nat) : Ring :=
  { ring with
    read := (ring.read + count) % ring.capacity
    occupied := ring.occupied - count }

@[simp] theorem occupied_without (ring : Ring) (count : Nat) :
    (ring.without count).occupied = ring.occupied - count := rfl

theorem without_zero (hring : ring.WellFormed) : ring.without 0 = ring := by
  simp [without, Nat.mod_eq_of_lt hring.read_lt]

theorem wellFormed_without (hring : ring.WellFormed) {count : Nat}
    (hcount : count ≤ ring.occupied) : (ring.without count).WellFormed := by
  have hcapacity := hring.capacity_pos
  constructor
  case capacity_pos => exact hcapacity
  case read_lt => exact Nat.mod_lt _ hcapacity
  case write_lt => exact hring.write_lt
  case occupied_le => exact (Nat.sub_le _ _).trans hring.occupied_le
  case write_eq =>
    have hsum : ring.read + count + (ring.occupied - count) = ring.read + ring.occupied := by
      omega
    simp only [without]
    rw [Nat.mod_add_mod, hsum, hring.write_eq]
  case storage_size => exact hring.storage_size

theorem toFrames_without (ring : Ring) (count : Nat) :
    (ring.without count).toFrames = ring.toFrames.drop count := by
  apply List.ext_getElem
  · simp
  · intro n hn hdrop
    rw [toFrames_getElem, List.getElem_drop, toFrames_getElem]
    simp only [without]
    rw [Nat.mod_add_mod, Nat.add_assoc]

theorem toFrames_without_min (ring : Ring) (limit : Nat) :
    (ring.without (min limit ring.occupied)).toFrames = ring.toFrames.drop limit := by
  rw [toFrames_without, ← length_toFrames, ← List.drop_eq_drop_min]

/-- The oldest frames lie in at most two runs, which together are the beginning of
the queue. -/
theorem oldest?_eq_some (hring : ring.WellFormed) {count : Nat}
    (hcount : count ≤ ring.occupied) :
    ring.oldest? count = some (StereoFrame.toSamples (ring.toFrames.take count)) := by
  have hread := hring.read_lt
  have hoccupied := hring.occupied_le
  have hsize : ring.storage.size = 2 * ring.capacity := hring.storage_size
  -- `first` frames lie before the end of the arena, the others at its start.
  obtain ⟨first, hfirst⟩ : ∃ first, first = min count (ring.capacity - ring.read) :=
    ⟨_, rfl⟩
  obtain ⟨front, hfront⟩ :
      ∃ front, front =
        (ring.storage.extract (2 * ring.read) (2 * (ring.read + first))).toList := ⟨_, rfl⟩
  obtain ⟨back, hback⟩ :
      ∃ back, back = (ring.storage.extract (2 * 0) (2 * (0 + (count - first)))).toList :=
    ⟨_, rfl⟩
  have hfrontLength : front.length = 2 * first := by
    rw [hfront]
    simp
    omega
  have hbackLength : back.length = 2 * (count - first) := by
    rw [hback]
    simp
    omega
  have hframes : StereoFrame.ofSamples (front ++ back) = ring.toFrames.take count := by
    rw [StereoFrame.ofSamples_append _ _ (by omega), hfront, hback,
      ofSamples_extract _ _ _ (by omega), ofSamples_extract _ _ _ (by omega)]
    simp only [Nat.zero_add]
    rw [hfirst, map_range_wrap _ hread (hcount.trans hoccupied), toFrames_eq_map_cellAt,
      ← List.map_take, List.take_range, Nat.min_eq_left hcount]
  have hsamples : front ++ back = StereoFrame.toSamples (ring.toFrames.take count) := by
    rw [← hframes, StereoFrame.toSamples_ofSamples]
    rw [List.length_append, hfrontLength, hbackLength]
    omega
  have hstart : ring.read * channelCount = 2 * ring.read := Nat.mul_comm _ _
  have hstop : 2 * ring.read + first * channelCount = 2 * (ring.read + first) := by
    simp only [channelCount]
    omega
  unfold oldest?
  simp only [minus?_eq_some hread.le, Option.bind_eq_bind, Option.bind_some, ← hfirst]
  rw [hstart, hstop, stretch?_eq_some (by omega) (by omega), ← hfront,
    minus?_eq_some (by omega)]
  simp only [Option.bind_some]
  split
  · have hrest : (count - first) * channelCount = 2 * (0 + (count - first)) := by
      simp only [channelCount]
      omega
    rw [hrest, stretch?_eq_some (by omega) (by omega), ← hsamples, hback]
    rfl
  · have hnil : back = [] := List.eq_nil_of_length_eq_zero (by omega)
    rw [← hsamples, hnil, List.append_nil]

theorem take?_eq_some (hring : ring.WellFormed) (limit : Nat) :
    ring.take? limit =
      some (StereoFrame.toSamples (ring.toFrames.take limit),
        ring.without (min limit ring.occupied)) := by
  have hcapacity : 0 < ring.capacity := hring.capacity_pos
  have hcount : min limit ring.occupied ≤ ring.occupied := Nat.min_le_right _ _
  have htake : ring.toFrames.take limit = ring.toFrames.take (min limit ring.occupied) := by
    rw [← length_toFrames, List.take_eq_take_min]
  rw [htake]
  unfold take?
  simp only
  split
  · next hzero =>
      rw [hzero, without_zero hring]
      rfl
  · rw [oldest?_eq_some hring hcount]
    have hchecked := checked_eq_some (wellFormed_without hring hcount)
    simp only [without] at hchecked
    simp only [Option.bind_eq_bind, Option.bind_some, modulo?_eq_some hcapacity,
      minus?_eq_some hcount, hchecked, without]
    rfl

theorem drainTo_eq (hring : ring.WellFormed) (stream : List Int16) (limit : Nat) :
    ring.drainTo stream limit =
      (.done (min limit ring.occupied),
        stream ++ StereoFrame.toSamples (ring.toFrames.take limit),
        ring.without (min limit ring.occupied)) := by
  simp [drainTo, take?_eq_some hring]

theorem drain_eq (hring : ring.WellFormed) (limit : Nat) :
    ring.drain limit =
      (.done (StereoFrame.toSamples (ring.toFrames.take limit)),
        ring.without (min limit ring.occupied)) := by
  simp [drain, drainTo_eq hring]

/-! ## Pushing frames -/

/-- The ring with whole frames written behind the youngest one, the oldest ones
given up for them where room runs out. -/
def appended (ring : Ring) (source : List Int16) : Ring :=
  let incoming := source.length / 2
  let overflow := incoming - (ring.capacity - ring.occupied)
  { ring with
    storage := overwriteAround ring.storage ring.capacity ring.write source
    read := (ring.read + overflow) % ring.capacity
    write := (ring.write + incoming) % ring.capacity
    occupied := ring.occupied - overflow + incoming }

@[simp] theorem capacity_appended (ring : Ring) (source : List Int16) :
    (ring.appended source).capacity = ring.capacity := rfl

theorem appended_nil (hring : ring.WellFormed) : ring.appended [] = ring := by
  have hread := Nat.mod_eq_of_lt hring.read_lt
  have hwrite := Nat.mod_eq_of_lt hring.write_lt
  simp [appended, overwriteAround, overwriteFrom, hread, hwrite]

theorem wellFormed_appended (hring : ring.WellFormed) {source : List Int16}
    (hsource : source.length ≤ 2 * ring.capacity) : (ring.appended source).WellFormed := by
  have hcapacity := hring.capacity_pos
  have hoccupied := hring.occupied_le
  constructor
  case capacity_pos => exact hcapacity
  case read_lt => exact Nat.mod_lt _ hcapacity
  case write_lt => exact Nat.mod_lt _ hcapacity
  case occupied_le =>
    simp only [appended]
    omega
  case write_eq =>
    simp only [appended]
    -- Both cursors move on by what comes in; what is given up moves only the first.
    obtain ⟨overflow, hoverflow⟩ : ∃ overflow,
        overflow = source.length / 2 - (ring.capacity - ring.occupied) := ⟨_, rfl⟩
    have hsum : ring.read + overflow + (ring.occupied - overflow + source.length / 2) =
        ring.read + ring.occupied + source.length / 2 := by omega
    rw [← hoverflow, Nat.mod_add_mod, hsum, ← Nat.mod_add_mod, hring.write_eq]
  case storage_size =>
    simp only [appended, size_overwriteAround]
    exact hring.storage_size

/-- Whole frames are queued behind the others, and the youngest `capacity` frames
remain. -/
theorem toFrames_appended (hring : ring.WellFormed) {source : List Int16}
    (heven : source.length % 2 = 0) (hsource : source.length ≤ 2 * ring.capacity) :
    (ring.appended source).toFrames =
      (ring.toFrames ++ StereoFrame.ofSamples source).rtake ring.capacity := by
  have hoccupied := hring.occupied_le
  have hwrite := hring.write_eq
  obtain ⟨overflow, hoverflow⟩ : ∃ overflow,
      overflow = source.length / 2 - (ring.capacity - ring.occupied) := ⟨_, rfl⟩
  have hdropped : ring.occupied + source.length / 2 - ring.capacity = overflow := by omega
  apply List.ext_getElem
  · simp [appended, List.rtake]
    omega
  · intro n hn hqueue
    simp only [length_toFrames, appended, ← hoverflow] at hn
    simp only [List.rtake, List.length_append, length_toFrames, StereoFrame.length_ofSamples,
      hdropped, List.getElem_drop]
    rw [toFrames_getElem]
    simp only [appended, ← hoverflow, Nat.mod_add_mod]
    by_cases hold : overflow + n < ring.occupied
    · -- An old frame lies in front of the new ones, so its place is not written.
      have hplace : (ring.read + overflow + n) % ring.capacity =
          (ring.write + (overflow + n + ring.capacity - ring.occupied)) % ring.capacity := by
        have hround : ring.read + ring.occupied + (overflow + n + ring.capacity - ring.occupied) =
            ring.read + overflow + n + ring.capacity := by omega
        rw [← hwrite, Nat.mod_add_mod, hround, Nat.add_mod_right]
      rw [hplace, cellAt_overwriteAround _ _ hring.storage_size hring.write_lt heven hsource
          (by omega), if_neg (by omega), ← hplace, List.getElem_append_left (by simpa using hold),
        toFrames_getElem, Nat.add_assoc]
    · have hplace : (ring.read + overflow + n) % ring.capacity =
          (ring.write + (overflow + n - ring.occupied)) % ring.capacity := by
        have hround : ring.read + ring.occupied + (overflow + n - ring.occupied) =
            ring.read + overflow + n := by omega
        rw [← hwrite, Nat.mod_add_mod, hround]
      rw [hplace, cellAt_overwriteAround _ _ hring.storage_size hring.write_lt heven hsource
          (by omega), if_pos (by omega), List.getElem_append_right (by simp; omega),
        List.getD_eq_getElem?_getD, List.getElem?_eq_getElem (by simp; omega), Option.getD_some]
      simp only [length_toFrames]

/-- The arena of a push is the one that runs in a circle. -/
theorem fill?_eq_some (hring : ring.WellFormed) {source : List Int16}
    (heven : source.length % 2 = 0) (hsource : source.length ≤ 2 * ring.capacity) :
    ring.fill? source =
      some (overwriteAround ring.storage ring.capacity ring.write source) := by
  have hwrite := hring.write_lt
  have hsize : ring.storage.size = 2 * ring.capacity := hring.storage_size
  obtain ⟨first, hfirst⟩ :
      ∃ first, first = min (source.length / 2) (ring.capacity - ring.write) := ⟨_, rfl⟩
  have hhalf : source.length / channelCount = source.length / 2 := rfl
  have hstart : ring.write * channelCount = 2 * ring.write := Nat.mul_comm _ _
  have hstop : first * channelCount = 2 * first := Nat.mul_comm _ _
  have htake : (source.take (2 * first)).length = 2 * first := by
    rw [List.length_take]
    omega
  unfold fill? overwriteAround
  simp only [minus?_eq_some hwrite.le, Option.bind_eq_bind, Option.bind_some, hhalf, ← hfirst,
    hstart, hstop]
  rw [portion?_eq_some (by omega) (by omega), List.drop_zero]
  simp only [Option.bind_some]
  rw [overwrite?_eq_some (by omega) (by omega), minus?_eq_some (by omega)]
  simp only [Option.bind_some]
  split
  · have hrest : (source.length / 2 - first) * channelCount = source.length - 2 * first := by
      simp only [channelCount]
      omega
    rw [hrest, portion?_eq_some (by omega) (by omega), List.take_length]
    simp only [Option.bind_some]
    rw [overwrite?_eq_some (by simp) (by simp only [size_overwriteFrom]; omega)]
  · have hnil : source.drop (2 * first) = [] := List.drop_eq_nil_of_le (by omega)
    rw [hnil]
    rfl

theorem giveUp?_eq_some (hring : ring.WellFormed) {count : Nat}
    (hcount : count ≤ ring.occupied) : ring.giveUp? count = some (ring.without count) := by
  have hcapacity : 0 < ring.capacity := hring.capacity_pos
  unfold giveUp?
  split
  · rw [modulo?_eq_some hcapacity, minus?_eq_some hcount]
    rfl
  · next hzero =>
      have hcount : count = 0 := by omega
      rw [hcount, without_zero hring]

theorem skipped?_eq_some (ring : Ring) (frames : Nat) :
    ring.skipped? frames = some (frames - ring.capacity) := by
  unfold skipped?
  split
  · next hlarge => exact minus?_eq_some hlarge.le
  · have hzero : frames - ring.capacity = 0 := by omega
    rw [hzero]

/-- The samples of a push that find a place in a ring of this capacity: those of
the last frames. -/
def fitting (samples : List Int16) (frames capacity : Nat) : List Int16 :=
  (samples.take (2 * frames)).drop (2 * (frames - capacity))

theorem length_fitting {samples : List Int16} {frames : Nat} (capacity : Nat)
    (hsamples : 2 * frames ≤ samples.length) :
    (fitting samples frames capacity).length = 2 * min frames capacity := by
  simp only [fitting, List.length_drop, List.length_take]
  omega

theorem append?_eq_some (hring : ring.WellFormed) {samples : List Int16} {frames : Nat}
    (hsamples : 2 * frames ≤ samples.length) :
    ring.append? samples frames =
      some (⟨min frames ring.capacity,
          ring.occupied + frames - min ring.capacity (ring.occupied + frames)⟩,
        ring.appended (fitting samples frames ring.capacity)) := by
  have hcapacity : 0 < ring.capacity := hring.capacity_pos
  have hoccupied := hring.occupied_le
  have hlength := length_fitting ring.capacity hsamples
  have hskipped := skipped?_eq_some ring frames
  obtain ⟨source, hsource⟩ : ∃ source, source = fitting samples frames ring.capacity := ⟨_, rfl⟩
  rw [← hsource] at hlength ⊢
  obtain ⟨overflow, hoverflow⟩ : ∃ overflow,
      overflow = source.length / 2 - (ring.capacity - ring.occupied) := ⟨_, rfl⟩
  -- The source is cut to what the ring can hold, so no more than all old frames give way.
  have hroom : source.length ≤ 2 * ring.capacity := by omega
  have heven : source.length % 2 = 0 := by omega
  have hgone : overflow ≤ ring.occupied := by omega
  have hfilled := fill?_eq_some (wellFormed_without hring hgone) heven hroom
  have hwrite := modulo?_eq_some (a := ring.write + source.length / 2) hcapacity
  have hchecked := checked_eq_some (wellFormed_appended hring hroom)
  have hgiven : ((samples.take (frames * channelCount)).drop 0).length = 2 * frames := by
    simp [channelCount]
    omega
  have hfrom : (((samples.take (frames * channelCount)).drop 0).take (2 * frames)).drop
      ((frames - ring.capacity) * channelCount) = source := by
    simp [hsource, fitting, channelCount, Nat.mul_comm, List.take_take]
  -- The checks are gone through in the order in which the program makes them.
  unfold append?
  rw [portion?_eq_some (Nat.zero_le _) (by simp only [channelCount]; omega), hskipped]
  simp only [Option.bind_eq_bind, Option.bind_some]
  rw [hgiven, portion?_eq_some (by simp only [channelCount]; omega) (by omega), hfrom]
  simp only [Option.bind_some, minus?_eq_some hoccupied, channelCount]
  rw [← hoverflow, giveUp?_eq_some hring hgone]
  simp only [Option.bind_some, hfilled]
  simp only [appended, ← hoverflow] at hchecked ⊢
  simp only [without, hwrite, Option.bind_some, hchecked]
  have hwritten : source.length / 2 = min frames ring.capacity := by omega
  have hdropped : frames - ring.capacity + overflow =
      ring.occupied + frames - min ring.capacity (ring.occupied + frames) := by omega
  rw [hdropped, hwritten]
  rfl

theorem length_rtake {α : Type} (xs : List α) (count : Nat) :
    (xs.rtake count).length = min count xs.length := by
  simp only [List.rtake, List.length_drop]
  omega

theorem rtake_of_length_le {α : Type} {xs : List α} {count : Nat} (h : xs.length ≤ count) :
    xs.rtake count = xs := by
  rw [List.rtake, Nat.sub_eq_zero_of_le h, List.drop_zero]

/-- A list whose end is cut short and put behind another has the same end. -/
theorem rtake_append_drop {α : Type} (xs ys : List α) (count : Nat) :
    (xs ++ ys.drop (ys.length - count)).rtake count = (xs ++ ys).rtake count := by
  by_cases hshort : ys.length ≤ count
  · rw [Nat.sub_eq_zero_of_le hshort, List.drop_zero]
  · have hcut : (xs ++ ys.drop (ys.length - count)).length - count = xs.length + 0 := by
      simp only [List.length_append, List.length_drop]
      omega
    have hwhole : (xs ++ ys).length - count = xs.length + (ys.length - count) := by
      simp only [List.length_append]
      omega
    rw [List.rtake, List.rtake, hcut, hwhole, List.drop_length_add_append,
      List.drop_length_add_append, List.drop_zero]

/-- A list has the same end if its beginning is cut off before more is put behind it. -/
theorem rtake_rtake_append {α : Type} (xs ys : List α) (count : Nat) :
    (xs.rtake count ++ ys).rtake count = (xs ++ ys).rtake count := by
  have hold : xs.length - count + ((xs.rtake count ++ ys).length - count) =
      (xs ++ ys).length - count := by
    simp only [List.length_append, length_rtake]
    omega
  have hnew : (xs.rtake count ++ ys).length - count - (xs.rtake count).length =
      (xs ++ ys).length - count - xs.length := by
    simp only [List.length_append, length_rtake]
    omega
  calc (xs.rtake count ++ ys).rtake count
      = (xs.rtake count).drop ((xs.rtake count ++ ys).length - count) ++
          ys.drop ((xs.rtake count ++ ys).length - count - (xs.rtake count).length) :=
        List.drop_append
    _ = xs.drop ((xs ++ ys).length - count) ++
          ys.drop ((xs ++ ys).length - count - xs.length) := by
        rw [hnew, ← hold, List.rtake, List.drop_drop]
    _ = (xs ++ ys).rtake count := List.drop_append.symm

/-- A push with enough samples queues its frames behind the others; the youngest
`capacity` frames remain. -/
theorem toFrames_appended_fitting (hring : ring.WellFormed) {samples : List Int16}
    {frames : Nat} (hsamples : 2 * frames ≤ samples.length) :
    (ring.appended (fitting samples frames ring.capacity)).toFrames =
      (ring.toFrames ++ (StereoFrame.ofSamples samples).take frames).rtake ring.capacity := by
  have hlength := length_fitting ring.capacity hsamples
  have htake := StereoFrame.length_take_ofSamples hsamples
  have hend := rtake_append_drop ring.toFrames ((StereoFrame.ofSamples samples).take frames)
    ring.capacity
  rw [htake] at hend
  rw [toFrames_appended hring (by omega) (by omega), fitting, StereoFrame.ofSamples_drop,
    StereoFrame.ofSamples_take, hend]

theorem wellFormed_appended_fitting (hring : ring.WellFormed) {samples : List Int16}
    {frames : Nat} (hsamples : 2 * frames ≤ samples.length) :
    (ring.appended (fitting samples frames ring.capacity)).WellFormed := by
  have hlength := length_fitting ring.capacity hsamples
  exact wellFormed_appended hring (by omega)

/-- A push ends in one of three ways, and is never stopped once a machine word can
count its samples. -/
theorem push_eq (hring : ring.WellFormed) (samples : List Int16) (frames : Nat) :
    ring.push samples frames =
      if wordCount ≤ 2 * frames then
        (.aborted, ring)
      else if samples.length < 2 * frames then
        (.refused (.shortSamples frames samples.length), ring)
      else
        (.done ⟨min frames ring.capacity,
            ring.occupied + frames - min ring.capacity (ring.occupied + frames)⟩,
          ring.appended (fitting samples frames ring.capacity)) := by
  have hdouble : frames * channelCount = 2 * frames := Nat.mul_comm _ _
  unfold push
  rw [hdouble]
  split
  · rfl
  · split
    · rfl
    · next henough =>
        split
        · next hzero =>
            subst hzero
            have hnil : fitting samples 0 ring.capacity = [] := by simp [fitting]
            have hoccupied := hring.occupied_le
            rw [hnil, appended_nil hring, Nat.add_zero, Nat.min_eq_right hoccupied, Nat.sub_self,
              Nat.zero_min]
        · rw [append?_eq_some hring (by omega)]

/-! ## Growing and clearing -/

/-- The ring moved to the start of a larger arena. -/
def moved (ring : Ring) (frames : Nat) : Ring :=
  { storage :=
      overwriteFrom (Array.replicate (2 * frames) 0) 0 (StereoFrame.toSamples ring.toFrames)
    capacity := frames
    read := 0
    write := ring.occupied % frames
    occupied := ring.occupied }

theorem wellFormed_moved (hring : ring.WellFormed) {frames : Nat}
    (hlarger : ring.capacity < frames) : (ring.moved frames).WellFormed := by
  have hfrom := hring.capacity_pos
  have hoccupied := hring.occupied_le
  constructor
  case capacity_pos => exact hfrom.trans hlarger.le
  case read_lt => exact Nat.lt_trans hfrom hlarger
  case write_lt => exact Nat.mod_lt _ (Nat.lt_trans hfrom hlarger)
  case occupied_le => exact hoccupied.trans hlarger.le
  case write_eq => simp only [moved, Nat.zero_add]
  case storage_size => simp [moved, channelCount]

/-- Moving to a larger arena keeps the queue. -/
theorem toFrames_moved (hring : ring.WellFormed) {frames : Nat}
    (hlarger : ring.capacity < frames) : (ring.moved frames).toFrames = ring.toFrames := by
  have hoccupied := hring.occupied_le
  have hcell (n : Nat) := cellAt_overwriteFrom (Array.replicate (2 * frames) 0) 0 n
    (StereoFrame.toSamples ring.toFrames) (by simp) (by simp; omega)
  apply List.ext_getElem
  · simp [moved]
  · intro n hn hqueue
    simp only [length_toFrames, moved] at hn
    rw [toFrames_getElem]
    simp only [moved, Nat.zero_add]
    rw [Nat.mod_eq_of_lt (by omega), hcell, if_pos (by simp; omega),
      StereoFrame.ofSamples_toSamples, List.getD_eq_getElem?_getD, Nat.sub_zero,
      List.getElem?_eq_getElem hqueue, Option.getD_some]

/-- Where a larger arena was had, the buffer for the queued frames can be had as well. -/
theorem moveTo?_eq_some (hring : ring.WellFormed) {frames : Nat}
    {memory : Memory} (hlarger : ring.capacity < frames) (hbytes : 4 * frames ≤ memory.limit) :
    ring.moveTo? (Array.replicate (2 * frames) 0) frames memory = some (ring.moved frames) := by
  have hoccupied := hring.occupied_le
  have hchecked := checked_eq_some (wellFormed_moved hring hlarger)
  have hall : ring.toFrames.take ring.occupied = ring.toFrames := by
    rw [← length_toFrames, List.take_length]
  have hbuffer : 2 * (channelCount * ring.occupied) ≤ memory.limit := by
    simp only [channelCount]
    omega
  unfold moveTo? guard
  rw [if_pos hbuffer, take?_eq_some hring, hall]
  simp only [Option.pure_def, Option.bind_eq_bind, Option.bind_some]
  rw [overwrite?_eq_some (Nat.zero_add _) (by simp; omega), modulo?_eq_some (by omega)]
  exact hchecked

theorem growTo_eq (hring : ring.WellFormed) (frames : Nat) (memory : Memory) :
    ring.growTo frames memory =
      if frames ≤ ring.capacity then
        (.done false, ring)
      else if memory.limit < 4 * frames then
        (.refused (.outOfMemory (min (4 * frames) maxWord)), ring)
      else
        (.done true, ring.moved frames) := by
  unfold growTo
  split
  · rfl
  · next hlarger =>
      rw [arena_eq]
      by_cases hbytes : memory.limit < 4 * frames
      · simp only [if_pos hbytes]
      · have hfits := Nat.le_of_not_lt hbytes
        simp only [if_neg hbytes, moveTo?_eq_some hring (Nat.lt_of_not_le hlarger) hfits]

theorem wellFormed_clear (hring : ring.WellFormed) : ring.clear.WellFormed := by
  have hcapacity := hring.capacity_pos
  constructor
  case capacity_pos => exact hcapacity
  case read_lt => exact hcapacity
  case write_lt => exact hcapacity
  case occupied_le => exact Nat.zero_le _
  case write_eq => exact Nat.zero_mod _
  case storage_size => exact hring.storage_size

end Ring

end Framestep
