import Framestep.Proofs.Control.Changes
import Framestep.Proofs.Control.Edges

/-!
# Reads that give up

The reads of a round have a fixed order: the sources of the bound slots, and behind them the two
coordinates of a pointer that the host places.  `Reader.lost?` makes such a list of reads without
a tracker and says which of them is the first to give up.

What a round does is then a matter of where that is: `Tracker.sample_of_lost_slot`,
`Tracker.sample_of_lost_place` and `Tracker.sample_of_answers`.  The main statement,
`Tracker.rounds_survive_lost_reads`, puts them together and follows a tracker through rounds of
all three kinds.  The edges of a slot alternate whatever was lost, since a tracker compares what
it finds with what it has recorded, and a lost level was never recorded.
-/

namespace Framestep

/-- The sources of the pointer's coordinates, where the host tells them. -/
def Pointing.sources : Pointing → List Source
  | .disabled => []
  | .absolute xSource ySource => [xSource, ySource]
  | .directional _ => []

namespace Controls

variable {controls : Controls} {first : Slot}

theorem sources_of_unbound (hbound : controls first = none) (slots : List Slot) :
    controls.sources (first :: slots) = controls.sources slots := by
  simp [sources, hbound]

theorem sources_of_bound {binding : Binding} (hbound : controls first = some binding)
    (slots : List Slot) :
    controls.sources (first :: slots) = binding.source :: controls.sources slots := by
  simp [sources, hbound]

end Controls

/-! ## Reads in order -/

namespace Reader

/-- The number of the first of these reads that gives up, when they are made in order after
those of `asked`. -/
def lost? (read : Reader) : List Source → List Source → Option Nat
  | _, [] => none
  | asked, source :: sources =>
    match read asked source with
    | none => some 0
    | some _ => (read.lost? (source :: asked) sources).map (· + 1)

variable {read : Reader} {asked : List Source}

theorem lost?_append (first rest : List Source) :
    read.lost? asked (first ++ rest) =
      match read.lost? asked first with
      | some n => some n
      | none => (read.lost? (first.reverse ++ asked) rest).map (· + first.length) := by
  induction first generalizing asked with
  | nil => simp [lost?]
  | cons source first ih =>
      rw [List.cons_append, lost?, lost?]
      cases hanswer : read asked source with
      | none => rfl
      | some level =>
          simp only [ih, List.reverse_cons, List.append_assoc, List.cons_append, List.nil_append,
            List.length_cons]
          cases read.lost? (source :: asked) first with
          | some n => rfl
          | none => simp [Function.comp_def, Nat.add_assoc]

theorem lt_of_lost? {sources : List Source} {n : Nat} (h : read.lost? asked sources = some n) :
    n < sources.length := by
  induction sources generalizing asked n with
  | nil => cases h
  | cons source sources ih =>
      rw [lost?] at h
      cases hanswer : read asked source with
      | none =>
          rw [hanswer] at h
          cases h
          exact Nat.zero_lt_succ _
      | some level =>
          simp only [hanswer, Option.map_eq_some_iff] at h
          obtain ⟨m, hm, rfl⟩ := h
          exact Nat.succ_lt_succ (ih hm)

end Reader

namespace Tracker

/-- The reads of a round in their order. -/
def script (tracker : Tracker) : List Source :=
  tracker.controls.sources Slot.all ++ tracker.mode.sources

/-- The slots are read in order, and the first read that gives up is the last one made. -/
theorem readSlots_of_lost? (read : Reader) (controls : Controls) (slots : List Slot)
    (asked : List Source) :
    match read.lost? asked (controls.sources slots) with
    | some n =>
      readSlots read controls slots asked =
        (((controls.sources slots).take (n + 1)).reverse ++ asked, none)
    | none => (readSlots read controls slots asked).2.isSome = true := by
  -- What the later slots see depends on what was asked before them, hence `generalizing`.
  induction slots generalizing asked with
  | nil => rfl
  | cons first slots ih =>
      cases hbound : controls first with
      | none =>
          simp only [Controls.sources_of_unbound hbound, readSlots, hbound]
          exact ih asked
      | some binding =>
          rw [Controls.sources_of_bound hbound, Reader.lost?]
          cases hlevel : read asked binding.source with
          | none =>
              simp only [readSlots, hbound, hlevel]
              rfl
          | some level =>
              have hrest := ih (binding.source :: asked)
              simp only [readSlots, hbound, hlevel]
              cases hlost : read.lost? (binding.source :: asked) (controls.sources slots) with
              | none =>
                  rw [hlost] at hrest
                  simpa using hrest
              | some n =>
                  rw [hlost] at hrest
                  simp [hrest]

theorem readSlots_of_answers {read : Reader} {controls : Controls} {slots : List Slot}
    {asked : List Source} (hslots : slots.Nodup)
    (hanswers : read.lost? asked (controls.sources slots) = none) :
    readSlots read controls slots asked =
      ((controls.sources slots).reverse ++ asked,
        some (slots.filter (read.isOn controls slots asked))) := by
  have hsome := readSlots_of_lost? read controls slots asked
  rw [hanswers] at hsome
  obtain ⟨now, hnow⟩ := Option.isSome_iff_exists.mp hsome
  obtain ⟨hasked, rfl⟩ := readSlots_of_complete hslots hnow
  exact Prod.ext hasked hnow

section
variable (tracker : Tracker) (read : Reader) (size : Option Size) (now : List Slot)
  (asked : List Source)

/-- The coordinates of the pointer are read in order after the slots, and the first read that
gives up is the last one made.  If all come back the round comes to its end, unless the
directions have a picture to steer within that is too large. -/
theorem aim_of_lost? :
    match read.lost? asked tracker.mode.sources with
    | some n =>
      tracker.aim read size now asked =
        ((tracker.mode.sources.take (n + 1)).reverse ++ asked, none)
    | none =>
      (tracker.aim read size now asked).1 = tracker.mode.sources.reverse ++ asked ∧
        ((∀ step, tracker.mode = .directional step →
            ∀ known, size = some known → known.FitsInt32) →
          (tracker.aim read size now asked).2.isSome = true) := by
  unfold aim
  cases hmode : tracker.mode with
  | disabled => exact ⟨rfl, fun _ => rfl⟩
  | directional step => exact ⟨rfl, fun hfits => steer?_isSome _ _ _ (hfits step rfl)⟩
  | absolute xSource ySource =>
      simp only [Pointing.sources, Reader.lost?]
      cases hx : read asked xSource with
      | none => rfl
      | some x =>
          cases hy : read (xSource :: asked) ySource with
          | none => simp
          | some y => simp

end

/-! ## One round -/

section
variable {tracker : Tracker} {read : Reader} {size : Option Size}

/-- A round that loses the read of a slot has done nothing. -/
theorem sample_of_lost_slot (size : Option Size) {n : Nat}
    (hlost : read.lost? [] (tracker.controls.sources Slot.all) = some n) :
    tracker.sample read size =
      { asked := ((tracker.controls.sources Slot.all).take (n + 1)).reverse
        events := [], tracker, complete := false } := by
  have hreads := readSlots_of_lost? read tracker.controls Slot.all []
  simp only [hlost, List.append_nil] at hreads
  exact sample_of_lost hreads

theorem edges_of_answers (slots : List Slot) :
    edges tracker.controls tracker.pressed
        (Slot.all.filter (read.isOn tracker.controls Slot.all [])) slots =
      slots.filterMap fun slot => tracker.controls.change? slot (tracker.isPressed slot)
        (read.isOn tracker.controls Slot.all [] slot) := by
  rw [edges_eq]
  apply List.filterMap_congr
  intro slot _
  simp [isPressed, slot.mem_all]

/-- A round that loses a coordinate of the pointer has recorded the leading slots. -/
theorem sample_of_lost_place (size : Option Size) {n : Nat}
    (hanswers : read.lost? [] (tracker.controls.sources Slot.all) = none)
    (hlost : read.lost? (tracker.controls.sources Slot.all).reverse tracker.mode.sources =
      some n) :
    tracker.sample read size =
      { asked := (tracker.mode.sources.take (n + 1)).reverse ++
          (tracker.controls.sources Slot.all).reverse
        events := Slot.leading.filterMap fun slot =>
          tracker.controls.change? slot (tracker.isPressed slot)
            (read.isOn tracker.controls Slot.all [] slot)
        tracker :=
          tracker.recordLeading (Slot.all.filter (read.isOn tracker.controls Slot.all []))
        complete := false } := by
  have hreads := readSlots_of_answers Slot.nodup_all hanswers
  rw [List.append_nil] at hreads
  have haim := tracker.aim_of_lost? read size
    (Slot.all.filter (read.isOn tracker.controls Slot.all []))
    (tracker.controls.sources Slot.all).reverse
  simp only [hlost] at haim
  simp only [sample_of_reads hreads, haim, edges_of_answers]
  rfl

/-- A round that loses no read has made all of them. -/
theorem sample_of_answers (size : Option Size)
    (hanswers : read.lost? [] (tracker.controls.sources Slot.all) = none)
    (hplace : read.lost? (tracker.controls.sources Slot.all).reverse tracker.mode.sources =
      none) :
    (tracker.sample read size).asked =
        tracker.mode.sources.reverse ++ (tracker.controls.sources Slot.all).reverse ∧
      ((∀ step, tracker.mode = .directional step →
          ∀ known, size = some known → known.FitsInt32) →
        (tracker.sample read size).complete = true) := by
  have hreads := readSlots_of_answers Slot.nodup_all hanswers
  rw [List.append_nil] at hreads
  have haim := tracker.aim_of_lost? read size
    (Slot.all.filter (read.isOn tracker.controls Slot.all []))
    (tracker.controls.sources Slot.all).reverse
  rw [hplace] at haim
  rw [sample_of_reads hreads]
  cases hpair : tracker.aim read size
      (Slot.all.filter (read.isOn tracker.controls Slot.all []))
      (tracker.controls.sources Slot.all).reverse with
  | mk later target =>
      rw [hpair] at haim
      obtain ⟨hasked, hgoes⟩ := haim
      cases target with
      | none => exact ⟨hasked, fun hfits => absurd (hgoes hfits) (by simp)⟩
      | some target => exact ⟨hasked, fun _ => rfl⟩

/-- A round makes its reads in order, and what is left of it depends on which of them is the first
to give up. -/
structure ReadsInOrder (tracker : Tracker) (read : Reader) (size : Option Size) : Prop where
  /-- If none does, every source was asked once, and the round comes to its end unless the
  directions have a picture to steer within that is too large. -/
  whole : read.lost? [] tracker.script = none →
    (tracker.sample read size).asked.reverse = tracker.script ∧
      ((∀ step, tracker.mode = .directional step →
          ∀ known, size = some known → known.FitsInt32) →
        (tracker.sample read size).complete = true)
  /-- Otherwise it is the last read made. -/
  cut : ∀ n, read.lost? [] tracker.script = some n →
    (tracker.sample read size).asked.reverse = tracker.script.take (n + 1) ∧
      (tracker.sample read size).complete = false
  /-- Where a slot is lost, the round has done nothing. -/
  lostSlot : ∀ n, read.lost? [] tracker.script = some n →
    n < (tracker.controls.sources Slot.all).length →
      (tracker.sample read size).events = [] ∧ (tracker.sample read size).tracker = tracker
  /-- Where a coordinate is lost, the leading slots are recorded and nothing else. -/
  lostPlace : ∀ n, read.lost? [] tracker.script = some n →
    (tracker.controls.sources Slot.all).length ≤ n →
      (tracker.sample read size).events = Slot.leading.filterMap (fun slot =>
          tracker.controls.change? slot (tracker.isPressed slot)
            (read.isOn tracker.controls Slot.all [] slot)) ∧
        (tracker.sample read size).tracker.cursor = tracker.cursor ∧
        ∀ slot, (tracker.sample read size).tracker.isPressed slot =
          if slot ∈ Slot.leading then read.isOn tracker.controls Slot.all [] slot
          else tracker.isPressed slot

theorem readsInOrder (tracker : Tracker) (read : Reader) (size : Option Size) :
    tracker.ReadsInOrder read size := by
  obtain ⟨slots, hslots⟩ : ∃ slots, slots = tracker.controls.sources Slot.all := ⟨_, rfl⟩
  have hscript : read.lost? [] tracker.script =
      match read.lost? [] slots with
      | some n => some n
      | none => (read.lost? slots.reverse tracker.mode.sources).map (· + slots.length) := by
    rw [script, ← hslots, Reader.lost?_append, List.append_nil]
  -- Three rounds: one that loses a slot, one that loses a coordinate, and one that loses nothing.
  cases hlost : read.lost? [] slots with
  | some n =>
      have hlt := Reader.lt_of_lost? hlost
      simp only [hlost] at hscript
      rw [hslots] at hlost
      have hsample := sample_of_lost_slot size hlost
      constructor
      case whole => simp [hscript]
      case cut =>
        intro m hm
        cases hscript.symm.trans hm
        rw [hsample, List.reverse_reverse, script, ← hslots]
        exact ⟨(List.take_append_of_le_length hlt).symm, rfl⟩
      case lostSlot => simp [hsample]
      case lostPlace =>
        intro m hm hbehind
        cases hscript.symm.trans hm
        exact absurd hlt (Nat.not_lt.mpr (hslots ▸ hbehind))
  | none =>
      simp only [hlost] at hscript
      rw [hslots] at hlost
      cases hplace : read.lost? slots.reverse tracker.mode.sources with
      | some n =>
          simp only [hplace, Option.map_some] at hscript
          rw [hslots] at hplace
          have hsample := sample_of_lost_place size hlost hplace
          constructor
          case whole => simp [hscript]
          case cut =>
            intro m hm
            cases hscript.symm.trans hm
            -- The script is cut behind all of its slots.
            have hcount : n + slots.length + 1 = slots.length + (n + 1) := by omega
            rw [hsample, script, ← hslots, hcount, List.take_length_add_append]
            exact ⟨by simp, rfl⟩
          case lostSlot =>
            intro m hm hbefore
            cases hscript.symm.trans hm
            rw [← hslots] at hbefore
            omega
          case lostPlace =>
            intro m _ _
            rw [hsample]
            refine ⟨rfl, rfl, ?_⟩
            intro slot
            rw [isPressed_recordLeading]
            simp [slot.mem_all]
      | none =>
          simp only [hplace, Option.map_none] at hscript
          rw [hslots] at hplace
          obtain ⟨hasked, hcomplete⟩ := sample_of_answers size hlost hplace
          constructor
          case whole => exact fun _ => ⟨by simp [hasked, script], hcomplete⟩
          case cut => simp [hscript]
          case lostSlot => simp [hscript]
          case lostPlace => simp [hscript]

/-- A round that is cut off has recorded nothing, or the leading slots. -/
theorem tracker_sample_of_cut (hcut : (tracker.sample read size).complete = false) :
    (tracker.sample read size).tracker = tracker ∨
      ∃ now, (tracker.sample read size).tracker = tracker.recordLeading now := by
  cases hreads : readSlots read tracker.controls Slot.all [] with
  | mk asked found =>
      cases found with
      | none => exact .inl (by rw [sample_of_lost hreads])
      | some now =>
          rw [sample_of_reads hreads] at hcut ⊢
          cases haim : tracker.aim read size now asked with
          | mk later target =>
              cases target with
              | none => exact .inr ⟨now, rfl⟩
              | some target =>
                  rw [haim] at hcut
                  cases hcut

theorem cursor_sample_of_cut (hcut : (tracker.sample read size).complete = false) :
    (tracker.sample read size).tracker.cursor = tracker.cursor := by
  rcases tracker_sample_of_cut hcut with hsame | ⟨now, hleading⟩
  · rw [hsame]
  · rw [hleading]
    rfl

theorem isPressed_sample_of_cut (hcut : (tracker.sample read size).complete = false)
    {slot : Slot} (hslot : slot ∈ Slot.trailing) :
    (tracker.sample read size).tracker.isPressed slot = tracker.isPressed slot := by
  rcases tracker_sample_of_cut hcut with hsame | ⟨now, hleading⟩
  · rw [hsame]
  · rw [hleading, isPressed_recordLeading, if_neg (Slot.mem_trailing_iff.mp hslot)]

end

end Tracker

/-! ## Many rounds -/

namespace Recording

/-- None of these rounds comes to its end. -/
def Misses (recording : Recording) (rounds : List Round) : Prop :=
  ∀ t, ∀ ht : t < rounds.length,
    ((recording.addAll (rounds.take t)).tracker.sample rounds[t].read
      rounds[t].size).complete = false

/-- The event of a slot between what was recorded of it before a round and after it. -/
def recordedChange? (recording : Recording) (rounds : List Round) (slot : Slot) (t : Nat) :
    Option Event :=
  (recording.addAll (rounds.take t)).tracker.changeTo?
    (recording.addAll (rounds.take (t + 1))).tracker slot

variable {recording : Recording} {rounds : List Round}

theorem recordedChange?_eq (slot : Slot) (t : Nat) :
    recording.recordedChange? rounds slot t =
      recording.tracker.controls.change? slot
        ((recording.addAll (rounds.take t)).tracker.isPressed slot)
        ((recording.addAll (rounds.take (t + 1))).tracker.isPressed slot) := by
  rw [recordedChange?, Tracker.changeTo?, controls_addAll]

/-- However many rounds are cut off, they leave the trailing slots as they were recorded. -/
theorem isPressed_addAll_of_misses (hmisses : recording.Misses rounds) {slot : Slot}
    (hslot : slot ∈ Slot.trailing) :
    (recording.addAll rounds).tracker.isPressed slot = recording.tracker.isPressed slot := by
  have hupTo (t : Nat) (ht : t ≤ rounds.length) :
      (recording.addAll (rounds.take t)).tracker.isPressed slot =
        recording.tracker.isPressed slot := by
    induction t with
    | zero => rfl
    | succ t ih =>
        rw [addAll_take_succ ht, ← ih (Nat.le_of_lt ht)]
        exact Tracker.isPressed_sample_of_cut (hmisses t ht) hslot
  have hall := hupTo rounds.length (Nat.le_refl _)
  rwa [List.take_length] at hall

/-- One more round, cut off or not, appends the changes of what is recorded. -/
theorem events_addAll_succ_of_records {t : Nat} (ht : t < rounds.length) :
    ∃ move : List Event, move.length ≤ 1 ∧ (∀ event ∈ move, ∃ x y, event = .moved x y) ∧
      (recording.addAll (rounds.take (t + 1))).events =
        (recording.addAll (rounds.take t)).events ++
          (Slot.leading.filterMap (recording.recordedChange? rounds · t) ++ move ++
            Slot.trailing.filterMap (recording.recordedChange? rounds · t)) := by
  obtain ⟨before, hbefore⟩ : ∃ before, before = recording.addAll (rounds.take t) := ⟨_, rfl⟩
  have hafter : recording.addAll (rounds.take (t + 1)) = before.add rounds[t] := by
    rw [addAll_take_succ ht, hbefore]
  obtain ⟨hevents, -⟩ := before.tracker.sample_records rounds[t].read rounds[t].size
  simp only [recordedChange?, hafter, ← hbefore]
  refine ⟨Tracker.move before.tracker.cursor (before.add rounds[t]).tracker.cursor,
    Tracker.length_move_le _ _, ?_, ?_⟩
  · intro event hevent
    exact ⟨_, _, Tracker.eq_moved_of_mem_move hevent⟩
  · rw [← Tracker.map_labelled, add, hevents]

/-- The edges of a slot alternate through rounds of any kind. -/
theorem alternates_recordedChange? (hstart : ∀ slot, recording.tracker.isPressed slot = false)
    {slot : Slot} {action : Action}
    (haction : recording.tracker.controls.action? slot = some action) (rounds : List Round) :
    Alternates action
      ((List.range rounds.length).filterMap (recording.recordedChange? rounds slot)) := by
  obtain ⟨halternates, -⟩ := @Controls.alternates_changes _ _ _ haction
    (fun t => (recording.addAll (rounds.take t)).tracker.isPressed slot) (hstart slot)
    rounds.length
  simpa only [recordedChange?_eq] using halternates

end Recording

namespace Tracker

/-- Reads in their order, and what is left of a round that loses one.

A round asks for the sources of the bound slots and then for the coordinates of the pointer, each
of them once, up to the first read that gives up.  If that is a slot the round has done nothing.
If it is a coordinate the leading slots are recorded and their edges given, and nothing else.

From a reset on the edges of each slot alternate, whatever is lost.  A trailing slot keeps its
record through all the rounds that are cut off, and a level that differs from it is told by the
next one that is not. -/
theorem rounds_survive_lost_reads (tracker : Tracker) :
    (∀ read size, tracker.ReadsInOrder read size) ∧
    let start : Recording := { tracker := tracker.reset, events := [] }
    (∀ rounds : List Round,
      (∀ t < rounds.length, ∃ move : List Event,
        move.length ≤ 1 ∧ (∀ event ∈ move, ∃ x y, event = .moved x y) ∧
        (start.addAll (rounds.take (t + 1))).events =
          (start.addAll (rounds.take t)).events ++
            (Slot.leading.filterMap (start.recordedChange? rounds · t) ++ move ++
              Slot.trailing.filterMap (start.recordedChange? rounds · t))) ∧
      ∀ slot action, tracker.controls.action? slot = some action →
        Alternates action
          ((List.range rounds.length).filterMap (start.recordedChange? rounds slot))) ∧
    ∀ (earlier missed : List Round) (round : Round),
      let known := start.addAll earlier
      let reached := known.addAll missed
      let sample := reached.tracker.sample round.read round.size
      let on := round.read.isOn tracker.controls Slot.all []
      known.Misses missed → sample.complete = true →
        ∀ slot ∈ Slot.trailing,
          reached.tracker.isPressed slot = known.tracker.isPressed slot ∧
          ∀ action, tracker.controls.action? slot = some action →
            on slot ≠ known.tracker.isPressed slot → action.edge (on slot) ∈ sample.events := by
  refine ⟨tracker.readsInOrder, ?_, ?_⟩
  · intro rounds
    refine ⟨fun t ht => Recording.events_addAll_succ_of_records ht, ?_⟩
    intro slot action haction
    exact Recording.alternates_recordedChange? (fun _ => rfl) haction rounds
  · intro earlier missed round known reached sample on hmisses hcomplete slot hslot
    have hkept : reached.tracker.isPressed slot = known.tracker.isPressed slot :=
      Recording.isPressed_addAll_of_misses hmisses hslot
    refine ⟨hkept, ?_⟩
    intro action haction hdiffers
    have hcontrols : reached.tracker.controls = tracker.controls := by
      simp only [reached, known, Recording.controls_addAll]
      rfl
    obtain ⟨-, hevents⟩ := sample_of_complete hcomplete
    rw [hcontrols] at hevents
    -- The round compares with what was last recorded, and that is from before those missed.
    have hchange : tracker.controls.change? slot (reached.tracker.isPressed slot) (on slot) =
        some (action.edge (on slot)) := by
      rw [tracker.controls.change?_of_action haction, hkept, if_neg hdiffers.symm]
    show action.edge (on slot) ∈ (reached.tracker.sample round.read round.size).events
    rw [hevents]
    exact List.mem_append_right _ (List.mem_filterMap.mpr ⟨slot, hslot, hchange⟩)

/-- The law at work on a key and a mouse button that go down together.  The first round loses where
the pointer is and tells of the key only; the second one tells of the button. -/
theorem rounds_survive_lost_reads_of_held_button :
    let tracker := create Controls.keyboardAndMouse .standard
    let read (lost : Option Source) : Reader := fun _ source =>
      if some source = lost then none
      else some (if source = .pad .a ∨ source = .mouse .left then 1 else 0)
    let missed : Round := ⟨read (some (.pointer .x)), none⟩
    let round : Round := ⟨read none, none⟩
    let start : Recording := { tracker := tracker.reset, events := [] }
    let reached := start.addAll [missed]
    missed.read.lost? [] tracker.script = some 11 ∧
      (tracker.sample missed.read none).asked.reverse = tracker.script.take 12 ∧
      tracker.script.length = 13 ∧
      start.Misses [missed] ∧ reached.events = [.keyDown AdbKey.enter] ∧
      (reached.tracker.sample round.read none).complete = true ∧
      Event.buttonDown .left ∈ (reached.tracker.sample round.read none).events := by
  intro tracker read missed round start reached
  obtain ⟨hround, -, hlate⟩ := rounds_survive_lost_reads tracker
  have hlost : missed.read.lost? [] tracker.script = some 11 := by decide +kernel
  have hcut : (start.tracker.sample missed.read missed.size).complete = false := by
    decide +kernel
  have hmisses : start.Misses [missed] := by
    intro t ht
    obtain rfl : t = 0 := Nat.lt_one_iff.mp ht
    exact hcut
  have hcomplete : (reached.tracker.sample round.read none).complete = true := by decide +kernel
  obtain ⟨-, htells⟩ := hlate [] [missed] round hmisses hcomplete (.pointer .left) (by decide)
  exact ⟨hlost, ((hround _ none).cut 11 hlost).1, by decide +kernel, hmisses, by decide +kernel,
    hcomplete, htells (.button .left) (by decide +kernel) (by decide +kernel)⟩

end Tracker

end Framestep
