import Framestep.Proofs.Session.Order

/-!
# The sound of a host frame

How much of the queued sound a host frame plays, in which calls, and what it leaves.  `CutsInto`
says of a queue and of batches that these are the beginning of the queue, cut as a frame cuts it,
and `Registry.Delivers` says which calls let the host hear them; neither speaks of the ring or of
the loop that empties it.

Whoever is given the sound may use the feed, as long as nothing is queued: then the ring stays as
the frame leaves it, `Feed.Leads.ring`.

Before its sound a frame does not look at the callbacks for it: put others in their place, and it
comes to its sound just the same, `Session.beforeSound_playingTo`.  So two frames can be compared
that differ in these callbacks alone.

The main statement is `Session.frame_drains`, for every host frame that comes to its sound and is
not interrupted.
-/

namespace Framestep

variable {κ : Type}

/-! ## The beginning of a queue in batches -/

/-- These batches are the first frames of a queue in their order.  Every batch but the last has
`limit` frames, and there are `count` of them unless the queue ends before. -/
structure CutsInto (limit count : Nat) (queue : List StereoFrame)
    (cut : List (List StereoFrame)) : Prop where
  frames : cut.flatten = queue.take (limit * count)
  /-- The queue comes to its length divided by `limit`, rounded up. -/
  length : cut.length = min count ((queue.length + limit - 1) / limit)
  full : ∀ batch ∈ cut.dropLast, batch.length = limit
  bounds : ∀ batch ∈ cut, 0 < batch.length ∧ batch.length ≤ limit

/-- A queue cut into batches of `limit` frames, at most so many.  The last one may be
shorter. -/
def batches (limit : Nat) : Nat → List StereoFrame → List (List StereoFrame)
  | 0, _ => []
  | count + 1, queue =>
    if queue.take limit = [] then []
    else queue.take limit :: batches limit count (queue.drop limit)

theorem length_of_mem_batches {limit count : Nat} {queue batch : List StereoFrame}
    (hbatch : batch ∈ batches limit count queue) : 0 < batch.length ∧ batch.length ≤ limit := by
  induction count generalizing queue with
  | zero => cases hbatch
  | succ count ih =>
      simp only [batches] at hbatch
      split at hbatch
      · cases hbatch
      · next hsome =>
          rcases List.mem_cons.mp hbatch with rfl | hlater
          · exact ⟨List.length_pos_iff.mpr hsome, List.length_take_le _ _⟩
          · exact ih hlater

@[simp] theorem batches_nil (limit count : Nat) : batches limit count [] = [] := by
  cases count with
  | zero => rfl
  | succ count => simp [batches]

theorem batches_succ {limit : Nat} (hlimit : 0 < limit) (count : Nat) {queue : List StereoFrame}
    (hqueue : queue ≠ []) :
    batches limit (count + 1) queue =
      queue.take limit :: batches limit count (queue.drop limit) := by
  have htake : queue.take limit ≠ [] := by
    simp [hqueue, hlimit.ne']
  rw [batches, if_neg htake]

theorem flatten_batches {limit : Nat} (hlimit : 0 < limit) (count : Nat)
    (queue : List StereoFrame) :
    (batches limit count queue).flatten = queue.take (limit * count) := by
  induction count generalizing queue with
  | zero => simp [batches]
  | succ count ih =>
      by_cases hqueue : queue = []
      · simp [hqueue]
      · rw [batches_succ hlimit count hqueue, List.flatten_cons, ih, ← List.take_add,
          Nat.mul_succ, Nat.add_comm limit]

/-- One batch off the queue is one less in the length of the queue divided by `limit`. -/
theorem length_batches {limit : Nat} (hlimit : 0 < limit) (count : Nat)
    (queue : List StereoFrame) :
    (batches limit count queue).length = min count ((queue.length + limit - 1) / limit) := by
  induction count generalizing queue with
  | zero => simp [batches]
  | succ count ih =>
      by_cases hqueue : queue = []
      · have hnone : (0 + limit - 1) / limit = 0 := Nat.div_eq_of_lt (by omega)
        simp only [hqueue, batches_nil, List.length_nil, hnone, Nat.min_zero]
      · have hpositive : 0 < queue.length := List.length_pos_iff.mpr hqueue
        have hall : (queue.length + limit - 1) / limit = (queue.length - 1) / limit + 1 := by
          rw [← Nat.add_div_right _ hlimit, Nat.sub_add_comm hpositive]
        have hrest : (queue.length - limit + limit - 1) / limit = (queue.length - 1) / limit := by
          rcases Nat.lt_or_ge queue.length limit with hshort | hlong
          · rw [Nat.div_eq_of_lt (by omega), Nat.div_eq_of_lt (by omega)]
          · rw [Nat.sub_add_cancel hlong]
        rw [batches_succ hlimit count hqueue, List.length_cons, ih, List.length_drop, hrest, hall,
          Nat.succ_min_succ]

/-- A batch behind which there is another one has its full share. -/
theorem length_of_mem_dropLast_batches {limit : Nat} (hlimit : 0 < limit) {count : Nat}
    {queue batch : List StereoFrame} (hbatch : batch ∈ (batches limit count queue).dropLast) :
    batch.length = limit := by
  induction count generalizing queue with
  | zero => cases hbatch
  | succ count ih =>
      by_cases hqueue : queue = []
      · rw [hqueue, batches_nil] at hbatch
        cases hbatch
      · rw [batches_succ hlimit count hqueue] at hbatch
        by_cases hlast : batches limit count (queue.drop limit) = []
        · rw [hlast] at hbatch
          cases hbatch
        · rw [List.dropLast_cons_of_ne_nil hlast] at hbatch
          rcases List.mem_cons.mp hbatch with rfl | hlater
          · have hmore : queue.drop limit ≠ [] := by
              intro hnone
              rw [hnone, batches_nil] at hlast
              exact hlast rfl
            have hlength : limit < queue.length := by
              rw [ne_eq, List.drop_eq_nil_iff] at hmore
              omega
            rw [List.length_take, Nat.min_eq_left hlength.le]
          · exact ih hlater

theorem cutsInto_batches {limit : Nat} (hlimit : 0 < limit) (count : Nat)
    (queue : List StereoFrame) : CutsInto limit count queue (batches limit count queue) := by
  constructor
  case frames => exact flatten_batches hlimit count queue
  case length => exact length_batches hlimit count queue
  case full => exact fun batch hbatch => length_of_mem_dropLast_batches hlimit hbatch
  case bounds => exact fun batch hbatch => length_of_mem_batches hbatch

/-! ## The calls that play batches -/

/-- The calls that let a host hear batches of sound.  A callback for batches has one call for each,
whether or not there is one for single frames; one for single frames has a call for each frame. -/
inductive Registry.Delivers (registry : Registry κ) (cut : List (List StereoFrame)) :
    List (Call κ) → Prop where
  | inBatches {who : κ} (hbatch : registry.batch = some who) :
      Delivers registry cut
        (cut.map fun batch => .batch who (StereoFrame.toSamples batch) batch.length)
  | singly {who : κ} (hbatch : registry.batch = none) (hsingle : registry.single = some who) :
      Delivers registry cut (cut.flatten.map fun frame => .single who frame.1 frame.2)

namespace Registry

theorem playSingly_toSamples (who : κ) (frames : List StereoFrame) :
    playSingly who (StereoFrame.toSamples frames) =
      frames.map fun frame => .single who frame.1 frame.2 := by
  induction frames with
  | nil => rfl
  | cons frame rest ih => rw [StereoFrame.toSamples, playSingly, ih, List.map_cons]

theorem delivers_playAll {registry : Registry κ} (haudio : registry.hasAudio = true)
    (cut : List (List StereoFrame)) : registry.Delivers cut (registry.playAll cut) := by
  cases hbatch : registry.batch with
  | some who =>
      have hplayed : registry.playAll cut =
          cut.map fun batch => .batch who (StereoFrame.toSamples batch) batch.length := by
        simp [playAll, play, hbatch, channelCount, List.map_eq_flatMap]
      rw [hplayed]
      exact .inBatches hbatch
  | none =>
      obtain ⟨who, hsingle⟩ : ∃ who, registry.single = some who := by
        rw [hasAudio, hbatch] at haudio
        exact Option.isSome_iff_exists.mp haudio
      have hplayed : registry.playAll cut =
          cut.flatten.map fun frame => .single who frame.1 frame.2 := by
        simp only [playAll, play, hbatch, hsingle, playSingly_toSamples, List.map_flatten,
          List.flatMap_def]
      rw [hplayed]
      exact .singly hbatch hsingle

end Registry

/-! ## Other callbacks for sound -/

/-- The session with these callbacks for sound, and with its other ones. -/
def Session.playingTo (session : Session κ) (single batch : Option κ) : Session κ :=
  { session with registry := { session.registry with single, batch } }

def Progress.playingTo (progress : Progress κ) (single batch : Option κ) : Progress κ :=
  { progress with session := progress.session.playingTo single batch }

def Stage.playingTo (stage : Stage κ) (single batch : Option κ) : Stage κ :=
  match stage with
  | .goes progress => .goes (progress.playingTo single batch)
  | .ends progress => .ends (progress.playingTo single batch)
  | .aborts progress => .aborts (progress.playingTo single batch)

/-- A stage that does not look at the callbacks for sound may follow another one. -/
theorem Stage.andThen_playingTo {next : Progress κ → Stage κ} {single batch : Option κ}
    (hnext : ∀ progress, next (progress.playingTo single batch) =
      (next progress).playingTo single batch) (stage : Stage κ) :
    (stage.playingTo single batch).andThen next =
      (stage.andThen next).playingTo single batch := by
  cases stage with
  | goes progress => exact hnext progress
  | ends progress => rfl
  | aborts progress => rfl

namespace Progress

variable (host : Host κ) (progress : Progress κ) (single batch : Option κ)

@[simp] theorem calls_playingTo : (progress.playingTo single batch).calls = progress.calls := rfl

@[simp] theorem feed_playingTo :
    (progress.playingTo single batch).session.feed = progress.session.feed := rfl

theorem call_playingTo (call : Call κ) :
    (progress.playingTo single batch).call host call =
      (progress.call host call).playingTo single batch := by
  cases hback : (progress.session.feed.performAll (host.does progress.calls call)).complete &&
      host.comesBack progress.calls call with
  | true =>
      simp only [Progress.call, calls_playingTo, feed_playingTo, hback, if_true]
      rfl
  | false =>
      simp only [Progress.call, calls_playingTo, feed_playingTo, hback, Bool.false_eq_true,
        if_false]
      rfl

theorem callAll_playingTo (calls : List (Call κ)) :
    callAll host calls (progress.playingTo single batch) =
      (callAll host calls progress).playingTo single batch := by
  induction calls generalizing progress with
  | nil => rfl
  | cons call calls ih =>
      simp only [callAll, call_playingTo]
      cases progress.call host call with
      | goes next => exact ih next
      | ends next => rfl
      | aborts next => rfl

theorem deliver_playingTo (sink : κ) :
    (progress.playingTo single batch).deliver host sink =
      (progress.deliver host sink).playingTo single batch :=
  callAll_playingTo host
    { progress with
      session.events := [], report.forwarded := progress.session.events.length } single batch _

theorem forward_playingTo :
    forward host (progress.playingTo single batch) =
      (forward host progress).playingTo single batch := by
  have hsink : (progress.playingTo single batch).session.sink = progress.session.sink := rfl
  have hasks : (progress.playingTo single batch).session.asksGui = progress.session.asksGui := rfl
  simp only [forward, hsink, hasks, calls_playingTo]
  split
  · rfl
  · split
    · next sink _ _ =>
        have hasked (asked : Progress κ) :
            (if host.guiVisible progress.calls = true then
                Stage.goes (asked.playingTo single batch).suppress
              else (asked.playingTo single batch).deliver host sink) =
              (if host.guiVisible progress.calls = true then Stage.goes asked.suppress
                else asked.deliver host sink).playingTo single batch := by
          rw [deliver_playingTo]
          cases host.guiVisible progress.calls <;> rfl
        rw [call_playingTo]
        exact Stage.andThen_playingTo hasked (progress.call host .gui)
    · exact deliver_playingTo host progress single batch _

theorem afterReads_playingTo (who : κ) (asked : List Source) :
    (progress.playingTo single batch).afterReads host who asked =
      (progress.afterReads host who asked).playingTo single batch := by
  induction asked with
  | nil => rfl
  | cons source asked ih =>
      simp only [afterReads, List.foldr_cons] at ih ⊢
      rw [ih, call_playingTo]
      cases Progress.call host _ (.level who source) <;> rfl

theorem reader_playingTo (who : κ) :
    (progress.playingTo single batch).reader host who = progress.reader host who := by
  funext asked source
  simp only [reader, afterReads_playingTo, call_playingTo, calls_playingTo]
  cases (progress.afterReads host who asked).call host (.level who source) <;> rfl

theorem track_playingTo (who : κ) :
    track host who (progress.playingTo single batch) =
      (track host who progress).playingTo single batch := by
  obtain ⟨cleared, hcleared⟩ : ∃ cleared : Progress κ, cleared =
      { progress with session.events := [] } := ⟨_, rfl⟩
  obtain ⟨sample, hsample⟩ : ∃ sample, sample =
      cleared.session.tracker.sample (cleared.reader host who) cleared.session.lastSize := ⟨_, rfl⟩
  have hemptied : cleared.playingTo single batch =
      { progress.playingTo single batch with session.events := [] } := by
    rw [hcleared]
    rfl
  have hsampled : sample = (cleared.playingTo single batch).session.tracker.sample
      ((cleared.playingTo single batch).reader host who)
      (cleared.playingTo single batch).session.lastSize := by
    rw [reader_playingTo]
    exact hsample
  have hsame : (cleared.playingTo single batch).sampled host who sample =
      (cleared.sampled host who sample).playingTo single batch := by
    rw [sampled, afterReads_playingTo]
    rfl
  rw [track_eq host who hcleared hsample, track_eq host who hemptied hsampled, hsame,
    forward_playingTo]
  cases sample.complete <;> rfl

theorem forwardInput_playingTo :
    forwardInput host (progress.playingTo single batch) =
      (forwardInput host progress).playingTo single batch := by
  have hinput : (progress.playingTo single batch).session.registry.input? =
      progress.session.registry.input? := rfl
  simp only [forwardInput, hinput]
  split
  · rfl
  · rw [callAll_playingTo, Stage.andThen_playingTo]
    intro next
    exact track_playingTo host next single batch _

theorem showPicture_playingTo :
    showPicture host (progress.playingTo single batch) =
      (showPicture host progress).playingTo single batch := by
  have hpresent (view : View) : (progress.playingTo single batch).session.registry.present view =
      progress.session.registry.present view := rfl
  obtain ⟨arrival, mailbox, hcollect⟩ :
      ∃ arrival mailbox, progress.session.feed.mailbox.collect = (arrival, mailbox) :=
    ⟨_, _, rfl⟩
  simp only [showPicture, feed_playingTo, hcollect, hpresent]
  split
  · rfl
  · rfl
  · rfl
  · rfl
  · rfl
  · next view =>
      obtain ⟨seen, hseen⟩ : ∃ seen : Progress κ, seen =
          { progress with
            session.feed.mailbox := mailbox
            session.lastSize := some view.layout.size } := ⟨_, rfl⟩
      have hcalled := callAll_playingTo host seen single batch
        (progress.session.registry.present view)
      rw [hseen] at hcalled
      rw [← Stage.andThen_playingTo fun _ => rfl, ← hcalled]
      rfl

end Progress

namespace Session

/-- A host frame up to its sound. -/
def beforeSound (session : Session κ) (host : Host κ) : Stage κ :=
  (session.begun.forwardInput host).andThen (Progress.showPicture host)

/-- With other callbacks for sound a frame comes to its sound just the same. -/
theorem beforeSound_playingTo (session : Session κ) (host : Host κ) (single batch : Option κ) :
    (session.playingTo single batch).beforeSound host =
      (session.beforeSound host).playingTo single batch := by
  have hbegun : (session.playingTo single batch).begun = session.begun.playingTo single batch := rfl
  rw [beforeSound, hbegun, Progress.forwardInput_playingTo, Stage.andThen_playingTo]
  · rfl
  · intro progress
    exact Progress.showPicture_playingTo host progress single batch

end Session

/-! ## The sound of a frame -/

/-- What the next stage begins with, unless the frame is over. -/
def Stage.next? : Stage κ → Option (Progress κ)
  | .goes progress => some progress
  | .ends _ | .aborts _ => none

theorem Stage.next?_eq_some_iff {stage : Stage κ} {progress : Progress κ} :
    stage.next? = some progress ↔ stage = .goes progress := by
  cases stage with
  | goes other => rw [next?, Option.some.injEq, goes.injEq]
  | ends other => exact ⟨nofun, nofun⟩
  | aborts other => exact ⟨nofun, nofun⟩

namespace Feed

/-- Whether an operation queues sound. -/
def Op.isPush : Op → Bool
  | .push .. | .pushBlock .. => true
  | _ => false

/-- Whether no operation of a log queues sound. -/
def Log.QueuesNothing (log : Log) : Prop := ∀ entry ∈ log, entry.1.isPush = false

instance (log : Log) : Decidable log.QueuesNothing :=
  inferInstanceAs (Decidable (∀ entry ∈ log, entry.1.isPush = false))

variable {feed last : Feed} {log : Log}

theorem Leads.eq_of_nil (h : feed.Leads [] last) : last = feed := by
  cases h
  rfl

/-- A feed that nothing is queued on keeps its ring. -/
theorem exists_of_queuesNothing (h : feed.Leads log last) (hlog : log.QueuesNothing) :
    ∃ mailbox rate, last = { feed with mailbox, rate } := by
  apply h.keeps (P := fun other => ∃ mailbox rate, other = { feed with mailbox, rate })
  · rintro other entry hentry ⟨mailbox, rate, rfl⟩
    have hquiet := hlog entry hentry
    cases hop : entry.1 with
    | submit layout pixels memory => exact ⟨_, _, rfl⟩
    | paint layout painter memory => exact ⟨_, _, rfl⟩
    | signal => exact ⟨_, _, rfl⟩
    | setRate rate =>
        simp only [perform, setRate]
        split <;> exact ⟨_, _, rfl⟩
    | status => exact ⟨_, _, rfl⟩
    | _ =>
        rw [hop] at hquiet
        cases hquiet
  · exact ⟨feed.mailbox, feed.rate, rfl⟩

end Feed

namespace Progress

variable {host : Host κ} {progress : Progress κ}

/-- The log of a frame only grows. -/
theorem kept_fed (fed : Feed.Log) : Kept fun progress : Progress κ => fed <+: progress.fed := by
  constructor
  case makes =>
    intro progress made log other h hmakes
    rw [hmakes.fed]
    exact h.trans (List.prefix_append _ _)
  case looks => exact id
  case takes => exact fun h _ => h
  case spares => exact fun _ _ _ h => h

/-- What is left of a frame whose sound is played in batches, where nothing is queued meanwhile.
Where nothing at all is done on the feed, nothing but its ring is changed. -/
structure PlaysCut (progress : Progress κ) (cut : List (List StereoFrame)) (rest : Ring)
    (other : Progress κ) : Prop where
  calls : other.calls = (progress.session.registry.playAll cut).reverse ++ progress.calls
  feed : ∃ mailbox rate, other.session.feed =
    { progress.session.feed with ring := some rest, mailbox, rate }
  still : other.fed = progress.fed →
    other.session.feed = { progress.session.feed with ring := some rest }
  session : other.session =
    { progress.session with feed := other.session.feed, scratch := other.session.scratch }
  report : other.report =
    { progress.report with
      audioFrames := progress.report.audioFrames + cut.flatten.length
      audioBatches := progress.report.audioBatches + cut.length }

/-- One batch is played, and nothing is queued meanwhile. -/
theorem playsCut_counting {ring : Ring} {batch : List StereoFrame} {log : Feed.Log}
    {played : Progress κ}
    (hmakes : (progress.taking ring batch).Makes
      (progress.session.registry.play (StereoFrame.toSamples batch)) log played)
    (hlog : log.QueuesNothing) :
    progress.PlaysCut [batch] (ring.without batch.length) (played.counting batch) := by
  constructor
  case calls =>
    rw [counting, hmakes.calls, taking]
    simp [Registry.playAll]
  case feed =>
    obtain ⟨mailbox, rate, hfeed⟩ := Feed.exists_of_queuesNothing hmakes.leads hlog
    exact ⟨mailbox, rate, hfeed⟩
  case still =>
    intro hstill
    rw [counting, hmakes.fed, taking, List.append_right_eq_self] at hstill
    rw [hstill] at hmakes
    rw [counting, hmakes.leads.eq_of_nil, taking]
  case session => rw [counting, hmakes.session, taking]
  case report =>
    rw [counting, hmakes.report, taking]
    simp

/-- Batches are played behind others.  The log grows with either, so if the feed is left alone in
the end it was left alone by both. -/
theorem PlaysCut.append {middle other : Progress κ} {cut more : List (List StereoFrame)}
    {between rest : Ring} (h : progress.PlaysCut cut between middle)
    (hmore : middle.PlaysCut more rest other) (hfed : progress.fed <+: middle.fed)
    (hmoreFed : middle.fed <+: other.fed) : progress.PlaysCut (cut ++ more) rest other := by
  constructor
  case calls =>
    rw [hmore.calls, h.calls, h.session]
    simp [Registry.playAll]
  case feed =>
    obtain ⟨middleBox, middleRate, hmiddle⟩ := h.feed
    obtain ⟨mailbox, rate, hfeed⟩ := hmore.feed
    exact ⟨mailbox, rate, by rw [hfeed, hmiddle]⟩
  case still =>
    intro hstill
    rw [hstill] at hmoreFed
    have hmiddle := hfed.eq_of_length_le hmoreFed.length_le
    rw [hmore.still (hstill.trans hmiddle), h.still hmiddle.symm]
  case session => rw [hmore.session, h.session]
  case report =>
    rw [hmore.report, h.report]
    simp [Nat.add_assoc]

/-- The batches are the queue, cut, as long as nothing is queued while they are played. -/
theorem playBatches_cut (host : Host κ) (count : Nat) {ring : Ring}
    (hring : progress.session.feed.ring = some ring) (hwell : ring.WellFormed)
    (hquiet : ∀ log, (playBatches host count progress).progress.fed = progress.fed ++ log →
      log.QueuesNothing) :
    (∃ last, playBatches host count progress = .aborts last ∧ Lost host last) ∨
      ∃ rest other,
        (batches progress.session.settings.audioBatch count ring.toFrames).flatten ++
            rest.toFrames = ring.toFrames ∧
        rest.capacity = ring.capacity ∧
        progress.PlaysCut (batches progress.session.settings.audioBatch count ring.toFrames) rest
          other ∧
        playBatches host count progress = .goes other := by
  induction count generalizing progress ring with
  | zero =>
      refine .inr ⟨ring, progress, rfl, rfl, ⟨rfl, ?_, fun _ => ?_, rfl, rfl⟩, rfl⟩
      · exact ⟨progress.session.feed.mailbox, progress.session.feed.rate, by rw [← hring]⟩
      · rw [← hring]
  | succ count ih =>
      obtain ⟨limit, hlimit⟩ : ∃ limit, limit = progress.session.settings.audioBatch := ⟨_, rfl⟩
      obtain ⟨batch, hbatch⟩ : ∃ batch, batch = ring.toFrames.take limit := ⟨_, rfl⟩
      rw [playBatches_succ host count hring hwell, ← hlimit, ← hbatch] at hquiet ⊢
      rw [batches, ← hbatch]
      by_cases hnone : batch = []
      · rw [if_pos hnone, if_pos hnone]
        refine .inr ⟨ring, { progress with session.scratch := [] }, rfl, rfl,
          ⟨rfl, ?_, fun _ => ?_, rfl, rfl⟩, rfl⟩
        · exact ⟨progress.session.feed.mailbox, progress.session.feed.rate, by rw [← hring]⟩
        · rw [← hring]
      · rw [if_neg hnone] at hquiet ⊢
        rw [if_neg hnone]
        have hless : batch.length ≤ ring.occupied := by
          rw [hbatch, List.length_take, Ring.length_toFrames]
          exact Nat.min_le_right _ _
        have hrest : (ring.without batch.length).toFrames = ring.toFrames.drop limit := by
          rw [hbatch, List.length_take, Ring.length_toFrames]
          exact Ring.toFrames_without_min ring limit
        obtain ⟨made, log, played, -, hmakes, -, hcalled⟩ :=
          callAll_cases host (progress.session.registry.play (StereoFrame.toSamples batch))
            (progress.taking ring batch)
        rcases hcalled with ⟨rfl, hgoes⟩ | ⟨haborts, hlost⟩
        case inr =>
          rw [haborts]
          exact .inl ⟨played, rfl, hlost⟩
        rw [hgoes, Stage.andThen] at hquiet ⊢
        obtain ⟨next, hnext⟩ : ∃ next, next = played.counting batch := ⟨_, rfl⟩
        rw [← hnext] at hquiet ⊢
        have hfed : next.fed = progress.fed ++ log := by
          rw [hnext, counting, hmakes.fed, taking]
        -- The log of the frame goes on behind that of this batch, and neither queues anything.
        obtain ⟨more, hmore⟩ := (kept_fed next.fed).playBatches host count (List.prefix_refl _)
        have hall := hquiet (log ++ more) (by rw [← hmore, hfed, List.append_assoc])
        have hlog : log.QueuesNothing :=
          fun entry hentry => hall entry (List.mem_append_left _ hentry)
        have hlater : ∀ rest, (playBatches host count next).progress.fed = next.fed ++ rest →
            rest.QueuesNothing := by
          intro rest heq
          rw [← hmore, List.append_cancel_left_eq] at heq
          exact fun entry hentry => hall entry (List.mem_append_right _ (heq ▸ hentry))
        have hplayed : progress.PlaysCut [batch] (ring.without batch.length) next := by
          rw [hnext]
          exact playsCut_counting hmakes hlog
        have hsettings : next.session.settings = progress.session.settings := by
          rw [hplayed.session]
        obtain ⟨mailbox, rate, hfeed⟩ := hplayed.feed
        rcases ih (by rw [hfeed]) (Ring.wellFormed_without hwell hless) hlater with
          haborts | ⟨rest, other, hqueue, hcapacity, hplays, hended⟩
        · exact .inl haborts
        · rw [hsettings, ← hlimit, hrest] at hqueue hplays
          rw [hended] at hmore
          refine .inr ⟨rest, other, ?_, hcapacity, ?_, hended⟩
          · rw [List.flatten_cons, List.append_assoc, hqueue, hbatch, List.take_append_drop]
          · exact hplayed.append hplays ⟨log, hfed.symm⟩ ⟨more, hmore⟩

/-- The third stage, if it is not interrupted and nothing is queued meanwhile. -/
theorem playAudio_of_back {ring : Ring} (hring : progress.session.feed.ring = some ring)
    (hwell : ring.WellFormed) (hlimit : 0 < progress.session.settings.audioBatch)
    (haudio : progress.session.registry.hasAudio = true)
    (hquiet : ∀ log, (playAudio host progress).progress.fed = progress.fed ++ log →
      log.QueuesNothing)
    (hback : ¬ Lost host (playAudio host progress).progress) :
    let limit := progress.session.settings.audioBatch
    let count := progress.session.settings.batchesPerFrame
    ∃ cut rest other, CutsInto limit count ring.toFrames cut ∧
      rest.toFrames = ring.toFrames.drop (limit * count) ∧ rest.capacity = ring.capacity ∧
      progress.PlaysCut cut rest other ∧ playAudio host progress = .goes other := by
  intro limit count
  rw [playAudio, if_pos haudio] at hquiet hback ⊢
  rcases playBatches_cut host progress.session.settings.batchesPerFrame hring hwell hquiet with
    ⟨last, haborts, hlost⟩ | ⟨rest, other, hqueue, hcapacity, hplays, hgoes⟩
  · rw [haborts] at hback
    exact (hback hlost).elim
  · have hcut := cutsInto_batches hlimit count ring.toFrames
    refine ⟨_, rest, other, hcut, ?_, hcapacity, hplays, hgoes⟩
    -- What is played and what is left are the same queue, parted at the same place.
    have hparted : ring.toFrames.take (limit * count) ++ rest.toFrames =
        ring.toFrames.take (limit * count) ++ ring.toFrames.drop (limit * count) := by
      rw [List.take_append_drop, ← hcut.frames]
      exact hqueue
    exact List.append_cancel_left hparted

end Progress

/-- Nothing is queued in the frame from `due` on. -/
def FrameResult.QuietFrom (result : FrameResult κ) (due : Progress κ) : Prop :=
  Feed.Log.QueuesNothing (result.fed.drop due.fed.length)

namespace Session

/-- What a host frame makes of the sound that is queued in `ring`, from `due` on where it comes to
play it. -/
structure Drains (session : Session κ) (host : Host κ) (due : Progress κ) (ring : Ring) :
    Prop where
  /-- Up to then the host hears nothing. -/
  before : ∀ call ∈ due.calls, call.isAudio = false
  /-- With no callback for sound, everything is left as it is. -/
  unheard : session.registry.hasAudio = false → session.frame host =
    { outcome := .done { due.report with audioFrames := 0, audioBatches := 0 }
      calls := due.calls.reverse
      fed := due.fed
      session := due.session }
  /-- With one, the first of the queued frames are played, and nothing but the ring changes and
  what whoever hears them does to the rest of the feed. -/
  played : session.registry.hasAudio = true →
    let limit := session.settings.audioBatch
    let count := session.settings.batchesPerFrame
    let frames := min ring.toFrames.length (limit * count)
    ∃ cut played rest log feed scratch, CutsInto limit count ring.toFrames cut ∧
      session.registry.Delivers cut played ∧ heard played = ring.toFrames.take frames ∧
      rest.toFrames = ring.toFrames.drop frames ∧ rest.capacity = ring.capacity ∧
      session.frame host =
        { outcome := .done { due.report with audioFrames := frames, audioBatches := cut.length }
          calls := due.calls.reverse ++ played
          fed := due.fed ++ log
          session := { due.session with feed, scratch } } ∧
      (∃ mailbox rate, feed = { due.session.feed with ring := some rest, mailbox, rate }) ∧
      (log = [] → feed = { due.session.feed with ring := some rest })

/-- Two frames of which the same is heard, after which the same is queued, and which report the
same. -/
structure SameSound (frame other : FrameResult κ) : Prop where
  heard : Framestep.heard other.calls = Framestep.heard frame.calls
  queue : other.session.feed.ring.map Ring.toFrames = frame.session.feed.ring.map Ring.toFrames
  outcome : other.outcome = frame.outcome

variable {session : Session κ} {host : Host κ} {due : Progress κ} {ring : Ring} {floor : Nat}

/-- A frame comes to its sound with the session still running, and has counted none before. -/
theorem due_of_beforeSound (h : session.feed.Running floor)
    (hdue : session.beforeSound host = .goes due) :
    due.session.feed.Running floor ∧ session.SameWiring due.session ∧
      (∀ call ∈ due.calls, call.isAudio = false) ∧
      due.report = { due.report with audioFrames := 0, audioBatches := 0 } := by
  obtain ⟨inputs, log, other, -, hfirst, hgoes | ⟨haborts, -⟩⟩ :=
    Progress.forwardInput_cases host session.begun
  · have hrunning : other.session.feed.Running floor := h.leads hfirst.leads
    obtain ⟨shown, seen, hseen, hseenRunning, hseenWiring, hseenReport, ⟨hshown, -⟩ | ⟨hcut, -⟩⟩ :=
      Progress.showPicture_word host hrunning
    · rw [beforeSound, hgoes, Stage.andThen, hshown, Stage.goes.injEq] at hdue
      rw [← hdue]
      refine ⟨hseenRunning, hfirst.wiring.trans hseenWiring, ?_, ?_⟩
      · intro call hcall
        rw [hseen, hfirst.calls] at hcall
        simp only [Session.begun, List.append_nil, List.mem_append, List.mem_reverse] at hcall
        rcases hcall with hpicture | hinput
        · obtain ⟨picture, -, rfl⟩ := List.mem_map.mp hpicture
          rfl
        · exact inputs.forall_mem_calls (P := fun call => call.isAudio = false)
            (fun _ => rfl) (fun _ _ => rfl) rfl (fun _ _ => rfl) call hinput
      · rw [hseenReport, hfirst.report]
        rfl
    · rw [beforeSound, hgoes, Stage.andThen, hcut] at hdue
      cases hdue
  · rw [beforeSound, haborts] at hdue
    cases hdue

/-- A frame that is not interrupted, and whose sound nobody adds to, plays what it has to. -/
theorem drains_of_running (h : session.feed.Running floor)
    (hlimit : 0 < session.settings.audioBatch) (hdue : session.beforeSound host = .goes due)
    (hring : due.session.feed.ring = some ring) (hwell : ring.WellFormed)
    (hquiet : (session.frame host).QuietFrom due)
    (hback : host.Uninterrupted (session.frame host)) :
    session.Drains host due ring := by
  obtain ⟨-, hwiring, hbefore, hreport⟩ := due_of_beforeSound h hdue
  have hframe : session.frame host = (due.playAudio host).result := by
    rw [frame, if_pos (session.feed.isReady_iff.mpr h.phase), ← beforeSound, hdue]
    rfl
  have hregistry : due.session.registry = session.registry := hwiring.registry
  have hsettings : due.session.settings = session.settings := hwiring.settings
  constructor
  case before => exact hbefore
  case unheard =>
    intro hnone
    have hquiet : ¬ due.session.registry.hasAudio = true := by
      rw [hregistry, hnone]
      exact Bool.false_ne_true
    rw [hframe, Progress.playAudio, if_neg hquiet, ← hreport]
    rfl
  case played =>
    intro haudio limit count frames
    have hlog : ∀ log, (due.playAudio host).progress.fed = due.fed ++ log →
        log.QueuesNothing := by
      intro log hfed
      have hwhole : (session.frame host).fed = due.fed ++ log := by
        rw [hframe]
        exact hfed
      rwa [FrameResult.QuietFrom, hwhole, List.drop_left] at hquiet
    have hkept : ¬ Progress.Lost host (due.playAudio host).progress := by
      rintro (hcut | haborted)
      · have hcalls := hback.calls
        rw [hframe] at hcalls
        simp only [Stage.result, List.reverse_reverse] at hcalls
        rw [hcalls] at hcut
        cases hcut
      · have hfed := hback.fed
        rw [hframe] at hfed
        exact haborted hfed
    obtain ⟨cut, rest, other, hcut, hrest, hcapacity, hplays, hgoes⟩ :=
      Progress.playAudio_of_back hring hwell (hsettings ▸ hlimit)
        (by rw [hregistry]; exact haudio) hlog hkept
    obtain ⟨log, hfed⟩ := (Progress.kept_fed due.fed).playAudio host (List.prefix_refl _)
    rw [hgoes, Stage.progress] at hfed
    rw [hsettings] at hcut hrest
    have htaken : cut.flatten = ring.toFrames.take frames := by
      rw [hcut.frames, List.take_eq_take_min, Nat.min_comm]
    have hcounted : cut.flatten.length = frames := by
      rw [hcut.frames, List.length_take, Nat.min_comm]
    refine ⟨cut, session.registry.playAll cut, rest, log, other.session.feed,
      other.session.scratch, hcut, Registry.delivers_playAll haudio cut, ?_, ?_, hcapacity, ?_,
      hplays.feed, ?_⟩
    · rw [Registry.heard_playAll haudio, htaken]
    · rw [hrest, List.drop_eq_drop_min, Nat.min_comm]
    · rw [hframe, hgoes]
      simp only [Stage.result, Stage.progress, ← hplays.session, hfed]
      rw [hplays.calls, hplays.report, hregistry, hcounted, hreport]
      simp
    · rintro rfl
      apply hplays.still
      rw [← hfed, List.append_nil]

/-- Which callbacks the sound goes to makes no difference to what is heard. -/
theorem sameSound_of_drains {single batch : Option κ} (h : session.Drains host due ring)
    (h' : (session.playingTo single batch).Drains host (due.playingTo single batch) ring)
    (haudio : session.registry.hasAudio = true)
    (haudio' : (session.playingTo single batch).registry.hasAudio = true) :
    SameSound (session.frame host) ((session.playingTo single batch).frame host) := by
  obtain ⟨cut, played, rest, log, feed, scratch, hcut, -, hheard, hrest, -, hframe, hfeed, -⟩ :=
    h.played haudio
  obtain ⟨cut', played', rest', log', feed', scratch', hcut', -, hheard', hrest', -, hframe',
    hfeed', -⟩ := h'.played haudio'
  have hsilent : heard due.calls.reverse = [] := by
    apply heard_eq_nil_of_not_audio
    intro call hcall
    exact h.before call (List.mem_reverse.mp hcall)
  rw [hframe, hframe']
  constructor
  case heard =>
    rw [heard_append, heard_append, hheard, hheard', Progress.calls_playingTo, hsilent]
    rfl
  case queue =>
    obtain ⟨mailbox, rate, rfl⟩ := hfeed
    obtain ⟨mailbox', rate', rfl⟩ := hfeed'
    simp only [Option.map_some, hrest, hrest']
    rfl
  case outcome =>
    have hcount : cut'.length = cut.length := hcut'.length.trans hcut.length.symm
    simp only [hcount]
    rfl

/-- In every running session that can be reached, a host frame that comes to its sound, is not
interrupted and has nothing queued while it plays, plays as much of it as it may, and as much to one
kind of callback as to the other. -/
theorem frame_drains {settings : Settings} {asksGui : Bool}
    (hcreate : create settings asksGui = .done session) (ops : List (Op κ))
    (hready : (session.performAll ops).2.feed.phase = .ready)
    (hdue : (session.performAll ops).2.beforeSound host = .goes due)
    (hquiet : ((session.performAll ops).2.frame host).QuietFrom due)
    (hback : host.Uninterrupted ((session.performAll ops).2.frame host)) :
    let reached := (session.performAll ops).2
    ∃ ring, due.session.feed.ring = some ring ∧ reached.Drains host due ring ∧
      ∀ single batch, let other := reached.playingTo single batch
        reached.registry.hasAudio = true → other.registry.hasAudio = true →
          (other.frame host).QuietFrom due → host.Uninterrupted (other.frame host) →
            SameSound (reached.frame host) (other.frame host) := by
  intro reached
  have hreached : reached.InOrder := inOrder_of_create hcreate ops
  obtain ⟨-, -, hlimit, -, -⟩ := reached.settings.fault?_eq_none_iff.mp hreached.valid
  rcases hreached.feed with hrunning | hstopped
  · obtain ⟨hdueRunning, -⟩ := due_of_beforeSound hrunning hdue
    obtain ⟨ring, hring, hwell, -⟩ := hdueRunning.ring
    have hdrains := drains_of_running hrunning hlimit hdue hring hwell hquiet hback
    refine ⟨ring, hring, hdrains, ?_⟩
    intro single batch other haudio haudio' hquiet' hback'
    have hdue' : other.beforeSound host = .goes (due.playingTo single batch) := by
      rw [beforeSound_playingTo, hdue]
      rfl
    have hdrains' : other.Drains host (due.playingTo single batch) ring :=
      drains_of_running hrunning hlimit hdue' hring hwell hquiet' hback'
    exact sameSound_of_drains hdrains hdrains' haudio haudio'
  · exact (hstopped.phase hready).elim

/-- The law at work on a full ring of five frames whose first one lies in the third place, and on a
host that sets the sample rate while it plays.  Two batches of two frames are played, the second of
which crosses the end of the arena, and a frame stays.  Both callbacks are registered; with the one
for single frames alone the same is heard. -/
theorem frame_drains_across_end :
    let settings : Settings :=
      { audioCapacity := 5, audioCeiling := 5, audioBatch := 2, batchesPerFrame := 2 }
    let session : Session Bool := unstarted settings false
    let host : Host Bool :=
      { returns := fun _ _ => true, level := fun _ _ _ => 0, guiVisible := fun _ => false
        feeds := fun _ call => if call.isAudio then [.setRate 22050, .status] else [] }
    let ops : List (Op Bool) :=
      [.start {}, .register .batch true, .register .single false,
        .produce (.push [1, -1, 2, -2, 3, -3] 3),
        .produce (.push [4, -4, 5, -5, 6, -6, 7, -7] 4)]
    create settings false = .done session ∧
      ∃ reached due ring, reached = (session.performAll ops).2 ∧ reached.feed.phase = .ready ∧
        reached.beforeSound host = .goes due ∧ (reached.frame host).QuietFrom due ∧
        host.Uninterrupted (reached.frame host) ∧
        due.session.feed.ring = some ring ∧ reached.Drains host due ring ∧ ring.read = 2 ∧
        ring.toFrames = [(3, -3), (4, -4), (5, -5), (6, -6), (7, -7)] ∧
        (reached.frame host).calls =
          [.batch true [3, -3, 4, -4] 2, .batch true [5, -5, 6, -6] 2] ∧
        (reached.frame host).outcome = .done { audioFrames := 4, audioBatches := 2 } ∧
        ∃ other, other = reached.playingTo (some false) none ∧
          (other.frame host).QuietFrom due ∧ host.Uninterrupted (other.frame host) ∧
          (other.frame host).calls =
            [.single false 3 (-3), .single false 4 (-4), .single false 5 (-5),
              .single false 6 (-6)] ∧
          SameSound (reached.frame host) (other.frame host) := by
  intro settings session host ops
  have hcreate : create settings false = .done session := rfl
  have hready : (session.performAll ops).2.feed.phase = .ready := by decide +kernel
  obtain ⟨other, hother⟩ : ∃ other, other =
      (session.performAll ops).2.playingTo (some false) none := ⟨_, rfl⟩
  have hback : host.Uninterrupted ((session.performAll ops).2.frame host) :=
    ⟨by decide +kernel, by decide +kernel⟩
  have hback' : host.Uninterrupted (other.frame host) := by
    rw [hother]
    exact ⟨by decide +kernel, by decide +kernel⟩
  obtain ⟨due, hnext⟩ : ∃ due, ((session.performAll ops).2.beforeSound host).next? = some due := by
    rw [← Option.isSome_iff_exists]
    decide +kernel
  have hdue := Stage.next?_eq_some_iff.mp hnext
  have hquiet : ((session.performAll ops).2.frame host).QuietFrom due := by
    have hall : Feed.Log.QueuesNothing ((session.performAll ops).2.frame host).fed := by
      decide +kernel
    exact fun entry hentry => hall entry (List.mem_of_mem_drop hentry)
  have hquiet' : (other.frame host).QuietFrom due := by
    have hall : Feed.Log.QueuesNothing (other.frame host).fed := by
      rw [hother]
      decide +kernel
    exact fun entry hentry => hall entry (List.mem_of_mem_drop hentry)
  have hqueue : ((session.performAll ops).2.beforeSound host).progress.session.feed.ring.map
      (fun ring => (ring.read, ring.toFrames)) =
        some (2, [(3, -3), (4, -4), (5, -5), (6, -6), (7, -7)]) := by decide +kernel
  have hcalls : ((session.performAll ops).2.frame host).calls =
      [.batch true [3, -3, 4, -4] 2, .batch true [5, -5, 6, -6] 2] := by decide +kernel
  have hreport : ((session.performAll ops).2.frame host).outcome =
      .done { audioFrames := 4, audioBatches := 2 } := by decide +kernel
  have hcalls' : (other.frame host).calls =
      [.single false 3 (-3), .single false 4 (-4), .single false 5 (-5),
        .single false 6 (-6)] := by
    rw [hother]
    decide +kernel
  obtain ⟨ring, hring, hdrains, hsame⟩ := frame_drains hcreate ops hready hdue hquiet hback
  rw [hdue, Stage.progress, hring, Option.map_some, Option.some.injEq, Prod.mk.injEq] at hqueue
  have hsound : SameSound ((session.performAll ops).2.frame host) (other.frame host) := by
    rw [hother] at hquiet' hback' ⊢
    exact hsame (some false) none (by decide +kernel) (by decide +kernel) hquiet' hback'
  exact ⟨hcreate, _, due, ring, rfl, hready, hdue, hquiet, hback, hring, hdrains, hqueue.1,
    hqueue.2, hcalls, hreport, other, hother, hquiet', hback', hcalls', hsound⟩

end Session

end Framestep
