import Framestep.Proofs.Session.Input
import Framestep.Proofs.Video.Storage

/-!
# What the stages of a host frame do

The second and the third stage are described here for any host, also for one that acts on
the feed while it is called: `Progress.showPicture_cases` and `Progress.playBatches_cases`.
Between them they make two kinds of steps besides their calls, a look into the mailbox and a
batch taken from the ring.  `Progress.Kept` names what holds on through such steps, and
whatever does is kept by both stages.

No stage changes the wiring of the session, so no operation on a session changes its makeup:
`Session.sameMakeup_performAll`.
-/

namespace Framestep

variable {κ : Type}

/-! ## Calls that play sound -/

namespace Registry

theorem heard_playSingly (who : κ) (samples : List Int16) :
    heard (playSingly who samples) = StereoFrame.ofSamples samples := by
  fun_induction StereoFrame.ofSamples samples with
  | case1 => rfl
  | case2 => rfl
  | case3 left right rest ih =>
      rw [playSingly, ← ih]
      rfl

theorem isAudio_of_mem_playSingly {who : κ} {samples : List Int16} {call : Call κ}
    (hcall : call ∈ playSingly who samples) : call.isAudio = true := by
  fun_induction playSingly who samples with
  | case1 left right rest ih =>
      rcases List.mem_cons.mp hcall with rfl | hrest
      · rfl
      · exact ih hrest
  | case2 => cases hcall

theorem isAudio_of_mem_play {registry : Registry κ} {samples : List Int16} {call : Call κ}
    (hcall : call ∈ registry.play samples) : call.isAudio = true := by
  unfold play at hcall
  split at hcall
  · rw [List.mem_singleton.mp hcall]
    rfl
  · exact isAudio_of_mem_playSingly hcall
  · cases hcall

/-- Whichever callback is registered, it hears every frame of a batch. -/
theorem heard_play {registry : Registry κ} (haudio : registry.hasAudio = true)
    (samples : List Int16) : heard (registry.play samples) = StereoFrame.ofSamples samples := by
  unfold play
  split
  · have hall : (StereoFrame.ofSamples samples).take (samples.length / channelCount) =
        StereoFrame.ofSamples samples := by
      apply List.take_of_length_le
      rw [StereoFrame.length_ofSamples]
      exact Nat.le_refl _
    simp [heard, Call.frames, hall]
  · exact heard_playSingly _ _
  · next hbatch hsingle => simp [hasAudio, hbatch, hsingle] at haudio

/-- The calls that play batches one after the other. -/
def playAll (registry : Registry κ) (batches : List (List StereoFrame)) : List (Call κ) :=
  batches.flatMap fun batch => registry.play (StereoFrame.toSamples batch)

/-- Whichever callback is registered, it hears all of the batches. -/
theorem heard_playAll {registry : Registry κ} (haudio : registry.hasAudio = true)
    (batches : List (List StereoFrame)) : heard (registry.playAll batches) = batches.flatten := by
  rw [heard, playAll, List.flatMap_assoc, ← List.flatMap_id]
  apply List.flatMap_congr
  intro batch _
  exact (heard_play haudio _).trans (StereoFrame.ofSamples_toSamples batch)

theorem isAudio_of_mem_playAll {registry : Registry κ} {batches : List (List StereoFrame)}
    {call : Call κ} (hcall : call ∈ registry.playAll batches) : call.isAudio = true := by
  obtain ⟨batch, -, hplayed⟩ := List.mem_flatMap.mp hcall
  exact isAudio_of_mem_play hplayed

theorem isVideo_of_mem_present {registry : Registry κ} {view : View} {call : Call κ}
    (hcall : call ∈ registry.present view) : call.isVideo = true := by
  unfold present at hcall
  split at hcall
  · rw [List.mem_singleton.mp hcall]
    rfl
  · cases hcall

end Registry

namespace Progress

variable {host : Host κ} {progress : Progress κ} {queue : List StereoFrame}

/-! ## The second stage -/

/-- A host frame looks into the mailbox.  It is over where the mailbox is closed, and
goes on where nothing with pixels is found; a picture is shown to whom is registered, and the
mailbox is held meanwhile. -/
theorem showPicture_cases (host : Host κ)
    (hbox : progress.session.feed.mailbox.WellFormed) :
    let box := progress.session.feed.mailbox
    let looked := { progress with session.feed.mailbox := { box with available := false } }
    box.closed = true ∧ showPicture host progress = .ends progress ∨
      (∀ view, box.collect.1 ≠ .done (.presented view)) ∧
        showPicture host progress = .goes looked ∨
      ∃ view made log other, box.collect.1 = .done (.presented view) ∧
        made <+: progress.session.registry.present view ∧ log.LeavesMailbox ∧
        Makes { looked with session.lastSize := some view.layout.size } made log other ∧
        (made = progress.session.registry.present view ∧
            showPicture host progress = .goes { other with report.presented := true } ∨
          showPicture host progress = .aborts other ∧ Lost host other) := by
  intro box looked
  by_cases hclosed : box.closed = true
  · have hcollect : box.collect = (.done .closed, box) := by
      rw [Mailbox.collect_eq hbox, if_pos hclosed]
    exact .inl ⟨hclosed, by simp only [showPicture, box, hcollect]⟩
  · right
    rw [Bool.not_eq_true] at hclosed
    obtain ⟨found, hfound, hcollect⟩ := Mailbox.collect_of_open hbox hclosed
    rw [hcollect]
    cases found with
    | closed => exact (hfound rfl).elim
    | timedOut => exact .inl ⟨by simp, by simp only [showPicture, hcollect, looked, box]⟩
    | empty => exact .inl ⟨by simp, by simp only [showPicture, hcollect, looked, box]⟩
    | presented view =>
        right
        obtain ⟨seen, hseen⟩ : ∃ seen : Progress κ, seen =
            { looked with session.lastSize := some view.layout.size } := ⟨_, rfl⟩
        obtain ⟨made, log, other, hmade, hmakes, hspared, hcalled⟩ :=
          callAll_cases host (progress.session.registry.present view) seen
        have hheld := hspared fun call hcall => Registry.isVideo_of_mem_present hcall
        have hstage : showPicture host progress =
            (callAll host (progress.session.registry.present view) seen).andThen
              fun progress => .goes { progress with report.presented := true } := by
          rw [hseen]
          simp only [showPicture, hcollect, looked, box]
        refine ⟨view, made, log, other, rfl, hmade, hheld, hseen ▸ hmakes, ?_⟩
        rw [hstage]
        rcases hcalled with ⟨hall, hgoes⟩ | ⟨haborts, hlost⟩
        · rw [hgoes]
          exact .inl ⟨hall, rfl⟩
        · rw [haborts]
          exact .inr ⟨rfl, hlost⟩

/-- Whatever is found in the mailbox, looking for it takes nothing from the ring, and the only
calls are those that show a picture. -/
theorem showPicture_onward (host : Host κ) (progress : Progress κ) :
    ∃ (made : List (Call κ)) (log : Feed.Log), (∀ call ∈ made, call.isVideo = true) ∧
      let looked : Feed :=
        { progress.session.feed with mailbox := progress.session.feed.mailbox.collect.2 }
      let shown := (showPicture host progress).progress
      looked.Leads log shown.session.feed ∧ shown.calls = made.reverse ++ progress.calls ∧
        shown.fed = progress.fed ++ log := by
  unfold showPicture
  cases progress.session.feed.mailbox.collect with
  | mk arrival mailbox =>
      cases arrival with
      | aborted => exact ⟨[], [], nofun, .still _, rfl, (List.append_nil _).symm⟩
      | refused fault => exact ⟨[], [], nofun, .still _, rfl, (List.append_nil _).symm⟩
      | done found =>
          cases found with
          | presented view =>
              obtain ⟨seen, hseen⟩ : ∃ seen : Progress κ, seen =
                  { progress with
                    session.feed.mailbox := mailbox
                    session.lastSize := some view.layout.size } := ⟨_, rfl⟩
              obtain ⟨made, log, hmade, hmakes⟩ :=
                callAll_makes host (progress.session.registry.present view) seen
              refine ⟨made, log, fun call hcall =>
                Registry.isVideo_of_mem_present (hmade call hcall), ?_⟩
              have hleads := hmakes.leads
              have hcalls := hmakes.calls
              have hfed := hmakes.fed
              simp only [← hseen]
              rw [hseen] at hleads hcalls hfed
              cases hcalled : callAll host (progress.session.registry.present view) seen with
              | _ shown =>
                  simp only [hcalled, ← hseen] at hleads hcalls hfed
                  exact ⟨hleads, hcalls, hfed⟩
          | _ => exact ⟨[], [], nofun, .still _, rfl, (List.append_nil _).symm⟩

/-! ## The third stage -/

/-- The frame that has taken a batch from the queue of `ring` and is about to play it. -/
def taking (progress : Progress κ) (ring : Ring) (batch : List StereoFrame) : Progress κ :=
  { progress with
    session.feed.ring := some (ring.without batch.length)
    session.scratch := StereoFrame.toSamples batch }

/-- The frame that has played a batch and counts it. -/
def counting (progress : Progress κ) (batch : List StereoFrame) : Progress κ :=
  { progress with
    report.audioFrames := progress.report.audioFrames + batch.length
    report.audioBatches := progress.report.audioBatches + 1 }

/-- The queue that a batch of at most so many frames is taken from goes on behind it. -/
theorem queues_taking {ring : Ring} (hready : progress.session.feed.phase = .ready)
    (hwell : ring.WellFormed) (limit : Nat) :
    (progress.taking ring (ring.toFrames.take limit)).session.feed.Queues
      (ring.toFrames.drop limit) := by
  rw [taking, List.length_take, Ring.length_toFrames]
  exact ⟨hready, _, rfl, Ring.wellFormed_without hwell (Nat.min_le_right _ _),
    Ring.toFrames_without_min ring limit⟩

/-- One batch is taken from the queue and played before the others, if there is one. -/
theorem playBatches_succ (host : Host κ) (count : Nat) {ring : Ring}
    (hring : progress.session.feed.ring = some ring) (hwell : ring.WellFormed) :
    let batch := ring.toFrames.take progress.session.settings.audioBatch
    playBatches host (count + 1) progress =
      if batch = [] then .goes { progress with session.scratch := [] }
      else
        (callAll host (progress.session.registry.play (StereoFrame.toSamples batch))
          (progress.taking ring batch)).andThen
        fun played => playBatches host count (played.counting batch) := by
  intro batch
  have hlength : min progress.session.settings.audioBatch ring.occupied = batch.length := by
    rw [List.length_take, Ring.length_toFrames]
  simp only [playBatches, hring, Ring.drainTo_eq hwell, List.nil_append, hlength,
    List.length_eq_zero_iff, batch, taking, counting]

/-- A batch is taken from the front of the queue and played, or its calls are made up to one that
is lost.  Meanwhile the queue may be added to. -/
theorem playBatch_cases (host : Host κ) {ring : Ring}
    (hready : progress.session.feed.phase = .ready) (hwell : ring.WellFormed) {limit : Nat}
    {batch : List StereoFrame} (hbatch : batch = ring.toFrames.take limit) :
    let calls := progress.session.registry.play (StereoFrame.toSamples batch)
    ∃ made log played queue, made <+: calls ∧ (progress.taking ring batch).Makes made log played ∧
      played.session.feed.Queues queue ∧
      Flow ring.toFrames log.accepted batch log.givenUp queue ∧
      (made = calls ∧ callAll host calls (progress.taking ring batch) = .goes played ∨
        callAll host calls (progress.taking ring batch) = .aborts played ∧ Lost host played) := by
  intro calls
  have hrest : (progress.taking ring batch).session.feed.Queues (ring.toFrames.drop limit) := by
    rw [hbatch]
    exact queues_taking hready hwell limit
  have htook : Flow ring.toFrames [] batch 0 (ring.toFrames.drop limit) := by
    rw [hbatch]
    exact Flow.play ring.toFrames limit
  obtain ⟨made, log, played, hmade, hmakes, -, hcalled⟩ :=
    callAll_cases host calls (progress.taking ring batch)
  obtain ⟨queue, hqueue, hfed⟩ := hmakes.leads.flow hrest
  refine ⟨made, log, played, queue, hmade, hmakes, hqueue, ?_, hcalled⟩
  simpa using htook.trans hfed

/-- A session plays batches from the front of its queue until the queue is empty, so many are
played or a call is lost.  What it has begun to play is taken from the queue; meanwhile the
queue may be added to. -/
theorem playBatches_cases (host : Host κ) (count : Nat)
    (h : progress.session.feed.Queues queue) :
    ∃ (batches : List (List StereoFrame)) (made : List (Call κ)) (log : Feed.Log)
      (other : Progress κ) (later : List StereoFrame),
      batches.length ≤ count ∧
      (∀ batch ∈ batches,
        0 < batch.length ∧ batch.length ≤ progress.session.settings.audioBatch) ∧
      made <+: progress.session.registry.playAll batches ∧
      other.calls = made.reverse ++ progress.calls ∧ other.fed = progress.fed ++ log ∧
      other.session.feed.Queues later ∧
      Flow queue log.accepted batches.flatten log.givenUp later ∧
      (playBatches host count progress = .goes other ∧
          made = progress.session.registry.playAll batches ∧
          other.report = { progress.report with
            audioFrames := progress.report.audioFrames + batches.flatten.length
            audioBatches := progress.report.audioBatches + batches.length } ∨
        playBatches host count progress = .aborts other ∧ Lost host other) := by
  induction count generalizing progress queue with
  | zero =>
      exact ⟨[], [], [], progress, queue, Nat.le_refl 0, nofun, List.nil_prefix, rfl,
        (List.append_nil _).symm, h, Flow.still queue, .inl ⟨rfl, rfl, rfl⟩⟩
  | succ count ih =>
      obtain ⟨hphase, ring, hring, hwell, rfl⟩ := id h
      obtain ⟨limit, hlimit⟩ : ∃ limit, limit = progress.session.settings.audioBatch := ⟨_, rfl⟩
      obtain ⟨batch, hbatch⟩ : ∃ batch, batch = ring.toFrames.take limit := ⟨_, rfl⟩
      rw [playBatches_succ host count hring hwell, ← hlimit, ← hbatch]
      by_cases hnone : batch = []
      · rw [if_pos hnone]
        exact ⟨[], [], [], { progress with session.scratch := [] }, ring.toFrames,
          Nat.zero_le _, nofun, List.nil_prefix, rfl, (List.append_nil _).symm, h, Flow.still _,
          .inl ⟨rfl, rfl, rfl⟩⟩
      · rw [if_neg hnone]
        have hsize : 0 < batch.length ∧ batch.length ≤ limit := by
          refine ⟨List.length_pos_iff.mpr hnone, ?_⟩
          rw [hbatch]
          exact List.length_take_le _ _
        obtain ⟨made, log, played, middle, hmade, hmakes, hqueues, hfed, hcalled⟩ :=
          playBatch_cases host hphase hwell hbatch
        have hcalls : played.calls = made.reverse ++ progress.calls := hmakes.calls
        have hlog : played.fed = progress.fed ++ log := hmakes.fed
        rcases hcalled with ⟨hall, hgoes⟩ | ⟨haborts, hlost⟩
        · have hcounted : (played.counting batch).session.feed.Queues middle := hqueues
          have hregistry :
              (played.counting batch).session.registry = progress.session.registry := by
            rw [counting, hmakes.session, taking]
          have hsettings :
              (played.counting batch).session.settings = progress.session.settings := by
            rw [counting, hmakes.session, taking]
          have hreport : (played.counting batch).report =
              { progress.report with
                audioFrames := progress.report.audioFrames + batch.length
                audioBatches := progress.report.audioBatches + 1 } := by
            rw [counting, hmakes.report, taking]
          obtain ⟨batches, more, rest, other, later, hcount, hsizes, hmore, hotherCalls,
            hotherFed, hlater, hflow, hended⟩ := ih hcounted
          rw [hregistry] at hmore hended
          rw [hsettings, ← hlimit] at hsizes
          rw [hreport] at hended
          rw [hgoes, Stage.andThen]
          have hplayAll : progress.session.registry.playAll (batch :: batches) =
              made ++ progress.session.registry.playAll batches := by
            rw [hall]
            rfl
          refine ⟨batch :: batches, made ++ more, log ++ rest, other, later,
            Nat.succ_le_succ hcount, List.forall_mem_cons.mpr ⟨hsize, hsizes⟩, ?_, ?_, ?_, hlater,
            ?_, ?_⟩
          · rw [hplayAll]
            exact (List.prefix_append_right_inj _).mpr hmore
          · rw [hotherCalls, counting, hcalls]
            simp
          · rw [hotherFed, counting, hlog, List.append_assoc]
          · simpa using hfed.trans hflow
          · rcases hended with ⟨hgoes, hallMore, hrestReport⟩ | haborts
            · refine .inl ⟨hgoes, ?_, ?_⟩
              · rw [hplayAll, hallMore]
              · rw [hrestReport]
                simp [Nat.add_assoc, Nat.add_comm 1]
            · exact .inr haborts
        · -- The batch that is lost has left the queue.
          rw [haborts, Stage.andThen]
          refine ⟨[batch], made, log, played, middle, Nat.succ_le_succ (Nat.zero_le _), ?_, ?_,
            hcalls, hlog, hqueues, ?_, .inr ⟨rfl, hlost⟩⟩
          · exact fun other hother => List.mem_singleton.mp hother ▸ hsize
          · simpa [Registry.playAll] using hmade
          · simpa using hfed

/-! ## What is kept -/

/-- What holds on through everything that the second and the third stage do to a frame. -/
structure Kept (P : Progress κ → Prop) : Prop where
  makes : ∀ {progress made log other}, P progress → progress.Makes made log other → P other
  looks : ∀ {progress}, P progress →
    P { progress with session.feed.mailbox := progress.session.feed.mailbox.collect.2 }
  takes : ∀ {progress ring}, P progress → progress.session.feed.ring = some ring →
    P { progress with
      session.feed.ring := some (ring.drainTo [] progress.session.settings.audioBatch).2.2 }
  spares : ∀ {progress} lastSize scratch report, P progress →
    P { progress with session.lastSize := lastSize, session.scratch := scratch, report }

variable {P : Progress κ → Prop}

theorem Kept.callAll (hP : Kept P) (host : Host κ) (calls : List (Call κ)) (h : P progress) :
    P (Progress.callAll host calls progress).progress := by
  obtain ⟨made, log, -, hmakes⟩ := callAll_makes host calls progress
  exact hP.makes h hmakes

theorem Kept.showPicture (hP : Kept P) (host : Host κ) (h : P progress) :
    P (Progress.showPicture host progress).progress := by
  have hlooked := hP.looks h
  unfold Progress.showPicture
  cases hcollect : progress.session.feed.mailbox.collect with
  | mk arrival mailbox =>
      rw [hcollect] at hlooked
      simp only
      split
      · exact hlooked
      · exact hlooked
      · exact hlooked
      · exact hlooked
      · exact hlooked
      · next view =>
          have hseen := hP.spares (some view.layout.size) progress.session.scratch
            progress.report hlooked
          apply Stage.andThen_of
          · exact hP.callAll host _ hseen
          · intro shown hshown
            have hcalled := hP.callAll host (progress.session.registry.present view) hseen
            rw [hshown] at hcalled
            exact hP.spares shown.session.lastSize shown.session.scratch
              { shown.report with presented := true } hcalled

theorem Kept.playBatches (hP : Kept P) (host : Host κ) (count : Nat) (h : P progress) :
    P (Progress.playBatches host count progress).progress := by
  induction count generalizing progress with
  | zero => exact h
  | succ count ih =>
      have hcleared := hP.spares progress.session.lastSize [] progress.report h
      simp only [Progress.playBatches]
      split
      · exact hcleared
      · next ring hring =>
          have htaken := hP.takes h hring
          split
          · exact hcleared
          · exact hcleared
          · next frames scratch rest hdrained =>
              rw [hdrained] at htaken
              split
              · exact hcleared
              · have hplayed := hP.spares progress.session.lastSize scratch progress.report htaken
                have hcalled := hP.callAll host (progress.session.registry.play scratch) hplayed
                apply Stage.andThen_of
                · exact hcalled
                · intro played hplayed
                  apply ih
                  rw [hplayed] at hcalled
                  exact hP.spares played.session.lastSize played.session.scratch
                    { played.report with
                      audioFrames := played.report.audioFrames + frames
                      audioBatches := played.report.audioBatches + 1 } hcalled

theorem Kept.playAudio (hP : Kept P) (host : Host κ) (h : P progress) :
    P (Progress.playAudio host progress).progress := by
  unfold Progress.playAudio
  split
  · exact hP.playBatches host _ h
  · exact h

theorem kept_sameWiring (session : Session κ) :
    Kept fun progress => session.SameWiring progress.session := by
  constructor
  case makes =>
    intro progress made log other h hmakes
    exact h.trans hmakes.wiring
  case looks =>
    intro progress h
    exact h.trans (progress.session.sameWiring_of_feed _ _ _ rfl)
  case takes =>
    intro progress ring h _
    exact h.trans (progress.session.sameWiring_of_feed _ _ _ rfl)
  case spares =>
    intro progress lastSize scratch report h
    exact h.trans (progress.session.sameWiring_of_feed _ _ _ rfl)

end Progress

namespace Session

/-- What the first stage of a frame brings about and the others keep holds when the frame is
over. -/
theorem frame_keeps {P : Progress κ → Prop} (hP : Progress.Kept P) {session : Session κ}
    (host : Host κ) (hready : session.feed.isReady = true)
    (hfirst : P (session.begun.forwardInput host).progress) :
    ∃ last, P last ∧ (session.frame host).session = last.session ∧
      (session.frame host).calls = last.calls.reverse ∧ (session.frame host).fed = last.fed :=
  frame_of host hready hfirst (fun _ => hP.showPicture host) (fun _ => hP.playAudio host)
    (fun _ => id) (fun _ => id)

theorem sameWiring_frame (session : Session κ) (host : Host κ) :
    session.SameWiring (session.frame host).session := by
  by_cases hready : session.feed.isReady = true
  · obtain ⟨last, hlast, hsession, -⟩ :=
      frame_keeps (Progress.kept_sameWiring session) host hready
        (session.sameWiring_forwardInput host)
    rw [hsession]
    exact hlast
  · rw [frame, if_neg hready]
    exact .refl _

/-- What a starting machine does on the feed is done to that of the session, whether or not it
then hands a sink back. -/
theorem exists_attachMachine (session : Session κ) (startup : Startup κ) :
    let run := session.feed.performAll startup.feeds
    ∃ outcome sink, session.attachMachine startup =
      (outcome, run.log, { session with feed := run.feed, sink }) := by
  intro run
  simp only [attachMachine]
  split
  · split
    · exact ⟨_, session.sink, rfl⟩
    · next sink _ => exact ⟨_, some sink, rfl⟩
  · exact ⟨_, session.sink, rfl⟩

theorem sameMakeup_perform (session : Session κ) (op : Op κ) :
    session.SameMakeup (session.perform op).session := by
  cases op with
  | start launch memory =>
      simp only [perform, start]
      split
      · exact .refl _
      · split
        · exact .refl _
        · exact .refl _
        · exact ⟨rfl, rfl, rfl, rfl, rfl⟩
  | frame host => exact (session.sameWiring_frame host).toSameMakeup
  | attachMachine startup =>
      have hceiling := (session.feed.leads_performAll startup.feeds).ceiling
      obtain ⟨outcome, sink, hattached⟩ := session.exists_attachMachine startup
      simp only [perform, hattached]
      exact ⟨rfl, rfl, rfl, rfl, hceiling⟩
  | produce op => exact ⟨rfl, rfl, rfl, rfl, session.feed.ceiling_perform op⟩
  | _ => exact ⟨rfl, rfl, rfl, rfl, rfl⟩

/-- What each of the operations keeps, their run keeps. -/
theorem performAll_of {P : Session κ → Prop} {ops : List (Op κ)}
    (hstep : ∀ session, ∀ op ∈ ops, P session → P (session.perform op).session)
    {session : Session κ} (h : P session) : P (session.performAll ops).2 := by
  induction ops generalizing session with
  | nil => exact h
  | cons op ops ih =>
      exact ih (fun other later hlater => hstep other later (List.mem_cons_of_mem _ hlater))
        (hstep session op (List.mem_cons_self ..) h)

theorem sameMakeup_performAll (session : Session κ) (ops : List (Op κ)) :
    session.SameMakeup (session.performAll ops).2 :=
  performAll_of (P := session.SameMakeup)
    (fun other op _ h => h.trans (other.sameMakeup_perform op)) (.refl session)

theorem performAll_append (session : Session κ) (first rest : List (Op κ)) :
    (session.performAll (first ++ rest)).2 = ((session.performAll first).2.performAll rest).2 := by
  induction first generalizing session with
  | nil => rfl
  | cons op first ih => exact ih _

end Session

end Framestep
