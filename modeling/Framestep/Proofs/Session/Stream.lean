import Framestep.Proofs.Session.Stages

/-!
# The audio stream of a session

Between the start of a session and its end, the sound that the host hears and the
sound still queued are what was pushed, in order, less the frames that the pushes reported as
given up.  `Session.stream` gathers the three along a run of operations, and
`Session.stream_intact` is the law.

Pushes count wherever they happen: by the machine on its own, while a machine
starts, and in the course of any call in the middle of a host frame.  Nothing is said about
hosts whose sound callbacks do not come back.
-/

namespace Framestep

variable {κ : Type}

/-- A host whose sound callbacks always come back, whatever they do on the feed of a running
session. -/
structure Host.PlaysThrough (host : Host κ) : Prop where
  returns : ∀ past call, call.isAudio = true → host.returns past call = true
  completes : ∀ past call, call.isAudio = true → ∀ (feed : Feed) queue, feed.Queues queue →
    (feed.performAll (host.feeds past call)).complete = true

/-! ## The flow of a host frame -/

namespace Progress

variable {host : Host κ} {queue : List StereoFrame} {progress : Progress κ}

/-- A host frame on its way.  What was pushed, heard and given up since the feed queued `queue`
is a flow to what is queued now. -/
def Flowing (queue : List StereoFrame) (progress : Progress κ) : Prop :=
  ∃ later, progress.session.feed.Queues later ∧
    Flow queue progress.fed.accepted (heard progress.calls.reverse) progress.fed.givenUp later

theorem flowing_showPicture (host : Host κ) (h : Flowing queue progress) :
    Flowing queue (showPicture host progress).progress := by
  obtain ⟨now, hnow, hflow⟩ := h
  obtain ⟨made, log, hmade, hleads, hcalls, hfed⟩ := showPicture_onward host progress
  obtain ⟨later, hlater, hshown⟩ := hleads.flow (hnow.congr rfl rfl)
  have hsilent : heard made = [] :=
    heard_eq_nil_of_not_audio fun call hcall => call.isAudio_of_isVideo (hmade call hcall)
  refine ⟨later, hlater, ?_⟩
  rw [hcalls, hfed, List.reverse_append, List.reverse_reverse, heard_append, hsilent,
    Feed.Log.accepted_append, Feed.Log.givenUp_append]
  exact hflow.trans hshown

/-- Sound callbacks that all come back play their batches to the end. -/
theorem playBatches_goes (hplays : host.PlaysThrough) (count : Nat)
    (h : ∃ queue, progress.session.feed.Queues queue) :
    ∃ other, playBatches host count progress = .goes other := by
  induction count generalizing progress with
  | zero => exact ⟨progress, rfl⟩
  | succ count ih =>
      obtain ⟨queue, hqueues⟩ := h
      obtain ⟨hphase, ring, hring, hwell, -⟩ := id hqueues
      rw [playBatches_succ host count hring hwell]
      split
      · exact ⟨_, rfl⟩
      · obtain ⟨batch, hbatch⟩ : ∃ batch, batch =
            ring.toFrames.take progress.session.settings.audioBatch := ⟨_, rfl⟩
        rw [← hbatch]
        have hrest : ∃ queue, (progress.taking ring batch).session.feed.Queues queue := by
          rw [hbatch]
          exact ⟨_, queues_taking hphase hwell _⟩
        obtain ⟨log, played, hmakes, hplayed, hgoes⟩ :=
          callAll_goes (P := fun feed => ∃ queue, feed.Queues queue) host
            (progress.session.registry.play (StereoFrame.toSamples batch))
            (progress.taking ring batch)
            (fun ⟨queue, hfeed⟩ hleads =>
              let ⟨later, hlater, _⟩ := hleads.flow hfeed
              ⟨later, hlater⟩)
            (fun past call hcall => by
              have haudio := Registry.isAudio_of_mem_play hcall
              have hvideo := call.isVideo_of_isAudio haudio
              refine ⟨?_, ?_⟩
              · simp [Host.comesBack, hvideo, hplays.returns past call haudio]
              · intro feed ⟨queue, hfeed⟩
                simp only [Host.does, hvideo, Bool.false_eq_true, if_false]
                exact hplays.completes past call haudio feed queue hfeed)
            hrest
        rw [hgoes, Stage.andThen]
        exact ih hplayed

/-- Each batch is taken from the front of the queue before it is played, and all of it
is heard. -/
theorem flowing_playAudio (hplays : host.PlaysThrough) (h : Flowing queue progress) :
    Flowing queue (playAudio host progress).progress := by
  unfold playAudio
  split
  · next haudio =>
      obtain ⟨now, hnow, hflow⟩ := h
      obtain ⟨batches, made, log, other, later, -, -, -, hcalls, hfed, hlater, hplayed, hended⟩ :=
        playBatches_cases host progress.session.settings.batchesPerFrame hnow
      obtain ⟨last, hlast⟩ :=
        playBatches_goes hplays progress.session.settings.batchesPerFrame ⟨now, hnow⟩
      rcases hended with ⟨hgoes, hall, -⟩ | ⟨haborts, -⟩
      · rw [hgoes]
        refine ⟨later, hlater, ?_⟩
        rw [Stage.progress, hcalls, hfed, List.reverse_append, List.reverse_reverse,
          heard_append, hall, Registry.heard_playAll haudio, Feed.Log.accepted_append,
          Feed.Log.givenUp_append]
        exact hflow.trans hplayed
      · rw [hlast] at haborts
        cases haborts
  · exact h

end Progress

/-! ## The flow of a run -/

namespace Session

/-- What has gone through the audio side of a session. -/
structure Stream where
  /-- The frames of all pushes that were accepted. -/
  pushed : List StereoFrame
  /-- The frames given to the host to be heard. -/
  played : List StereoFrame
  /-- The frames given up, as the pushes have reported them. -/
  dropped : Nat
  deriving DecidableEq, Repr

/-- What goes through the audio side of a session in the course of operations. -/
def stream (session : Session κ) : List (Op κ) → Stream
  | [] => ⟨[], [], 0⟩
  | op :: ops =>
    let step := session.perform op
    let rest := step.session.stream ops
    ⟨step.fed.accepted ++ rest.pushed, heard step.calls ++ rest.played,
      step.fed.givenUp + rest.dropped⟩

variable {session : Session κ} {queue : List StereoFrame}

theorem frame_flow (h : session.feed.Queues queue) {host : Host κ}
    (hplays : host.PlaysThrough) :
    let result := session.frame host
    ∃ later, result.session.feed.Queues later ∧
      Flow queue result.fed.accepted (heard result.calls) result.fed.givenUp later := by
  intro result
  have hready : session.feed.isReady = true := by
    rw [Feed.isReady, h.1]
    rfl
  have hfirst : Progress.Flowing queue (session.begun.forwardInput host).progress := by
    obtain ⟨hleads, hsilent⟩ := session.leads_forwardInput host
    obtain ⟨later, hlater, hflow⟩ := hleads.flow h
    exact ⟨later, hlater, hsilent ▸ hflow⟩
  obtain ⟨last, hflow, hsession, hcalls, hfed⟩ :=
    frame_of host hready hfirst (fun _ => Progress.flowing_showPicture host)
      (fun _ => Progress.flowing_playAudio hplays) (fun _ => id) (fun _ => id)
  simp only [result, hsession, hcalls, hfed]
  exact hflow

/-- Every operation that leaves the session running is a flow. -/
theorem perform_flow (h : session.feed.Queues queue) {op : Op κ} (hop : op ≠ .teardown)
    (hhost : ∀ host, op = .frame host → host.PlaysThrough) :
    let step := session.perform op
    ∃ later, step.session.feed.Queues later ∧
      Flow queue step.fed.accepted (heard step.calls) step.fed.givenUp later := by
  cases op with
  | start launch memory =>
      have hready : session.feed.isReady = true := by
        rw [Feed.isReady, h.1]
        rfl
      -- A session that is running is not started again.
      simp only [perform, start, hready, if_true]
      exact ⟨queue, h, Flow.still queue⟩
  | teardown => exact (hop rfl).elim
  | frame host => exact frame_flow h (hhost host rfl)
  | register channel who => exact ⟨queue, h, Flow.still queue⟩
  | unregisterAll => exact ⟨queue, h, Flow.still queue⟩
  | attach sink => exact ⟨queue, h, Flow.still queue⟩
  | attachMachine startup =>
      obtain ⟨later, hlater, hflow⟩ :=
        (session.feed.leads_performAll startup.feeds).flow h
      obtain ⟨outcome, sink, hattached⟩ := session.exists_attachMachine startup
      simp only [perform, hattached]
      exact ⟨later, hlater, hflow⟩
  | produce op =>
      obtain ⟨later, hlater, hflow⟩ := (session.feed.leads_perform op).flow h
      exact ⟨later, hlater, hflow⟩

theorem stream_flow (ops : List (Op κ)) (h : session.feed.Queues queue)
    (hops : ∀ op ∈ ops, op ≠ .teardown)
    (hhosts : ∀ host, Op.frame host ∈ ops → host.PlaysThrough) :
    ∃ later, (session.performAll ops).2.feed.Queues later ∧
      Flow queue (session.stream ops).pushed (session.stream ops).played
        (session.stream ops).dropped later := by
  induction ops generalizing session queue with
  | nil => exact ⟨queue, h, Flow.still queue⟩
  | cons op ops ih =>
      obtain ⟨middle, hmiddle, hfirst⟩ := perform_flow h (hops op (List.mem_cons_self ..))
        fun host hop => hhosts host (hop ▸ List.mem_cons_self ..)
      obtain ⟨later, hlater, hrest⟩ := ih hmiddle
        (fun other hother => hops other (List.mem_cons_of_mem _ hother))
        (fun host hhost => hhosts host (List.mem_cons_of_mem _ hhost))
      exact ⟨later, hlater, hfirst.trans hrest⟩

/-- The law of the audio stream, from a start to any moment before the next teardown:
what was heard and what is queued are the pushed frames in their order, less as many as
the pushes reported as given up, and all of them if none was. -/
theorem stream_intact {launch : Launch} {memory : Memory} {started : Session κ}
    (hidle : session.feed.isReady = false)
    (hstart : session.start launch memory = (.done (), started)) (ops : List (Op κ))
    (hops : ∀ op ∈ ops, op ≠ .teardown)
    (hhosts : ∀ host, Op.frame host ∈ ops → host.PlaysThrough) :
    let stream := started.stream ops
    ∃ ring, (started.performAll ops).2.feed.ring = some ring ∧
      stream.pushed.length = stream.played.length + ring.toFrames.length + stream.dropped ∧
      (stream.played ++ ring.toFrames).Sublist stream.pushed ∧
      (stream.dropped = 0 → stream.played ++ ring.toFrames = stream.pushed) := by
  have hstarted : started.feed.Queues [] := by
    simp only [start, hidle, Bool.false_eq_true, if_false] at hstart
    cases hcreate : Ring.create session.settings.audioCapacity memory with
    | done ring =>
        simp only [hcreate, Prod.mk.injEq, true_and] at hstart
        rw [← hstart]
        exact ⟨rfl, ring, rfl, Ring.wellFormed_of_create hcreate,
          Ring.toFrames_of_create hcreate⟩
    | refused fault => simp [hcreate] at hstart
    | aborted => simp [hcreate] at hstart
  obtain ⟨later, ⟨-, ring, hring, -, hqueue⟩, hflow⟩ := stream_flow ops hstarted hops hhosts
  have hcount := hflow.count
  have hsublist := hflow.sublist
  rw [← hqueue] at hcount hsublist hflow
  refine ⟨ring, hring, ?_, hsublist, ?_⟩
  · simp only [List.length_nil, Nat.zero_add] at hcount
    exact hcount
  · intro hnone
    rw [hnone] at hflow
    exact hflow.intact

/-- The law at work on a ring for two frames that may grow to three: the first push makes
it grow, the second is made by the host while it plays the first frame and gives one up, and then
the host changes from batches to single frames. -/
theorem stream_intact_of_two_callbacks :
    let settings : Settings :=
      { audioCapacity := 2, audioCeiling := 3, audioBatch := 1, batchesPerFrame := 1 }
    let session : Session Unit :=
      { settings, asksGui := false, feed := Feed.create 44100 3, registry := Registry.empty
        tracker := Tracker.create settings.controls settings.pointer
        sink := none, launch := {}, lastSize := none, events := [], scratch := [] }
    let started := (session.start {}).2
    let host : Host Unit :=
      { returns := fun _ _ => true, level := fun _ _ _ => 0, guiVisible := fun _ => false
        feeds := fun _ call =>
          if call = .batch () [1, -1] 1 then [.push [4, -4, 5, -5] 2] else [] }
    let ops : List (Op Unit) :=
      [.register .batch (), .produce (.push [1, -1, 2, -2, 3, -3] 3), .frame host,
        .unregisterAll, .register .single (), .frame host]
    let stream := started.stream ops
    session.feed.isReady = false ∧ session.start {} = (.done (), started) ∧
      (∀ op ∈ ops, op ≠ .teardown) ∧ (∀ host, Op.frame host ∈ ops → host.PlaysThrough) ∧
      stream = ⟨[(1, -1), (2, -2), (3, -3), (4, -4), (5, -5)], [(1, -1), (3, -3)], 1⟩ ∧
      ∃ ring, (started.performAll ops).2.feed.ring = some ring ∧
        stream.pushed.length =
          stream.played.length + ring.toFrames.length + stream.dropped ∧
        (stream.played ++ ring.toFrames).Sublist stream.pushed := by
  intro settings session started host ops stream
  have hstart : session.start {} = (.done (), started) := rfl
  have hops : ∀ op ∈ ops, op ≠ .teardown := by simp [ops]
  have hhosts : ∀ host, Op.frame host ∈ ops → host.PlaysThrough := by
    intro other hother
    have hsame : other = host := by simpa [ops] using hother
    rw [hsame]
    refine ⟨fun _ _ _ => rfl, ?_⟩
    intro past call haudio feed queue hfeed
    simp only [host]
    split
    · exact Feed.complete_push hfeed _ (by decide) _
    · rfl
  obtain ⟨ring, hring, hcount, hsublist, -⟩ := stream_intact rfl hstart ops hops hhosts
  exact ⟨rfl, hstart, hops, hhosts, by decide +kernel, ring, hring, hcount, hsublist⟩

end Session

end Framestep
