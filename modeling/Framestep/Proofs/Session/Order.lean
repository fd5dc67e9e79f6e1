import Framestep.Proofs.Session.Coupling

/-!
# The order of the calls in a host frame

A host frame calls for its controls, then gives events to the machine, then shows a
picture and then plays sound.  A `Word` is a list of calls in that order; calls that are
out of order, or that show two pictures, cannot be written down as a `Word`.

Each stage adds its part to the word: `Progress.forwardInput_cases`,
`Progress.showPicture_word` and `Progress.playAudio_word`.  They are put together in
`Session.frame_word`, and the main statement, `Session.frame_keepsOrder`, says for every
session that can be reached in which order a host frame calls and what it shows.

Nothing is asked of the host.  Whoever is called may act on the feed, so the queue can grow
while it is played; the bounds of the batches hold all the same.
-/

namespace Framestep

variable {κ : Type}

/-! ## Words of calls -/

/-- The calls of a host frame, by what they are for: those of the first stage, one that
shows a picture at most, and those that play batches of sound. -/
structure Word (κ : Type) extends Inputs κ where
  shown : Option (κ × View) := none
  batches : List (List StereoFrame) := []

/-- The call that shows a picture, if there is one. -/
def pictureCalls (shown : Option (κ × View)) : List (Call κ) :=
  shown.toList.map fun shown => Call.video shown.1 shown.2

/-- The calls of a word in their order. -/
def Word.calls (word : Word κ) (registry : Registry κ) : List (Call κ) :=
  word.toInputs.calls ++ pictureCalls word.shown ++ registry.playAll word.batches

theorem Registry.present_eq (registry : Registry κ) (view : View) :
    registry.present view = pictureCalls (registry.video.map fun who => (who, view)) := by
  unfold present
  cases registry.video <;> rfl

theorem Inputs.isVideo_of_mem_calls {inputs : Inputs κ} {call : Call κ}
    (hcall : call ∈ inputs.calls) : call.isVideo = false :=
  inputs.forall_mem_calls (P := fun call => call.isVideo = false)
    (fun _ => rfl) (fun _ _ => rfl) rfl (fun _ _ => rfl) call hcall

/-- The pictures among the calls of a word are the one that it shows. -/
theorem Word.filter_isVideo_calls (word : Word κ) (registry : Registry κ) :
    (word.calls registry).filter Call.isVideo = pictureCalls word.shown := by
  have hinputs : word.toInputs.calls.filter Call.isVideo = [] := by
    apply List.filter_eq_nil_iff.mpr
    intro call hcall
    simp [Inputs.isVideo_of_mem_calls hcall]
  have hplayed : (registry.playAll word.batches).filter Call.isVideo = [] := by
    apply List.filter_eq_nil_iff.mpr
    intro call hcall
    simp [call.isVideo_of_isAudio (Registry.isAudio_of_mem_playAll hcall)]
  have hshown : (pictureCalls word.shown).filter Call.isVideo = pictureCalls word.shown := by
    apply List.filter_eq_self.mpr
    intro call hcall
    obtain ⟨shown, -, rfl⟩ := List.mem_map.mp hcall
    rfl
  rw [Word.calls, List.filter_append, List.filter_append, hinputs, hplayed, hshown,
    List.nil_append, List.append_nil]

/-! ## The second and the third stage -/

namespace Progress

variable {host : Host κ} {progress : Progress κ} {floor : Nat}

/-- The second stage makes one call at most, and shows what it finds in the mailbox. -/
theorem showPicture_word (host : Host κ) (h : progress.session.feed.Running floor) :
    ∃ (shown : Option (κ × View)) (seen : Progress κ),
      seen.calls = (pictureCalls shown).reverse ++ progress.calls ∧
      seen.session.feed.Running floor ∧ progress.session.SameWiring seen.session ∧
      seen.report = { progress.report with presented := seen.report.presented } ∧
      (showPicture host progress = .goes seen ∧
          (∀ view, progress.session.feed.mailbox.collect.1 = .done (.presented view) →
            shown = progress.session.registry.video.map (fun who => (who, view)) ∧
              seen.report.presented = true) ∨
        showPicture host progress = .aborts seen ∧ Lost host seen) := by
  have hrunning := (kept_running floor).showPicture host h
  have hwiring : progress.session.SameWiring (showPicture host progress).progress.session :=
    (kept_sameWiring progress.session).showPicture host (.refl _)
  obtain ⟨looked, hlooked⟩ : ∃ looked : Progress κ, looked =
      { progress with
        session.feed.mailbox := { progress.session.feed.mailbox with available := false } } :=
    ⟨_, rfl⟩
  rcases showPicture_cases host h.mailbox with
    ⟨hclosed, -⟩ | ⟨hnothing, hstage⟩ | ⟨view, made, log, other, hview, hmade, -, hmakes, hstage⟩
  · -- The mailbox of a running session is open, so the frame does not end here.
    rw [h.opened] at hclosed
    cases hclosed
  · rw [← hlooked] at hstage
    rw [hstage] at hrunning hwiring
    have hcalls : looked.calls = progress.calls := by rw [hlooked]
    have hreport : looked.report = progress.report := by rw [hlooked]
    refine ⟨none, looked, hcalls, hrunning, hwiring, by rw [hreport], .inl ⟨hstage, ?_⟩⟩
    intro view hview
    exact (hnothing view hview).elim
  · have hcalls : other.calls = made.reverse ++ progress.calls := hmakes.calls
    have hreport : other.report = progress.report := hmakes.report
    rw [Registry.present_eq] at hmade hstage
    rcases hstage with ⟨hall, hstage⟩ | ⟨hstage, hlost⟩
    · rw [hstage] at hrunning hwiring
      refine ⟨progress.session.registry.video.map fun who => (who, view),
        { other with report.presented := true }, ?_, hrunning, hwiring, ?_, .inl ⟨hstage, ?_⟩⟩
      · rw [← hall]
        exact hcalls
      · rw [← hreport]
      · intro found hfound
        rw [hview, Outcome.done.injEq, Arrival.presented.injEq] at hfound
        rw [hfound]
        exact ⟨rfl, rfl⟩
    · -- The call that is lost is the only one, so the picture was shown or not.
      obtain ⟨shown, hshown⟩ := exists_toList_of_prefix hmade
      rw [hstage] at hrunning hwiring
      refine ⟨shown, other, ?_, hrunning, hwiring, ?_, .inr ⟨hstage, hlost⟩⟩
      · rw [hcalls, hshown]
        rfl
      · rw [hreport]

/-- The third stage plays batches from the front of the queue, or so many of them that one is
lost. -/
theorem playAudio_word (host : Host κ) (h : progress.session.feed.Running floor) :
    ∃ (batches : List (List StereoFrame)) (made : List (Call κ)) (last : Progress κ),
      batches.length ≤ progress.session.settings.batchesPerFrame ∧
      (∀ batch ∈ batches,
        0 < batch.length ∧ batch.length ≤ progress.session.settings.audioBatch) ∧
      made <+: progress.session.registry.playAll batches ∧
      last.calls = made.reverse ++ progress.calls ∧
      (playAudio host progress = .goes last ∧
          made = progress.session.registry.playAll batches ∧
          last.report = { progress.report with
            audioFrames := progress.report.audioFrames + batches.flatten.length
            audioBatches := progress.report.audioBatches + batches.length } ∨
        playAudio host progress = .aborts last ∧ Lost host last) := by
  unfold playAudio
  split
  · obtain ⟨queue, hqueues⟩ := h.queues
    obtain ⟨batches, made, log, other, -, hcount, hsizes, hmade, hcalls, -, -, -, hended⟩ :=
      playBatches_cases host progress.session.settings.batchesPerFrame hqueues
    exact ⟨batches, made, other, hcount, hsizes, hmade, hcalls, hended⟩
  · exact ⟨[], [], progress, Nat.zero_le _, nofun, List.nil_prefix, rfl, .inl ⟨rfl, rfl, rfl⟩⟩

end Progress

/-! ## The word of a host frame -/

/-- Every call has come back, and nothing was aborted on the feed in the course of one. -/
structure Host.Uninterrupted (host : Host κ) (result : FrameResult κ) : Prop where
  calls : host.allReturn result.calls.reverse = true
  fed : result.fed.AllBack

namespace Session

/-- The calls of a host frame are those of the word, or the beginning of them if one is lost.
Besides that a frame is cut off only where the tracker has nowhere to steer. -/
structure Spells (session : Session κ) (host : Host κ) (word : Word κ) : Prop where
  unread : session.registry.level = none → word.toInputs = {}
  count : word.batches.length ≤ session.settings.batchesPerFrame
  sizes : ∀ batch ∈ word.batches, 0 < batch.length ∧ batch.length ≤ session.settings.audioBatch
  begins : (session.frame host).calls <+: word.calls session.registry
  ends : host.Uninterrupted (session.frame host) →
    (session.frame host).calls = word.calls session.registry
  cut : (session.frame host).outcome = .aborted →
    ¬ host.Uninterrupted (session.frame host) ∨ ¬ session.Steerable
  reports : ∀ report, (session.frame host).outcome = .done report →
    (session.frame host).calls = word.calls session.registry ∧
      report.audioBatches = word.batches.length ∧
      report.audioFrames = word.batches.flatten.length

/-- What is in the mailbox when the machine has had its events is what the frame shows. -/
def ShowsArrival (session : Session κ) (host : Host κ) : Prop :=
  host.Uninterrupted (session.frame host) →
    session.Steerable ∨ (session.frame host).calls.any Call.isEvent = true →
    ∀ view, (session.begun.forwardInput host).progress.session.feed.mailbox.collect.1 =
        .done (.presented view) →
      (session.frame host).calls.filter Call.isVideo = session.registry.present view ∧
        ∃ report, (session.frame host).outcome = .done report ∧ report.presented = true

variable {session : Session κ} {floor : Nat} {host : Host κ} {last : Progress κ}

/-- A frame in which a call is lost is interrupted. -/
theorem not_uninterrupted (hframe : session.frame host = (Stage.aborts last).result)
    (hlost : Progress.Lost host last) : ¬ host.Uninterrupted (session.frame host) := by
  intro ⟨hcalls, hfed⟩
  rw [hframe] at hcalls hfed
  simp only [Stage.result, Stage.progress, List.reverse_reverse] at hcalls hfed
  rcases hlost with hcut | haborted
  · rw [hcalls] at hcut
    cases hcut
  · exact haborted hfed

/-- A frame in which a call is lost spells out a word that its calls begin, and nothing is said
of what it shows. -/
theorem spells_of_lost {word : Word κ}
    (hunread : session.registry.level = none → word.toInputs = {})
    (hcount : word.batches.length ≤ session.settings.batchesPerFrame)
    (hsizes : ∀ batch ∈ word.batches,
      0 < batch.length ∧ batch.length ≤ session.settings.audioBatch)
    (hframe : session.frame host = (Stage.aborts last).result)
    (hbegins : last.calls.reverse <+: word.calls session.registry)
    (hlost : Progress.Lost host last) :
    session.Spells host word ∧ session.ShowsArrival host := by
  have hinterrupted := not_uninterrupted hframe hlost
  constructor
  · constructor
    case unread => exact hunread
    case count => exact hcount
    case sizes => exact hsizes
    case begins =>
      rw [hframe]
      exact hbegins
    case ends => exact fun huninterrupted => (hinterrupted huninterrupted).elim
    case cut => exact fun _ => .inl hinterrupted
    case reports =>
      intro report hdone
      rw [hframe] at hdone
      cases hdone
  · exact fun huninterrupted => (hinterrupted huninterrupted).elim

/-- A frame that ends with its first stage since the tracker has nowhere to steer spells out a
word without events. -/
theorem spells_of_nowhere {inputs : Inputs κ}
    (hunread : session.registry.level = none → inputs = {})
    (hframe : session.frame host = (Stage.aborts last).result)
    (hcalls : last.calls.reverse = inputs.calls) (hfar : ¬ session.Steerable)
    (hnone : inputs.events = []) :
    session.Spells host ⟨inputs, none, []⟩ ∧ session.ShowsArrival host := by
  have hwhole : (session.frame host).calls = Word.calls ⟨inputs, none, []⟩ session.registry := by
    rw [hframe]
    simp [Stage.result, Stage.progress, hcalls, Word.calls, pictureCalls, Registry.playAll]
  constructor
  · constructor
    case unread => exact hunread
    case count => exact Nat.zero_le _
    case sizes => exact List.forall_mem_nil _
    case begins => exact hwhole ▸ List.prefix_refl _
    case ends => exact fun _ => hwhole
    case cut => exact fun _ => .inr hfar
    case reports =>
      intro report hdone
      rw [hframe] at hdone
      cases hdone
  · intro _ hevents
    rcases hevents with hsteerable | hevents
    · exact (hfar hsteerable).elim
    · obtain ⟨call, hcall, hevent⟩ := List.any_eq_true.mp hevents
      have hquiet : ∀ call ∈ inputs.calls, call.isEvent = false := by
        intro call hcall
        simp only [Inputs.calls, Progress.guiCalls, hnone, List.map_nil, List.append_nil,
          List.mem_append, List.mem_map] at hcall
        rcases hcall with ⟨poll, -, rfl⟩ | ⟨read, -, rfl⟩ | hasked
        · rfl
        · rfl
        · split at hasked
          · rw [List.mem_singleton.mp hasked]
            rfl
          · cases hasked
      rw [hframe] at hcall
      simp only [Stage.result, Stage.progress, hcalls] at hcall
      rw [hquiet call hcall] at hevent
      cases hevent

/-- The stages of a frame, one after the other, spell out a word. -/
theorem frame_word (host : Host κ) (h : session.feed.Running floor) :
    ∃ word : Word κ, session.Spells host word ∧ session.ShowsArrival host := by
  have hready : session.feed.isReady = true := session.feed.isReady_iff.mpr h.phase
  have hframe : session.frame host =
      (((session.begun.forwardInput host).andThen (Progress.showPicture host)).andThen
        (Progress.playAudio host)).result := by
    rw [frame, if_pos hready]
  obtain ⟨inputs, log, other, hunread, hfirst, hended⟩ :=
    Progress.forwardInput_cases host session.begun
  have hinputs : other.calls = inputs.calls.reverse := hfirst.calls.trans (List.append_nil _)
  have hspelt : other.calls.reverse = inputs.calls := by rw [hinputs, List.reverse_reverse]
  rcases hended with hgoes | ⟨haborts, hlost⟩
  case inr =>
    -- The frame ends with its first stage.
    rw [haborts] at hframe
    refine ⟨⟨inputs, none, []⟩, ?_⟩
    rcases hlost with hlost | ⟨hfar, hnone⟩
    · apply spells_of_lost hunread (Nat.zero_le _) (by simp) hframe _ hlost
      rw [hspelt]
      simp [Word.calls, pictureCalls, Registry.playAll]
    · exact spells_of_nowhere hunread hframe hspelt hfar hnone
  rw [hgoes] at hframe
  have hrunning : other.session.feed.Running floor := h.leads hfirst.leads
  obtain ⟨shown, seen, hseen, hseenRunning, hseenWiring, hseenReport, hshows⟩ :=
    Progress.showPicture_word host hrunning
  have hsameRegistry : other.session.registry = session.registry := hfirst.wiring.registry
  have hregistry : seen.session.registry = session.registry :=
    hseenWiring.registry.trans hsameRegistry
  have hsettings : seen.session.settings = session.settings :=
    hseenWiring.settings.trans hfirst.wiring.settings
  rcases hshows with ⟨hseenGoes, hshows⟩ | ⟨hseenAborts, hlost⟩
  case inr =>
    -- It ends with its picture.
    simp only [Stage.andThen, hseenAborts] at hframe
    refine ⟨⟨inputs, shown, []⟩, ?_⟩
    apply spells_of_lost hunread (Nat.zero_le _) (by simp) hframe _ hlost
    rw [hseen, hinputs]
    simp [Word.calls, Registry.playAll]
  simp only [Stage.andThen, hseenGoes] at hframe
  obtain ⟨batches, made, last, hcount, hsizes, hmade, hlast, hplayed⟩ :=
    Progress.playAudio_word host hseenRunning
  rw [hregistry] at hmade hplayed
  rw [hsettings] at hcount hsizes
  have hlastCalls : last.calls.reverse = inputs.calls ++ pictureCalls shown ++ made := by
    rw [hlast, hseen, hinputs]
    simp
  refine ⟨⟨inputs, shown, batches⟩, ?_⟩
  rcases hplayed with ⟨hplayedGoes, hall, hreport⟩ | ⟨hplayedAborts, hlost⟩
  case inr =>
    -- It ends with a batch, so the word goes on behind the calls that were made.
    rw [hplayedAborts] at hframe
    apply spells_of_lost hunread hcount hsizes hframe _ hlost
    rw [hlastCalls]
    exact (List.prefix_append_right_inj _).mpr hmade
  rw [hplayedGoes] at hframe
  have hwhole : (session.frame host).calls =
      Word.calls ⟨inputs, shown, batches⟩ session.registry := by
    rw [hframe, Word.calls, ← hall]
    exact hlastCalls
  have hdone : (session.frame host).outcome = .done last.report := by
    rw [hframe]
    rfl
  constructor
  · constructor
    case unread => exact hunread
    case count => exact hcount
    case sizes => exact hsizes
    case begins => exact hwhole ▸ List.prefix_refl _
    case ends => exact fun _ => hwhole
    case cut =>
      intro haborted
      rw [hdone] at haborted
      cases haborted
    case reports =>
      intro report hreported
      rw [hdone, Outcome.done.injEq] at hreported
      rw [← hreported, hreport, hseenReport, hfirst.report]
      exact ⟨hwhole, Nat.zero_add _, Nat.zero_add _⟩
  · intro _ _ view hview
    rw [hgoes] at hview
    obtain ⟨hshown, hpresented⟩ := hshows view hview
    refine ⟨?_, last.report, hdone, ?_⟩
    · rw [hwhole, Word.filter_isVideo_calls, hshown, hsameRegistry, Registry.present_eq]
    · rw [hreport]
      exact hpresented

end Session

/-! ## The picture that a frame shows -/

/-- Storage that was drawn upon begins with what was drawn. -/
theorem Mailbox.firstOf_drawn {bytes marks : Array UInt8} {needed : Nat}
    (hmarks : needed ≤ marks.size) :
    firstOf (drawn bytes marks needed) needed = firstOf marks needed := by
  apply ext_byteAt
  · simp only [size_firstOf, size_drawn]
    omega
  · intro i hi
    have hneeded : i < needed := by
      simp only [size_firstOf, size_drawn] at hi
      omega
    have hsize : i < marks.size := Nat.lt_of_lt_of_le hneeded hmarks
    rw [byteAt_firstOf _ hneeded, byteAt_firstOf _ hneeded, byteAt_drawn, if_pos hneeded,
      byteAt_of_lt hsize]
    simp [hsize]

/-- A picture that was taken is found by the next host that looks, if it has pixels. -/
theorem Mailbox.collect_submit {box : Mailbox} (hbox : box.WellFormed) {layout : Layout}
    {pixels : Array UInt8} {memory : Memory}
    (htaken : (box.submit layout pixels memory).1 = .done ())
    (hwidth : 0 < layout.width) (hheight : 0 < layout.height) :
    (box.submit layout pixels memory).2.collect.1 =
      .done (.presented ⟨layout, firstOf pixels layout.byteCount⟩) := by
  rw [submit_eq] at htaken ⊢
  cases hrefusal : layout.refusal? box.closed pixels.size (box.room memory) with
  | some fault =>
      rw [hrefusal] at htaken
      cases htaken
  | none =>
      obtain ⟨-, hsupplied, hopen, -⟩ :=
        (Layout.refusal?_eq_none_iff (room_le hbox memory)).mp hrefusal
      rw [collect_eq_presented_iff (wellFormed_drawn hbox hrefusal pixels true)]
      exact ⟨hopen, rfl, ⟨hwidth, hheight⟩, by rw [firstOf_drawn hsupplied]⟩

namespace Feed

variable {feed last : Feed} {earlier later : Log}

/-- A log may be taken apart at any of its operations. -/
theorem Leads.split {entry : Op × Outcome Answer}
    (h : feed.Leads (earlier ++ entry :: later) last) :
    ∃ before, feed.Leads earlier before ∧ (before.perform entry.1).1 = entry.2 ∧
      (before.perform entry.1).2.Leads later last := by
  induction earlier generalizing feed with
  | nil =>
      cases h with
      | step feed op rest => exact ⟨feed, .still feed, rfl, rest⟩
  | cons first earlier ih =>
      cases h with
      | step feed op rest =>
          obtain ⟨before, hearlier, houtcome, hlater⟩ := ih rest
          exact ⟨before, .step feed op hearlier, houtcome, hlater⟩

/-- The last picture that was handed over is found in the mailbox, whatever is done to the sound
afterwards. -/
theorem collect_of_leads {floor : Nat} {layout : Layout} {pixels : Array UInt8}
    {memory : Memory} (h : feed.Running floor)
    (hlog : feed.Leads (earlier ++ (.submit layout pixels memory, .done .nothing) :: later) last)
    (hlater : later.LeavesMailbox) (hwidth : 0 < layout.width) (hheight : 0 < layout.height) :
    last.mailbox.collect.1 = .done (.presented ⟨layout, firstOf pixels layout.byteCount⟩) := by
  -- `before` is the feed that the picture is handed over to.
  obtain ⟨before, hearlier, houtcome, hrest⟩ := hlog.split
  have hrunning := h.leads hearlier
  have htaken : (before.mailbox.submit layout pixels memory).1 = .done () := by
    simp only [perform, submit] at houtcome
    cases hsubmit : (before.mailbox.submit layout pixels memory).1 with
    | done value => rfl
    | refused fault => simp [hsubmit, Outcome.map] at houtcome
    | aborted => simp [hsubmit, Outcome.map] at houtcome
  rw [hrest.mailbox hlater]
  exact Mailbox.collect_submit hrunning.mailbox htaken hwidth hheight

end Feed

namespace Session

variable {session : Session κ}

/-- The order of the calls of a host frame, what it shows, and what it does while the session
is not running. -/
structure KeepsOrder (session : Session κ) (host : Host κ) : Prop where
  spells : ∃ word : Word κ, session.Spells host word
  shows : ∀ (earlier : Feed.Log) layout pixels memory (later : Feed.Log),
    (session.begun.forwardInput host).progress.fed =
      earlier ++ (.submit layout pixels memory, .done .nothing) :: later →
    later.LeavesMailbox → 0 < layout.width → 0 < layout.height →
    host.Uninterrupted (session.frame host) →
    session.Steerable ∨ (session.frame host).calls.any Call.isEvent = true →
      (session.frame host).calls.filter Call.isVideo =
          session.registry.present ⟨layout, firstOf pixels layout.byteCount⟩ ∧
        ∃ report, (session.frame host).outcome = .done report ∧ report.presented = true
  idle : session.feed.phase ≠ .ready →
    session.frame host = { outcome := .done {}, calls := [], fed := [], session }

theorem keepsOrder_of_stopped (host : Host κ) (h : session.feed.Stopped) :
    session.KeepsOrder host := by
  have hframe := frame_of_not_ready host h.phase
  constructor
  case spells =>
    refine ⟨{}, ?_⟩
    constructor
    case unread => exact fun _ => rfl
    case count => exact Nat.zero_le _
    case sizes => nofun
    case begins =>
      rw [hframe]
      exact List.nil_prefix
    case ends =>
      rw [hframe]
      exact fun _ => rfl
    case cut =>
      rw [hframe]
      nofun
    case reports =>
      intro report hdone
      rw [hframe] at hdone ⊢
      rw [← Outcome.done.inj hdone]
      exact ⟨rfl, rfl, rfl⟩
  case shows =>
    -- No picture is taken while the mailbox is closed.
    intro earlier layout pixels memory later hfed
    have hleads := (session.leads_forwardInput host).1
    rw [hfed] at hleads
    obtain ⟨before, hearlier, houtcome, -⟩ := hleads.split
    obtain ⟨fault, hrefused⟩ := Mailbox.submit_shut layout pixels memory
    simp [Feed.perform, Feed.submit, (h.leads hearlier).mailbox, hrefused, Outcome.map] at houtcome
  case idle => exact fun _ => hframe

/-- In every session that can be reached, and whatever the host and the machine do, a host
frame makes its calls in order and within their bounds, and shows the last picture that was
handed over in the course of its events. -/
theorem frame_keepsOrder {settings : Settings} {asksGui : Bool}
    (hcreate : create settings asksGui = .done session) (ops : List (Op κ)) (host : Host κ) :
    (session.performAll ops).2.KeepsOrder host := by
  rcases (inOrder_of_create hcreate ops).feed with hrunning | hstopped
  · obtain ⟨word, hspells, hshows⟩ := frame_word host hrunning
    refine ⟨⟨word, hspells⟩, ?_, fun hphase => (hphase hrunning.phase).elim⟩
    intro earlier layout pixels memory later hfed hlater hwidth hheight huninterrupted hgiven
    have hleads := ((session.performAll ops).2.leads_forwardInput host).1
    rw [hfed] at hleads
    exact hshows huninterrupted hgiven _
      (Feed.collect_of_leads hrunning hleads hlater hwidth hheight)
  · exact keepsOrder_of_stopped host hstopped

/-- The law at work on a machine that hands over a picture while it is given a key, and on a host
that queues more sound while it plays and would never stop if it were not for the bound. -/
theorem frame_keepsOrder_of_picture_on_key :
    let settings : Settings :=
      { audioCapacity := 2, audioCeiling := 3, audioBatch := 1, batchesPerFrame := 2
        controls := Controls.empty.bind .up (Controls.padKey .up AdbKey.up), pointer := .disabled }
    let session : Session Unit := unstarted settings true
    let host : Host Unit :=
      { returns := fun _ _ => true, level := fun _ _ _ => 1, guiVisible := fun _ => false
        feeds := fun _ call =>
          if call.isEvent then [.submit ⟨1, 1, 4⟩ #[1, 2, 3, 4], .setRate 22050]
          else if call.isAudio then [.push [7, -7] 1] else [] }
    let ops : List (Op Unit) :=
      [.start {}, .register .level (), .register .poll (), .register .video (),
        .register .single (), .attach (), .produce (.push [5, -5] 1)]
    create settings true = .done session ∧
      ∃ reached, reached = (session.performAll ops).2 ∧
        (reached.frame host).calls =
          [.poll (), .level () (.pad .up), .gui, .event () (.keyDown AdbKey.up),
            .video () ⟨⟨1, 1, 4⟩, #[1, 2, 3, 4]⟩, .single () 5 (-5), .single () 7 (-7)] ∧
        (reached.frame host).session.feed.queued = 1 ∧
        (∃ word : Word Unit, reached.Spells host word) ∧
        (reached.frame host).calls.filter Call.isVideo =
          reached.registry.present ⟨⟨1, 1, 4⟩, firstOf #[1, 2, 3, 4] 4⟩ ∧
        ∃ report, (reached.frame host).outcome = .done report ∧ report.presented = true := by
  intro settings session host ops
  have hcreate : create settings true = .done session := rfl
  have horder := frame_keepsOrder hcreate ops host
  have hfed : ((session.performAll ops).2.begun.forwardInput host).progress.fed =
      [] ++ (.submit ⟨1, 1, 4⟩ #[1, 2, 3, 4], .done .nothing) ::
        [(.setRate 22050, .done .nothing)] := by
    simp +zetaDelta only
    exact rfl
  have huninterrupted : host.Uninterrupted ((session.performAll ops).2.frame host) := by
    exact ⟨by decide +kernel, by decide +kernel⟩
  have hshows := horder.shows [] ⟨1, 1, 4⟩ #[1, 2, 3, 4] .ample [(.setRate 22050, .done .nothing)]
    hfed (by simp [Feed.Log.LeavesMailbox, Feed.Op.isPicture]) (by decide) (by decide)
    huninterrupted (.inr (by decide +kernel))
  exact ⟨hcreate, _, rfl, by decide +kernel, by decide +kernel, horder.spells, hshows⟩

end Session

end Framestep
