import Framestep.Proofs.Session.Forwarding

/-!
# Showing what lies in the mailbox

A picture that lies announced in the mailbox of a running session stays there until a host frame
gets to its second stage (`Session.Waits`), whatever else is done with the session meanwhile.  The
frame then shows it: to whoever is registered for pictures by then, once, and before the sound
(`Session.presents_of_waits`).

Whether a frame gets there is up to the host and the machine.  `Session.waits_of_attends` says that
it does if they come back from the calls of the first stage.
-/

namespace Framestep

variable {κ : Type}

namespace Progress

variable {host : Host κ} {progress : Progress κ} {view : View} {floor : Nat}

/-- One call at most is made in any case. -/
theorem callAll_of_length_le_one (host : Host κ) {calls : List (Call κ)}
    (hone : calls.length ≤ 1) (progress : Progress κ) :
    ∃ log next, progress.Makes calls log next ∧
      (callAll host calls progress = .goes next ∨
        callAll host calls progress = .aborts next ∧ Lost host next) := by
  match calls with
  | [] => exact ⟨[], progress, .refl progress, .inl rfl⟩
  | [call] =>
      obtain ⟨log, next, hnext, -, hcalled⟩ := call_cases host progress call
      refine ⟨log, next, hnext, ?_⟩
      rw [callAll]
      rcases hcalled with hgoes | ⟨haborts, hlost⟩
      · rw [hgoes]
        exact .inl rfl
      · rw [haborts]
        exact .inr ⟨rfl, hlost⟩
  | _ :: _ :: _ => simp at hone

/-- A picture that is found is shown to whom is registered, and that it was is noted behind the
call. -/
theorem showPicture_eq_of_view (host : Host κ) (h : progress.session.feed.Running floor)
    (hview : progress.session.feed.mailbox.collect.1 = .done (.presented view)) :
    ∃ looked : Progress κ, looked.calls = progress.calls ∧ looked.session.feed.Running floor ∧
      showPicture host progress =
        (callAll host (progress.session.registry.present view) looked).andThen
          fun shown => .goes { shown with report.presented := true } := by
  obtain ⟨rest, hcollect⟩ : ∃ rest,
      progress.session.feed.mailbox.collect = (.done (.presented view), rest) :=
    ⟨_, Prod.ext hview rfl⟩
  have hlooked := (kept_running floor).looks h
  rw [hcollect] at hlooked
  refine ⟨{ progress with
    session.feed.mailbox := rest, session.lastSize := some view.layout.size }, rfl, hlooked, ?_⟩
  simp only [showPicture, hcollect]

/-- Who is shown the picture may not come back from that. -/
theorem showPicture_of_view (host : Host κ) (h : progress.session.feed.Running floor)
    (hview : progress.session.feed.mailbox.collect.1 = .done (.presented view)) :
    ∃ seen : Progress κ,
      seen.calls = (progress.session.registry.present view).reverse ++ progress.calls ∧
      seen.session.feed.Running floor ∧
      (showPicture host progress = .goes seen ∧ seen.report.presented = true ∨
        showPicture host progress = .aborts seen ∧ Lost host seen) := by
  obtain ⟨looked, hsame, hrunning, hstage⟩ := showPicture_eq_of_view host h hview
  have hone : (progress.session.registry.present view).length ≤ 1 := by
    rw [Registry.present_eq, pictureCalls, List.length_map]
    exact Option.length_toList_le
  obtain ⟨log, next, hnext, hcalled⟩ := callAll_of_length_le_one host hone looked
  have hcalls : next.calls =
      (progress.session.registry.present view).reverse ++ progress.calls := by
    rw [hnext.calls, hsame]
  have hlater : next.session.feed.Running floor := hrunning.leads hnext.leads
  rcases hcalled with hgoes | ⟨haborts, hlost⟩
  · rw [hstage, hgoes]
    exact ⟨{ next with report.presented := true }, hcalls, hlater, .inl ⟨rfl, rfl⟩⟩
  · rw [hstage, haborts]
    exact ⟨next, hcalls, hlater, .inr ⟨rfl, hlost⟩⟩

/-- Who comes back from the picture, and whose sound callbacks come back, lets the frame come to its
end. -/
theorem stages_go (h : progress.session.feed.Running floor)
    (hview : progress.session.feed.mailbox.collect.1 = .done (.presented view))
    (hshows : ∀ past, ∀ call ∈ progress.session.registry.present view,
      host.comesBack past call = true ∧
        ∀ feed : Feed, feed.Running floor →
          (feed.performAll (host.does past call)).complete = true)
    (hplays : host.PlaysThrough) :
    ∃ last, (showPicture host progress).andThen (playAudio host) = .goes last := by
  obtain ⟨looked, -, hrunning, hstage⟩ := showPicture_eq_of_view host h hview
  obtain ⟨log, shown, -, hshown, hgoes⟩ :=
    callAll_goes (P := fun feed => feed.Running floor) host _ looked
      (fun hfeed hleads => hfeed.leads hleads) hshows hrunning
  rw [hstage, hgoes]
  simp only [Stage.andThen, playAudio]
  split
  · exact playBatches_goes hplays _ hshown.queues
  · exact ⟨_, rfl⟩

/-- Between calls that show no picture, the picture is the only one. -/
theorem filter_isVideo_around (registry : Registry κ) (view : View) {before after : List (Call κ)}
    (hbefore : ∀ call ∈ before, call.isVideo = false)
    (hafter : ∀ call ∈ after, call.isVideo = false) :
    (after.reverse ++ ((registry.present view).reverse ++ before)).reverse.filter Call.isVideo =
      registry.present view := by
  have hnone {calls : List (Call κ)} (hcalls : ∀ call ∈ calls, call.isVideo = false) :
      calls.filter Call.isVideo = [] := by
    apply List.filter_eq_nil_iff.mpr
    intro call hcall
    simp [hcalls call hcall]
  have hpicture : (registry.present view).filter Call.isVideo = registry.present view := by
    apply List.filter_eq_self.mpr
    rw [Registry.present_eq]
    intro call hcall
    obtain ⟨shown, -, rfl⟩ := List.mem_map.mp hcall
    rfl
  simp only [List.reverse_append, List.reverse_reverse, List.filter_append, hpicture,
    hnone hafter, hnone fun call hcall => hbefore call (List.mem_reverse.mp hcall),
    List.nil_append, List.append_nil]

/-- The second and the third stage show the picture that is found, and none besides: what is called
behind it is sound. -/
theorem stages_of_view (host : Host κ) (h : progress.session.feed.Running floor)
    (hview : progress.session.feed.mailbox.collect.1 = .done (.presented view))
    (hread : ∀ call ∈ progress.calls, call.isVideo = false) :
    ∃ last : Progress κ,
      last.calls.reverse.filter Call.isVideo = progress.session.registry.present view ∧
      ((showPicture host progress).andThen (playAudio host) = .goes last ∧
          last.report.presented = true ∨
        (showPicture host progress).andThen (playAudio host) = .aborts last ∧
          Lost host last) := by
  obtain ⟨seen, hseen, hrunning, hstage⟩ := showPicture_of_view host h hview
  rcases hstage with ⟨hshows, hpresented⟩ | ⟨hcuts, hlost⟩
  case inr =>
    refine ⟨seen, ?_, .inr ⟨by rw [hcuts, Stage.andThen], hlost⟩⟩
    rw [hseen]
    exact filter_isVideo_around _ view hread (List.forall_mem_nil _)
  obtain ⟨batches, played, last, -, -, hplayed, hlast, hended⟩ := playAudio_word host hrunning
  have hsound : ∀ call ∈ played, call.isVideo = false := fun call hcall =>
    call.isVideo_of_isAudio (Registry.isAudio_of_mem_playAll (hplayed.subset hcall))
  rw [hshows, Stage.andThen]
  refine ⟨last, ?_, ?_⟩
  · rw [hlast, hseen]
    exact filter_isVideo_around _ view hread hsound
  · rcases hended with ⟨hgoes, -, hreport⟩ | hcut
    · exact .inl ⟨hgoes, by rw [hreport]; exact hpresented⟩
    · exact .inr hcut

end Progress

namespace Session

/-- The frame gets to its second stage, where it waits for a picture. -/
def Waits (session : Session κ) (host : Host κ) : Prop :=
  ∃ progress, session.begun.forwardInput host = .goes progress

/-- The frame shows this picture to whom is registered for pictures, and none besides.  It reports
so if it comes to its end, and it does if it is not interrupted. -/
structure Presents (session : Session κ) (host : Host κ) (view : View) : Prop where
  shown : (session.frame host).calls.filter Call.isVideo = session.registry.present view
  reported : ∀ report, (session.frame host).outcome = .done report → report.presented = true
  ends : host.Uninterrupted (session.frame host) →
    ∃ report, (session.frame host).outcome = .done report

/-- Has nothing to do with the mailbox. -/
def Op.SparesMailbox : Op κ → Prop
  | .teardown | .frame _ => False
  | .attachMachine startup => ∀ op ∈ startup.feeds, op.isPicture = false
  | .produce op => op.isPicture = false
  | _ => True

/-- A running session with this mailbox. -/
structure Keeps (session : Session κ) (floor : Nat) (box : Mailbox) : Prop where
  running : session.feed.Running floor
  mailbox : session.feed.mailbox = box

variable {session : Session κ} {floor : Nat} {box : Mailbox} {host : Host κ} {view : View}

theorem running_of_ready {settings : Settings} {asksGui : Bool}
    (hcreate : create settings asksGui = .done session) (ops : List (Op κ))
    (hready : (session.performAll ops).2.feed.phase = .ready) :
    ∃ floor, (session.performAll ops).2.feed.Running floor := by
  rcases (inOrder_of_create hcreate ops).feed with hrunning | hstopped
  · exact ⟨_, hrunning⟩
  · exact (hstopped.phase hready).elim

/-! ## The way to the second stage -/

theorem keeps_perform (h : session.Keeps floor box) {op : Op κ} (hop : op.SparesMailbox) :
    (session.perform op).session.Keeps floor box := by
  cases op with
  | start launch memory =>
      simp only [perform, start_of_ready launch memory h.running.phase]
      exact h
  | attachMachine startup =>
      obtain ⟨outcome, sink, hattached⟩ := session.exists_attachMachine startup
      have hleads := session.feed.leads_performAll startup.feeds
      have hspares : (session.feed.performAll startup.feeds).log.LeavesMailbox :=
        fun entry hentry => hop entry.1 (Feed.mem_of_mem_log hentry)
      simp only [perform, hattached]
      exact ⟨h.running.leads hleads, (hleads.mailbox hspares).trans h.mailbox⟩
  | produce op =>
      obtain ⟨ring, mailbox, rate, hperform, hsound⟩ := session.feed.exists_perform op
      have hmailbox : (session.feed.perform op).2.mailbox = session.feed.mailbox := by
        rw [hperform]
        exact hsound hop
      exact ⟨Feed.running_perform h.running op, hmailbox.trans h.mailbox⟩
  | teardown => exact hop.elim
  | frame host => exact hop.elim
  | _ => exact ⟨h.running, h.mailbox⟩

theorem keeps_performAll (h : session.Keeps floor box) {ops : List (Op κ)}
    (hops : ∀ op ∈ ops, op.SparesMailbox) : (session.performAll ops).2.Keeps floor box :=
  performAll_of (P := fun session => session.Keeps floor box)
    (fun _ op hop hsession => keeps_perform hsession (hops op hop)) h

/-- The first stage leaves the mailbox as it is if nobody uses it meanwhile. -/
theorem keeps_forwardInput (h : session.Keeps floor box) (host : Host κ)
    (hspares : (session.begun.forwardInput host).progress.fed.LeavesMailbox) :
    (session.begun.forwardInput host).progress.session.Keeps floor box := by
  obtain ⟨hleads, -⟩ := session.leads_forwardInput host
  exact ⟨h.running.leads hleads, (hleads.mailbox hspares).trans h.mailbox⟩

/-! ## The second stage -/

/-- A frame that gets to its second stage shows the picture that it finds there. -/
theorem presents_of_waits (h : session.Keeps floor box) (hwaits : session.Waits host)
    (hspares : (session.begun.forwardInput host).progress.fed.LeavesMailbox)
    (hview : box.collect.1 = .done (.presented view)) : session.Presents host view := by
  have hfirst := keeps_forwardInput h host hspares
  have hregistry := (session.sameWiring_forwardInput host).registry
  have hread : ∀ call ∈ (session.begun.forwardInput host).progress.calls, call.isVideo = false :=
    fun _ => isVideo_of_mem_forwardInput
  obtain ⟨progress, hgoes⟩ := hwaits
  rw [hgoes] at hfirst hregistry hread
  simp only [Stage.progress] at hfirst hregistry hread
  rw [← hfirst.mailbox] at hview
  have hframe := frame_of_goes h.running hgoes
  obtain ⟨last, hshown, hended⟩ := Progress.stages_of_view host hfirst.running hview hread
  rw [hregistry] at hshown
  rcases hended with ⟨hstages, hpresented⟩ | ⟨hstages, hlost⟩
  · rw [hstages] at hframe
    constructor
    case shown => rw [hframe]; exact hshown
    case reported =>
      intro report hdone
      rw [hframe] at hdone
      rw [← Outcome.done.inj hdone]
      exact hpresented
    case ends => exact fun _ => ⟨last.report, by rw [hframe]; rfl⟩
  · rw [hstages] at hframe
    constructor
    case shown => rw [hframe]; exact hshown
    case reported => simp [hframe, Stage.result]
    case ends =>
      exact fun huninterrupted => (not_uninterrupted hframe hlost huninterrupted).elim

/-- It comes to its end if whoever is called in the second stage and the third comes back. -/
theorem ends_of_waits (h : session.Keeps floor box) (hwaits : session.Waits host)
    (hspares : (session.begun.forwardInput host).progress.fed.LeavesMailbox)
    (hview : box.collect.1 = .done (.presented view))
    (hshows : ∀ past, ∀ call ∈ session.registry.present view,
      host.comesBack past call = true ∧
        ∀ feed : Feed, feed.Running floor →
          (feed.performAll (host.does past call)).complete = true)
    (hplays : host.PlaysThrough) : ∃ report, (session.frame host).outcome = .done report := by
  have hfirst := keeps_forwardInput h host hspares
  have hregistry := (session.sameWiring_forwardInput host).registry
  obtain ⟨progress, hgoes⟩ := hwaits
  rw [hgoes] at hfirst hregistry
  simp only [Stage.progress] at hfirst hregistry
  rw [← hfirst.mailbox] at hview
  rw [← hregistry] at hshows
  obtain ⟨last, hlast⟩ := Progress.stages_go hfirst.running hview hshows hplays
  rw [frame_of_goes h.running hgoes, hlast]
  exact ⟨last.report, rfl⟩

end Session

/-! ## Frames that wait -/

/-- A host that comes back from every call of the first stage, whatever is done in the course of it
on the feed of a running session. -/
structure Host.Attends (host : Host κ) : Prop where
  returns : ∀ past call, call.isVideo = false → call.isAudio = false →
    host.returns past call = true
  completes : ∀ past call, call.isVideo = false → call.isAudio = false →
    ∀ (feed : Feed) floor, feed.Running floor →
      (feed.performAll (host.feeds past call)).complete = true

namespace Progress

variable {host : Host κ} {progress : Progress κ} {floor : Nat}

theorem callAll_attended (hhost : host.Attends) (calls : List (Call κ)) (progress : Progress κ)
    (hcalls : ∀ call ∈ calls, call.isVideo = false ∧ call.isAudio = false)
    (h : progress.session.feed.Running floor) :
    ∃ log other, progress.Makes calls log other ∧ other.session.feed.Running floor ∧
      callAll host calls progress = .goes other := by
  apply callAll_goes (P := fun feed => feed.Running floor) host calls progress
  · exact fun hfeed hleads => hfeed.leads hleads
  · intro past call hcall
    obtain ⟨hvideo, haudio⟩ := hcalls call hcall
    refine ⟨?_, ?_⟩
    · simp [Host.comesBack, hvideo, hhost.returns past call hvideo haudio]
    · intro feed hfeed
      simp only [Host.does, hvideo, Bool.false_eq_true, if_false]
      exact hhost.completes past call hvideo haudio feed floor hfeed
  · exact h

theorem call_attended (hhost : host.Attends) (call : Call κ) (hvideo : call.isVideo = false)
    (haudio : call.isAudio = false) (h : progress.session.feed.Running floor) :
    ∃ log other, progress.Makes [call] log other ∧ other.session.feed.Running floor ∧
      progress.call host call = .goes other := by
  obtain ⟨log, other, hother, hrunning, hgoes⟩ := callAll_attended hhost [call] progress
    (fun later hlater => List.mem_singleton.mp hlater ▸ ⟨hvideo, haudio⟩) h
  refine ⟨log, other, hother, hrunning, ?_⟩
  rw [callAll] at hgoes
  cases hcalled : progress.call host call with
  | goes next =>
      rw [hcalled] at hgoes
      exact hgoes
  | _ =>
      rw [hcalled] at hgoes
      cases hgoes

/-- Events that are forwarded are all given, or held back. -/
theorem forward_goes (hhost : host.Attends) (h : progress.session.feed.Running floor) :
    ∃ last, forward host progress = .goes last := by
  have hdelivers (sink : κ) {asked : Progress κ} (hasked : asked.session.feed.Running floor) :
      ∃ last, asked.deliver host sink = .goes last := by
    have hevents : ∀ call ∈ asked.session.events.map (Call.event sink),
        call.isVideo = false ∧ call.isAudio = false := by
      intro call hcall
      obtain ⟨event, -, rfl⟩ := List.mem_map.mp hcall
      exact ⟨rfl, rfl⟩
    obtain ⟨log, last, -, -, hgoes⟩ := callAll_attended hhost _
      { asked with
        session.events := [], report.forwarded := asked.session.events.length } hevents hasked
    exact ⟨last, hgoes⟩
  unfold forward
  split
  · exact ⟨_, rfl⟩
  · next sink hsink =>
      split
      · obtain ⟨log, asked, -, hasked, hgoes⟩ :=
          call_attended hhost .gui rfl rfl h
        rw [hgoes, Stage.andThen]
        split
        · exact ⟨_, rfl⟩
        · exact hdelivers sink hasked
      · exact hdelivers sink h

/-- Controls whose reads are all answered are tracked, wherever the directions can be steered. -/
theorem track_goes (hhost : host.Attends) (who : κ)
    (hsize : ∀ known, progress.session.lastSize = some known → known.FitsInt32)
    (h : progress.session.feed.Running floor) : ∃ last, track host who progress = .goes last := by
  obtain ⟨cleared, hcleared⟩ : ∃ cleared : Progress κ, cleared =
      { progress with session.events := [] } := ⟨_, rfl⟩
  have hrunning : cleared.session.feed.Running floor := by
    rw [hcleared]
    exact h
  have hknown : ∀ known, cleared.session.lastSize = some known → known.FitsInt32 := by
    rw [hcleared]
    exact hsize
  have hread (asked : List Source) :
      (cleared.afterReads host who asked).session.feed.Running floor := by
    obtain ⟨log, hmakes⟩ := cleared.afterReads_makes host who asked
    exact hrunning.leads hmakes.leads
  have hanswers (asked : List Source) (source : Source) :
      (cleared.reader host who asked source).isSome = true := by
    obtain ⟨log, other, -, -, hgoes⟩ :=
      call_attended hhost (.level who source) rfl rfl (hread asked)
    simp [reader, hgoes]
  obtain ⟨sample, hsample⟩ : ∃ sample, sample =
      cleared.session.tracker.sample (cleared.reader host who) cleared.session.lastSize := ⟨_, rfl⟩
  have hcomplete : sample.complete = true := by
    rw [hsample]
    exact Tracker.complete_sample hanswers hknown
  rw [track_eq host who hcleared hsample, if_pos hcomplete]
  exact forward_goes hhost (hread sample.asked)

end Progress

/-- A frame waits for a picture unless the size of the last one cannot be told by signed 32-bit
numbers, or a call does not come back. -/
theorem Session.waits_of_attends {session : Session κ} {floor : Nat} {host : Host κ}
    (h : session.feed.Running floor)
    (hsize : ∀ known, session.lastSize = some known → known.FitsInt32) (hhost : host.Attends) :
    session.Waits host := by
  rcases Progress.forwardInput_parts host session.begun with
    ⟨-, hgoes⟩ | ⟨who, poll, log, polled, -, hpolled, hended⟩
  · exact ⟨_, hgoes⟩
  · have hpolls : ∀ call ∈ session.begun.session.registry.poll.toList.map Call.poll,
        call.isVideo = false ∧ call.isAudio = false := by
      intro call hcall
      obtain ⟨poller, -, rfl⟩ := List.mem_map.mp hcall
      exact ⟨rfl, rfl⟩
    obtain ⟨more, other, -, -, hgoes⟩ := Progress.callAll_attended hhost _ session.begun hpolls h
    rcases hended with ⟨-, htrack⟩ | ⟨haborts, -⟩
    · have hknown : ∀ known, polled.session.lastSize = some known → known.FitsInt32 := by
        rw [hpolled.session]
        exact hsize
      rw [Session.Waits, htrack]
      exact Progress.track_goes hhost who hknown (h.leads hpolled.leads)
    · rw [hgoes] at haborts
      cases haborts

end Framestep
