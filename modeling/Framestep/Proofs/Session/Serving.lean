import Framestep.Proofs.Control.Changes
import Framestep.Proofs.Session.Order

/-!
# What a host frame takes and gives

Whatever a session delivers it takes out of its place before it makes the call: a picture out of
the mailbox, a batch out of the ring, and an edge by recording the levels.  So a frame can be
described alike wherever a call cuts it off.

`Progress.Serves` is what the second and the third stage take and give, next to what is done on
the feed meanwhile, and `Session.frame_serves` says that they do nothing else.
`Session.Tracks` is what the first stage records and gives, for a whole frame:
`Session.frame_tracks`.
-/

namespace Framestep

variable {κ : Type}

/-- The event that a call gives to the machine. -/
def Call.event? : Call κ → Option Event
  | .event _ input => some input
  | _ => none

/-- The events that are given to the machine in the course of calls. -/
def given (calls : List (Call κ)) : List Event := calls.filterMap Call.event?

@[simp] theorem given_append (earlier later : List (Call κ)) :
    given (earlier ++ later) = given earlier ++ given later := List.filterMap_append

theorem given_eq_nil {calls : List (Call κ)} (hcalls : ∀ call ∈ calls, call.isEvent = false) :
    given calls = [] := by
  apply List.filterMap_eq_nil_iff.mpr
  intro call hcall
  have hevent := hcalls call hcall
  cases call with
  | event who event => cases hevent
  | _ => rfl

theorem Call.isEvent_of_isVideo {call : Call κ} (hvideo : call.isVideo = true) :
    call.isEvent = false := by
  cases call <;> first | rfl | cases hvideo

theorem Call.isEvent_of_isAudio {call : Call κ} (haudio : call.isAudio = true) :
    call.isEvent = false := by
  cases call <;> first | rfl | cases haudio

theorem Progress.isEvent_of_mem_guiCalls {asks : Bool} {call : Call κ}
    (hcall : call ∈ guiCalls asks) : call.isEvent = false := by
  unfold guiCalls at hcall
  split at hcall
  · rw [List.mem_singleton.mp hcall]
    rfl
  · cases hcall

/-- Calls that begin to give events to a sink give the first of them. -/
theorem given_prefix {sink : Option κ} {events : List Event} {calls : List (Call κ)}
    (hcalls : calls <+: eventCalls sink events) : given calls <+: events := by
  have hgiven : given calls <+: given (eventCalls sink events) := hcalls.filterMap Call.event?
  cases sink with
  | none => exact hgiven.trans List.nil_prefix
  | some who =>
      have hall : given (eventCalls (some who) events) = events := by
        simp [given, eventCalls, Call.event?, List.filterMap_map, Function.comp_def]
      rwa [hall] at hgiven

/-- The events between two records of a tracker. -/
def Tracker.eventsTo (before after : Tracker) : List Event := (before.labelled after).map Prod.snd

@[simp] theorem Tracker.eventsTo_self (tracker : Tracker) : tracker.eventsTo tracker = [] := by
  simp [eventsTo, map_labelled, changeTo?, move]

/-! ## Announcements -/

namespace Feed

/-- Whether an operation that was answered so has announced a picture.  An open mailbox takes
every signal. -/
def Op.announces : Op → Outcome Answer → Bool
  | .submit .., .done _ => true
  | .signal, .done _ => true
  | _, _ => false

/-- How many of the operations of a log have announced a picture. -/
def Log.announced (log : Log) : Nat := log.countP fun entry => entry.1.announces entry.2

@[simp] theorem Log.announced_append (log rest : Log) :
    Log.announced (log ++ rest) = log.announced + rest.announced := List.countP_append

variable {feed last : Feed} {log : Log}

/-- A picture is announced by an operation, or was before. -/
theorem available_perform (feed : Feed) (op : Op) :
    (feed.perform op).2.mailbox.available.toNat ≤
      feed.mailbox.available.toNat + if op.announces (feed.perform op).1 then 1 else 0 := by
  by_cases hpicture : op.isPicture = true
  · cases op with
    | submit layout pixels memory =>
        simp only [perform, submit, Mailbox.submit_eq]
        split
        · exact Nat.le_add_right _ _
        · exact Nat.le_add_left _ _
    | paint layout painter memory =>
        simp only [perform, paint, Mailbox.paint_eq]
        split <;> exact Nat.le_add_right _ _
    | signal => exact (Bool.toNat_le _).trans (Nat.le_add_left _ _)
    | _ => cases hpicture
  · obtain ⟨ring, mailbox, rate, hperform, hsound⟩ := exists_perform feed op
    rw [hperform, hsound (Bool.not_eq_true _ ▸ hpicture)]
    exact Nat.le_add_right _ _

/-- So it is in the course of a log. -/
theorem Leads.available (h : feed.Leads log last) :
    last.mailbox.available.toNat ≤ feed.mailbox.available.toNat + log.announced := by
  induction h with
  | still feed => exact Nat.le_refl _
  | step feed op _ ih =>
      have hfirst := available_perform feed op
      simp only [Log.announced, List.countP_cons] at ih ⊢
      omega

end Feed

/-! ## The second and the third stage -/

namespace Progress

/-- How a frame goes on behind its first stage.  The picture that it shows was announced and is
not any more, the sound that it plays was queued and is not any more, and the tracker is left
alone.  The log is what is done on the feed meanwhile. -/
structure Serves (before after : Progress κ) (shown played : List (Call κ)) (log : Feed.Log) :
    Prop where
  calls : after.calls = played.reverse ++ (shown.reverse ++ before.calls)
  fed : after.fed = before.fed ++ log
  tracker : after.session.tracker = before.session.tracker
  shown_isVideo : ∀ call ∈ shown, call.isVideo = true
  played_isAudio : ∀ call ∈ played, call.isAudio = true
  pictures : shown.length + after.session.feed.mailbox.available.toNat ≤
    before.session.feed.mailbox.available.toNat + log.announced
  sound : ∀ queue, before.session.feed.Queues queue →
    ∃ rest, after.session.feed.Queues rest ∧
      (heard played ++ rest).Sublist (queue ++ log.accepted)

variable {progress first middle last : Progress κ} {shown played : List (Call κ)}
  {log more : Feed.Log} {floor : Nat}

theorem Serves.nothing (progress : Progress κ) : progress.Serves progress [] [] [] := by
  constructor
  case calls => rfl
  case fed => exact (List.append_nil _).symm
  case tracker => rfl
  case shown_isVideo => exact nofun
  case played_isAudio => exact nofun
  case pictures => simp
  case sound =>
    exact fun queue hqueue => ⟨queue, hqueue, (List.append_nil queue).symm ▸ List.Sublist.refl _⟩

/-- A picture is shown first, and sound is played behind it. -/
theorem Serves.andThen (h : first.Serves middle shown [] log)
    (h' : middle.Serves last [] played more) : first.Serves last shown played (log ++ more) := by
  have hshown := h.pictures
  have hplayed := h'.pictures
  constructor
  case calls => simpa [h.calls] using h'.calls
  case fed => rw [h'.fed, h.fed, List.append_assoc]
  case tracker => exact h'.tracker.trans h.tracker
  case shown_isVideo => exact h.shown_isVideo
  case played_isAudio => exact h'.played_isAudio
  case pictures =>
    rw [List.length_nil] at hplayed
    rw [Feed.Log.announced_append]
    omega
  case sound =>
    intro queue hqueue
    obtain ⟨now, hnow, hkept⟩ := h.sound queue hqueue
    obtain ⟨rest, hrest, htaken⟩ := h'.sound now hnow
    refine ⟨rest, hrest, htaken.trans ?_⟩
    rw [Feed.Log.accepted_append, ← List.append_assoc]
    exact hkept.append_right _

theorem serves_showPicture (host : Host κ) (h : progress.session.feed.Running floor) :
    ∃ shown log, progress.Serves (showPicture host progress).progress shown [] log := by
  rcases showPicture_cases host h.mailbox with
    ⟨hclosed, -⟩ | ⟨-, hstage⟩ | ⟨view, made, log, other, hview, hmade, -, hmakes, hstage⟩
  · rw [h.opened] at hclosed
    cases hclosed
  · refine ⟨[], [], ?_⟩
    rw [hstage]
    constructor
    case calls => rfl
    case fed => exact (List.append_nil _).symm
    case tracker => rfl
    case shown_isVideo => exact nofun
    case played_isAudio => exact nofun
    case pictures => exact Nat.zero_le _
    case sound =>
      intro queue hqueue
      exact ⟨queue, hqueue.congr rfl rfl, (List.append_nil queue).symm ▸ List.Sublist.refl _⟩
  · have hcount : made.length ≤ 1 := by
      refine hmade.length_le.trans ?_
      rw [Registry.present_eq, pictureCalls, List.length_map]
      exact Option.length_toList_le
    -- The picture that is shown was announced, and is not any more when the call is made.
    have hpictures : made.length + other.session.feed.mailbox.available.toNat ≤
        progress.session.feed.mailbox.available.toNat + log.announced := by
      obtain ⟨-, havailable, -⟩ := (Mailbox.collect_eq_presented_iff h.mailbox).mp hview
      have hfed := hmakes.leads.available
      rw [havailable]
      simp only [Bool.toNat_false, Bool.toNat_true] at hfed ⊢
      omega
    have hsound (queue : List StereoFrame) (hqueue : progress.session.feed.Queues queue) :
        ∃ rest, other.session.feed.Queues rest ∧ rest.Sublist (queue ++ log.accepted) := by
      obtain ⟨later, hlater, hflow⟩ := hmakes.leads.flow (hqueue.congr rfl rfl)
      exact ⟨later, hlater, hflow.sublist⟩
    have htracker : other.session.tracker = progress.session.tracker := by
      rw [hmakes.session]
    refine ⟨made, log, ?_⟩
    rcases hstage with ⟨-, hstage⟩ | ⟨hstage, -⟩
    all_goals
      rw [hstage]
      constructor
      case calls => exact hmakes.calls
      case fed => exact hmakes.fed
      case tracker => exact htracker
      case shown_isVideo =>
        exact fun call hcall => Registry.isVideo_of_mem_present (hmade.subset hcall)
      case played_isAudio => exact nofun
      case pictures => exact hpictures
      case sound => exact hsound

/-- What is heard of batches is what was taken, or its beginning where a call is lost. -/
theorem heard_prefix_flatten {registry : Registry κ} (haudio : registry.hasAudio = true)
    {batches : List (List StereoFrame)} {made : List (Call κ)}
    (hmade : made <+: registry.playAll batches) : heard made <+: batches.flatten := by
  obtain ⟨unmade, hunmade⟩ := hmade
  rw [← Registry.heard_playAll haudio batches, ← hunmade, heard_append]
  exact List.prefix_append _ _

end Progress

/-- Whoever looks into a mailbox leaves it as it is, or without an announcement. -/
theorem Mailbox.collect_takes (box : Mailbox) :
    box.collect.2 = box ∨ box.collect.2.available = false := by
  unfold collect
  split
  · exact .inl rfl
  · split
    · exact .inl rfl
    · right
      simp only
      split
      · rfl
      · split <;> rfl

namespace Progress

variable {progress : Progress κ} {floor : Nat}

/-- Pictures are announced by what is done on the feed, and by nothing that a frame does
itself. -/
theorem kept_announced (before : Progress κ) :
    Kept fun progress : Progress κ =>
      progress.session.feed.mailbox.available.toNat + before.fed.announced ≤
        before.session.feed.mailbox.available.toNat + progress.fed.announced := by
  constructor
  case makes =>
    intro progress made log other h hmakes
    have hfed := hmakes.leads.available
    rw [hmakes.fed, Feed.Log.announced_append]
    omega
  case looks =>
    intro progress h
    rcases progress.session.feed.mailbox.collect_takes with hkept | htaken
    · rw [hkept]
      exact h
    · simp only [htaken, Bool.toNat_false]
      omega
  case takes => exact fun h _ => h
  case spares => exact fun _ _ _ h => h

theorem kept_tracker (tracker : Tracker) :
    Kept fun progress : Progress κ => progress.session.tracker = tracker := by
  constructor
  case makes =>
    intro progress made log other h hmakes
    rw [hmakes.session]
    exact h
  case looks => exact id
  case takes => exact fun h _ => h
  case spares => exact fun _ _ _ h => h

theorem serves_playAudio (host : Host κ) (h : progress.session.feed.Running floor) :
    ∃ played log, progress.Serves (playAudio host progress).progress [] played log := by
  have hannounced :
      (playAudio host progress).progress.session.feed.mailbox.available.toNat +
          progress.fed.announced ≤
        progress.session.feed.mailbox.available.toNat +
          (playAudio host progress).progress.fed.announced :=
    (kept_announced progress).playAudio host (Nat.le_refl _)
  have htracker :
      (playAudio host progress).progress.session.tracker = progress.session.tracker :=
    (kept_tracker progress.session.tracker).playAudio host rfl
  unfold playAudio at hannounced htracker ⊢
  split
  · next haudio =>
      rw [if_pos haudio] at hannounced htracker
      obtain ⟨queue, hqueue⟩ := h.queues
      obtain ⟨batches, made, log, other, later, -, -, hmade, hcalls, hfed, hlater, hflow, hended⟩ :=
        playBatches_cases host progress.session.settings.batchesPerFrame hqueue
      have hsound : (heard made ++ later).Sublist (queue ++ log.accepted) :=
        ((heard_prefix_flatten haudio hmade).sublist.append_right _).trans hflow.sublist
      have hstage : (playBatches host progress.session.settings.batchesPerFrame
          progress).progress = other := by
        rcases hended with ⟨hgoes, -⟩ | ⟨haborts, -⟩
        · rw [hgoes]
          rfl
        · rw [haborts]
          rfl
      rw [hstage] at hannounced htracker ⊢
      refine ⟨made, log, ?_⟩
      constructor
      case calls => exact hcalls
      case fed => exact hfed
      case tracker => exact htracker
      case shown_isVideo => exact nofun
      case played_isAudio =>
        exact fun call hcall => Registry.isAudio_of_mem_playAll (hmade.subset hcall)
      case pictures =>
        rw [hfed, Feed.Log.announced_append] at hannounced
        rw [List.length_nil]
        omega
      case sound =>
        intro present hpresent
        obtain rfl := hqueue.unique hpresent
        exact ⟨later, hlater, hsound⟩
  · exact ⟨[], [], .nothing progress⟩

end Progress

namespace Session

variable {session : Session κ} {floor : Nat}

/-- The second and the third stage of a frame serve what the first one has left, as far as they
come. -/
theorem frame_serves (host : Host κ) (h : session.feed.Running floor) :
    let first := (session.begun.forwardInput host).progress
    ∃ shown played log last, first.Serves last shown played log ∧
      (session.frame host).session = last.session ∧
      (session.frame host).calls = first.calls.reverse ++ (shown ++ played) ∧
      (session.frame host).fed = first.fed ++ log := by
  intro first
  have hfirst : first.session.feed.Running floor := running_forwardInput host h
  have hlast : ∃ last, (∃ shown played log, first.Serves last shown played log) ∧
      (session.frame host).session = last.session ∧
      (session.frame host).calls = last.calls.reverse ∧ (session.frame host).fed = last.fed := by
    apply frame_of (P := fun progress => progress = first)
      (Q := fun progress =>
        ∃ shown log, first.Serves progress shown [] log ∧
          progress.session.feed.Running floor)
      host (session.feed.isReady_iff.mpr h.phase) rfl
    case hshow =>
      rintro _ rfl
      obtain ⟨shown, log, hserves⟩ := Progress.serves_showPicture host hfirst
      exact ⟨shown, log, hserves, (Progress.kept_running floor).showPicture host hfirst⟩
    case hplay =>
      rintro progress ⟨shown, log, hshown, hrunning⟩
      obtain ⟨played, more, hplayed⟩ := Progress.serves_playAudio host hrunning
      exact ⟨shown, played, log ++ more, hshown.andThen hplayed⟩
    case hnotShown =>
      rintro _ rfl
      exact ⟨[], [], .nothing first, hfirst⟩
    case hnotPlayed =>
      rintro progress ⟨shown, log, hshown, -⟩
      exact ⟨shown, [], log, hshown⟩
  obtain ⟨last, ⟨shown, played, log, hserves⟩, hsession, hcalls, hfed⟩ := hlast
  refine ⟨shown, played, log, last, hserves, hsession, ?_, ?_⟩
  · rw [hcalls, hserves.calls]
    simp
  · rw [hfed, hserves.fed]

/-! ## The first stage -/

theorem isVideo_of_mem_forwardInput {host : Host κ} {call : Call κ}
    (hcall : call ∈ (session.begun.forwardInput host).progress.calls) : call.isVideo = false := by
  obtain ⟨inputs, log, hfirst⟩ := session.onward_forwardInput host
  rw [hfirst.calls] at hcall
  simp only [begun, List.append_nil, List.mem_reverse] at hcall
  exact Inputs.isVideo_of_mem_calls hcall

/-- How the reads of a host frame are answered, if the host gets to them. -/
def reader? (session : Session κ) (host : Host κ) : Option Reader :=
  if session.feed.isReady then
    match session.registry.input? with
    | none => none
    | some (before, who) =>
      match Progress.callAll host before session.begun with
      | .goes polled => some (Progress.reader host { polled with session.events := [] } who)
      | _ => none
  else
    none

/-- Whether an operation finds a slot on: a host frame in which every slot can be read does. -/
def found? (session : Session κ) (slot : Slot) : Op κ → Option Bool
  | .frame host => (session.reader? host).bind (·.found? session.tracker.controls slot)
  | _ => none

/-- What an operation records of the slots and gives to the machine.  The events given are the
first of those between the two records, and of every slot that is recorded which was recorded
before or is found now. -/
structure Tracks (session : Session κ) (op : Op κ) (calls : List (Call κ)) (after : Tracker) :
    Prop where
  begins : given calls <+: (session.tracker.labelled after).map Prod.snd
  records : ∀ slot, after.isPressed slot = session.tracker.isPressed slot ∨
    session.found? slot op = some (after.isPressed slot)

theorem tracks_of_still {op : Op κ} {calls : List (Call κ)}
    (hcalls : ∀ call ∈ calls, call.isEvent = false) : session.Tracks op calls session.tracker := by
  constructor
  case begins =>
    rw [given_eq_nil hcalls]
    exact List.nil_prefix
  case records => exact fun slot => .inl rfl

theorem tracks_nil {op : Op κ} : session.Tracks op [] session.tracker :=
  tracks_of_still (List.forall_mem_nil _)

/-- What the first stage of a frame of a running session has done where it is left: its calls, the
last of which give events to the sink, and the levels that it has recorded.  The events are those
between the two records. -/
theorem forwardInput_spec (host : Host κ) (hready : session.feed.isReady = true) :
    ∃ (made given : List (Call κ)) (log : Feed.Log) (other : Progress κ),
      (∀ call ∈ made, call.isEvent = false) ∧
      given <+: eventCalls session.sink (session.tracker.eventsTo other.session.tracker) ∧
      session.begun.Onward (made ++ given) log other ∧
      (∀ slot, other.session.tracker.isPressed slot = session.tracker.isPressed slot ∨
        session.found? slot (.frame host) = some (other.session.tracker.isPressed slot)) ∧
      (session.begun.forwardInput host = .goes other ∧
          Settled session.sink (session.tracker.eventsTo other.session.tracker)
            other.report.forwarded other.report.suppressed given ∨
        session.begun.forwardInput host = .aborts other) := by
  have hpoll (poll : Option κ) : ∀ call ∈ poll.toList.map Call.poll, call.isEvent = false := by
    intro call hcall
    obtain ⟨who, -, rfl⟩ := List.mem_map.mp hcall
    rfl
  rcases Progress.forwardInput_parts host session.begun with
    ⟨-, hgoes⟩ | ⟨who, poll, log, polled, hlevel, hpolled, hended⟩
  · -- Nothing is read, and there is nothing to be forwarded.
    have hnone : session.tracker.eventsTo session.begun.session.tracker = [] :=
      session.tracker.eventsTo_self
    refine ⟨[], [], [], session.begun, nofun, List.nil_prefix, (Progress.Makes.refl _).onward,
      fun slot => .inl rfl, .inl ⟨hgoes, ?_⟩⟩
    rw [hnone]
    exact .suppressed
  · have htracker : polled.session.tracker = session.tracker := by
      rw [hpolled.session]
      rfl
    have hsink : polled.session.sink = session.sink := by
      rw [hpolled.session]
      rfl
    have hreport : polled.report = {} := hpolled.report
    rcases hended with ⟨hcalled, htrack⟩ | ⟨-, haborts, -⟩
    · have hreader : session.reader? host =
          some (Progress.reader host { polled with session.events := [] } who) := by
        have hlevel : session.registry.level = some who := hlevel
        have hcalled : Progress.callAll host (session.registry.poll.toList.map .poll)
            session.begun = .goes polled := hcalled
        simp only [reader?, hready, if_true, Registry.input?, hlevel, Option.map_some, hcalled]
      obtain ⟨reads, asks, given, more, other, hgiven, hsampled, hother, hended⟩ :=
        Progress.track_cases host who polled
      obtain ⟨hlabelled, hrecords⟩ := polled.session.tracker.sample_records
        (Progress.reader host { polled with session.events := [] } who) polled.session.lastSize
      rw [hlabelled, ← hsampled, htracker, hsink] at hgiven hended
      rw [← hsampled, htracker] at hrecords
      refine ⟨poll.toList.map .poll ++ (reads.map (.level who) ++ Progress.guiCalls asks), given,
        log ++ more, other, ?_, hgiven, ?_, ?_, ?_⟩
      · intro call hcall
        rcases List.mem_append.mp hcall with hcall | hcall
        · exact hpoll poll call hcall
        · rcases List.mem_append.mp hcall with hcall | hcall
          · obtain ⟨source, -, rfl⟩ := List.mem_map.mp hcall
            rfl
          · exact Progress.isEvent_of_mem_guiCalls hcall
      · have hall := hpolled.onward.trans hother
        simpa only [List.append_assoc] using hall
      · intro slot
        rw [found?, hreader]
        exact hrecords slot
      · rw [htrack]
        rcases hended with ⟨hgoes, hsettled⟩ | ⟨haborts, -⟩
        · exact .inl ⟨hgoes, hsettled hreport⟩
        · exact .inr haborts
    · -- The host was only asked to look at its controls.
      refine ⟨poll.toList.map .poll, [], log, polled, hpoll poll, List.nil_prefix, ?_,
        fun slot => .inl (by rw [htracker]), .inr haborts⟩
      rw [List.append_nil]
      exact hpolled.onward

/-- The tracker has recorded the levels before the first event is given. -/
theorem forwardInput_tracks (host : Host κ) (hready : session.feed.isReady = true) :
    let first := (session.begun.forwardInput host).progress
    session.Tracks (.frame host) first.calls.reverse first.session.tracker := by
  intro first
  obtain ⟨made, events, log, other, hmade, hevents, hother, hrecords, hended⟩ :=
    forwardInput_spec host hready
  have hfirst : first = other := by
    rcases hended with ⟨hgoes, -⟩ | haborts
    · simp only [first, hgoes, Stage.progress]
    · simp only [first, haborts, Stage.progress]
  have hcalls : other.calls.reverse = made ++ events := by
    rw [hother.calls]
    simp [begun]
  rw [hfirst, hcalls]
  constructor
  case begins =>
    rw [given_append, given_eq_nil hmade, List.nil_append]
    exact given_prefix hevents
  case records => exact hrecords

theorem frame_tracks (host : Host κ) (h : session.feed.Running floor) :
    session.Tracks (.frame host) (session.frame host).calls
      (session.frame host).session.tracker := by
  obtain ⟨shown, played, log, last, hserves, hsession, hcalls, -⟩ := frame_serves host h
  have hfirst := forwardInput_tracks host (session.feed.isReady_iff.mpr h.phase)
  have hserved : given (shown ++ played) = [] := by
    apply given_eq_nil
    intro call hcall
    rcases List.mem_append.mp hcall with hshown | hplayed
    · exact call.isEvent_of_isVideo (hserves.shown_isVideo call hshown)
    · exact call.isEvent_of_isAudio (hserves.played_isAudio call hplayed)
  rw [hsession, hserves.tracker, hcalls]
  constructor
  case begins =>
    rw [given_append, hserved, List.append_nil]
    exact hfirst.begins
  case records => exact hfirst.records

end Session

end Framestep
