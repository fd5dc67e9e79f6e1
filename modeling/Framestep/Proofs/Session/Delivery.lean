import Framestep.Proofs.Session.Serving
import Framestep.Proofs.Session.Stream

/-!
# Nothing is delivered twice

A call that does not come back cuts a host frame off.  What it was to deliver may be lost, but
no later frame delivers it again.  The frames that are heard are some of the pushed ones, the
pictures that are shown are not more than were announced, and the events of a slot are some of
its changes, each in their order.

Each of the three has a lemma for one operation and one for a run of operations.  The main
statement, `Session.delivers_once`, puts them together for every session that was started and
has not been torn down.
-/

namespace Framestep

variable {κ : Type}

/-! ## Sound -/

namespace Session

variable {session : Session κ} {floor : Nat} {queue : List StereoFrame} {op : Op κ}

theorem frame_sound (host : Host κ) (h : session.feed.Running floor)
    (hqueue : session.feed.Queues queue) :
    let frame := session.frame host
    ∃ later, frame.session.feed.Queues later ∧
      (heard frame.calls ++ later).Sublist (queue ++ frame.fed.accepted) := by
  intro frame
  obtain ⟨shown, played, log, last, hserves, hsession, hcalls, hfed⟩ := frame_serves host h
  obtain ⟨hleads, hsilent⟩ := session.leads_forwardInput host
  obtain ⟨now, hnow, hpushed⟩ := hleads.flow hqueue
  obtain ⟨later, hlater, htaken⟩ := hserves.sound now hnow
  have hshown : heard shown = [] := heard_eq_nil_of_not_audio fun call hcall =>
    call.isAudio_of_isVideo (hserves.shown_isVideo call hcall)
  have hheard : heard frame.calls = heard played := by
    rw [hcalls, heard_append, heard_append, hsilent, hshown, List.nil_append, List.nil_append]
  rw [hsession, hheard, hfed, Feed.Log.accepted_append, ← List.append_assoc]
  exact ⟨later, hlater, htaken.trans (hpushed.sublist.append_right _)⟩

/-- What is heard in an operation and what is queued behind it are some of the frames that were
queued before it and of those that were queued in the course of it. -/
theorem perform_sound (h : session.feed.Running floor) (hqueue : session.feed.Queues queue)
    (hop : op ≠ .teardown) :
    let step := session.perform op
    ∃ later, step.session.feed.Queues later ∧
      (heard step.calls ++ later).Sublist (queue ++ step.fed.accepted) := by
  intro step
  by_cases hframe : ∃ host, op = .frame host
  · obtain ⟨host, rfl⟩ := hframe
    exact frame_sound host h hqueue
  · obtain ⟨later, hlater, hflow⟩ := perform_flow hqueue hop fun host hhost =>
      (hframe ⟨host, hhost⟩).elim
    exact ⟨later, hlater, hflow.sublist⟩

theorem stream_sound (ops : List (Op κ)) (h : session.feed.Running floor)
    (hqueue : session.feed.Queues queue) (hops : ∀ op ∈ ops, op ≠ .teardown) :
    ∃ later, (session.performAll ops).2.feed.Queues later ∧
      ((session.stream ops).played ++ later).Sublist (queue ++ (session.stream ops).pushed) := by
  induction ops generalizing session queue with
  | nil => exact ⟨queue, hqueue, (List.append_nil queue).symm ▸ List.Sublist.refl _⟩
  | cons op ops ih =>
      have hop := hops op (List.mem_cons_self ..)
      obtain ⟨middle, hmiddle, hfirst⟩ := perform_sound h hqueue hop
      obtain ⟨later, hlater, hrest⟩ := ih (running_perform h hop) hmiddle
        fun other hother => hops other (List.mem_cons_of_mem _ hother)
      refine ⟨later, hlater, ?_⟩
      have hbehind := hrest.append_left (heard (session.perform op).calls)
      have hbefore := hfirst.append_right ((session.perform op).session.stream ops).pushed
      simp only [List.append_assoc] at hbehind hbefore
      simp only [stream, List.append_assoc]
      exact hbehind.trans hbefore

end Session

/-! ## Pictures -/

namespace Session

/-- The calls that a session makes in the course of operations. -/
def calls (session : Session κ) (ops : List (Op κ)) : List (Call κ) :=
  (session.performAll ops).1.flatMap Step.calls

/-- How many pictures were announced in the course of operations. -/
def announced (session : Session κ) (ops : List (Op κ)) : Nat :=
  ((session.performAll ops).1.map fun step => step.fed.announced).sum

variable {session : Session κ} {floor : Nat} {op : Op κ}

theorem frame_pictures (host : Host κ) (h : session.feed.Running floor) :
    let frame := session.frame host
    frame.calls.countP Call.isVideo + frame.session.feed.mailbox.available.toNat ≤
      session.feed.mailbox.available.toNat + frame.fed.announced := by
  intro frame
  obtain ⟨shown, played, log, last, hserves, hsession, hcalls, hfed⟩ := frame_serves host h
  have hfirst := (session.leads_forwardInput host).1.available
  have hpictures := hserves.pictures
  have hcount : frame.calls.countP Call.isVideo = shown.length := by
    have hfirst : (session.begun.forwardInput host).progress.calls.countP Call.isVideo = 0 := by
      rw [List.countP_eq_zero]
      intro call hcall
      simp [isVideo_of_mem_forwardInput hcall]
    have hshown : shown.countP Call.isVideo = shown.length :=
      List.countP_eq_length.mpr hserves.shown_isVideo
    have hplayed : played.countP Call.isVideo = 0 := by
      rw [List.countP_eq_zero]
      intro call hcall
      simp [call.isVideo_of_isAudio (hserves.played_isAudio call hcall)]
    rw [hcalls, List.countP_append, List.countP_append, List.countP_reverse, hfirst, hshown,
      hplayed, Nat.zero_add, Nat.add_zero]
  rw [hcount, hsession, hfed, Feed.Log.announced_append]
  omega

/-- A picture that an operation shows, or that is announced behind it, was announced before it or
in the course of it. -/
theorem perform_pictures (h : session.feed.Running floor) (hop : op ≠ .teardown) :
    let step := session.perform op
    step.calls.countP Call.isVideo + step.session.feed.mailbox.available.toNat ≤
      session.feed.mailbox.available.toNat + step.fed.announced := by
  cases op with
  | start launch memory =>
      simp only [perform, start_of_ready launch memory h.phase]
      exact (Nat.zero_add _).le.trans (Nat.le_add_right _ _)
  | teardown => exact (hop rfl).elim
  | frame host => exact frame_pictures host h
  | attachMachine startup =>
      obtain ⟨outcome, sink, hattached⟩ := session.exists_attachMachine startup
      simp only [perform, hattached]
      exact (Nat.zero_add _).le.trans (session.feed.leads_performAll startup.feeds).available
  | produce op => exact (Nat.zero_add _).le.trans (session.feed.leads_perform op).available
  | _ => exact (Nat.zero_add _).le.trans (Nat.le_add_right _ _)

theorem calls_pictures (ops : List (Op κ)) (h : session.feed.Running floor)
    (hops : ∀ op ∈ ops, op ≠ .teardown) :
    (session.calls ops).countP Call.isVideo +
        (session.performAll ops).2.feed.mailbox.available.toNat ≤
      session.feed.mailbox.available.toNat + session.announced ops := by
  induction ops generalizing session with
  | nil => exact (Nat.zero_add _).le
  | cons op ops ih =>
      have hop := hops op (List.mem_cons_self ..)
      have hfirst := perform_pictures h hop
      have hrest := ih (running_perform h hop) fun other hother =>
        hops other (List.mem_cons_of_mem _ hother)
      simp only [calls, performAll, List.flatMap_cons, List.countP_append, announced,
        List.map_cons, List.sum_cons] at hrest ⊢
      omega

end Session

/-! ## Edges -/

namespace Session

variable {session : Session κ} {floor : Nat} {op : Op κ}

theorem perform_tracks (h : session.feed.Running floor) (hop : op ≠ .teardown) :
    session.Tracks op (session.perform op).calls (session.perform op).session.tracker := by
  cases op with
  | start launch memory =>
      simp only [perform, start_of_ready launch memory h.phase]
      exact tracks_nil
  | teardown => exact (hop rfl).elim
  | frame host => exact frame_tracks host h
  | attachMachine startup =>
      obtain ⟨outcome, sink, hattached⟩ := session.exists_attachMachine startup
      simp only [perform, hattached]
      exact tracks_nil
  | _ => exact tracks_nil

/-- The levels that a slot is found at in the course of operations. -/
def levels (session : Session κ) (slot : Slot) : List (Op κ) → List Bool
  | [] => []
  | op :: ops =>
    (session.found? slot op).toList ++ (session.perform op).session.levels slot ops

/-- The events given to the machine in the course of operations, each beside the slot that it
comes from: those of an operation are the first of those that its levels make. -/
def deliveries (session : Session κ) : List (Op κ) → List (Option Slot × Event)
  | [] => []
  | op :: ops =>
    let step := session.perform op
    (session.tracker.labelled step.session.tracker).take (given step.calls).length ++
      step.session.deliveries ops

theorem map_deliveries (ops : List (Op κ)) (h : session.feed.Running floor)
    (hops : ∀ op ∈ ops, op ≠ .teardown) :
    (session.deliveries ops).map Prod.snd = given (session.calls ops) := by
  induction ops generalizing session with
  | nil => rfl
  | cons op ops ih =>
      have hop := hops op (List.mem_cons_self ..)
      have hrest := ih (running_perform h hop) fun other hother =>
        hops other (List.mem_cons_of_mem _ hother)
      have hbegins := (perform_tracks h hop).begins
      rw [deliveries, List.map_append, hrest, List.map_take,
        ← List.prefix_iff_eq_take.mp hbegins]
      simp [calls, performAll]

theorem eq_moved_of_mem_deliveries (ops : List (Op κ)) {event : Event}
    (hevent : (none, event) ∈ session.deliveries ops) : ∃ x y, event = .moved x y := by
  induction ops generalizing session with
  | nil => cases hevent
  | cons op ops ih =>
      rcases List.mem_append.mp hevent with hfirst | hrest
      · exact Tracker.eq_moved_of_mem_labelled (List.mem_of_mem_take hfirst)
      · exact ih hrest

theorem deliveries_edges (ops : List (Op κ)) (h : session.feed.Running floor)
    (hops : ∀ op ∈ ops, op ≠ .teardown) (slot : Slot) :
    (((session.deliveries ops).filter (·.1 = some slot)).map Prod.snd).Sublist
      (session.tracker.controls.changes slot (session.tracker.isPressed slot)
        (session.levels slot ops)) := by
  induction ops generalizing session with
  | nil => exact List.nil_sublist _
  | cons op ops ih =>
      have hop := hops op (List.mem_cons_self ..)
      have hrest := ih (running_perform h hop) fun other hother =>
        hops other (List.mem_cons_of_mem _ hother)
      rw [(session.sameMakeup_perform op).controls] at hrest
      obtain ⟨after, hafter⟩ : ∃ after, after = (session.perform op).session.tracker := ⟨_, rfl⟩
      have hfirst : ((((session.tracker.labelled after).take
          (given (session.perform op).calls).length).filter (·.1 = some slot)).map
            Prod.snd).Sublist (session.tracker.changeTo? after slot).toList := by
        rw [← Tracker.filter_labelled]
        exact ((List.take_sublist _ _).filter _).map _
      have hrecords := (perform_tracks h hop).records slot
      rw [← hafter] at hrest hrecords
      rw [deliveries, levels, List.filter_append, List.map_append, ← hafter]
      exact (hfirst.append hrest).trans
        (session.tracker.controls.changes_recorded slot hrecords _)

end Session

/-! ## The law -/

/-- Nothing is delivered twice in the course of these operations. -/
structure Session.DeliversOnce (session : Session κ) (ops : List (Session.Op κ)) : Prop where
  /-- What was played and what is queued are some of the pushed frames, in their order. -/
  sound : ∃ ring, (session.performAll ops).2.feed.ring = some ring ∧
    ((session.stream ops).played ++ ring.toFrames).Sublist (session.stream ops).pushed
  pictures : (session.calls ops).countP Call.isVideo ≤ session.announced ops
  /-- Each event given comes from a slot or is a move of the pointer. -/
  events : (session.deliveries ops).map Prod.snd = given (session.calls ops) ∧
    ∀ event, (none, event) ∈ session.deliveries ops → ∃ x y, event = .moved x y
  /-- The events given for a slot are some of its changes, in their order. -/
  edges : ∀ slot, (((session.deliveries ops).filter (·.1 = some slot)).map Prod.snd).Sublist
    (session.tracker.controls.changes slot false (session.levels slot ops))

namespace Session

variable {session : Session κ}

/-- The law of deliveries, from a start to any moment before the next teardown, whichever calls do
not come back and wherever someone is aborted on the feed. -/
theorem delivers_once {settings : Settings} {asksGui : Bool}
    (hcreate : create settings asksGui = .done session) (earlier : List (Op κ))
    {launch : Launch} {memory : Memory} {started : Session κ}
    (hidle : (session.performAll earlier).2.feed.isReady = false)
    (hstart : (session.performAll earlier).2.start launch memory = (.done (), started))
    (ops : List (Op κ)) (hops : ∀ op ∈ ops, op ≠ .teardown) : started.DeliversOnce ops := by
  obtain ⟨reached, hreached⟩ : ∃ reached, reached = (session.performAll earlier).2 := ⟨_, rfl⟩
  have horder : reached.InOrder := by
    rw [hreached]
    exact inOrder_of_create hcreate earlier
  rw [← hreached] at hidle hstart
  have hphase : reached.feed.phase ≠ .ready := fun hready => by
    rw [reached.feed.isReady_iff.mpr hready] at hidle
    cases hidle
  have hstopped : reached.feed.Stopped := horder.stopped hphase
  rcases start_cases launch memory hphase with ⟨fault, -, hfails⟩ | ⟨ring, hring, hstarts⟩
  · rw [hfails] at hstart
    cases hstart
  · rw [hstarts, Prod.mk.injEq] at hstart
    obtain ⟨-, rfl⟩ := hstart
    have hrunning := running_started horder hstopped launch hring
    have hqueue : (reached.started launch ring).feed.Queues [] :=
      ⟨rfl, ring, rfl, Ring.wellFormed_of_create hring, Ring.toFrames_of_create hring⟩
    constructor
    case sound =>
      obtain ⟨later, ⟨-, last, hlast, -, rfl⟩, hsound⟩ := stream_sound ops hrunning hqueue hops
      exact ⟨last, hlast, hsound⟩
    case pictures =>
      -- The mailbox is opened with nothing announced in it.
      have hnothing : (reached.started launch ring).feed.mailbox.available.toNat = 0 := rfl
      have hcount := calls_pictures ops hrunning hops
      omega
    case events =>
      exact ⟨map_deliveries ops hrunning hops, fun event => eq_moved_of_mem_deliveries ops⟩
    case edges => exact deliveries_edges ops hrunning hops

/-- The law at work on four frames with a key held down.  The sink gives up on the key, then the
video callback on the picture and the audio callback on a batch; the fourth frame goes on with what
is left and gives the release of the key. -/
theorem delivers_once_of_three_cuts :
    let settings : Settings :=
      { audioCapacity := 4, audioBatch := 1, batchesPerFrame := 1, pointer := .disabled
        controls := Controls.keyboardAndMouse }
    let session : Session Unit := unstarted settings false
    let host (givesUp : Call Unit → Bool) (level : Int16) : Host Unit :=
      { returns := fun _ call => !givesUp call
        level := fun _ _ source => if source = .pad .up then level else 0
        guiVisible := fun _ => false, feeds := fun _ _ => [] }
    let ops : List (Op Unit) :=
      [.register .level (), .register .video (), .register .batch (), .attach (),
        .produce (.push [1, -1, 2, -2, 3, -3] 3), .produce (.submit ⟨1, 1, 4⟩ #[1, 2, 3, 4]),
        .frame (host Call.isEvent 1), .frame (host Call.isVideo 1), .frame (host Call.isAudio 1),
        .frame (host (fun _ => false) 0)]
    create settings false = .done session ∧ session.feed.isReady = false ∧
      (∀ op ∈ ops, op ≠ .teardown) ∧
      ∃ started, session.start {} = (.done (), started) ∧ started.DeliversOnce ops ∧
        ((started.performAll ops).1.drop 6).map Step.outcome =
          [.aborted, .aborted, .aborted,
            .done (.report { forwarded := 1, audioFrames := 1, audioBatches := 1 })] ∧
        started.stream ops = ⟨[(1, -1), (2, -2), (3, -3)], [(1, -1), (2, -2)], 0⟩ ∧
        (started.calls ops).countP Call.isVideo = 1 ∧ started.announced ops = 1 ∧
        started.levels .up ops = [true, true, true, false] ∧
        started.deliveries ops =
          [(some .up, .keyDown AdbKey.up), (some .up, .keyUp AdbKey.up)] := by
  intro settings session host ops
  have hcreate : create settings false = .done session := rfl
  have hidle : session.feed.isReady = false := rfl
  have hstart : session.start {} = (.done (), (session.start {}).2) := rfl
  have hops : ∀ op ∈ ops, op ≠ .teardown := by simp [ops]
  exact ⟨hcreate, hidle, hops, _, hstart, delivers_once hcreate [] hidle hstart ops hops,
    by decide +kernel, by decide +kernel, by decide +kernel, by decide +kernel,
    by decide +kernel, by decide +kernel⟩

end Session

end Framestep
