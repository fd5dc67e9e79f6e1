import Framestep.Session.Basic

/-!
# What stays while a session is used

A machine changes the ring, the mailbox and the sample rate of its feed.  A host frame
changes besides only the levels and the cursor of the tracker, the size of the last
picture, and what frames leave behind for the next one.  `Session.SameMakeup` names what no
operation on a session changes, and `Session.SameWiring` what neither a machine nor a host
frame changes.

Whoever holds the feed may act on it at many moments.  What was done is in a log, and
`Feed.Leads` says that the operations of a log lead from one feed to another: what each of
them keeps, all of them keep (`Feed.Leads.keeps`).
-/

namespace Framestep

variable {κ : Type}

/-! ## Feeds -/

namespace Feed

theorem exists_push (feed : Feed) (samples : List Int16) (frames : Nat) (memory : Memory) :
    ∃ ring, (feed.push samples frames memory).2 = { feed with ring } := by
  unfold push
  split
  · exact ⟨feed.ring, rfl⟩
  · split <;> exact ⟨_, rfl⟩

/-- An operation of a machine changes nothing of a feed but these three, and one on sound
leaves the mailbox alone. -/
theorem exists_perform (feed : Feed) (op : Op) :
    ∃ ring mailbox rate, (feed.perform op).2 = { feed with ring, mailbox, rate } ∧
      (op.isPicture = false → mailbox = feed.mailbox) := by
  cases op with
  | submit layout pixels memory =>
      exact ⟨feed.ring, _, feed.rate, rfl, by simp [Op.isPicture]⟩
  | paint layout painter memory =>
      exact ⟨feed.ring, _, feed.rate, rfl, by simp [Op.isPicture]⟩
  | signal => exact ⟨feed.ring, _, feed.rate, rfl, by simp [Op.isPicture]⟩
  | push samples frames memory =>
      obtain ⟨ring, hring⟩ := exists_push feed samples frames memory
      exact ⟨ring, feed.mailbox, feed.rate, hring, fun _ => rfl⟩
  | pushBlock block channels memory =>
      obtain ⟨ring, hring⟩ := exists_push feed (block.appendTo channels []).2
        (block.appendTo channels []).1 memory
      exact ⟨ring, feed.mailbox, feed.rate, hring, fun _ => rfl⟩
  | setRate rate =>
      simp only [perform, setRate]
      split
      · exact ⟨feed.ring, feed.mailbox, rate, rfl, fun _ => rfl⟩
      · exact ⟨feed.ring, feed.mailbox, feed.rate, rfl, fun _ => rfl⟩
  | status => exact ⟨feed.ring, feed.mailbox, feed.rate, rfl, fun _ => rfl⟩

theorem ceiling_perform (feed : Feed) (op : Op) :
    (feed.perform op).2.ceiling = feed.ceiling := by
  obtain ⟨ring, mailbox, rate, hperform, -⟩ := exists_perform feed op
  rw [hperform]

theorem phase_perform (feed : Feed) (op : Op) : (feed.perform op).2.phase = feed.phase := by
  obtain ⟨ring, mailbox, rate, hperform, -⟩ := exists_perform feed op
  rw [hperform]

/-! ## Logs -/

/-- The operations of a log lead from one feed to another, each with its outcome. -/
inductive Leads : Feed → Log → Feed → Prop where
  | still (feed : Feed) : Leads feed [] feed
  | step (feed : Feed) (op : Op) {log : Log} {last : Feed}
      (rest : Leads (feed.perform op).2 log last) :
      Leads feed ((op, (feed.perform op).1) :: log) last

variable {feed middle last : Feed} {log rest : Log}

theorem leads_perform (feed : Feed) (op : Op) :
    feed.Leads [(op, (feed.perform op).1)] (feed.perform op).2 := .step feed op (.still _)

theorem Leads.trans (h : feed.Leads log middle) (hrest : middle.Leads rest last) :
    feed.Leads (log ++ rest) last := by
  induction h with
  | still feed => exact hrest
  | step feed op _ ih => exact .step feed op (ih hrest)

/-- What was carried out leads to where it ended, also where it was cut short. -/
theorem leads_performAll (feed : Feed) (ops : List Op) :
    feed.Leads (feed.performAll ops).log (feed.performAll ops).feed := by
  induction ops generalizing feed with
  | nil => exact .still feed
  | cons op ops ih =>
      have hfirst := Leads.step feed op (ih (feed.perform op).2)
      have hlast := leads_perform feed op
      cases hperform : feed.perform op with
      | mk answer next =>
          rw [hperform] at hfirst hlast
          simp only [performAll, hperform]
          cases answer with
          | aborted => exact hlast
          | _ => exact hfirst

/-- Operations that were carried out are among those that were meant to be. -/
theorem mem_of_mem_log {ops : List Op} {entry : Op × Outcome Answer}
    (hentry : entry ∈ (feed.performAll ops).log) : entry.1 ∈ ops := by
  induction ops generalizing feed with
  | nil => cases hentry
  | cons op ops ih =>
      cases hperform : feed.perform op with
      | mk answer next =>
          simp only [performAll, hperform] at hentry
          cases answer with
          | aborted =>
              rw [List.mem_singleton.mp hentry]
              exact List.mem_cons_self ..
          | _ =>
              rcases List.mem_cons.mp hentry with rfl | hlater
              · exact List.mem_cons_self ..
              · exact List.mem_cons_of_mem _ (ih hlater)

/-- Whether all of these operations came back. -/
def Log.AllBack (log : Log) : Prop := ∀ entry ∈ log, entry.2 ≠ .aborted

instance (log : Log) : Decidable log.AllBack :=
  inferInstanceAs (Decidable (∀ entry ∈ log, entry.2 ≠ .aborted))

theorem Log.allBack_append : (log ++ rest).AllBack ↔ log.AllBack ∧ rest.AllBack := by
  simp only [Log.AllBack, List.mem_append, or_imp, forall_and]

/-- A run that is cut short is one in which an operation did not come back. -/
theorem complete_iff (feed : Feed) (ops : List Op) :
    (feed.performAll ops).complete = true ↔ (feed.performAll ops).log.AllBack := by
  induction ops generalizing feed with
  | nil => simp [performAll, Log.AllBack]
  | cons op ops ih =>
      cases hperform : feed.perform op with
      | mk answer next =>
          simp only [performAll, hperform]
          cases answer with
          | aborted => simp [Log.AllBack]
          | _ => simpa [Log.AllBack] using ih next

/-- What each of the operations keeps, all of them keep. -/
theorem Leads.keeps {P : Feed → Prop} (h : feed.Leads log last)
    (hstep : ∀ feed, ∀ entry ∈ log, P feed → P (feed.perform entry.1).2) (hfirst : P feed) :
    P last := by
  induction h with
  | still feed => exact hfirst
  | step feed op _ ih =>
      apply ih
      · intro other entry hentry
        exact hstep other entry (List.mem_cons_of_mem _ hentry)
      · exact hstep feed _ (List.mem_cons_self ..) hfirst

theorem Leads.ceiling (h : feed.Leads log last) : last.ceiling = feed.ceiling :=
  h.keeps (P := fun other => other.ceiling = feed.ceiling)
    (fun other entry _ hother => (other.ceiling_perform entry.1).trans hother) rfl

theorem Leads.phase (h : feed.Leads log last) : last.phase = feed.phase :=
  h.keeps (P := fun other => other.phase = feed.phase)
    (fun other entry _ hother => (other.phase_perform entry.1).trans hother) rfl

/-- Whether no operation of a log is one on the mailbox. -/
def Log.LeavesMailbox (log : Log) : Prop := ∀ entry ∈ log, entry.1.isPicture = false

/-- Operations on sound leave the mailbox alone. -/
theorem Leads.mailbox (h : feed.Leads log last) (hlog : log.LeavesMailbox) :
    last.mailbox = feed.mailbox := by
  apply h.keeps (P := fun other => other.mailbox = feed.mailbox) _ rfl
  intro other entry hentry hother
  obtain ⟨ring, mailbox, rate, hperform, hsound⟩ := exists_perform other entry.1
  rw [hperform]
  exact (hsound (hlog entry hentry)).trans hother

end Feed

/-! ## Sessions -/

namespace Session

/-- What no operation on a session changes. -/
structure SameMakeup (before after : Session κ) : Prop where
  settings : after.settings = before.settings
  asksGui : after.asksGui = before.asksGui
  controls : after.tracker.controls = before.tracker.controls
  mode : after.tracker.mode = before.tracker.mode
  ceiling : after.feed.ceiling = before.feed.ceiling

/-- What no host frame and no machine changes: also whom the session calls. -/
structure SameWiring (before after : Session κ) : Prop extends SameMakeup before after where
  registry : after.registry = before.registry
  sink : after.sink = before.sink

variable {first second third : Session κ}

theorem SameMakeup.refl (session : Session κ) : session.SameMakeup session :=
  ⟨rfl, rfl, rfl, rfl, rfl⟩

theorem SameMakeup.trans (h : first.SameMakeup second) (h' : second.SameMakeup third) :
    first.SameMakeup third :=
  ⟨h'.settings.trans h.settings, h'.asksGui.trans h.asksGui, h'.controls.trans h.controls,
    h'.mode.trans h.mode, h'.ceiling.trans h.ceiling⟩

theorem SameMakeup.symm (h : first.SameMakeup second) : second.SameMakeup first :=
  ⟨h.settings.symm, h.asksGui.symm, h.controls.symm, h.mode.symm, h.ceiling.symm⟩

theorem SameWiring.refl (session : Session κ) : session.SameWiring session :=
  ⟨.refl session, rfl, rfl⟩

theorem SameWiring.trans (h : first.SameWiring second) (h' : second.SameWiring third) :
    first.SameWiring third :=
  ⟨h.toSameMakeup.trans h'.toSameMakeup, h'.registry.trans h.registry, h'.sink.trans h.sink⟩

theorem SameWiring.symm (h : first.SameWiring second) : second.SameWiring first :=
  ⟨h.toSameMakeup.symm, h.registry.symm, h.sink.symm⟩

/-- Neither the feed, as long as it keeps its ceiling, nor what a frame leaves behind is part of
the wiring. -/
theorem sameWiring_of_feed (session : Session κ) {feed : Feed} (lastSize : Option Size)
    (events : List Event) (scratch : List Int16) (hceiling : feed.ceiling = session.feed.ceiling) :
    session.SameWiring { session with feed, lastSize, events, scratch } :=
  ⟨⟨rfl, rfl, rfl, rfl, hceiling⟩, rfl, rfl⟩

/-- What is done on the feed keeps the wiring. -/
theorem sameWiring_of_leads (session : Session κ) {log : Feed.Log} {feed : Feed}
    (h : session.feed.Leads log feed) : session.SameWiring { session with feed } :=
  session.sameWiring_of_feed session.lastSize session.events session.scratch h.ceiling

end Session

end Framestep
