import Framestep.Proofs.Control.Reads
import Framestep.Proofs.Session.Frame

/-!
# The first stage of a host frame

The host is asked to look at its controls, they are read and recorded, and what has changed
is given to the machine or held back.  `Progress.Onward` relates a frame before and after a
part of this stage: of the session only the feed, the tracker and the events are changed, and
the log tells what was done on the feed.

The stage is put together from its parts in their order: `Progress.deliver_cases`,
`Progress.forward_cases`, `Progress.track_cases` and `Progress.forwardInput_parts`.  The main
statement, `Progress.forwardInput_cases`, says in which order the calls are made and when the
stage does not come to its end.
-/

namespace Framestep

variable {κ : Type}

namespace Progress

variable {host : Host κ} {progress middle other : Progress κ} {made later : List (Call κ)}
  {log rest : Feed.Log}

/-! ## Frames on their way through the stage -/

/-- What the first stage reports is not about pictures or sound. -/
def SameShow (progress other : Progress κ) : Prop :=
  other.report = { progress.report with
    forwarded := other.report.forwarded, suppressed := other.report.suppressed }

/-- A frame before and after some calls of its first stage.  Of the session this stage changes
the feed, the tracker and the events, and besides what it has to report of them. -/
structure Onward (progress : Progress κ) (made : List (Call κ)) (log : Feed.Log)
    (other : Progress κ) : Prop where
  leads : progress.session.feed.Leads log other.session.feed
  calls : other.calls = made.reverse ++ progress.calls
  fed : other.fed = progress.fed ++ log
  session : other.session =
    { progress.session with
      feed := other.session.feed
      tracker := other.session.tracker
      events := other.session.events }
  controls : other.session.tracker.controls = progress.session.tracker.controls
  mode : other.session.tracker.mode = progress.session.tracker.mode
  report : SameShow progress other

theorem Makes.onward (h : progress.Makes made log other) : progress.Onward made log other := by
  have hsession := h.session
  constructor
  case leads => exact h.leads
  case calls => exact h.calls
  case fed => exact h.fed
  case session => rw [hsession]
  case controls => rw [hsession]
  case mode => rw [hsession]
  case report => rw [SameShow, h.report]

theorem Onward.trans (h : progress.Onward made log middle)
    (hrest : middle.Onward later rest other) :
    progress.Onward (made ++ later) (log ++ rest) other := by
  constructor
  case leads => exact h.leads.trans hrest.leads
  case calls =>
    rw [hrest.calls, h.calls]
    simp
  case fed => rw [hrest.fed, h.fed, List.append_assoc]
  case session => rw [hrest.session, h.session]
  case controls => exact hrest.controls.trans h.controls
  case mode => exact hrest.mode.trans h.mode
  case report => rw [SameShow, hrest.report, h.report]

theorem Onward.wiring (h : progress.Onward made log other) :
    progress.session.SameWiring other.session := by
  have hceiling := h.leads.ceiling
  have hcontrols := h.controls
  have hmode := h.mode
  rw [h.session]
  exact ⟨⟨rfl, rfl, hcontrols, hmode, hceiling⟩, rfl, rfl⟩

/-! ## The events -/

/-- The call that asks the host for its own interface, if it is asked. -/
def guiCalls (asks : Bool) : List (Call κ) := if asks then [.gui] else []

end Progress

/-- The calls that give events to a sink, if there is one. -/
def eventCalls (sink : Option κ) (events : List Event) : List (Call κ) :=
  sink.toList.flatMap fun who => events.map (Call.event who)

/-- What becomes of the events of a frame whose first stage comes to its end, as it counts them
and as it calls: all of them are given to the sink, or all of them are held back. -/
inductive Settled (sink : Option κ) (events : List Event) : Nat → Nat → List (Call κ) → Prop where
  | forwarded {who : κ} (hsink : sink = some who) :
      Settled sink events events.length 0 (events.map (Call.event who))
  | suppressed : Settled sink events 0 events.length []

namespace Progress

variable {host : Host κ} {progress other : Progress κ}

theorem suppress_onward (progress : Progress κ) : progress.Onward [] [] progress.suppress :=
  ⟨.still _, rfl, (List.append_nil _).symm, rfl, rfl, rfl, rfl⟩

/-- The events of the frame are given to the machine from the first on, or up to one that is
lost. -/
theorem deliver_cases (host : Host κ) {sink : κ} (hsink : progress.session.sink = some sink) :
    ∃ given log other, given <+: eventCalls progress.session.sink progress.session.events ∧
      progress.Onward given log other ∧
      other.session.tracker = progress.session.tracker ∧
      (progress.deliver host sink = .goes other ∧
          (progress.report = {} → Settled progress.session.sink progress.session.events
            other.report.forwarded other.report.suppressed given) ∨
        progress.deliver host sink = .aborts other ∧ Lost host other) := by
  obtain ⟨emptied, hemptied⟩ : ∃ emptied : Progress κ, emptied =
      { progress with
        session.events := [], report.forwarded := progress.session.events.length } := ⟨_, rfl⟩
  have hfirst : progress.Onward [] [] emptied := by
    rw [hemptied]
    exact ⟨.still _, rfl, (List.append_nil _).symm, rfl, rfl, rfl, rfl⟩
  have hcalls : eventCalls progress.session.sink progress.session.events =
      progress.session.events.map (.event sink) := by
    simp [eventCalls, hsink]
  obtain ⟨given, log, other, hgiven, hmakes, -, hended⟩ :=
    callAll_cases host (progress.session.events.map (.event sink)) emptied
  have htracker : other.session.tracker = progress.session.tracker := by
    rw [hmakes.session, hemptied]
  rw [deliver, ← hemptied, hcalls]
  refine ⟨given, log, other, hgiven, hfirst.trans hmakes.onward, htracker, ?_⟩
  rcases hended with ⟨hall, hgoes⟩ | haborts
  · refine .inl ⟨hgoes, ?_⟩
    intro hreport
    rw [hall, hmakes.report, hemptied, hreport]
    exact .forwarded hsink
  · exact .inr haborts

/-- The events of the frame are held back, or given to the machine from the first on; before
that the host may be asked for its own interface. -/
theorem forward_cases (host : Host κ) (progress : Progress κ) :
    ∃ asks given log other,
      given <+: eventCalls progress.session.sink progress.session.events ∧
      progress.Onward (guiCalls asks ++ given) log other ∧
      other.session.tracker = progress.session.tracker ∧
      (forward host progress = .goes other ∧
          (progress.report = {} → Settled progress.session.sink progress.session.events
            other.report.forwarded other.report.suppressed given) ∨
        forward host progress = .aborts other ∧ Lost host other) := by
  unfold forward
  split
  · refine ⟨false, [], [], progress.suppress, List.nil_prefix, progress.suppress_onward, rfl,
      .inl ⟨rfl, ?_⟩⟩
    intro hreport
    simp only [suppress, hreport]
    exact .suppressed
  · next sink hsink =>
      split
      · obtain ⟨log, asked, hasked, -, hcalled⟩ := call_cases host progress .gui
        have hevents : asked.session.events = progress.session.events := by rw [hasked.session]
        have hsame : asked.session.sink = progress.session.sink := by rw [hasked.session]
        have htracker : asked.session.tracker = progress.session.tracker := by
          rw [hasked.session]
        rcases hcalled with hgoes | ⟨haborts, hlost⟩
        · rw [hgoes, Stage.andThen]
          split
          · refine ⟨true, [], log ++ [], asked.suppress, List.nil_prefix,
              hasked.onward.trans asked.suppress_onward, htracker, .inl ⟨rfl, ?_⟩⟩
            intro hreport
            simp only [suppress, hasked.report, hreport, hevents]
            exact .suppressed
          · obtain ⟨given, more, other, hgiven, hother, htracked, hended⟩ :=
              asked.deliver_cases host (hsame.trans hsink)
            rw [hsame, hevents, hasked.report] at hended
            rw [hsame, hevents] at hgiven
            exact ⟨true, given, log ++ more, other, hgiven, hasked.onward.trans hother,
              htracked.trans htracker, hended⟩
        · rw [haborts, Stage.andThen]
          exact ⟨true, [], log, asked, List.nil_prefix, hasked.onward, htracker,
            .inr ⟨rfl, hlost⟩⟩
      · obtain ⟨given, log, other, hgiven, hother, htracker, hended⟩ :=
          deliver_cases host hsink
        exact ⟨false, given, log, other, hgiven, hother, htracker, hended⟩

/-! ## The reads -/

/-- Reads are made one after the other, and nothing else is changed by them. -/
theorem afterReads_makes (host : Host κ) (who : κ) (progress : Progress κ)
    (asked : List Source) :
    ∃ log, progress.Makes (asked.reverse.map (Call.level who)) log
      (progress.afterReads host who asked) := by
  induction asked with
  | nil => exact ⟨[], .refl progress⟩
  | cons source asked ih =>
      obtain ⟨log, hbefore⟩ := ih
      obtain ⟨more, other, hread, -, hcalled⟩ :=
        call_cases host (progress.afterReads host who asked) (.level who source)
      have hother : progress.afterReads host who (source :: asked) = other :=
        Stage.progress_eq hcalled
      rw [hother, List.reverse_cons, List.map_append]
      exact ⟨log ++ more, hbefore.trans hread⟩

/-- A read without an answer is lost. -/
theorem lost_afterReads {who : κ} {asked : List Source} {source : Source}
    (hread : progress.reader host who asked source = none) :
    Lost host (progress.afterReads host who (source :: asked)) := by
  obtain ⟨log, other, -, -, hcalled⟩ :=
    call_cases host (progress.afterReads host who asked) (.level who source)
  have hother : progress.afterReads host who (source :: asked) = other :=
    Stage.progress_eq hcalled
  rw [hother]
  rcases hcalled with hgoes | ⟨-, hlost⟩
  · simp [reader, hgoes] at hread
  · exact hlost

end Progress

/-- What is made of a call at most is that call or nothing. -/
theorem exists_toList_of_prefix {α β : Type} {f : α → β} {whole : Option α} {made : List β}
    (hmade : made <+: whole.toList.map f) : ∃ part : Option α, made = part.toList.map f := by
  cases made with
  | nil => exact ⟨none, rfl⟩
  | cons first rest =>
      cases whole with
      | none => simp at hmade
      | some value =>
          obtain ⟨hfirst, hrest⟩ := List.cons_prefix_cons.mp hmade
          rw [hfirst, List.prefix_nil.mp hrest]
          exact ⟨some value, rfl⟩

/-- The first read that gives up has no answer. -/
theorem Reader.read_of_lost? {read : Reader} {asked sources : List Source} {n : Nat}
    (hlost : read.lost? asked sources = some n) :
    ∃ source, sources.take (n + 1) = sources.take n ++ [source] ∧
      read ((sources.take n).reverse ++ asked) source = none := by
  induction sources generalizing asked n with
  | nil => cases hlost
  | cons first sources ih =>
      rw [Reader.lost?] at hlost
      cases hanswer : read asked first with
      | none =>
          rw [hanswer] at hlost
          cases hlost
          exact ⟨first, rfl, hanswer⟩
      | some level =>
          simp only [hanswer, Option.map_eq_some_iff] at hlost
          obtain ⟨m, hm, rfl⟩ := hlost
          obtain ⟨source, htaken, hnone⟩ := ih hm
          refine ⟨source, ?_, ?_⟩
          · simp only [List.take_succ_cons] at htaken ⊢
            rw [htaken]
            rfl
          · simpa using hnone

/-- The directions have no picture to steer within that is too large for the tracker. -/
def Session.Steerable (session : Session κ) : Prop :=
  ∀ step, session.tracker.mode = .directional step →
    ∀ size, session.lastSize = some size → size.FitsInt32

namespace Progress

variable {host : Host κ} {progress : Progress κ}

/-- A round of the tracker that does not come to its end has lost a read, or has nowhere to
steer. -/
theorem lost_of_incomplete {who : κ}
    (hincomplete : (progress.session.tracker.sample (progress.reader host who)
      progress.session.lastSize).complete = false) :
    Lost host (progress.afterReads host who (progress.session.tracker.sample
        (progress.reader host who) progress.session.lastSize).asked) ∨
      ¬ progress.session.Steerable := by
  have hreads := progress.session.tracker.readsInOrder (progress.reader host who)
    progress.session.lastSize
  cases hlost : (progress.reader host who).lost? [] progress.session.tracker.script with
  | none =>
      right
      intro hsteerable
      rw [(hreads.whole hlost).2 hsteerable] at hincomplete
      cases hincomplete
  | some n =>
      left
      obtain ⟨source, htaken, hnone⟩ := Reader.read_of_lost? hlost
      have hasked := (hreads.cut n hlost).1
      rw [htaken, List.reverse_eq_iff, List.reverse_append] at hasked
      rw [hasked]
      rw [List.append_nil] at hnone
      exact lost_afterReads hnone

/-- The frame after a round of the tracker: the reads are made, and what they found is
recorded. -/
def sampled (host : Host κ) (who : κ) (progress : Progress κ) (sample : Sample) : Progress κ :=
  let read := progress.afterReads host who sample.asked
  { read with
    session.tracker := sample.tracker
    session.events := read.session.events ++ sample.events }

/-- The events are forwarded from where the round has left the frame, if it came to its end. -/
theorem track_eq (host : Host κ) (who : κ) {progress cleared : Progress κ} {sample : Sample}
    (hcleared : cleared = { progress with session.events := [] })
    (hsample : sample =
      cleared.session.tracker.sample (cleared.reader host who) cleared.session.lastSize) :
    track host who progress =
      if sample.complete = true then forward host (cleared.sampled host who sample)
      else .aborts (cleared.sampled host who sample) := by
  rw [hsample, hcleared]
  rfl

/-- The reads of a round come first, and what they find is recorded.  Then events of the round are
given to the machine, from the first on, if the round came to its end. -/
theorem track_cases (host : Host κ) (who : κ) (progress : Progress κ) :
    let cleared := { progress with session.events := [] }
    let sample := cleared.session.tracker.sample (cleared.reader host who) cleared.session.lastSize
    ∃ (reads : List Source) (asks : Bool) (given : List (Call κ)) (log : Feed.Log)
      (other : Progress κ),
      given <+: eventCalls progress.session.sink sample.events ∧
      other.session.tracker = sample.tracker ∧
      progress.Onward (reads.map (Call.level who) ++ (guiCalls asks ++ given)) log other ∧
      (track host who progress = .goes other ∧
          (progress.report = {} → Settled progress.session.sink sample.events
            other.report.forwarded other.report.suppressed given) ∨
        track host who progress = .aborts other ∧
          (Lost host other ∨ ¬ progress.session.Steerable ∧ asks = false ∧ given = [])) := by
  intro cleared round
  obtain ⟨sample, hsample⟩ : ∃ sample, sample = round := ⟨_, rfl⟩
  obtain ⟨log, hreads⟩ := cleared.afterReads_makes host who sample.asked
  have hcleared : cleared = { progress with session.events := [] } := rfl
  have htrack := track_eq host who hcleared hsample
  have hsession := hreads.session
  obtain ⟨next, hnext⟩ : ∃ next, next = cleared.sampled host who sample := ⟨_, rfl⟩
  have htracker : next.session.tracker = sample.tracker := by rw [hnext, sampled]
  have hsink : next.session.sink = progress.session.sink := by rw [hnext, sampled, hsession]
  have hreport : next.report = progress.report := by
    rw [hnext]
    exact hreads.report
  have hevents : next.session.events = sample.events := by
    rw [hnext, sampled, hsession]
    exact List.nil_append _
  -- The round is recorded behind the reads, and changes neither the calls nor the feed.
  have honward : progress.Onward (sample.asked.reverse.map (Call.level who)) log next := by
    have hbefore := hreads.onward
    rw [hnext]
    constructor
    case leads => exact hbefore.leads
    case calls => exact hbefore.calls
    case fed => exact hbefore.fed
    case session => rw [sampled, hsession]
    case controls =>
      rw [hsample]
      exact Tracker.controls_sample _ _ _
    case mode =>
      rw [hsample]
      exact Tracker.mode_sample _ _ _
    case report => exact hbefore.report
  rw [htrack, ← hnext, ← hsample]
  split
  · obtain ⟨asks, given, more, other, hgiven, hother, htracked, hended⟩ :=
      forward_cases host next
    rw [hsink, hevents] at hgiven hended
    rw [hreport] at hended
    refine ⟨sample.asked.reverse, asks, given, log ++ more, other, hgiven,
      htracked.trans htracker, honward.trans hother, ?_⟩
    rcases hended with hgoes | ⟨haborts, hlost⟩
    · exact .inl hgoes
    · exact .inr ⟨haborts, .inl hlost⟩
  · next hincomplete =>
      -- The controls could not be read, and no event is given.
      rw [Bool.not_eq_true, hsample] at hincomplete
      refine ⟨sample.asked.reverse, false, [], log, next, List.nil_prefix, htracker, ?_,
        .inr ⟨rfl, ?_⟩⟩
      · simpa [guiCalls] using honward
      · rcases lost_of_incomplete hincomplete with hlost | hfar
        · left
          rw [hnext, hsample]
          exact hlost
        · exact .inr ⟨hfar, rfl, rfl⟩

/-- The first stage has nothing to do where no levels can be read.  Otherwise the host is asked to
look at its controls, once at most, and then they are tracked. -/
theorem forwardInput_parts (host : Host κ) (progress : Progress κ) :
    progress.session.registry.level = none ∧ forwardInput host progress = .goes progress ∨
      ∃ (who : κ) (poll : Option κ) (log : Feed.Log) (polled : Progress κ),
        progress.session.registry.level = some who ∧
        progress.Makes (poll.toList.map Call.poll) log polled ∧
        (callAll host (progress.session.registry.poll.toList.map .poll) progress = .goes polled ∧
            forwardInput host progress = track host who polled ∨
          callAll host (progress.session.registry.poll.toList.map .poll) progress =
              .aborts polled ∧
            forwardInput host progress = .aborts polled ∧ Lost host polled) := by
  unfold forwardInput
  cases hlevel : progress.session.registry.level with
  | none =>
      simp only [Registry.input?, hlevel, Option.map_none]
      exact .inl ⟨trivial, trivial⟩
  | some who =>
      obtain ⟨made, log, polled, hmade, hpolled, -, hcalled⟩ :=
        callAll_cases host (progress.session.registry.poll.toList.map .poll) progress
      obtain ⟨poll, rfl⟩ := exists_toList_of_prefix hmade
      simp only [Registry.input?, hlevel, Option.map_some]
      refine .inr ⟨who, poll, log, polled, rfl, hpolled, ?_⟩
      rcases hcalled with ⟨-, hgoes⟩ | ⟨haborts, hlost⟩
      · rw [hgoes]
        exact .inl ⟨rfl, rfl⟩
      · rw [haborts]
        exact .inr ⟨rfl, rfl, hlost⟩

end Progress

/-! ## The whole stage -/

/-- The calls of the first stage: one to look at the controls at most, then the reads, then
the question for the host's own interface, then the events given to the machine. -/
structure Inputs (κ : Type) where
  poll : Option κ := none
  reads : List (κ × Source) := []
  asks : Bool := false
  events : List (κ × Event) := []

def Inputs.calls (inputs : Inputs κ) : List (Call κ) :=
  inputs.poll.toList.map Call.poll ++
    (inputs.reads.map (fun read => Call.level read.1 read.2) ++
      (Progress.guiCalls inputs.asks ++
        inputs.events.map fun event => Call.event event.1 event.2))

/-- What holds of the four kinds of calls holds of all calls of the first stage. -/
theorem Inputs.forall_mem_calls {P : Call κ → Prop} (hpoll : ∀ who, P (.poll who))
    (hlevel : ∀ who source, P (.level who source)) (hgui : P .gui)
    (hevent : ∀ who event, P (.event who event)) (inputs : Inputs κ) :
    ∀ call ∈ inputs.calls, P call := by
  intro call hcall
  simp only [Inputs.calls, Progress.guiCalls, List.mem_append, List.mem_map] at hcall
  rcases hcall with ⟨poll, -, rfl⟩ | ⟨read, -, rfl⟩ | hasked | ⟨event, -, rfl⟩
  · exact hpoll poll
  · exact hlevel read.1 read.2
  · split at hasked
    · rw [List.mem_singleton.mp hasked]
      exact hgui
    · cases hasked
  · exact hevent event.1 event.2

/-- Calls that give events are those of some events. -/
theorem exists_events_of_prefix {sink : Option κ} {events : List Event} {given : List (Call κ)}
    (hgiven : given <+: eventCalls sink events) :
    ∃ pairs : List (κ × Event), given = pairs.map fun event => .event event.1 event.2 := by
  have hall : eventCalls sink events =
      (sink.toList.flatMap fun who => events.map (Prod.mk who)).map
        fun event => .event event.1 event.2 := by
    simp [eventCalls, List.map_flatMap, Function.comp_def]
  rw [hall, List.prefix_iff_eq_take, ← List.map_take] at hgiven
  exact ⟨_, hgiven⟩

namespace Progress

/-- The first stage makes its calls in this order, does nothing to the feed but what the log
tells, and goes on unless a call is lost or the tracker has nowhere to steer. -/
theorem forwardInput_cases (host : Host κ) (progress : Progress κ) :
    ∃ (inputs : Inputs κ) (log : Feed.Log) (other : Progress κ),
      (progress.session.registry.level = none → inputs = {}) ∧
      progress.Onward inputs.calls log other ∧
      (forwardInput host progress = .goes other ∨
        forwardInput host progress = .aborts other ∧
          (Lost host other ∨ ¬ progress.session.Steerable ∧ inputs.events = [])) := by
  rcases forwardInput_parts host progress with
    ⟨-, hgoes⟩ | ⟨who, poll, log, polled, hlevel, hpolled, hended⟩
  · exact ⟨{}, [], progress, fun _ => rfl, (Makes.refl progress).onward, .inl hgoes⟩
  · rw [hlevel]
    rcases hended with ⟨-, htrack⟩ | ⟨-, haborts, hlost⟩
    · obtain ⟨reads, asks, given, more, other, hgiven, -, hother, hended⟩ :=
        track_cases host who polled
      obtain ⟨events, rfl⟩ := exists_events_of_prefix hgiven
      have hsteerable : polled.session.Steerable ↔ progress.session.Steerable := by
        rw [Session.Steerable, hpolled.session]
        rfl
      rw [hsteerable] at hended
      rw [htrack]
      refine ⟨⟨poll, reads.map (Prod.mk who), asks, events⟩, log ++ more, other, nofun, ?_, ?_⟩
      · have hall := hpolled.onward.trans hother
        simpa [Inputs.calls, Function.comp_def] using hall
      · rcases hended with ⟨hgoes, -⟩ | ⟨haborts, hlost | ⟨hfar, -, hnone⟩⟩
        · exact .inl hgoes
        · exact .inr ⟨haborts, .inl hlost⟩
        · exact .inr ⟨haborts, .inr ⟨hfar, List.map_eq_nil_iff.mp hnone⟩⟩
    · refine ⟨⟨poll, [], false, []⟩, log, polled, nofun, ?_, .inr ⟨haborts, .inl hlost⟩⟩
      simpa [Inputs.calls, guiCalls] using hpolled.onward

end Progress

namespace Session

/-- The first stage of a frame makes calls that are not about pictures or sound. -/
theorem onward_forwardInput (session : Session κ) (host : Host κ) :
    ∃ (inputs : Inputs κ) (log : Feed.Log),
      session.begun.Onward inputs.calls log (session.begun.forwardInput host).progress := by
  obtain ⟨inputs, log, other, -, hother, hended⟩ :=
    Progress.forwardInput_cases host session.begun
  rw [Stage.progress_eq hended]
  exact ⟨inputs, log, hother⟩

/-- The first stage does to the feed what its log tells, and nothing is heard in it. -/
theorem leads_forwardInput (session : Session κ) (host : Host κ) :
    let first := (session.begun.forwardInput host).progress
    session.feed.Leads first.fed first.session.feed ∧ heard first.calls.reverse = [] := by
  obtain ⟨inputs, log, hfirst⟩ := session.onward_forwardInput host
  intro first
  have hfed : first.fed = log := hfirst.fed
  have hcalls : first.calls.reverse = inputs.calls := by
    rw [hfirst.calls]
    simp [begun]
  rw [hfed, hcalls]
  refine ⟨hfirst.leads, ?_⟩
  apply heard_eq_nil_of_not_audio
  exact inputs.forall_mem_calls (P := fun call => call.isAudio = false)
    (fun _ => rfl) (fun _ _ => rfl) rfl (fun _ _ => rfl)

theorem sameWiring_forwardInput (session : Session κ) (host : Host κ) :
    session.SameWiring (session.begun.forwardInput host).progress.session := by
  obtain ⟨inputs, log, hfirst⟩ := session.onward_forwardInput host
  exact hfirst.wiring

end Session

end Framestep
