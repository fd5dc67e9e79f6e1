import Framestep.Proofs.Session.Twins

/-!
# What two runs record

Two runs of a session differ in whether a sink is attached and in whether the host shows its own
interface, and in nothing else: `Session.TwinRuns`.  They record the same levels and the same cursor
after every frame, and count as many events.

This lasts until a frame is cut off in its first stage in one of the runs alone, by a sink that does
not come back or by the question for the host's own interface.  That frame shows no picture and
plays no sound, which the other one does, so the next ones may steer within different pictures:
`Session.forwarding_changes_tracking`.  From there on the runs are apart.  They still record the
same levels, and where the directions do not move the pointer everything else too.

The main statement is `Session.forwarding_keeps_tracking`.
-/

namespace Framestep

variable {κ : Type}

/-! ## Frames in step -/

theorem Settled.count {sink : Option κ} {events : List Event} {forwarded suppressed : Nat}
    {given : List (Call κ)} (h : Settled sink events forwarded suppressed given) :
    forwarded + suppressed = events.length := by
  cases h with
  | forwarded hsink => rfl
  | suppressed => exact Nat.zero_add _

namespace HostFrame

/-- Two frames that record and count the same, although they need not do the same with their
events. -/
structure SameTracking (one other : HostFrame κ) : Prop where
  tracker : one.tracker = other.tracker
  events : one.events = other.events
  reports : ∀ report report', one.result.outcome = .done report →
    other.result.outcome = .done report' →
    report.forwarded + report.suppressed = report'.forwarded + report'.suppressed

/-- Two frames of runs that are apart.  The levels agree, and everything else that is recorded and
counted does so where the directions do not move the pointer. -/
structure SameLevels (one other : HostFrame κ) : Prop where
  levels : ∀ slot, one.tracker.isPressed slot = other.tracker.isPressed slot
  undirected : (∀ step, one.session.tracker.mode ≠ .directional step) → one.SameTracking other

/-- The frames of two runs.  They record and count the same, and come to their end alike, up to one
that is cut off on its input in one of the runs alone; that one still records and counts the same,
and the frames behind it agree as those of runs that are apart. -/
inductive InStep : List (HostFrame κ) → List (HostFrame κ) → Prop where
  | nil : InStep [] []
  | cons {one other : HostFrame κ} {ones others : List (HostFrame κ)}
      (h : one.SameTracking other)
      (hends : one.result.outcome = .aborted ↔ other.result.outcome = .aborted)
      (hrest : InStep ones others) : InStep (one :: ones) (other :: others)
  | part {one other : HostFrame κ} {ones others : List (HostFrame κ)}
      (h : one.SameTracking other)
      (hcut : one.session.cutOnInput one.host ≠ other.session.cutOnInput other.host)
      (hrest : List.Forall₂ SameLevels ones others) : InStep (one :: ones) (other :: others)

end HostFrame

namespace Session

variable {first second : Session κ} {host other : Host κ}

/-- What two runs have in common once they are apart. -/
structure Akin (first second : Session κ) : Prop where
  phase : second.feed.phase = first.feed.phase
  settings : second.settings = first.settings
  controls : second.tracker.controls = first.tracker.controls
  mode : second.tracker.mode = first.tracker.mode
  pressed : second.tracker.pressed = first.tracker.pressed
  undirected : (∀ step, first.tracker.mode ≠ .directional step) → second.tracker = first.tracker

/-- Rounds that are answered alike find the same levels, wherever the pointer is. -/
theorem Akin.sample (h : first.Akin second) (read : Reader) (hfirst : first.Steerable)
    (hsecond : second.Steerable) :
    (second.tracker.sample read second.lastSize).tracker.pressed =
        (first.tracker.sample read first.lastSize).tracker.pressed ∧
      ((∀ step, first.tracker.mode ≠ .directional step) →
        (second.tracker.sample read second.lastSize).tracker =
          (first.tracker.sample read first.lastSize).tracker) := by
  by_cases hmode : ∀ step, first.tracker.mode ≠ .directional step
  · have hsample : second.tracker.sample read second.lastSize =
        first.tracker.sample read first.lastSize := by
      rw [h.undirected hmode, Tracker.sample_of_not_directional hmode]
    rw [hsample]
    exact ⟨rfl, fun _ => rfl⟩
  · refine ⟨?_, fun hundirected => (hmode hundirected).elim⟩
    simp only [not_forall, not_not] at hmode
    obtain ⟨step, hstep⟩ := hmode
    have hfollows : second.tracker.mode = .directional step := h.mode.trans hstep
    rw [Tracker.pressed_sample_of_directional hstep (hfirst step hstep),
      Tracker.pressed_sample_of_directional hfollows (hsecond step hfollows), h.controls, h.pressed]

end Session

end Framestep
