import Framestep.Proofs.Session.Flow
import Framestep.Session.Frame

/-!
# Calls and stages of a host frame

Whoever is called in a host frame may act on the feed before the call comes back, and every
call may be the last one.  Both are settled here once.  `Progress.Makes` relates a frame
before and after some calls: nothing but the feed is changed, and the log tells what was done
on it.  `Progress.callAll_cases` says that calls in a row are all made, or up to one that is
lost; `Progress.callAll_goes` is for hosts of which none is.

What each of the three stages keeps, a frame keeps wherever it is cut off: `Session.frame_of`.
-/

namespace Framestep

variable {κ : Type}

/-! ## What a list of calls tells -/

namespace Call

/-- The frames that a call gives to the host to be heard. -/
def frames : Call κ → List StereoFrame
  | .batch _ samples frames => (StereoFrame.ofSamples samples).take frames
  | .single _ left right => [(left, right)]
  | _ => []

/-- Whether a call gives sound to the host. -/
def isAudio : Call κ → Bool
  | .batch _ _ _ | .single _ _ _ => true
  | _ => false

theorem isVideo_of_isAudio {call : Call κ} (haudio : call.isAudio = true) :
    call.isVideo = false := by
  cases call <;> first | rfl | cases haudio

theorem isAudio_of_isVideo {call : Call κ} (hvideo : call.isVideo = true) :
    call.isAudio = false := by
  cases call <;> first | rfl | cases hvideo

end Call

/-- The frames that are heard in the course of calls. -/
def heard (calls : List (Call κ)) : List StereoFrame := calls.flatMap Call.frames

@[simp] theorem heard_append (earlier later : List (Call κ)) :
    heard (earlier ++ later) = heard earlier ++ heard later := List.flatMap_append

theorem heard_eq_nil_of_not_audio {calls : List (Call κ)}
    (hcalls : ∀ call ∈ calls, call.isAudio = false) : heard calls = [] := by
  apply List.flatMap_eq_nil_iff.mpr
  intro call hcall
  have haudio := hcalls call hcall
  cases call with
  | batch who samples frames => simp [Call.isAudio] at haudio
  | single who left right => simp [Call.isAudio] at haudio
  | _ => rfl

/-- Whether all of these calls have come back, the last of which comes first. -/
def Host.allReturn (host : Host κ) : List (Call κ) → Bool
  | [] => true
  | call :: earlier => host.comesBack earlier call && host.allReturn earlier

/-! ## Stages -/

/-- A stage that goes on or is cut off at the same place. -/
theorem Stage.progress_eq {stage : Stage κ} {progress : Progress κ} {P : Prop}
    (h : stage = .goes progress ∨ stage = .aborts progress ∧ P) : stage.progress = progress := by
  rcases h with hgoes | ⟨haborts, -⟩
  · rw [hgoes]
    rfl
  · rw [haborts]
    rfl

/-- What holds when a stage is left, and is kept by the next stage, holds when that one
is left. -/
theorem Stage.andThen_of {P : Progress κ → Prop} {stage : Stage κ}
    {next : Progress κ → Stage κ} (hstage : P stage.progress)
    (hnext : ∀ progress, stage = .goes progress → P (next progress).progress) :
    P (stage.andThen next).progress := by
  cases stage with
  | goes progress => exact hnext progress rfl
  | ends progress => exact hstage
  | aborts progress => exact hstage

/-- A frame is left by one of its stages.  What the first stage brings about, and the second and
the third turn into something weaker, holds when the frame is over. -/
theorem Session.frame_of {P Q R : Progress κ → Prop} {session : Session κ} (host : Host κ)
    (hready : session.feed.isReady = true)
    (hfirst : P (session.begun.forwardInput host).progress)
    (hshow : ∀ progress, P progress → Q (Progress.showPicture host progress).progress)
    (hplay : ∀ progress, Q progress → R (Progress.playAudio host progress).progress)
    (hnotShown : ∀ progress, P progress → Q progress)
    (hnotPlayed : ∀ progress, Q progress → R progress) :
    ∃ last, R last ∧ (session.frame host).session = last.session ∧
      (session.frame host).calls = last.calls.reverse ∧ (session.frame host).fed = last.fed := by
  have hshown : Q ((session.begun.forwardInput host).andThen
      (Progress.showPicture host)).progress := by
    apply Stage.andThen_of
    · exact hnotShown _ hfirst
    · intro progress hprogress
      rw [hprogress] at hfirst
      exact hshow progress hfirst
  have hplayed : R (((session.begun.forwardInput host).andThen
      (Progress.showPicture host)).andThen (Progress.playAudio host)).progress := by
    apply Stage.andThen_of
    · exact hnotPlayed _ hshown
    · intro progress hprogress
      rw [hprogress] at hshown
      exact hplay progress hshown
  rw [Session.frame, if_pos hready]
  exact ⟨_, hplayed, rfl, rfl, rfl⟩

namespace Progress

/-! ## Calls in a row -/

/-- A frame before and after some calls, which stand in order: nothing but the feed was changed
by them, and the log tells what was done on it. -/
structure Makes (progress : Progress κ) (made : List (Call κ)) (log : Feed.Log)
    (other : Progress κ) : Prop where
  leads : progress.session.feed.Leads log other.session.feed
  eq : other =
    { progress with
      session.feed := other.session.feed
      calls := made.reverse ++ progress.calls
      fed := progress.fed ++ log }

/-- A frame that is cut off: a call has not come back, or something was aborted on the feed in the
course of one. -/
def Lost (host : Host κ) (progress : Progress κ) : Prop :=
  host.allReturn progress.calls = false ∨ ¬ progress.fed.AllBack

variable {host : Host κ} {progress middle other : Progress κ} {made later : List (Call κ)}
  {log rest : Feed.Log}

theorem Makes.refl (progress : Progress κ) : progress.Makes [] [] progress := by
  constructor
  case leads => exact .still _
  case eq => simp

theorem Makes.trans (h : progress.Makes made log middle) (hrest : middle.Makes later rest other) :
    progress.Makes (made ++ later) (log ++ rest) other := by
  constructor
  case leads => exact h.leads.trans hrest.leads
  case eq =>
    rw [hrest.eq, h.eq]
    simp

theorem Makes.calls (h : progress.Makes made log other) :
    other.calls = made.reverse ++ progress.calls := by
  rw [h.eq]

theorem Makes.fed (h : progress.Makes made log other) : other.fed = progress.fed ++ log := by
  rw [h.eq]

theorem Makes.report (h : progress.Makes made log other) : other.report = progress.report := by
  rw [h.eq]

theorem Makes.session (h : progress.Makes made log other) :
    other.session = { progress.session with feed := other.session.feed } := by
  rw [h.eq]

theorem Makes.wiring (h : progress.Makes made log other) :
    progress.session.SameWiring other.session := by
  rw [h.session]
  exact progress.session.sameWiring_of_leads h.leads

/-- What is done on the feed in the course of a call is in the log, and the frame goes on unless
that call is lost. -/
theorem call_cases (host : Host κ) (progress : Progress κ) (call : Call κ) :
    ∃ log other, progress.Makes [call] log other ∧ (call.isVideo = true → log.LeavesMailbox) ∧
      (progress.call host call = .goes other ∨
        progress.call host call = .aborts other ∧ Lost host other) := by
  obtain ⟨ops, hops⟩ : ∃ ops, ops = host.does progress.calls call := ⟨_, rfl⟩
  obtain ⟨run, hrun⟩ : ∃ run, run = progress.session.feed.performAll ops := ⟨_, rfl⟩
  obtain ⟨other, hother⟩ : ∃ other : Progress κ, other =
      { progress with
        session.feed := run.feed
        calls := call :: progress.calls
        fed := progress.fed ++ run.log } := ⟨_, rfl⟩
  refine ⟨run.log, other, ⟨?_, ?_⟩, ?_, ?_⟩
  · rw [hother, hrun]
    exact progress.session.feed.leads_performAll ops
  · rw [hother]
    rfl
  · -- While its picture is shown the mailbox is held.
    intro hvideo entry hentry
    rw [hrun] at hentry
    have hdone := Feed.mem_of_mem_log hentry
    rw [hops, Host.does, if_pos hvideo] at hdone
    simpa using List.mem_takeWhile_imp hdone
  · have hcall : progress.call host call =
        if (run.complete && host.comesBack progress.calls call) = true then .goes other
        else .aborts other := by
      rw [hother, hrun, hops]
      rfl
    rw [hcall]
    split
    · exact .inl rfl
    · next hlost =>
        refine .inr ⟨rfl, ?_⟩
        rw [Bool.and_eq_true, not_and_or] at hlost
        rcases hlost with hcut | hsilent
        · right
          rw [hrun, Feed.complete_iff, ← hrun] at hcut
          rw [hother, Feed.Log.allBack_append, not_and]
          exact fun _ => hcut
        · left
          rw [Bool.not_eq_true] at hsilent
          simp [hother, Host.allReturn, hsilent]

/-- Calls in a row are all made, or up to one that is lost. -/
theorem callAll_cases (host : Host κ) (calls : List (Call κ)) (progress : Progress κ) :
    ∃ made log other, made <+: calls ∧ progress.Makes made log other ∧
      ((∀ call ∈ calls, call.isVideo = true) → log.LeavesMailbox) ∧
      (made = calls ∧ callAll host calls progress = .goes other ∨
        callAll host calls progress = .aborts other ∧ Lost host other) := by
  induction calls generalizing progress with
  | nil => exact ⟨[], [], progress, List.prefix_refl [], .refl _, nofun, .inl ⟨rfl, rfl⟩⟩
  | cons call calls ih =>
      obtain ⟨log, next, hfirst, hspared, hcalled⟩ := call_cases host progress call
      rw [callAll]
      rcases hcalled with hgoes | ⟨haborts, hlost⟩
      · rw [hgoes]
        obtain ⟨made, more, other, hmade, hrest, hothers, hended⟩ := ih next
        refine ⟨call :: made, log ++ more, other, List.cons_prefix_cons.mpr ⟨rfl, hmade⟩,
          hfirst.trans hrest, ?_, ?_⟩
        · intro hvideo entry hentry
          rcases List.mem_append.mp hentry with hentry | hentry
          · exact hspared (hvideo call (List.mem_cons_self ..)) entry hentry
          · exact hothers (fun other hother => hvideo other (List.mem_cons_of_mem _ hother))
              entry hentry
        · simpa [Stage.andThen] using hended
      · rw [haborts]
        refine ⟨[call], log, next, ⟨calls, rfl⟩, hfirst, ?_, .inr ⟨rfl, hlost⟩⟩
        exact fun hvideo => hspared (hvideo call (List.mem_cons_self ..))

/-- Calls in a row that all come back are all made.  What is asked of them may be asked for feeds
with a property alone that everything done on a feed keeps. -/
theorem callAll_goes {P : Feed → Prop} (host : Host κ) (calls : List (Call κ))
    (progress : Progress κ)
    (hleads : ∀ {feed log last}, P feed → feed.Leads log last → P last)
    (hback : ∀ past, ∀ call ∈ calls, host.comesBack past call = true ∧
      ∀ feed, P feed → (feed.performAll (host.does past call)).complete = true)
    (h : P progress.session.feed) :
    ∃ log other, progress.Makes calls log other ∧ P other.session.feed ∧
      callAll host calls progress = .goes other := by
  induction calls generalizing progress with
  | nil => exact ⟨[], progress, .refl progress, h, rfl⟩
  | cons call calls ih =>
      obtain ⟨hcomes, hcompletes⟩ := hback progress.calls call (List.mem_cons_self ..)
      obtain ⟨log, next, hfirst, -, hcalled⟩ := call_cases host progress call
      have hnext : progress.call host call = .goes next := by
        rcases hcalled with hgoes | ⟨haborts, -⟩
        · exact hgoes
        · simp [Progress.call, hcomes, hcompletes _ h] at haborts
      obtain ⟨more, other, hrest, hother, hended⟩ :=
        ih next (fun past later hlater => hback past later (List.mem_cons_of_mem _ hlater))
          (hleads h hfirst.leads)
      refine ⟨log ++ more, other, hfirst.trans hrest, hother, ?_⟩
      rw [callAll, hnext]
      exact hended

/-- Calls in a row make some of these calls, and nothing else is changed. -/
theorem callAll_makes (host : Host κ) (calls : List (Call κ)) (progress : Progress κ) :
    ∃ made log, (∀ call ∈ made, call ∈ calls) ∧
      progress.Makes made log (callAll host calls progress).progress := by
  obtain ⟨made, log, other, hmade, hmakes, -, hended⟩ := callAll_cases host calls progress
  have hprogress : (callAll host calls progress).progress = other := by
    rcases hended with ⟨-, hgoes⟩ | ⟨haborts, -⟩
    · rw [hgoes]
      rfl
    · rw [haborts]
      rfl
  rw [hprogress]
  exact ⟨made, log, fun call hcall => hmade.subset hcall, hmakes⟩

end Progress

end Framestep
