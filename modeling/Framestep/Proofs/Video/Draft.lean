import Mathlib.Data.List.Induction
import Framestep.Proofs.Video.Place

/-!
# Drafts in the mailbox

What a painter has drawn in the storage of the mailbox is a draft until it is
announced or replaced.  A draft is drawn over whatever lies in the mailbox, also over
a picture that is announced and not yet found, and that announcement stands.  So a
host can find a draft: `Mailbox.presentsDraft_iff` says after which operations, and
what is shown of it.
-/

namespace Framestep
namespace Mailbox

/-! ## What a draft is -/

def Answer.isRefusal : Answer → Bool
  | .submitted (.refused _) | .painted (.refused _) => true
  | _ => false

def refuses (box : Mailbox) (op : Op) : Bool := (box.perform op).1.isRefusal

/-- Whether an operation announces what lies in the mailbox or replaces it by a
finished picture. -/
def finishes (box : Mailbox) : Op → Bool
  | .signal => true
  | .submit layout pixels memory => !box.refuses (.submit layout pixels memory)
  | _ => false

/-- Whether none of these operations is such a one when its turn comes. -/
def leavesDraft (box : Mailbox) : List Op → Bool
  | [] => true
  | op :: ops => !box.finishes op && (box.perform op).2.leavesDraft ops

def after (box : Mailbox) (ops : List Op) : Mailbox :=
  ops.foldl (fun box op => (box.perform op).2) box

/-- These operations on a new mailbox end with a draft in it: a painter has drawn, and
nothing was announced or replaced since. -/
def HasDraft (ops : List Op) : Prop :=
  ∃ earlier layout painter memory later, ops = earlier ++ .paint layout painter memory :: later ∧
    (shut.after earlier).refuses (.paint layout painter memory) = false ∧
    (shut.after (earlier ++ [.paint layout painter memory])).leavesDraft later = true

/-- A host that looks into the mailbox after these operations is shown a draft. -/
def PresentsDraft (ops : List Op) (view : View) : Prop :=
  HasDraft ops ∧ (shut.after ops).collect.1 = .done (.presented view)

/-- The mailbox takes this draft while a picture waits in it, and refuses whatever comes
after. -/
structure DrawnOver (earlier : List Op) (layout : Layout) (painter : Painter) (memory : Memory)
    (later : List Op) : Prop where
  waiting : (shut.after earlier).available = true
  taken : (shut.after earlier).refuses (.paint layout painter memory) = false
  refused : ∀ op ∈ later, (shut.after (earlier ++ [.paint layout painter memory])).refuses op = true

/-! ## Runs -/

variable {box : Mailbox}

theorem after_append (box : Mailbox) (earlier later : List Op) :
    box.after (earlier ++ later) = (box.after earlier).after later := List.foldl_append

theorem after_single (box : Mailbox) (op : Op) : box.after [op] = (box.perform op).2 := rfl

theorem wellFormed_after (ops : List Op) : (shut.after ops).WellFormed := by
  induction ops using List.reverseRecOn with
  | nil => exact wellFormed_shut
  | append_singleton ops op ih =>
      rw [after_append, after_single]
      exact (perform_view ih op).2.2

theorem leavesDraft_append (box : Mailbox) (earlier later : List Op) :
    box.leavesDraft (earlier ++ later) =
      (box.leavesDraft earlier && (box.after earlier).leavesDraft later) := by
  induction earlier generalizing box with
  | nil => rfl
  | cons op earlier ih =>
      simp only [List.cons_append, leavesDraft, ih, Bool.and_assoc]
      rfl

theorem perform_of_refuses {op : Op} (hop : box.refuses op = true) :
    (box.perform op).2 = box := by
  cases op with
  | submit layout pixels memory =>
      simp only [refuses, perform, submit_eq] at hop ⊢
      cases hrefusal : layout.refusal? box.closed pixels.size (box.room memory) with
      | some fault => rfl
      | none => simp [hrefusal, Answer.isRefusal] at hop
  | paint layout painter memory =>
      simp only [refuses, perform, paint_eq] at hop ⊢
      cases hrefusal : layout.refusal? box.closed layout.byteCount (box.room memory) with
      | some fault => rfl
      | none =>
          simp only [hrefusal] at hop
          split at hop <;> cases hop
  | _ => cases hop

/-- Operations that are all refused change nothing and finish nothing. -/
theorem after_of_refuses {ops : List Op} (hops : ∀ op ∈ ops, box.refuses op = true) :
    box.after ops = box ∧ box.leavesDraft ops = true := by
  induction ops with
  | nil => exact ⟨rfl, rfl⟩
  | cons op ops ih =>
      have hop := hops op (List.mem_cons_self ..)
      have hsame := perform_of_refuses hop
      obtain ⟨hafter, hdraft⟩ := ih fun other hother => hops other (List.mem_cons_of_mem _ hother)
      have hfinishes : box.finishes op = false := by
        cases op with
        | submit layout pixels memory => simp [finishes, hop]
        | signal => cases hop
        | _ => rfl
      constructor
      · show (box.perform op).2.after ops = box
        rw [hsame]
        exact hafter
      · simp only [leavesDraft, hfinishes, hsame, hdraft]
        rfl

/-! ## When a draft is shown -/

/-- A draft is taken by an open mailbox.  It sets the layout and does not touch the
announcement. -/
theorem perform_paint (hbox : box.WellFormed) {layout : Layout} {painter : Painter}
    {memory : Memory} (htaken : box.refuses (.paint layout painter memory) = false) :
    let later := (box.perform (.paint layout painter memory)).2
    box.closed = false ∧ later.closed = false ∧ later.available = box.available ∧
      later.layout = layout := by
  simp only [refuses, perform, paint_eq] at htaken ⊢
  cases hrefusal : layout.refusal? box.closed layout.byteCount (box.room memory) with
  | some fault => simp [hrefusal, Answer.isRefusal] at htaken
  | none =>
      obtain ⟨-, -, hopen, -⟩ :=
        (Layout.refusal?_eq_none_iff (room_le hbox memory)).mp hrefusal
      exact ⟨hopen, hopen, rfl, rfl⟩

/-- An announced picture in an open mailbox was announced just now, or has waited there
while a painter drew over it or an operation was refused. -/
theorem waiting_of_perform (hbox : box.WellFormed) {op : Op}
    (hopen : (box.perform op).2.closed = false)
    (havailable : (box.perform op).2.available = true) :
    box.finishes op = true ∨
      box.closed = false ∧ box.available = true ∧
        ((∃ layout painter memory, op = .paint layout painter memory ∧ box.refuses op = false) ∨
          box.refuses op = true) := by
  by_cases hrefuses : box.refuses op = true
  · rw [perform_of_refuses hrefuses] at hopen havailable
    exact .inr ⟨hopen, havailable, .inr hrefuses⟩
  · rw [Bool.not_eq_true] at hrefuses
    cases op with
    | reopen => cases havailable
    | close => cases havailable
    | submit layout pixels memory =>
        left
        simp only [finishes, hrefuses]
        rfl
    | paint layout painter memory =>
        obtain ⟨hclosed, -, hkept, -⟩ := perform_paint hbox hrefuses
        rw [hkept] at havailable
        exact .inr ⟨hclosed, havailable, .inl ⟨layout, painter, memory, rfl, hrefuses⟩⟩
    | signal => exact .inl rfl
    | collect =>
        simp only [perform, collect_eq hbox] at hopen havailable
        by_cases hclosed : box.closed
        · simp [hclosed] at hopen
        · by_cases hwaits : box.available <;> simp [hclosed, hwaits] at havailable

/-- A draft that lies in the mailbox was drawn by the last operation, or lay there
before it. -/
theorem hasDraft_concat {ops : List Op} {op : Op} (h : HasDraft (ops ++ [op])) :
    (∃ layout painter memory, op = .paint layout painter memory ∧
      (shut.after ops).refuses (.paint layout painter memory) = false) ∨
      HasDraft ops ∧ (shut.after ops).finishes op = false := by
  obtain ⟨earlier, layout, painter, memory, later, hsplit, htaken, hleaves⟩ := h
  -- `op` is the draft itself where nothing came after the draft, and came later elsewhere.
  cases later using List.reverseRecOn with
  | nil =>
      obtain ⟨hops, hop⟩ := List.append_inj' hsplit rfl
      rw [List.cons.injEq] at hop
      rw [hops, hop.1]
      exact .inl ⟨layout, painter, memory, rfl, htaken⟩
  | append_singleton later last =>
      have hassoc : ops ++ [op] = (earlier ++ .paint layout painter memory :: later) ++ [last] := by
        rw [hsplit]
        simp
      obtain ⟨hops, hop⟩ := List.append_inj' hassoc rfl
      rw [List.cons.injEq] at hop
      rw [leavesDraft_append, Bool.and_eq_true] at hleaves
      obtain ⟨hbefore, hlast⟩ := hleaves
      have hbox : (shut.after (earlier ++ [.paint layout painter memory])).after later =
          shut.after ops := by
        rw [← after_append, hops]
        simp
      rw [hbox, ← hop.1] at hlast
      simp only [leavesDraft, Bool.and_true, Bool.not_eq_true'] at hlast
      exact .inr ⟨⟨earlier, layout, painter, memory, later, hops, htaken, hbefore⟩, hlast⟩

/-- While a picture is announced, a draft in the mailbox was drawn over it. -/
theorem drawnOver_of_hasDraft (ops : List Op) (hdraft : HasDraft ops)
    (hopen : (shut.after ops).closed = false) (hwaits : (shut.after ops).available = true) :
    ∃ earlier layout painter memory later, ops = earlier ++ .paint layout painter memory :: later ∧
      DrawnOver earlier layout painter memory later := by
  induction ops using List.reverseRecOn with
  | nil =>
      obtain ⟨earlier, layout, painter, memory, later, hsplit, -⟩ := hdraft
      simp at hsplit
  | append_singleton ops op ih =>
      have hbox := wellFormed_after ops
      rw [after_append, after_single] at hopen hwaits
      rcases waiting_of_perform hbox hopen hwaits with
        hfinishes | ⟨hclosed, hwaiting, ⟨layout, painter, memory, rfl, htaken⟩ | hrefused⟩
      · -- what finishes a draft leaves none
        rcases hasDraft_concat hdraft with ⟨layout, painter, memory, rfl, -⟩ | ⟨-, hunfinished⟩
        · cases hfinishes
        · rw [hfinishes] at hunfinished
          cases hunfinished
      · exact ⟨ops, layout, painter, memory, [], rfl, hwaiting, htaken, nofun⟩
      · -- a refusal joins those that already follow the draft
        rcases hasDraft_concat hdraft with ⟨layout, painter, memory, rfl, htaken⟩ | ⟨hbefore, -⟩
        · rw [hrefused] at htaken
          cases htaken
        · obtain ⟨earlier, layout, painter, memory, later, hsplit, hover⟩ :=
            ih hbefore hclosed hwaiting
          refine ⟨earlier, layout, painter, memory, later ++ [op], ?_, hover.waiting, hover.taken,
            ?_⟩
          · rw [hsplit]
            simp
          · have hsame :
                shut.after ops = shut.after (earlier ++ [.paint layout painter memory]) := by
              rw [hsplit, List.append_cons, after_append]
              exact (after_of_refuses hover.refused).1
            rw [hsame] at hrefused
            intro other hother
            rcases List.mem_append.mp hother with hlater | hlast
            · exact hover.refused other hlater
            · rw [List.mem_singleton.mp hlast]
              exact hrefused

/-- What a draft drawn over a waiting picture leaves in the mailbox. -/
theorem after_drawnOver {earlier later : List Op} {layout : Layout} {painter : Painter}
    {memory : Memory} (hover : DrawnOver earlier layout painter memory later) :
    let box := shut.after (earlier ++ [.paint layout painter memory])
    shut.after (earlier ++ .paint layout painter memory :: later) = box ∧
      box.leavesDraft later = true ∧ box.closed = false ∧ box.available = true ∧
      box.layout = layout := by
  obtain ⟨hafter, hleaves⟩ := after_of_refuses hover.refused
  obtain ⟨-, hopen, hkept, hlayout⟩ := perform_paint (wellFormed_after earlier) hover.taken
  refine ⟨?_, hleaves, ?_, ?_, ?_⟩
  · rw [List.append_cons, after_append]
    exact hafter
  · rw [after_append]
    exact hopen
  · rw [after_append]
    exact hkept.trans hover.waiting
  · rw [after_append]
    exact hlayout

/-- A host is shown a draft if and only if the draft was drawn over a waiting picture and
nothing but refusals followed.  It is shown the layout of that draft, if there are pixels
in it, and the bytes that the painter has left. -/
theorem presentsDraft_iff (ops : List Op) (view : View) :
    PresentsDraft ops view ↔
      ∃ earlier layout painter memory later,
        ops = earlier ++ .paint layout painter memory :: later ∧
        DrawnOver earlier layout painter memory later ∧ 0 < layout.width ∧ 0 < layout.height ∧
        view = ⟨layout, firstOf (shut.after (earlier ++ [.paint layout painter memory])).pixels
          layout.byteCount⟩ := by
  have hbox := wellFormed_after ops
  constructor
  · rintro ⟨hdraft, hpresented⟩
    obtain ⟨hopen, hwaits, ⟨hwidth, hheight⟩, hview⟩ :=
      (collect_eq_presented_iff hbox).mp hpresented
    obtain ⟨earlier, layout, painter, memory, later, hsplit, hover⟩ :=
      drawnOver_of_hasDraft ops hdraft hopen hwaits
    obtain ⟨hafter, -, -, -, hlayout⟩ := after_drawnOver hover
    rw [← hsplit] at hafter
    rw [hafter, hlayout] at hwidth hheight hview
    exact ⟨earlier, layout, painter, memory, later, hsplit, hover, hwidth, hheight, hview⟩
  · rintro ⟨earlier, layout, painter, memory, later, hsplit, hover, hwidth, hheight, hview⟩
    obtain ⟨hafter, hleaves, hopen, hwaits, hlayout⟩ := after_drawnOver hover
    rw [← hsplit] at hafter
    refine ⟨⟨earlier, layout, painter, memory, later, hsplit, hover.taken, hleaves⟩, ?_⟩
    rw [collect_eq_presented_iff hbox, hafter, hlayout]
    exact ⟨hopen, hwaits, ⟨hwidth, hheight⟩, hview⟩

/-- A picture of one pixel waits, a painter draws one of its own over it, and that one is
shown. -/
theorem presentsDraft_over_waiting :
    ¬ ∀ ops view, ¬ PresentsDraft ops view := by
  intro hnever
  apply hnever
    [.reopen, .submit ⟨1, 1, 4⟩ #[1, 1, 1, 1], .paint ⟨1, 1, 4⟩ (Painter.tile #[2] true)]
    ⟨⟨1, 1, 4⟩, #[2, 2, 2, 2]⟩
  constructor
  · exact ⟨[.reopen, .submit ⟨1, 1, 4⟩ #[1, 1, 1, 1]], ⟨1, 1, 4⟩, .tile #[2] true, .ample, [],
      rfl, by decide, by decide⟩
  · decide

end Mailbox
end Framestep
