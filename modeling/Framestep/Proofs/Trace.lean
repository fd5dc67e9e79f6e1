import Mathlib.Data.List.Forall2

/-!
# Traces

A part of this library that is used step by step is a function from a state and an
operation to an answer and the next state.  Two such parts agree on a run if they give
the same answers and their states belong together after every operation.  It is enough
to look at single operations for that: `forall₂_trace`.

Where only the last state matters, `inTurn` gives it with the answers on the way.
-/

namespace Framestep

variable {σ τ ι α : Type}

/-- The answer to each of a list of operations, with the state it leaves. -/
def trace (perform : σ → ι → α × σ) (state : σ) : List ι → List (α × σ)
  | [] => []
  | op :: ops => perform state op :: trace perform (perform state op).2 ops

/-- The answers to operations carried out one after the other, and the state they leave. -/
def inTurn (perform : σ → ι → α × σ) (state : σ) : List ι → List α × σ
  | [] => ([], state)
  | op :: ops =>
    let (answer, next) := perform state op
    let (answers, last) := inTurn perform next ops
    (answer :: answers, last)

theorem inTurn_cons {perform : σ → ι → α × σ} {state next last : σ} {op : ι} {ops : List ι}
    {answer : α} {answers : List α} (hstep : perform state op = (answer, next))
    (hrest : inTurn perform next ops = (answers, last)) :
    inTurn perform state (op :: ops) = (answer :: answers, last) := by
  simp only [inTurn, hstep, hrest]

/-- The same answer, and states that belong together. -/
def Agrees (related : σ → τ → Prop) (step : α × σ) (other : α × τ) : Prop :=
  step.1 = other.1 ∧ related step.2 other.2

theorem Agrees.mono {related wider : σ → τ → Prop}
    (hwider : ∀ state other, related state other → wider state other)
    {step : α × σ} {other : α × τ} (h : Agrees related step other) : Agrees wider step other :=
  ⟨h.1, hwider _ _ h.2⟩

theorem forall₂_trace {perform : σ → ι → α × σ} {simulate : τ → ι → α × τ}
    {related : σ → τ → Prop} {admits : ι → Prop}
    (hstep : ∀ state other op, related state other → admits op →
      Agrees related (perform state op) (simulate other op))
    {state : σ} {other : τ} (hrelated : related state other) (ops : List ι)
    (hops : ∀ op ∈ ops, admits op) :
    List.Forall₂ (Agrees related) (trace perform state ops) (trace simulate other ops) := by
  induction ops generalizing state other with
  | nil => exact .nil
  | cons op ops ih =>
      have hfirst := hstep state other op hrelated (hops op (List.mem_cons_self ..))
      have hrest := ih hfirst.2 fun later hlater => hops later (List.mem_cons_of_mem _ hlater)
      exact .cons hfirst hrest

end Framestep
