import Mathlib.Data.List.Basic

/-!
# Guarded runs of a deterministic machine

A machine is a step function on states.  A run executes a list of operations;
a guard restricts the operations by the state they are executed in.  The
invariant and simulation rules below are the only inductions over runs the rest
of the development needs.
-/

namespace Machine

universe u v w x

variable {σ : Type u} {ι : Type v} {τ : Type w}
variable {s : σ} {ops : List ι}

def run (step : σ → ι → σ) (s : σ) (ops : List ι) : σ := ops.foldl step s

@[simp] theorem run_nil (step : σ → ι → σ) (s : σ) : run step s [] = s := rfl

@[simp] theorem run_cons (step : σ → ι → σ) (s : σ) (op : ι) (ops : List ι) :
    run step s (op :: ops) = run step (step s op) ops := rfl

theorem run_append (step : σ → ι → σ) (s : σ) (ops rest : List ι) :
    run step s (ops ++ rest) = run step (run step s ops) rest := List.foldl_append

/-- Every operation of the run meets `guard` in the state it is executed in. -/
def Guarded (step : σ → ι → σ) (guard : σ → ι → Prop) : σ → List ι → Prop
  | _, [] => True
  | s, op :: ops => guard s op ∧ Guarded step guard (step s op) ops

/-- The abstract state that answers a concrete run.  `follow` is the answer to
one step and may look at the concrete state the step starts from. -/
def shadow (step : σ → ι → σ) (follow : σ → ι → τ → τ) : σ → τ → List ι → τ
  | _, t, [] => t
  | s, t, op :: ops => shadow step follow (step s op) (follow s op t) ops

section Rules

variable {step : σ → ι → σ} {guard : σ → ι → Prop}

theorem run_invariant (Inv : σ → Prop) (preserved : ∀ s op, Inv s → Inv (step s op))
    (start : Inv s) (ops : List ι) : Inv (run step s ops) :=
  ops.foldlRecOn step start fun s h op _ => preserved s op h

/-- A property that holds initially and survives every guarded step holds at
the end of every guarded run, and so in every state the run passes through. -/
theorem Guarded.invariant (Inv : σ → Prop)
    (preserved : ∀ s op, Inv s → guard s op → Inv (step s op)) (h : Guarded step guard s ops)
    (start : Inv s) : Inv (run step s ops) := by
  induction ops generalizing s with
  | nil => exact start
  | cons op ops ih => exact ih h.2 (preserved s op start h.1)

/-- Where the guard is just what a step needs to keep a property, the guarded runs are those that
have it in every state. -/
theorem guarded_iff (Inv : σ → Prop) (preserved : ∀ s op, Inv s → (Inv (step s op) ↔ guard s op))
    (start : Inv s) : (∀ n, Inv (run step s (ops.take n))) ↔ Guarded step guard s ops := by
  induction ops generalizing s with
  | nil => simp [Guarded, start]
  | cons op ops ih =>
    constructor
    · intro hall
      have hnext : Inv (step s op) := hall 1
      exact ⟨(preserved s op start).mp hnext, (ih hnext).mp fun n => hall (n + 1)⟩
    · rintro ⟨hop, hops⟩ n
      cases n with
      | zero => exact start
      | succ n => exact (ih ((preserved s op start).mpr hop)).mpr hops n

theorem Guarded.simulation (Rel : σ → τ → Prop) {follow : σ → ι → τ → τ}
    (preserved : ∀ s op t, Rel s t → guard s op → Rel (step s op) (follow s op t)) {t : τ}
    (h : Guarded step guard s ops) (start : Rel s t) :
    Rel (run step s ops) (shadow step follow s t ops) := by
  induction ops generalizing s t with
  | nil => exact start
  | cons op ops ih => exact ih h.2 (preserved s op t start h.1)

/-- Where the guard is just what a step needs to be followed in the view, the guarded runs are those
whose view is the abstract state all along. -/
theorem shadow_eq_iff {v : σ → τ} {follow : σ → ι → τ → τ}
    (follows : ∀ s op, v (step s op) = follow s op (v s) ↔ guard s op) :
    (∀ n, v (run step s (ops.take n)) = shadow step follow s (v s) (ops.take n)) ↔
      Guarded step guard s ops := by
  induction ops generalizing s with
  | nil => simp [Guarded, shadow]
  | cons op ops ih =>
    constructor
    · intro hall
      have hstep : v (step s op) = follow s op (v s) := hall 1
      refine ⟨(follows s op).mp hstep, ih.mp fun n => ?_⟩
      rw [hstep]
      exact hall (n + 1)
    · rintro ⟨hop, hops⟩ n
      cases n with
      | zero => rfl
      | succ n =>
        have hrest := ih.mpr hops n
        rwa [(follows s op).mpr hop] at hrest

end Rules

/-! ## Machines that answer -/

variable {ρ : Type x}

def replies (step : σ → ι → σ × ρ) : σ → List ι → List ρ
  | _, [] => []
  | s, op :: ops => (step s op).2 :: replies step (step s op).1 ops

def after (step : σ → ι → σ × ρ) (s : σ) (op : ι) : σ := (step s op).1

/-- Two machines whose related states give the same reply and stay related answer every guarded run
alike. -/
theorem Guarded.replies_eq {step : σ → ι → σ × ρ} {step' : τ → ι → τ × ρ} {guard : σ → ι → Prop}
    (Rel : σ → τ → Prop) (preserved : ∀ s t op, Rel s t → guard s op →
      (step s op).2 = (step' t op).2 ∧ Rel (step s op).1 (step' t op).1)
    {t : τ} (h : Guarded (after step) guard s ops) (start : Rel s t) :
    replies step s ops = replies step' t ops := by
  induction ops generalizing s t with
  | nil => rfl
  | cons op ops ih =>
    have hstep := preserved s t op start h.1
    have hrest := ih h.2 hstep.2
    rw [replies, replies, hstep.1]
    exact congrArg _ hrest

end Machine
