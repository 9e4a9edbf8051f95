/-
**Labelled step systems and their runs.**

A system is a partial step function `step : S → A → Option S` on states and labels.  What a run may
do is often restricted — a label is taken only in states where a condition `ok` holds — and the
same step function is then studied under several conditions.  This module has the states reached
by such runs, the rule that proves an invariant of all of them, and an executable run that
exhibits a reached state.

Main definitions:

* `StepSystem.Reach` — the states reached from a start state by steps that meet a condition;
* `StepSystem.run` — the run of a list of labels, which checks the condition before each step;
* `StepSystem.Path` — a list of labels that leads from one state to another.

Main results:

* `StepSystem.Reach.inv` — **the invariant rule**: what holds at the start and is kept by every
  permitted step holds in every reached state;
* `StepSystem.Reach.of_run` — the state an executed run ends in is reached;
* `StepSystem.Path.countP_add_le_add` — **the measure rule**: a run takes no more steps of a kind
  than a measure allows that each of them decreases.
-/

import Mathlib.Data.List.Basic

set_option relaxedAutoImplicit false
set_option autoImplicit false

namespace StepSystem

variable {S A : Type*}

/-! ### Reached states -/

/-- The states that `step` reaches from `s₀` when every step taken meets the condition `ok`. -/
inductive Reach (step : S → A → Option S) (ok : S → A → Prop) (s₀ : S) : S → Prop
  | start : Reach step ok s₀ s₀
  | next {s s' : S} {a : A} :
      Reach step ok s₀ s → ok s a → step s a = some s' → Reach step ok s₀ s'

section Reach

variable {step : S → A → Option S} {ok : S → A → Prop} {s₀ s : S}

/-- **The invariant rule.**  What holds at the start and is kept by every permitted step holds in
every reached state. -/
theorem Reach.inv {I : S → Prop} (h : Reach step ok s₀ s) (h₀ : I s₀)
    (hstep : ∀ s a s', I s → ok s a → step s a = some s' → I s') : I s := by
  induction h with
  | start => exact h₀
  | next _ hok hs ih => exact hstep _ _ _ ih hok hs

/-- A run that goes on from a reached state reaches what it reaches. -/
theorem Reach.trans {s₁ : S} (h₁ : Reach step ok s₀ s₁) (h₂ : Reach step ok s₁ s) :
    Reach step ok s₀ s := by
  induction h₂ with
  | start => exact h₁
  | next _ hok hs ih => exact ih.next hok hs

end Reach

/-! ### Executed runs -/

/-- The run of a list of labels: it stops with `none` at a label whose condition fails or that the
system cannot take. -/
def run (step : S → A → Option S) (ok : S → A → Prop) [∀ s a, Decidable (ok s a)] :
    S → List A → Option S
  | s, [] => some s
  | s, a :: as => if ok s a then (step s a).bind fun s' => run step ok s' as else none

section Run

variable {step : S → A → Option S} {ok : S → A → Prop} [∀ s a, Decidable (ok s a)]

@[simp] theorem run_nil (s : S) : run step ok s [] = some s := rfl

theorem run_cons (s : S) (a : A) (as : List A) :
    run step ok s (a :: as) =
      if ok s a then (step s a).bind fun s' => run step ok s' as else none := rfl

/-- The state an executed run ends in is reached. -/
theorem Reach.of_run {s₀ s : S} {as : List A} (h : run step ok s₀ as = some s) :
    Reach step ok s₀ s := by
  induction as generalizing s₀ with
  | nil =>
      rw [run_nil, Option.some_inj] at h
      exact h ▸ Reach.start
  | cons a as ih =>
      rw [run_cons] at h
      split at h
      · next hok =>
          obtain ⟨s₁, hs₁, hrun⟩ := Option.bind_eq_some_iff.1 h
          exact (Reach.start.next hok hs₁).trans (ih hrun)
      · cases h

end Run

/-! ### Paths -/

/-- The labels lead from one state to the other, by steps that meet the condition. -/
inductive Path (step : S → A → Option S) (ok : S → A → Prop) : S → List A → S → Prop
  | nil {s : S} : Path step ok s [] s
  | cons {s s₁ s' : S} {a : A} {as : List A} :
      ok s a → step s a = some s₁ → Path step ok s₁ as s' → Path step ok s (a :: as) s'

section Path

variable {step : S → A → Option S} {ok : S → A → Prop} {s s' : S} {as : List A}

theorem Path.append {s'' : S} {bs : List A} (h : Path step ok s as s')
    (h' : Path step ok s' bs s'') : Path step ok s (as ++ bs) s'' := by
  induction h with
  | nil => exact h'
  | cons hok hs _ ih => exact .cons hok hs (ih h')

/-- A way back to where it starts can be gone any number of times. -/
theorem Path.flatten_replicate (h : Path step ok s as s) (k : ℕ) :
    Path step ok s (List.replicate k as).flatten s := by
  induction k with
  | zero => exact .nil
  | succ k ih =>
      rw [List.replicate_succ, List.flatten_cons]
      exact h.append ih

/-- **The measure rule**, with an invariant.  If a step of one kind decreases a measure, and only a
step of another kind increases it, by one, then a path takes no more steps of the first kind than
the measure and the steps of the second kind allow. -/
theorem Path.countP_add_le_add {I : S → Prop} {μ : S → ℕ} {p q : A → Bool}
    (h : Path step ok s as s') (h₀ : I s)
    (hstep : ∀ s a s', I s → ok s a → step s a = some s' →
      I s' ∧ μ s' + (if p a then 1 else 0) ≤ μ s + (if q a then 1 else 0)) :
    as.countP p + μ s' ≤ μ s + as.countP q := by
  induction h with
  | nil => simp
  | cons hok hs _ ih =>
      obtain ⟨hinv, hdecr⟩ := hstep _ _ _ h₀ hok hs
      have hrest := ih hinv
      rw [List.countP_cons, List.countP_cons]
      omega

/-- If every step of a kind decreases a measure and no permitted step increases it, a path takes no
more steps of that kind than the measure allows. -/
theorem Path.countP_add_le {μ : S → ℕ} {p : A → Bool} (h : Path step ok s as s')
    (hstep : ∀ s a s', ok s a → step s a = some s' → μ s' + (if p a then 1 else 0) ≤ μ s) :
    as.countP p + μ s' ≤ μ s := by
  have hle := h.countP_add_le_add (I := fun _ => True) (q := fun _ => false) trivial
    fun s a s' _ hok hs => ⟨trivial, hstep s a s' hok hs⟩
  simpa using hle

end Path

end StepSystem
