import Mathlib.Data.List.Basic

/-!
# Machines that answer

A machine takes every input and answers it. Its transcript is the inputs of a run, each with
its answer. A machine refines another one if a function of its states carries steps to steps
with the same answers. An observer who sees a part of the state and hears some of the answers is
not reached by the inputs that leave this part alone: a run without them is the same to
the observer.
-/

namespace Interleaving

variable {σ τ ι ω V : Type}

/-- The state after some inputs, and the inputs with their answers. -/
def respond (step : σ → ι → σ × ω) (s : σ) : List ι → σ × List (ι × ω)
  | [] => (s, [])
  | x :: xs =>
      let rest := respond step (step s x).1 xs
      (rest.1, (x, (step s x).2) :: rest.2)

theorem respond_cons (step : σ → ι → σ × ω) (s : σ) (x : ι) (xs : List ι) :
    respond step s (x :: xs) =
      ((respond step (step s x).1 xs).1, (x, (step s x).2) :: (respond step (step s x).1 xs).2) :=
  rfl

/-- The part of a transcript whose answers are heard. -/
def heard (hears : ι → Bool) (ys : List (ι × ω)) : List (ι × ω) := ys.filter fun y => hears y.1

theorem heard_cons_of_true {hears : ι → Bool} {x : ι} (h : hears x = true) (r : ω)
    (ys : List (ι × ω)) : heard hears ((x, r) :: ys) = (x, r) :: heard hears ys :=
  List.filter_cons_of_pos h

theorem heard_cons_of_false {hears : ι → Bool} {x : ι} (h : hears x = false) (r : ω)
    (ys : List (ι × ω)) : heard hears ((x, r) :: ys) = heard hears ys :=
  List.filter_cons_of_neg (by rw [h]; exact Bool.false_ne_true)

/-- A refinement of steps is one of runs. -/
theorem respond_refines {step : σ → ι → σ × ω} {step' : τ → ι → τ × ω} {I : σ → Prop} {f : σ → τ}
    (hkeeps : ∀ s x, I s → I (step s x).1)
    (hstep : ∀ s x, I s → (f (step s x).1, (step s x).2) = step' (f s) x)
    {s : σ} (hs : I s) (xs : List ι) :
    (f (respond step s xs).1, (respond step s xs).2) = respond step' (f s) xs := by
  induction xs generalizing s with
  | nil => rfl
  | cons x xs ih =>
      have hrest := ih (hkeeps s x hs)
      rw [respond_cons, respond_cons, ← hstep s x hs, ← hrest]

section Purge

variable {step : σ → ι → σ × ω} {view : σ → V} {reaches hears : ι → Bool}

/-- Inputs that do not reach what is seen can be left out of a run. -/
theorem respond_purge (hhears : ∀ x, hears x = true → reaches x = true)
    (hkept : ∀ s x, reaches x = false → view (step s x).1 = view s)
    (hview : ∀ s s' x, reaches x = true → view s = view s' →
      view (step s x).1 = view (step s' x).1)
    (hanswer : ∀ s s' x, hears x = true → view s = view s' → (step s x).2 = (step s' x).2)
    {s s' : σ} (h : view s = view s') (xs : List ι) :
    view (respond step s xs).1 = view (respond step s' (xs.filter reaches)).1 ∧
      heard hears (respond step s xs).2 = heard hears (respond step s' (xs.filter reaches)).2 := by
  induction xs generalizing s s' with
  | nil => exact ⟨h, rfl⟩
  | cons x xs ih =>
      cases hx : reaches x with
      | false =>
          have hdeaf : hears x = false := by
            by_contra hne
            rw [hhears x (Bool.of_not_eq_false hne)] at hx
            cases hx
          rw [List.filter_cons_of_neg (by rw [hx]; exact Bool.false_ne_true), respond_cons,
            heard_cons_of_false hdeaf]
          exact ih ((hkept s x hx).trans h)
      | true =>
          obtain ⟨hlast, hheard⟩ := ih (hview s s' x hx h)
          rw [List.filter_cons_of_pos hx, respond_cons, respond_cons]
          refine ⟨hlast, ?_⟩
          cases hy : hears x with
          | false => rw [heard_cons_of_false hy, heard_cons_of_false hy, hheard]
          | true =>
              rw [heard_cons_of_true hy, heard_cons_of_true hy, hheard, hanswer s s' x hy h]

end Purge

end Interleaving
