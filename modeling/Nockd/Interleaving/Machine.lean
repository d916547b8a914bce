import Mathlib.Data.Option.Basic

/-!
# Guarded runs of a step function

A machine is a partial step function `step : σ → ι → Option σ`, where `none`
means that the action is not possible. `ReachableWhen step start guard` holds of the
states of all runs from `start` whose every step meets `guard`, which speaks
of the state before the step and the action. Without a guard it is plain
reachability.
-/

namespace Interleaving

variable {σ ι : Type}

/-- The states of all runs whose steps meet `guard`. -/
inductive ReachableWhen (step : σ → ι → Option σ) (start : σ → Prop)
    (guard : σ → ι → Prop) : σ → Prop where
  | start {s : σ} : start s → ReachableWhen step start guard s
  | step {s s' : σ} {a : ι} : ReachableWhen step start guard s → guard s a →
      step s a = some s' → ReachableWhen step start guard s'

/-- The states of all runs. -/
abbrev Reachable (step : σ → ι → Option σ) (start : σ → Prop) : σ → Prop :=
  ReachableWhen step start fun _ _ => True

variable {step : σ → ι → Option σ} {start : σ → Prop} {guard : σ → ι → Prop}

namespace ReachableWhen

/-- What holds at the start and is kept by every guarded step holds in every
state a guarded run reaches. -/
theorem invariant {I : σ → Prop} (hstart : ∀ s, start s → I s)
    (hstep : ∀ s a s', I s → guard s a → step s a = some s' → I s')
    {s : σ} (h : ReachableWhen step start guard s) : I s := by
  induction h with
  | start h => exact hstart _ h
  | step _ hguard hs ih => exact hstep _ _ _ ih hguard hs

theorem mono {guard' : σ → ι → Prop} (himp : ∀ s a, guard s a → guard' s a) {s : σ}
    (h : ReachableWhen step start guard s) : ReachableWhen step start guard' s := by
  induction h with
  | start h => exact .start h
  | step _ hguard hs ih => exact .step ih (himp _ _ hguard) hs

theorem trans {t : σ → Prop} (ht : ∀ s, t s → ReachableWhen step start guard s) {s : σ}
    (h : ReachableWhen step t guard s) : ReachableWhen step start guard s := by
  induction h with
  | start h => exact ht _ h
  | step _ hguard hs ih => exact .step ih hguard hs

/-- A simulation: the second machine answers every step by a step of its own or by none. -/
theorem simulate {σ' ι' : Type} {step' : σ' → ι' → Option σ'} {start' : σ' → Prop}
    {guard' : σ' → ι' → Prop} {I : σ → Prop} {f : σ → σ'}
    (hstart : ∀ s, start s → I s ∧ start' (f s))
    (hstep : ∀ s a s', I s → guard s a → step s a = some s' → I s' ∧
      (f s' = f s ∨ ∃ a', guard' (f s) a' ∧ step' (f s) a' = some (f s')))
    {s : σ} (h : ReachableWhen step start guard s) :
    I s ∧ ReachableWhen step' start' guard' (f s) := by
  induction h with
  | start h => exact ⟨(hstart _ h).1, .start (hstart _ h).2⟩
  | step _ hguard hs ih =>
      obtain ⟨hinv, hsame | ⟨a', hguard', hs'⟩⟩ := hstep _ _ _ ih.1 hguard hs
      · exact ⟨hinv, hsame ▸ ih.2⟩
      · exact ⟨hinv, .step ih.2 hguard' hs'⟩

end ReachableWhen

/-- A machine together with a ghost value that follows its steps. -/
def ghostStep {γ : Type} (step : σ → ι → Option σ) (follow : σ → ι → γ → γ) (v : σ × γ) (a : ι) :
    Option (σ × γ) :=
  (step v.1 a).map fun s => (s, follow v.1 a v.2)

theorem ghostStep_eq_some {γ : Type} {follow : σ → ι → γ → γ} {v v' : σ × γ} {a : ι}
    (h : ghostStep step follow v a = some v') :
    step v.1 a = some v'.1 ∧ v'.2 = follow v.1 a v.2 := by
  obtain ⟨s, hs, rfl⟩ := Option.map_eq_some_iff.1 h
  exact ⟨hs, rfl⟩

/-- Perform the actions of a list in order, as long as they meet `guard`. -/
def runWhen (step : σ → ι → Option σ) (guard : σ → ι → Prop)
    [∀ s a, Decidable (guard s a)] : σ → List ι → Option σ
  | s, [] => some s
  | s, a :: as => if guard s a then (step s a).bind fun s' => runWhen step guard s' as else none

/-- Perform the actions of a list in order. -/
abbrev run (step : σ → ι → Option σ) : σ → List ι → Option σ :=
  runWhen step fun _ _ => True

theorem ReachableWhen.runWhen [∀ s a, Decidable (guard s a)] {as : List ι} {s s' : σ}
    (hs : ReachableWhen step start guard s)
    (hrun : Interleaving.runWhen step guard s as = some s') :
    ReachableWhen step start guard s' := by
  induction as generalizing s with
  | nil =>
      cases hrun
      exact hs
  | cons a as ih =>
      unfold Interleaving.runWhen at hrun
      split at hrun
      case isTrue hguard =>
        obtain ⟨t, hstep, hrest⟩ := Option.bind_eq_some_iff.1 hrun
        exact ih (.step hs hguard hstep) hrest
      case isFalse => cases hrun

end Interleaving
