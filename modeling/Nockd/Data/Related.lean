import Mathlib.Data.List.Forall2
import Mathlib.Data.List.Sort

/-!
# Related lists

Two optional values, or two lists, are related if they have related values in the same places.
What is searched, sorted or read alike on both sides is related again.
-/

namespace Related

variable {α β γ κ : Type} {R : α → β → Prop} {x : α} {y : β} {a : Option α} {b : Option β}
  {xs : List α} {ys : List β}

/-! ## Optional values -/

theorem map {f : α → α} {g : β → β} (h : Option.Rel R a b) (hfg : ∀ x y, R x y → R (f x) (g y)) :
    Option.Rel R (a.map f) (b.map g) := by
  cases h with
  | some hxy => exact .some (hfg _ _ hxy)
  | none => exact .none

theorem getD (h : Option.Rel R a b) (hxy : R x y) : R (a.getD x) (b.getD y) := by
  cases h with
  | some hxy => exact hxy
  | none => exact hxy

theorem eq_some (h : Option.Rel R (some x) b) : ∃ y, b = some y ∧ R x y := by
  cases h with
  | some hxy => exact ⟨_, rfl, hxy⟩

theorem isSome_eq (h : Option.Rel R a b) : a.isSome = b.isSome := by
  cases h <;> rfl

/-- What is read of a value is what is made of the related one. -/
theorem bind_eq_map {f : α → Option γ} {g : β → γ} (h : Option.Rel R a b)
    (hfg : ∀ x ∈ a, ∀ y, R x y → f x = some (g y)) : a.bind f = b.map g := by
  cases h with
  | some hxy => exact hfg _ rfl _ hxy
  | none => rfl

/-! ## Lists -/

theorem append_one (h : List.Forall₂ R xs ys) (hxy : R x y) :
    List.Forall₂ R (xs ++ [x]) (ys ++ [y]) :=
  List.rel_append h (.cons hxy .nil)

theorem find? {p : α → Bool} {q : β → Bool} (h : List.Forall₂ R xs ys)
    (hpq : ∀ x y, R x y → p x = q y) : Option.Rel R (xs.find? p) (ys.find? q) := by
  induction h with
  | nil => exact .none
  | @cons x y xs ys hxy h ih =>
      rw [List.find?_cons, List.find?_cons, hpq x y hxy]
      cases q y with
      | true => exact .some hxy
      | false => exact ih

section Sorting

variable {p : α → α → Prop} {q : β → β → Prop} [DecidableRel p] [DecidableRel q]

theorem orderedInsert (hpq : ∀ x y x' y', R x y → R x' y' → (p x x' ↔ q y y')) (hxy : R x y)
    (h : List.Forall₂ R xs ys) : List.Forall₂ R (xs.orderedInsert p x) (ys.orderedInsert q y) := by
  induction h with
  | nil => exact .cons hxy .nil
  | @cons x' y' xs ys hxy' h ih =>
      rw [List.orderedInsert_cons, List.orderedInsert_cons]
      by_cases hfirst : p x x'
      · rw [if_pos hfirst, if_pos ((hpq _ _ _ _ hxy hxy').1 hfirst)]
        exact .cons hxy (.cons hxy' h)
      · rw [if_neg hfirst, if_neg (hfirst ∘ (hpq _ _ _ _ hxy hxy').2)]
        exact .cons hxy' ih

theorem insertionSort (hpq : ∀ x y x' y', R x y → R x' y' → (p x x' ↔ q y y'))
    (h : List.Forall₂ R xs ys) : List.Forall₂ R (xs.insertionSort p) (ys.insertionSort q) := by
  induction h with
  | nil => exact .nil
  | cons hxy h ih => exact orderedInsert hpq hxy ih

end Sorting

/-- All of the related values are read. -/
theorem mapM_eq {f : α → Option β} (h : List.Forall₂ R xs ys) (hf : ∀ x y, R x y → f x = some y) :
    xs.mapM f = some ys := by
  induction h with
  | nil => rfl
  | @cons x y xs ys hxy h ih => simp [hf x y hxy, ih]

/-- To read all values is to look up their names. -/
theorem mapM_eq_filterMap {f : α → Option β} {name : α → κ} {get : κ → Option β}
    (h : ∀ x ∈ xs, f x = get (name x) ∧ (f x).isSome) :
    xs.mapM f = some ((xs.map name).filterMap get) := by
  induction xs with
  | nil => rfl
  | cons x xs ih =>
      obtain ⟨hx, hsome⟩ := h x List.mem_cons_self
      obtain ⟨y, hy⟩ := Option.isSome_iff_exists.1 hsome
      have hrest := ih fun x' hx' => h x' (List.mem_cons_of_mem x hx')
      rw [List.map_cons, List.filterMap_cons_some (hx ▸ hy)]
      simp [hy, hrest]

end Related
