import Mathlib.Data.List.Basic

/-!
# Tags in a text

`Reads lt gt s tags t` reads a text `s` with tags between the brackets `lt` and `gt`: its tags,
without their brackets, and the text `t` that is left when they are deleted. A text in which a
bracket is not one of a tag is not read at all.
-/

namespace Markup

variable {α τ : Type}

inductive Reads (lt gt : α) : List α → List (List α) → List α → Prop where
  | nil : Reads lt gt [] [] []
  | text {c : α} {s t : List α} {tags : List (List α)} : c ≠ lt → c ≠ gt → Reads lt gt s tags t →
      Reads lt gt (c :: s) tags (c :: t)
  | tag {body s t : List α} {tags : List (List α)} : gt ∉ body → Reads lt gt s tags t →
      Reads lt gt (lt :: (body ++ gt :: s)) (body :: tags) t

/-- Each tag that opens is closed, in the order of nesting. -/
inductive Balanced (closes : τ → Prop) : List τ → Prop where
  | nil : Balanced closes []
  | wrap {x y : τ} {xs ys : List τ} : ¬ closes x → closes y → Balanced closes xs →
      Balanced closes ys → Balanced closes (x :: (xs ++ y :: ys))

variable {lt gt c : α} {s s' t t' v : List α} {tags tags' : List (List α)} {closes : τ → Prop}
  {x y : τ} {xs ys : List τ}

theorem Reads.append (h : Reads lt gt s tags t) (h' : Reads lt gt s' tags' t') :
    Reads lt gt (s ++ s') (tags ++ tags') (t ++ t') := by
  induction h with
  | nil => exact h'
  | text hlt hgt _ ih => exact .text hlt hgt ih
  | tag hbody _ ih =>
      rw [List.cons_append, List.append_assoc]
      exact .tag hbody ih

/-- A text without brackets is left as it is. -/
theorem Reads.of_plain (h : ∀ c ∈ t, c ≠ lt ∧ c ≠ gt) : Reads lt gt t [] t := by
  induction t with
  | nil => exact .nil
  | cons c t ih =>
      obtain ⟨hlt, hgt⟩ := h c List.mem_cons_self
      exact .text hlt hgt (ih fun d hd => h d (List.mem_cons_of_mem c hd))

theorem Reads.singleton {body : List α} (h : gt ∉ body) :
    Reads lt gt (lt :: (body ++ [gt])) [body] [] :=
  .tag h .nil

theorem eq_of_append_cons {body body' : List α} (h : gt ∉ body) (h' : gt ∉ body')
    (heq : body ++ gt :: s = body' ++ gt :: s') : body = body' ∧ s = s' := by
  induction body generalizing body' with
  | nil =>
      cases body' with
      | nil => exact ⟨rfl, (List.cons.inj heq).2⟩
      | cons b body' => exact absurd (List.mem_cons.2 (Or.inl (List.cons.inj heq).1)) h'
  | cons a body ih =>
      cases body' with
      | nil => exact absurd (List.mem_cons.2 (Or.inl (List.cons.inj heq).1.symm)) h
      | cons b body' =>
          obtain ⟨rfl, hrest⟩ := List.cons.inj heq
          obtain ⟨rfl, rfl⟩ := ih (fun hmem => h (List.mem_cons_of_mem _ hmem))
            (fun hmem => h' (List.mem_cons_of_mem _ hmem)) hrest
          exact ⟨rfl, rfl⟩

/-- A text has one reading at most. -/
theorem Reads.unique (h : Reads lt gt s tags t) (h' : Reads lt gt s tags' t') :
    tags = tags' ∧ t = t' := by
  induction h generalizing tags' t' with
  | nil =>
      cases h'
      exact ⟨rfl, rfl⟩
  | @text c s t tags hlt hgt _ ih =>
      generalize hu : c :: s = u at h'
      cases h' with
      | nil => cases hu
      | text _ _ h' =>
          cases hu
          obtain ⟨rfl, rfl⟩ := ih h'
          exact ⟨rfl, rfl⟩
      | tag _ _ => exact absurd (List.cons.inj hu).1 hlt
  | @tag body s t tags hbody _ ih =>
      generalize hu : lt :: (body ++ gt :: s) = u at h'
      cases h' with
      | nil => cases hu
      | text hlt _ _ => exact absurd (List.cons.inj hu).1.symm hlt
      | tag hbody' h' =>
          obtain ⟨rfl, rfl⟩ := eq_of_append_cons hbody hbody' (List.cons.inj hu).2
          obtain ⟨rfl, rfl⟩ := ih h'
          exact ⟨rfl, rfl⟩

theorem Balanced.append (h : Balanced closes xs) (h' : Balanced closes ys) :
    Balanced closes (xs ++ ys) := by
  induction h with
  | nil => exact h'
  | wrap hx hy hinner _ _ ih =>
      rw [List.cons_append, List.append_assoc, List.cons_append]
      exact .wrap hx hy hinner ih

/-- One pair of tags around others. -/
theorem Balanced.around (hx : ¬ closes x) (hy : closes y) (h : Balanced closes xs) :
    Balanced closes (x :: (xs ++ [y])) :=
  .wrap hx hy h .nil

end Markup
