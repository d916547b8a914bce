import Mathlib.Data.List.Basic

/-!
# The lines of a growing text

A line is whole once its separator is there. What is appended to a text adds whole lines
behind the earlier ones, and a text that is cut at the end of a line has the lines of
its two parts.
-/

namespace Lines

variable {α : Type} {sep x : α} {xs ys : List α}

/-- No line is unterminated. -/
def Closed (sep : α) (xs : List α) : Prop := ∀ x ∈ xs.getLast?, x = sep

theorem Closed.cases (h : Closed sep xs) : xs = [] ∨ ∃ zs, xs = zs ++ [sep] := by
  rcases List.eq_nil_or_concat xs with rfl | ⟨zs, x, rfl⟩
  · exact Or.inl rfl
  · refine Or.inr ⟨zs, ?_⟩
    rw [h x (by simp), List.concat_eq_append]

theorem Closed.of_append (h : Closed sep (xs ++ ys)) : Closed sep ys := by
  intro y hy
  refine h y ?_
  rw [List.getLast?_append, Option.mem_def.1 hy]
  rfl

variable [DecidableEq α]

instance : Decidable (Closed sep xs) := inferInstanceAs (Decidable (∀ x ∈ xs.getLast?, x = sep))

/-- The lines that have been terminated, without their separators. -/
def whole (sep : α) (xs : List α) : List (List α) := (xs.splitOn sep).dropLast

/-- What comes after the last separator. -/
def rest (sep : α) (xs : List α) : List α := (xs.splitOn sep).getLastD []

@[simp] theorem whole_nil : whole sep [] = [] := rfl

theorem whole_cons : whole sep (x :: xs) =
    if x = sep then [] :: whole sep xs else (whole sep xs).modifyHead (x :: ·) := by
  have hne : xs.splitOn sep ≠ [] := List.splitOn_ne_nil sep xs
  unfold whole
  rw [List.splitOn_cons_eq_if_modifyHead]
  simp only [beq_iff_eq]
  split
  · exact List.dropLast_cons_of_ne_nil hne
  · cases h : xs.splitOn sep with
    | nil => exact absurd h hne
    | cons line lines => cases lines <;> rfl

/-- A text without a separator has no whole line. -/
theorem whole_of_not_mem (h : sep ∉ xs) : whole sep xs = [] := by
  unfold whole
  rw [List.splitOn_eq_singleton h]
  rfl

/-- What is appended leaves the whole lines as they are. -/
theorem whole_prefix (xs ys : List α) : whole sep xs <+: whole sep (xs ++ ys) := by
  induction xs with
  | nil => exact List.nil_prefix
  | cons x xs ih =>
      obtain ⟨more, hmore⟩ := ih
      rw [List.cons_append, whole_cons, whole_cons, ← hmore]
      split
      · exact List.prefix_append _ _
      · cases whole sep xs with
        | nil => exact List.nil_prefix
        | cons line lines => exact List.prefix_append _ _

/-- At the end of a line a text can be cut. -/
theorem Closed.whole_append (h : Closed sep xs) :
    whole sep (xs ++ ys) = whole sep xs ++ whole sep ys := by
  rcases h.cases with rfl | ⟨zs, rfl⟩
  · rfl
  · have hzs : whole sep (zs ++ [sep]) = zs.splitOn sep := by
      unfold whole
      rw [List.splitOn_append_cons_self]
      exact List.dropLast_concat
    rw [hzs, List.append_assoc]
    unfold whole
    rw [List.singleton_append, List.splitOn_append_cons_self]
    exact List.dropLast_append_of_ne_nil (List.splitOn_ne_nil sep ys)

theorem Closed.rest_eq (h : Closed sep xs) : rest sep xs = [] := by
  rcases h.cases with rfl | ⟨zs, rfl⟩
  · rfl
  · unfold rest
    rw [List.splitOn_append_cons_self]
    exact List.getLastD_concat

/-! ## Line by line -/

/-- A text has a first line that is terminated, or none. -/
theorem line_induction {motive : List α → Prop} (open_line : ∀ line, sep ∉ line → motive line)
    (cons_line : ∀ line xs, sep ∉ line → motive xs → motive (line ++ sep :: xs)) :
    ∀ xs, motive xs := by
  intro xs
  by_cases hmem : sep ∈ xs
  · obtain ⟨line, more, rfl, hline⟩ := List.eq_append_cons_of_mem hmem
    exact cons_line line more hline (line_induction open_line cons_line more)
  · exact open_line xs hmem
termination_by xs => xs.length
decreasing_by
  subst_vars
  simp only [List.length_append, List.length_cons]
  omega

theorem whole_line {line : List α} (h : sep ∉ line) :
    whole sep (line ++ sep :: xs) = line :: whole sep xs := by
  unfold whole
  rw [List.splitOn_append_cons_self, List.splitOn_eq_singleton h]
  exact List.dropLast_cons_of_ne_nil (List.splitOn_ne_nil sep xs)

theorem rest_append_cons (xs ys : List α) : rest sep (xs ++ sep :: ys) = rest sep ys := by
  have hne : ys.splitOn sep ≠ [] := List.splitOn_ne_nil sep ys
  unfold rest
  rw [List.splitOn_append_cons_self, List.getLastD_eq_getLast?, List.getLastD_eq_getLast?,
    List.getLast?_append_of_ne_nil _ hne]

theorem Closed.rest_append (h : Closed sep xs) : rest sep (xs ++ ys) = rest sep ys := by
  rcases h.cases with rfl | ⟨zs, rfl⟩
  · rfl
  · rw [List.append_assoc, List.singleton_append, rest_append_cons]

theorem rest_of_not_mem (h : sep ∉ xs) : rest sep xs = xs := by
  unfold rest
  rw [List.splitOn_eq_singleton h]
  rfl

/-- A text without its first line. -/
def afterLine (sep : α) : List α → List α
  | [] => []
  | x :: xs => if x = sep then xs else afterLine sep xs

/-- A text without its first `n` lines. -/
def dropLines (sep : α) : ℕ → List α → List α
  | 0, xs => xs
  | n + 1, xs => dropLines sep n (afterLine sep xs)

theorem afterLine_of_not_mem (h : sep ∉ xs) : afterLine sep xs = [] := by
  induction xs with
  | nil => rfl
  | cons x xs ih =>
      rw [List.mem_cons, not_or] at h
      rw [afterLine, if_neg (Ne.symm h.1), ih h.2]

theorem afterLine_line {line : List α} (h : sep ∉ line) :
    afterLine sep (line ++ sep :: xs) = xs := by
  induction line with
  | nil => rw [List.nil_append, afterLine, if_pos rfl]
  | cons x line ih =>
      rw [List.mem_cons, not_or] at h
      rw [List.cons_append, afterLine, if_neg (Ne.symm h.1), ih h.2]

@[simp] theorem dropLines_nil (n : ℕ) : dropLines sep n ([] : List α) = [] := by
  induction n with
  | zero => rfl
  | succ n ih => exact ih

/-- What is dropped consists of whole lines, unless it is all there is. -/
theorem exists_dropLines (n : ℕ) (xs : List α) :
    ∃ ys, xs = ys ++ dropLines sep n xs ∧ (Closed sep ys ∨ dropLines sep n xs = []) := by
  induction n generalizing xs with
  | zero => exact ⟨[], rfl, Or.inl (by simp [Closed])⟩
  | succ n ih =>
      by_cases hmem : sep ∈ xs
      · obtain ⟨line, more, rfl, hline⟩ := List.eq_append_cons_of_mem hmem
        obtain ⟨ys, hys, hclosed⟩ := ih more
        rw [dropLines, afterLine_line hline]
        refine ⟨line ++ sep :: ys, ?_, hclosed.imp_left fun hclosed => ?_⟩
        · rw [List.append_assoc, List.cons_append, ← hys]
        · intro x hx
          rw [List.getLast?_append, List.getLast?_cons] at hx
          rcases hclosed.cases with rfl | ⟨zs, rfl⟩
          · simpa using hx.symm
          · simpa using hx.symm
      · rw [dropLines, afterLine_of_not_mem hmem, dropLines_nil]
        exact ⟨xs, (List.append_nil xs).symm, Or.inr rfl⟩

end Lines
