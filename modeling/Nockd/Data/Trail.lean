import Mathlib.Data.List.Induction

/-!
# Trails

A trail lists what something has been set to, the newest first. `before a` is the
newest entry that differs from `a`. Going back to it is a move like any other and
lengthens the trail, so that going back twice ends where it began.
-/

namespace Trail

variable {α : Type} [DecidableEq α] {a b : α} {xs : List α}

/-- The newest entry that differs from `a`. -/
def before (a : α) (xs : List α) : Option α := xs.find? (· ≠ a)

@[simp] theorem before_nil (a : α) : before a [] = none := rfl

@[simp] theorem before_cons_self (a : α) (xs : List α) : before a (a :: xs) = before a xs := by
  simp [before]

theorem before_cons_of_ne (h : b ≠ a) (xs : List α) : before a (b :: xs) = some b := by
  simp [before, h]

/-- It is what came right before the latest run of `a`. -/
theorem before_eq_some_iff :
    before a xs = some b ↔
      b ≠ a ∧ ∃ k rest, xs = List.replicate k a ++ b :: rest := by
  induction xs with
  | nil => simp
  | cons c xs ih =>
      by_cases hc : c = a
      · subst hc
        rw [before_cons_self, ih]
        refine and_congr_right fun hb => ⟨?_, ?_⟩
        · rintro ⟨k, rest, rfl⟩
          exact ⟨k + 1, rest, rfl⟩
        · rintro ⟨k, rest, heq⟩
          cases k with
          | zero => exact absurd (List.cons.inj heq).1.symm hb
          | succ k => exact ⟨k, rest, (List.cons.inj heq).2⟩
      · rw [before_cons_of_ne hc, Option.some.injEq]
        constructor
        · rintro rfl
          exact ⟨hc, 0, xs, rfl⟩
        · rintro ⟨-, k, rest, heq⟩
          cases k with
          | zero => exact (List.cons.inj heq).1
          | succ k => exact absurd (List.cons.inj heq).1 hc

theorem before_isSome_iff : (before a xs).isSome = true ↔ ∃ b ∈ xs, b ≠ a := by
  simp [before]

theorem mem_of_before (h : before a xs = some b) : b ∈ xs := List.mem_of_find?_eq_some h

/-- From its newest entry a trail can go back if it has two distinct entries. -/
theorem before_isSome_iff_distinct (h : xs.head? = some a) :
    (before a xs).isSome = true ↔ ∃ b ∈ xs, ∃ c ∈ xs, b ≠ c := by
  have hmem : a ∈ xs := List.mem_of_mem_head? h
  rw [before_isSome_iff]
  constructor
  · rintro ⟨b, hb, hne⟩
    exact ⟨b, hb, a, hmem, hne⟩
  · rintro ⟨b, hb, c, hc, hne⟩
    by_cases hba : b = a
    · exact ⟨c, hc, fun hca => hne (hba.trans hca.symm)⟩
    · exact ⟨b, hb, hba⟩

/-- Having gone back, the way back leads to where one came from. -/
theorem before_back (h : xs.head? = some a) (hb : before a xs = some b) :
    before b (b :: xs) = some a := by
  cases xs with
  | nil => cases h
  | cons c xs =>
      obtain rfl : c = a := Option.some.inj h
      rw [before_cons_self]
      exact before_cons_of_ne (before_eq_some_iff.1 hb).1.symm xs

inductive Move (α : Type) where
  | set (a : α)
  | back

/-- What a move makes of a trail. -/
def move (xs : List α) : Move α → List α
  | .set a => a :: xs
  | .back => (xs.head?.bind fun a => before a xs).toList ++ xs

theorem move_back (h : xs.head? = some a) :
    move xs .back = (before a xs).toList ++ xs := by
  rw [move, h, Option.bind_some]

/-- Going back adds no entry that was not there. -/
theorem mem_move_back : b ∈ move xs .back ↔ b ∈ xs := by
  rw [move, List.mem_append, or_iff_right_iff_imp, Option.mem_toList,
    Option.bind_eq_some_iff]
  rintro ⟨a, -, hb⟩
  exact mem_of_before hb

/-- The entries of a trail are what it has been set to. -/
theorem mem_foldl_move (moves : List (Move α)) :
    b ∈ moves.foldl move [] ↔ .set b ∈ moves := by
  induction moves using List.reverseRecOn with
  | nil => simp
  | append_singleton moves m ih =>
      rw [List.foldl_append, List.foldl_cons, List.foldl_nil, List.mem_append,
        List.mem_singleton]
      cases m with
      | set a =>
          rw [move, List.mem_cons, ih, Move.set.injEq]
          exact or_comm
      | back => simp [mem_move_back, ih]

theorem move_eq_or_cons (xs : List α) (m : Move α) :
    move xs m = xs ∨ ∃ a, move xs m = a :: xs := by
  cases m with
  | set a => exact Or.inr ⟨a, rfl⟩
  | back =>
      rw [move]
      cases xs.head?.bind fun a => before a xs with
      | none => exact Or.inl rfl
      | some b => exact Or.inr ⟨b, rfl⟩

/-- A trail that grows by at most one entry with each event has been every suffix of
itself, and since the last time has been longer. -/
theorem exists_prefix {β : Type} {f : List β → List α} (hnil : f [] = [])
    (hstep : ∀ pre x, f (pre ++ [x]) = f pre ∨ ∃ a, f (pre ++ [x]) = a :: f pre)
    {xs : List β} {t : List α} (h : t <:+ f xs) :
    ∃ pre rest, xs = pre ++ rest ∧ f pre = t ∧
      ∀ mid tail, rest = mid ++ tail → mid ≠ [] →
        ∃ a u, f (pre ++ mid) = a :: u ++ t ∧ f (pre ++ mid) <:+ f xs := by
  induction xs using List.reverseRecOn with
  | nil =>
      rw [hnil] at h
      refine ⟨[], [], rfl, by rw [hnil, List.suffix_nil.1 h], fun mid tail hmid hne => ?_⟩
      exact absurd (List.append_eq_nil_iff.1 hmid.symm).1 hne
  | append_singleton xs x ih =>
      by_cases heq : f (xs ++ [x]) = t
      · refine ⟨xs ++ [x], [], (List.append_nil _).symm, heq, fun mid tail hmid hne => ?_⟩
        exact absurd (List.append_eq_nil_iff.1 hmid.symm).1 hne
      have hgrow : f xs <:+ f (xs ++ [x]) := by
        rcases hstep xs x with hx | ⟨a, hx⟩
        · exact hx ▸ List.suffix_rfl
        · exact hx ▸ List.suffix_cons a _
      have hbefore : t <:+ f xs := by
        rcases hstep xs x with hx | ⟨a, hx⟩
        · rwa [hx] at h
        · rw [hx] at h heq
          exact (List.suffix_cons_iff.1 h).resolve_left fun ht => heq ht.symm
      obtain ⟨pre, rest, rfl, hpre, hmid⟩ := ih hbefore
      refine ⟨pre, rest ++ [x], List.append_assoc _ _ _, hpre, fun mid tail hrest hne => ?_⟩
      rcases List.eq_nil_or_concat tail with rfl | ⟨tail, y, rfl⟩
      · rw [List.append_nil] at hrest
        subst hrest
        rw [← List.append_assoc]
        obtain ⟨u, hu⟩ := h
        cases u with
        | nil => exact absurd hu.symm heq
        | cons a u => exact ⟨a, u, hu.symm, List.suffix_rfl⟩
      · rw [List.concat_eq_append, ← List.append_assoc] at hrest
        obtain ⟨a, u, hau, hsuffix⟩ := hmid mid tail (List.append_inj' hrest rfl).1 hne
        exact ⟨a, u, hau, hsuffix.trans hgrow⟩

end Trail
