import Mathlib.Data.List.Induction
import Mathlib.Data.List.Nodup
import Mathlib.Order.Lattice

/-!
# Reading a log behind a cursor

A log is kept in ascending order of its keys and grows at its end. A reader remembers
the key it has come to and asks for what lies after it. What it has read is then at any
time a prefix of what lies after its first cursor, and its cursor says exactly how much.
-/

namespace Cursor

variable {α κ : Type} {key : α → κ} {k : κ} {l p q : List α} {a : α}

/-- The cursor of a reader that has read `p` from the cursor `k`. -/
def past (key : α → κ) (k : κ) (p : List α) : κ := (p.getLast?.map key).getD k

@[simp] theorem past_nil : past key k [] = k := rfl

@[simp] theorem past_append_singleton : past key k (p ++ [a]) = key a := by
  simp [past]

variable [LinearOrder κ]

/-- The keys go up. -/
def Ascending (key : α → κ) (l : List α) : Prop := l.Pairwise fun a b => key a < key b

/-- What lies after the cursor. -/
def after (key : α → κ) (k : κ) (l : List α) : List α := l.filter fun a => k < key a

theorem Ascending.append (h : Ascending key l) (ha : ∀ b ∈ l, key b < key a) :
    Ascending key (l ++ [a]) := by
  refine List.pairwise_append.2 ⟨h, List.pairwise_singleton _ _, fun b hb c hc => ?_⟩
  rw [List.mem_singleton.1 hc]
  exact ha b hb

theorem Ascending.after (h : Ascending key l) : Ascending key (after key k l) := h.filter _

theorem Ascending.key_inj (h : Ascending key l) {b : α} (ha : a ∈ l) (hb : b ∈ l)
    (heq : key a = key b) : a = b :=
  List.inj_on_of_nodup_map (List.pairwise_map.2 (h.imp ne_of_lt)) ha hb heq

/-- A later cursor sees what it sees of what the earlier one saw. -/
theorem after_after {k' : κ} (hk : k ≤ k') : after key k' (after key k l) = after key k' l := by
  unfold after
  rw [List.filter_filter]
  refine List.filter_congr fun a _ => ?_
  by_cases ha : k' < key a
  · simp [ha, lt_of_le_of_lt hk ha]
  · simp [ha]

/-- The cursor of a reader separates what it has read from what it has not. -/
theorem after_past (h : Ascending key l) (hread : after key k l = p ++ q) :
    after key (past key k p) l = q := by
  induction p using List.reverseRecOn with
  | nil => exact hread
  | append_singleton p a _ =>
      have hmem : a ∈ after key k l := by
        rw [hread]
        simp
      have hk : k ≤ key a := le_of_lt (by simpa [after] using (List.mem_filter.1 hmem).2)
      have hsplit := h.after (k := k)
      rw [hread] at hsplit
      obtain ⟨hdone, -, hcross⟩ := List.pairwise_append.1 hsplit
      obtain ⟨-, -, hlast⟩ := List.pairwise_append.1 hdone
      have hread' : after key (key a) (p ++ [a]) = [] := by
        refine List.filter_eq_nil_iff.2 fun b hb => ?_
        rcases List.mem_append.1 hb with hb | hb
        · simpa using le_of_lt (hlast b hb a (by simp))
        · simp [List.mem_singleton.1 hb]
      have hrest : after key (key a) q = q :=
        List.filter_eq_self.2 fun b hb => decide_eq_true (hcross a (by simp) b hb)
      rw [past_append_singleton, ← after_after hk, hread]
      unfold after at hread' hrest ⊢
      rw [List.filter_append, hread', hrest, List.nil_append]

end Cursor
