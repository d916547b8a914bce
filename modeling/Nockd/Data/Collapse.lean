import Mathlib.Data.Int.Order.Basic
import Mathlib.Data.List.Destutter
import Mathlib.Data.List.Nodup

/-!
# Collapsing a list by a key

Two ways to thin out a list of keyed entries. `runs` keeps the first entry of every run of one
key, `firsts` the first entry of every key. They have a prefix in common as
long as no key comes back, and in a list that is ordered by a second key, the
rank, `firsts` keeps an entry of the highest rank of each key.

`IsRanking` says that a list is another one put in order of rank. Equal ranks leave the order
open, and a prefix of it is determined exactly if none of its ranks occurs twice.
-/

namespace Collapse

variable {α κ : Type} [DecidableEq κ] (key : α → κ)

/-- The first entry of every run. -/
def runs (xs : List α) : List α := xs.destutter fun a b => key a ≠ key b

/-- The first entry of every key. -/
def firsts : List α → List α
  | [] => []
  | x :: xs => x :: (firsts xs).filter fun y => key y ≠ key x

variable {key} {x y : α} {xs ys : List α} {n : ℕ}

theorem firsts_sublist (xs : List α) : (firsts key xs).Sublist xs := by
  induction xs with
  | nil => exact List.Sublist.slnil
  | cons x xs ih => exact (List.filter_sublist.trans ih).cons_cons x

theorem nodup_firsts (xs : List α) : ((firsts key xs).map key).Nodup := by
  induction xs with
  | nil => exact List.nodup_nil
  | cons x xs ih =>
      rw [firsts, List.map_cons, List.nodup_cons]
      refine ⟨?_, ih.sublist (List.filter_sublist.map key)⟩
      intro hx
      obtain ⟨y, hy, hkey⟩ := List.mem_map.1 hx
      exact of_decide_eq_true (List.mem_filter.1 hy).2 hkey

theorem mem_map_firsts {k : κ} : k ∈ (firsts key xs).map key ↔ k ∈ xs.map key := by
  induction xs with
  | nil => rfl
  | cons x xs ih =>
      rw [firsts, List.map_cons, List.map_cons, List.mem_cons, List.mem_cons, ← ih]
      refine or_congr_right' fun hk => ?_
      constructor
      · exact fun h => (List.filter_sublist.map key).subset h
      · intro h
        obtain ⟨y, hy, rfl⟩ := List.mem_map.1 h
        exact List.mem_map_of_mem (List.mem_filter.2 ⟨hy, decide_eq_true hk⟩)

/-- The first entry of a run is the first of its key or comes back to it. -/
theorem firsts_destutter' (x : α) (xs : List α) :
    firsts key (xs.destutter' (fun a b => key a ≠ key b) x) = firsts key (x :: xs) := by
  induction xs generalizing x with
  | nil => rfl
  | cons y xs ih =>
      rw [List.destutter'_cons]
      split
      case isTrue hne =>
        rw [firsts, ih y]
        rfl
      case isFalse heq =>
        rw [not_not] at heq
        rw [ih x, firsts, firsts, firsts, List.filter_cons_of_neg (by simp [heq]),
          List.filter_filter]
        simp [heq]

theorem firsts_runs (xs : List α) : firsts key (runs key xs) = firsts key xs := by
  cases xs with
  | nil => rfl
  | cons x xs => exact firsts_destutter' x xs

theorem take_filter_of_forall {p : α → Bool} (h : ∀ x ∈ xs.take n, p x = true) :
    (xs.filter p).take n = xs.take n := by
  induction xs generalizing n with
  | nil => rfl
  | cons x xs ih =>
      cases n with
      | zero => rfl
      | succ n =>
          rw [List.take_succ_cons, List.forall_mem_cons] at h
          rw [List.filter_cons_of_pos h.1, List.take_succ_cons, List.take_succ_cons, ih h.2]

/-- A prefix in which no key comes back is one of both. -/
theorem take_firsts_iff :
    (firsts key xs).take n = xs.take n ↔ ((xs.take n).map key).Nodup := by
  constructor
  · intro h
    rw [← h]
    exact (nodup_firsts xs).sublist ((List.take_sublist n _).map key)
  · intro h
    induction xs generalizing n with
    | nil => rfl
    | cons x xs ih =>
        cases n with
        | zero => rfl
        | succ n =>
            rw [List.take_succ_cons, List.map_cons, List.nodup_cons] at h
            have hrest := ih h.2
            rw [firsts, List.take_succ_cons, List.take_succ_cons, take_filter_of_forall, hrest]
            intro y hy
            rw [hrest] at hy
            refine decide_eq_true fun hkey => h.1 ?_
            rw [← hkey]
            exact List.mem_map_of_mem hy

/-! ## Ranks -/

variable {rank : α → ℤ}

/-- In a list in order of rank the first entry of a key has its highest rank. -/
theorem rank_le_of_mem_firsts (hsorted : xs.Pairwise fun a b => rank b ≤ rank a)
    (hx : x ∈ firsts key xs) (hy : y ∈ xs) (hkey : key y = key x) : rank y ≤ rank x := by
  induction xs with
  | nil => cases hx
  | cons z xs ih =>
      rw [List.pairwise_cons] at hsorted
      rw [firsts, List.mem_cons] at hx
      rcases hx with rfl | hx
      · rcases List.mem_cons.1 hy with rfl | hy
        · exact le_rfl
        · exact hsorted.1 y hy
      · obtain ⟨hx, hne⟩ := List.mem_filter.1 hx
        rcases List.mem_cons.1 hy with rfl | hy
        · exact absurd hkey.symm (of_decide_eq_true hne)
        · exact ih hsorted.2 hx hy

/-- `ys` is `xs` in order of rank, the highest first. -/
structure IsRanking (rank : α → ℤ) (xs ys : List α) : Prop where
  perm : ys.Perm xs
  sorted : ys.Pairwise fun a b => rank b ≤ rank a

/-- The ranks of the first `n` entries occur once. -/
def Decided (rank : α → ℤ) (n : ℕ) (xs : List α) : Prop :=
  ∀ a ∈ xs.take n, ∀ b ∈ xs, rank b = rank a → b = a

theorem Decided.take_eq (hnodup : xs.Nodup) (hsorted : xs.Pairwise fun a b => rank b ≤ rank a)
    (h : Decided rank n xs) (hys : IsRanking rank xs ys) : ys.take n = xs.take n := by
  induction n generalizing xs ys with
  | zero => simp
  | succ n ih =>
      cases xs with
      | nil => rw [List.perm_nil.1 hys.perm]
      | cons x xs =>
          cases ys with
          | nil => exact absurd hys.perm.symm (by simp)
          | cons y ys =>
              rw [List.nodup_cons] at hnodup
              rw [List.pairwise_cons] at hsorted
              have hy : y ∈ x :: xs := hys.perm.subset List.mem_cons_self
              have hx : x ∈ y :: ys := hys.perm.symm.subset List.mem_cons_self
              have hxy : y = x := by
                refine h x (by simp) y hy (le_antisymm ?_ ?_)
                · rcases List.mem_cons.1 hy with rfl | hy
                  · exact le_rfl
                  · exact hsorted.1 y hy
                · rcases List.mem_cons.1 hx with rfl | hx
                  · exact le_rfl
                  · exact (List.pairwise_cons.1 hys.sorted).1 x hx
              subst hxy
              have hrest : Decided rank n xs := fun a ha b hb hrank =>
                h a (by simp [ha]) b (List.mem_cons_of_mem _ hb) hrank
              rw [List.take_succ_cons, List.take_succ_cons, ih hnodup.2 hsorted.2 hrest
                ⟨hys.perm.cons_inv, (List.pairwise_cons.1 hys.sorted).2⟩]

/-- A rank that occurs twice leaves the order open. -/
theorem exists_ranking_take_ne (hnodup : xs.Nodup)
    (hsorted : xs.Pairwise fun a b => rank b ≤ rank a) (h : ¬ Decided rank n xs) :
    ∃ ys, IsRanking rank xs ys ∧ ys.take n ≠ xs.take n := by
  induction xs generalizing n with
  | nil => exact absurd (fun a ha => by simp at ha) h
  | cons x xs ih =>
      cases n with
      | zero => exact absurd (fun a ha => by simp at ha) h
      | succ n =>
          rw [List.nodup_cons] at hnodup
          rw [List.pairwise_cons] at hsorted
          by_cases htie : ∃ z ∈ xs, rank z = rank x
          · -- the entry after `x` has its rank too, and may come first
            cases xs with
            | nil => simp at htie
            | cons y xs =>
                obtain ⟨z, hz, hrank⟩ := htie
                obtain ⟨hx, hrest⟩ := hsorted
                obtain ⟨hy, htail⟩ := List.pairwise_cons.1 hrest
                have hyx : rank y = rank x := by
                  refine le_antisymm (hx y List.mem_cons_self) ?_
                  rcases List.mem_cons.1 hz with rfl | hz
                  · exact hrank.ge
                  · exact hrank ▸ hy z hz
                refine ⟨y :: x :: xs, ⟨List.Perm.swap x y xs, ?_⟩, ?_⟩
                · refine List.pairwise_cons.2 ⟨?_, List.pairwise_cons.2 ⟨?_, htail⟩⟩
                  · rw [List.forall_mem_cons]
                    exact ⟨hyx.ge, hy⟩
                  · exact fun b hb => hx b (List.mem_cons_of_mem _ hb)
                · rw [List.take_succ_cons, List.take_succ_cons]
                  intro heq
                  obtain rfl : y = x := (List.cons.inj heq).1
                  exact hnodup.1 List.mem_cons_self
          · have hrest : ¬ Decided rank n xs := by
              intro hdecided
              apply h
              intro a ha b hb hrank
              rw [List.take_succ_cons, List.mem_cons] at ha
              rcases ha with rfl | ha <;> rcases List.mem_cons.1 hb with rfl | hb
              · rfl
              · exact absurd ⟨b, hb, hrank⟩ htie
              · exact absurd ⟨a, List.mem_of_mem_take ha, hrank.symm⟩ htie
              · exact hdecided a ha b hb hrank
            obtain ⟨ys, hys, hne⟩ := ih hnodup.2 hsorted.2 hrest
            refine ⟨x :: ys, ⟨hys.perm.cons x, ?_⟩, ?_⟩
            · exact List.pairwise_cons.2 ⟨fun b hb => hsorted.1 b (hys.perm.subset hb), hys.sorted⟩
            · rw [List.take_succ_cons, List.take_succ_cons]
              exact fun heq => hne (List.cons.inj heq).2

end Collapse
