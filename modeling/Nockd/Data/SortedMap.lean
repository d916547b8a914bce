import Mathlib.Data.List.Induction
import Mathlib.Order.Lattice

/-!
# Sorted maps

A map as the list of its entries in the order of their keys. Inserting replaces the
value of a key that is there, so a list of entries in which a key occurs twice keeps the
last one. A list that is sorted already is left as it is.
-/

namespace SortedMap

variable {K V : Type} [LinearOrder K]

def Sorted (m : List (K × V)) : Prop := m.Pairwise fun x y => x.1 < y.1

/-- Insert an entry, or replace the value of its key. -/
def insert (k : K) (v : V) : List (K × V) → List (K × V)
  | [] => [(k, v)]
  | (l, w) :: rest =>
    if k < l then (k, v) :: (l, w) :: rest
    else if k = l then (k, v) :: rest
    else (l, w) :: insert k v rest

/-- Insert the entries of a list in turn. -/
def ofList (xs : List (K × V)) : List (K × V) := xs.foldl (fun m x => insert x.1 x.2 m) []

variable {k : K} {v : V} {m xs : List (K × V)}

theorem mem_insert {x : K × V} (h : x ∈ insert k v m) : x = (k, v) ∨ x ∈ m := by
  induction m with
  | nil => exact Or.inl (List.mem_singleton.1 h)
  | cons y rest ih =>
      obtain ⟨l, w⟩ := y
      unfold insert at h
      split at h
      · exact List.mem_cons.1 h
      · split at h
        · exact (List.mem_cons.1 h).imp_right (List.mem_cons_of_mem _)
        · rcases List.mem_cons.1 h with rfl | h
          · exact Or.inr List.mem_cons_self
          · exact (ih h).imp_right (List.mem_cons_of_mem _)

theorem Sorted.insert (h : Sorted m) (k : K) (v : V) : Sorted (insert k v m) := by
  induction m with
  | nil => exact List.pairwise_singleton _ _
  | cons y rest ih =>
      obtain ⟨l, w⟩ := y
      obtain ⟨hfirst, hrest⟩ := List.pairwise_cons.1 h
      unfold SortedMap.insert
      split
      case isTrue hlt =>
        refine List.pairwise_cons.2 ⟨fun x hx => ?_, h⟩
        rcases List.mem_cons.1 hx with rfl | hx
        · exact hlt
        · exact hlt.trans (hfirst x hx)
      case isFalse hle =>
        split
        case isTrue heq =>
          subst heq
          exact List.pairwise_cons.2 ⟨hfirst, hrest⟩
        case isFalse hne =>
          refine List.pairwise_cons.2 ⟨fun x hx => ?_, ih hrest⟩
          rcases mem_insert hx with rfl | hx
          · exact lt_of_le_of_ne (not_lt.1 hle) (Ne.symm hne)
          · exact hfirst x hx

theorem sorted_ofList (xs : List (K × V)) : Sorted (ofList xs) := by
  induction xs using List.reverseRecOn with
  | nil => exact List.Pairwise.nil
  | append_singleton xs x ih =>
      rw [ofList, List.foldl_append]
      exact ih.insert x.1 x.2

theorem mem_ofList {x : K × V} (h : x ∈ ofList xs) : x ∈ xs := by
  induction xs using List.reverseRecOn with
  | nil => exact h
  | append_singleton xs y ih =>
      rw [ofList, List.foldl_append] at h
      rcases mem_insert h with rfl | h
      · exact List.mem_append_right _ List.mem_cons_self
      · exact List.mem_append_left _ (ih h)

/-- A key beyond all others goes to the end. -/
theorem insert_of_lt (h : ∀ x ∈ m, x.1 < k) : insert k v m = m ++ [(k, v)] := by
  induction m with
  | nil => rfl
  | cons y rest ih =>
      have hlt : y.1 < k := h y List.mem_cons_self
      obtain ⟨l, w⟩ := y
      rw [insert, if_neg hlt.le.not_gt, if_neg hlt.ne', List.cons_append,
        ih fun x hx => h x (List.mem_cons_of_mem _ hx)]

theorem ofList_of_sorted (h : Sorted xs) : ofList xs = xs := by
  induction xs using List.reverseRecOn with
  | nil => rfl
  | append_singleton xs x ih =>
      obtain ⟨hxs, -, hlast⟩ := List.pairwise_append.1 h
      have hfold : ofList (xs ++ [x]) = insert x.1 x.2 (ofList xs) := by
        rw [ofList, List.foldl_append]
        rfl
      rw [hfold, ih hxs]
      exact insert_of_lt fun y hy => hlast y hy x List.mem_cons_self

end SortedMap
