import Mathlib.Data.List.Pairwise
import Mathlib.Logic.Function.Basic

/-!
# Sheets

A sheet has named columns and rows in the order in which they were added. A key is a column whose
cells are distinct. Adding a column leaves what the rows have in the others.
-/

structure Sheet (κ α : Type) where
  columns : List κ
  rows : List (κ → α) := []

namespace Sheet

variable {κ α : Type} {t : Sheet κ α} {key c : κ} {v v' : α} {row : κ → α}
  {f : (κ → α) → κ → α}

/-- Some cells are assigned, the others are kept. -/
def write [DecidableEq κ] (row : κ → α) (cells : List (κ × α)) : κ → α :=
  fun c => (cells.lookup c).getD (row c)

/-- The first row with this key. -/
def lookup [DecidableEq α] (t : Sheet κ α) (key : κ) (v : α) : Option (κ → α) :=
  t.rows.find? fun row => row key = v

/-- No two rows share a key. -/
def Keyed (t : Sheet κ α) (key : κ) : Prop := t.rows.Pairwise fun a b => a key ≠ b key

/-! ## Operations -/

def append (t : Sheet κ α) (row : κ → α) : Sheet κ α := { t with rows := t.rows ++ [row] }

/-- The rows with this key are changed. -/
def update [DecidableEq α] (t : Sheet κ α) (key : κ) (v : α) (f : (κ → α) → κ → α) : Sheet κ α :=
  { t with rows := t.rows.map fun row => if row key = v then f row else row }

def delete [DecidableEq α] (t : Sheet κ α) (key : κ) (v : α) : Sheet κ α :=
  { t with rows := t.rows.filter fun row => row key ≠ v }

/-- A row is added, unless its key is there; then the row there is changed. -/
def upsert [DecidableEq α] (t : Sheet κ α) (key : κ) (row : κ → α) (f : (κ → α) → κ → α) :
    Sheet κ α :=
  match t.lookup key (row key) with
  | some _ => t.update key (row key) f
  | none => t.append row

/-- A row takes the place of the one with its key. -/
def replace [DecidableEq α] (t : Sheet κ α) (key : κ) (row : κ → α) : Sheet κ α :=
  (t.delete key (row key)).append row

/-- A column is added, with a blank in every row, unless there is one of this name. -/
def addColumn [DecidableEq κ] (t : Sheet κ α) (blank : α) (c : κ) : Option (Sheet κ α) :=
  if c ∈ t.columns then none
  else some
    { columns := t.columns ++ [c], rows := t.rows.map fun row => Function.update row c blank }

/-- The columns that are missing are added. -/
def addColumns [DecidableEq κ] (t : Sheet κ α) (blank : α) (cs : List κ) : Sheet κ α :=
  cs.foldl (fun t c => (t.addColumn blank c).getD t) t

/-! ## Columns -/

section Columns

variable [DecidableEq κ] {blank : α} {cs : List κ}

theorem addColumns_cons (t : Sheet κ α) (blank : α) (c : κ) (cs : List κ) :
    t.addColumns blank (c :: cs) = ((t.addColumn blank c).getD t).addColumns blank cs := rfl

theorem mem_addColumn : c ∈ ((t.addColumn blank key).getD t).columns ↔ c ∈ t.columns ∨ c = key := by
  unfold addColumn
  split
  case isTrue hmem =>
    rw [Option.getD_none, iff_self_or]
    exact fun heq => heq ▸ hmem
  case isFalse => simp

theorem mem_addColumns : c ∈ (t.addColumns blank cs).columns ↔ c ∈ t.columns ∨ c ∈ cs := by
  induction cs generalizing t with
  | nil => simp [addColumns]
  | cons key cs ih => rw [addColumns_cons, ih, mem_addColumn, List.mem_cons, or_assoc]

/-- Nothing is added if nothing is missing. -/
theorem addColumns_of_subset (h : ∀ c ∈ cs, c ∈ t.columns) : t.addColumns blank cs = t := by
  induction cs with
  | nil => rfl
  | cons key cs ih =>
      rw [addColumns_cons, addColumn, if_pos (h key List.mem_cons_self)]
      exact ih fun c hc => h c (List.mem_cons_of_mem key hc)

/-- The columns that were there stay in front, and the rows keep what they have in them; they
have a blank in the others. -/
theorem addColumns_eq (t : Sheet κ α) (blank : α) (cs : List κ) :
    ∃ added : List κ, (∀ c ∈ added, c ∉ t.columns) ∧ t.addColumns blank cs =
      { columns := t.columns ++ added
        rows := t.rows.map fun row c => if c ∈ added then blank else row c } := by
  induction cs generalizing t with
  | nil => exact ⟨[], nofun, by simp [addColumns]⟩
  | cons key cs ih =>
      rw [addColumns_cons]
      unfold addColumn
      split
      case isTrue => exact ih t
      case isFalse hnew =>
        obtain ⟨added, hadded, heq⟩ :=
          ih { columns := t.columns ++ [key], rows := t.rows.map (Function.update · key blank) }
        refine ⟨key :: added, fun c hc => ?_, ?_⟩
        · rcases List.mem_cons.1 hc with rfl | hc
          · exact hnew
          · exact fun hold => hadded c hc (List.mem_append_left _ hold)
        · rw [Option.getD_some, heq]
          simp only [List.append_assoc, List.singleton_append, List.map_map]
          congr 2
          funext row c
          by_cases hc : c = key
          · subst hc
            simp
          · simp [hc]

end Columns

/-! ## Keys -/

section Keys

variable [DecidableEq α]

theorem lookup_key (h : t.lookup key v = some row) : row key = v := by
  simpa using List.find?_some h

theorem lookup_eq_none : t.lookup key v = none ↔ ∀ row ∈ t.rows, row key ≠ v := by
  simp [lookup]

theorem lookup_append (t : Sheet κ α) (row : κ → α) :
    (t.append row).lookup key v =
      (t.lookup key v).or (if row key = v then some row else none) := by
  unfold lookup append
  rw [List.find?_append, List.find?_singleton]
  simp

theorem lookup_delete (t : Sheet κ α) (key : κ) (v v' : α) :
    (t.delete key v).lookup key v' = if v' = v then none else t.lookup key v' := by
  unfold lookup delete
  rw [List.find?_filter]
  split
  case isTrue heq =>
    rw [List.find?_eq_none]
    intro row _
    simp [heq]
  case isFalse hne =>
    congr 1
    funext row
    by_cases hrow : row key = v' <;> simp [hrow, hne]

theorem lookup_update (hf : ∀ row, f row key = row key) (t : Sheet κ α) (v v' : α) :
    (t.update key v f).lookup key v' =
      if v' = v then (t.lookup key v').map f else t.lookup key v' := by
  unfold lookup update
  simp only
  induction t.rows with
  | nil => simp
  | cons row rows ih =>
      rw [List.map_cons, List.find?_cons, List.find?_cons, ih]
      by_cases hrow : row key = v
      · rw [if_pos hrow, hf, hrow]
        by_cases hv : v' = v
        · simp [hv]
        · simp [hv, Ne.symm hv]
      · rw [if_neg hrow]
        by_cases hv : v' = v
        · simp [hv, hrow]
        · simp [hv]

theorem Keyed.lookup_of_mem (h : t.Keyed key) (hrow : row ∈ t.rows) :
    t.lookup key (row key) = some row := by
  unfold Keyed at h
  unfold lookup
  generalize t.rows = rows at h hrow ⊢
  induction rows with
  | nil => exact absurd hrow List.not_mem_nil
  | cons first rows ih =>
      obtain ⟨hfirst, hrest⟩ := List.pairwise_cons.1 h
      rcases List.mem_cons.1 hrow with rfl | hrow
      · exact List.find?_cons_of_pos (decide_eq_true rfl)
      · rw [List.find?_cons_of_neg (by simpa using hfirst row hrow)]
        exact ih hrest hrow

theorem Keyed.append (h : t.Keyed key) (hnew : t.lookup key (row key) = none) :
    (t.append row).Keyed key := by
  refine List.pairwise_append.2 ⟨h, List.pairwise_singleton _ _, fun a ha b hb => ?_⟩
  rw [List.mem_singleton.1 hb]
  exact lookup_eq_none.1 hnew a ha

theorem Keyed.update (h : t.Keyed key) (hf : ∀ row, f row key = row key) (v : α) :
    (t.update key v f).Keyed key := by
  have hkept (row : κ → α) : (if row key = v then f row else row) key = row key := by
    split
    · exact hf row
    · rfl
  refine List.pairwise_map.2 (h.imp fun hne => ?_)
  rwa [hkept, hkept]

theorem Keyed.delete (h : t.Keyed key) (v : α) : (t.delete key v).Keyed key := h.filter _

theorem Keyed.upsert (h : t.Keyed key) (hf : ∀ row, f row key = row key) (row : κ → α) :
    (t.upsert key row f).Keyed key := by
  unfold Sheet.upsert
  split
  · exact h.update hf _
  case h_2 hnew => exact h.append hnew

theorem Keyed.replace (h : t.Keyed key) (row : κ → α) : (t.replace key row).Keyed key := by
  refine (h.delete _).append ?_
  rw [lookup_delete, if_pos rfl]

theorem lookup_upsert (hf : ∀ row, f row key = row key) (t : Sheet κ α) (row : κ → α) (v : α) :
    (t.upsert key row f).lookup key v =
      if v = row key then some (((t.lookup key v).map f).getD row) else t.lookup key v := by
  unfold upsert
  split
  case h_1 old hold =>
    rw [lookup_update hf]
    by_cases hv : v = row key
    · rw [if_pos hv, if_pos hv, hv, hold]
      rfl
    · rw [if_neg hv, if_neg hv]
  case h_2 hnew =>
    rw [lookup_append]
    by_cases hv : v = row key
    · rw [if_pos hv, hv, hnew, if_pos rfl]
      rfl
    · rw [if_neg hv, if_neg (Ne.symm hv), Option.or_none]

theorem lookup_replace (t : Sheet κ α) (row : κ → α) (v : α) :
    (t.replace key row).lookup key v =
      if v = row key then some row else t.lookup key v := by
  unfold replace
  rw [lookup_append, lookup_delete]
  by_cases hv : v = row key
  · rw [if_pos hv, if_pos hv, if_pos hv.symm]
    rfl
  · rw [if_neg hv, if_neg hv, if_neg (Ne.symm hv), Option.or_none]

end Keys

end Sheet
