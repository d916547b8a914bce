import Mathlib.Data.List.AList
import Nockd.Store.Hashes

/-!
# The registry tables

The SQLite tables as keyed tables: a primary key is a key of an `AList`, so no
two rows share one. `event` and `deploy_history` are append-only and kept in the order
of their AUTOINCREMENT ids. The argument list of an app is kept as the list its
JSON text stands for.
-/

namespace Nockd

abbrev Table (V : Type) := AList fun _ : String => V

/-- Update the row of a key, if there is one. -/
def Table.modify {V : Type} (t : Table V) (k : String) (f : V → V) : Table V :=
  match t.lookup k with
  | some v => t.insert k (f v)
  | none => t

theorem Table.keys_modify {V : Type} (t : Table V) (k : String) (f : V → V) {l : String}
    (h : l ∈ t.keys) : l ∈ (t.modify k f).keys := by
  unfold Table.modify
  cases t.lookup k with
  | none => exact h
  | some v => exact (AList.mem_insert _).2 (Or.inr h)

theorem Table.lookup_modify {V : Type} (t : Table V) (k : String) (f : V → V) :
    (t.modify k f).lookup k = (t.lookup k).map f := by
  unfold Table.modify
  cases h : t.lookup k with
  | none => simp [h]
  | some v => simp

theorem Table.lookup_modify_ne {V : Type} (t : Table V) {k l : String} (f : V → V)
    (hne : l ≠ k) : (t.modify k f).lookup l = t.lookup l := by
  unfold Table.modify
  cases t.lookup k with
  | none => rfl
  | some v => exact AList.lookup_insert_ne hne

/-- Updates of distinct keys in turn. -/
theorem Table.lookup_foldl_modify {V : Type} {names : List String} (hnames : names.Nodup)
    (t : Table V) (k : String) (f : V → V) :
    (names.foldl (fun t name => Table.modify t name f) t).lookup k =
      if k ∈ names then (t.lookup k).map f else t.lookup k := by
  induction names generalizing t with
  | nil => simp
  | cons name names ih =>
      obtain ⟨hname, hrest⟩ := List.nodup_cons.1 hnames
      rw [List.foldl_cons, ih hrest]
      by_cases hk : k = name
      · subst hk
        rw [if_neg hname, Table.lookup_modify, if_pos List.mem_cons_self]
      · rw [Table.lookup_modify_ne _ _ hk]
        simp [hk]

namespace Registry

structure ArtifactRow where
  kernelHash : String
  targetTriple : String
  createdAt : ℤ
  provenance : Option String
  verifiedStatus : Option String
  builder : Option String
deriving DecidableEq, Repr

/-- A row of the `app` table, without its key. -/
structure AppRecord where
  artifactHash : String
  endpoint : Option String
  restartPolicy : String
  args : List String
  statePath : String
  desiredStatus : String
  adminAddr : Option String
  statusCmd : Option String
  statusLabel : Option String
  port : Option UInt16
  manifestPath : Option String
  icon : Option String
  createdAt : ℤ
  updatedAt : ℤ
deriving DecidableEq, Repr

/-- An app joined with its artifact, as the readers return it. -/
structure AppRow where
  name : String
  artifactHash : String
  kernelHash : String
  endpoint : Option String
  restartPolicy : String
  args : List String
  statePath : String
  desiredStatus : String
  adminAddr : Option String
  statusCmd : Option String
  statusLabel : Option String
  port : Option UInt16
  manifestPath : Option String
  icon : Option String
  verifiedStatus : Option String
  createdAt : ℤ
  updatedAt : ℤ
deriving DecidableEq, Repr

structure EventRow where
  id : ℕ
  ts : ℤ
  appName : String
  kind : String
  detail : String
deriving DecidableEq, Repr

structure HistoryRow where
  id : ℕ
  appName : String
  artifactHash : String
  deployedAt : ℤ
deriving DecidableEq, Repr

structure EndpointRow where
  url : String
  kind : String
  createdAt : ℤ
deriving DecidableEq, Repr

end Registry

open Registry in
structure Registry where
  artifact : Table ArtifactRow := ∅
  trustedBuilder : Table ℤ := ∅
  app : Table AppRecord := ∅
  event : List EventRow := []
  endpoint : Table EndpointRow := ∅
  deployHistory : List HistoryRow := []
  /-- The last ids handed out (`sqlite_sequence`). -/
  eventSeq : ℕ := 0
  historySeq : ℕ := 0
deriving DecidableEq

/-- The registry without its events. -/
def Registry.quiet (r : Registry) : Registry := { r with event := [], eventSeq := 0 }

/-- A field other than the events is read off `quiet`. -/
theorem Registry.congr_of_quiet {α : Type} {r r' : Registry} (f : Registry → α)
    (hf : ∀ r, f r.quiet = f r) (h : r.quiet = r'.quiet) : f r = f r' := by
  rw [← hf r, h, hf r']

end Nockd
