import Mathlib.Algebra.Group.Nat.Hom
import Mathlib.Data.List.Sort
import Nockd.Data.Collapse
import Nockd.Registry.Events
import Nockd.Registry.History

/-!
# The deploy history of an app

`deployHistoryOf` groups the entries of an app by artifact and puts the groups in the order of their
latest times, which are whole seconds. `ORDER BY` is a parameter: it may return any
order that the times allow. The collapsed history, which it stands for, drops an entry only if
the next one is for the same artifact.
-/

namespace Nockd

namespace Registry

open Collapse

structure DeployHistoryRow where
  artifactHash : String
  kernelHash : Option String
  verifiedStatus : Option String
  deployedAt : ℤ
  current : Bool
deriving DecidableEq, Repr

/-- The entries of an app, in the order in which they were inserted. -/
def entriesOf (r : Registry) (name : String) : List HistoryRow :=
  r.deployHistory.filter fun e => e.appName = name

/-- A deployment joined with its artifact; it is current if the app's row names it. -/
def historyRow (r : Registry) (name hash : String) (deployedAt : ℤ) : DeployHistoryRow :=
  let artifact := r.artifact.lookup hash
  { artifactHash := hash, kernelHash := artifact.map (·.kernelHash)
    verifiedStatus := artifact.bind (·.verifiedStatus), deployedAt
    current := r.artifactOf name = some hash }

/-- `GROUP BY artifact_hash` with `MAX(deployed_at)`. -/
def groups (r : Registry) (name : String) : List DeployHistoryRow :=
  ((r.entriesOf name).map (·.artifactHash)).dedup.map fun hash =>
    r.historyRow name hash
      ((((r.entriesOf name).filter fun e => e.artifactHash = hash).map (·.deployedAt)).max?.getD 0)

/-- `limit as i64`. -/
def asI64 (limit : UInt64) : ℤ := limit.toInt64.toInt

/-- `Registry::deploy_history`. -/
def deployHistoryOf (orderBy : List DeployHistoryRow → List DeployHistoryRow) (r : Registry)
    (name : String) (limit : UInt64) : List DeployHistoryRow :=
  limited (asI64 limit) (orderBy (r.groups name))

/-- `ORDER BY at DESC` leaves the order of equal times open. -/
def OrdersByTime (orderBy : List DeployHistoryRow → List DeployHistoryRow) : Prop :=
  ∀ rows, IsRanking (·.deployedAt) rows (orderBy rows)

/-- The entries of an app, the newest first, without those that the next one repeats. -/
def collapsed (r : Registry) (name : String) : List HistoryRow :=
  runs (·.artifactHash) (r.entriesOf name).reverse

/-- The latest entry of every artifact of the app, the newest first. -/
def latest (r : Registry) (name : String) : List HistoryRow :=
  firsts (·.artifactHash) (r.entriesOf name).reverse

/-- The collapsed history, cut to `limit`. -/
def collapsedHistory (r : Registry) (name : String) (limit : UInt64) : List DeployHistoryRow :=
  ((r.collapsed name).take limit.toNat).map fun e =>
    r.historyRow name e.artifactHash e.deployedAt

/-- The `record_deploy` calls of a history, with their times. -/
def recordAll (r : Registry) (calls : List (ℤ × String × String)) : Registry :=
  calls.foldl (fun r c => r.recordDeploy c.1 c.2.1 c.2.2) r

variable {r : Registry} {name : String} {limit : UInt64}

theorem recordAll_history (calls : List (ℤ × String × String)) :
    (r.recordAll calls).deployHistory.map (·.deployedAt) =
      r.deployHistory.map (·.deployedAt) ++ calls.map Prod.fst := by
  unfold recordAll
  induction calls generalizing r with
  | nil => simp
  | cons c calls ih =>
      rw [List.foldl_cons, ih]
      simp [recordDeploy]

/-- The entries of an app are in the order of their times. -/
def Chronological (r : Registry) (name : String) : Prop :=
  (r.entriesOf name).Pairwise fun e e' => e.deployedAt ≤ e'.deployedAt

theorem chronological_recordAll {calls : List (ℤ × String × String)} (hempty : r.deployHistory = [])
    (hclock : calls.Pairwise fun c c' => c.1 ≤ c'.1) (name : String) :
    (r.recordAll calls).Chronological name := by
  have htimes : ((r.recordAll calls).deployHistory.map (·.deployedAt)).Pairwise (· ≤ ·) := by
    rw [recordAll_history, hempty, List.map_nil, List.nil_append]
    exact List.pairwise_map.2 hclock
  exact (List.pairwise_map.1 htimes).filter _

/-! ## The groups are the latest entries -/

theorem Chronological.sorted (h : r.Chronological name) :
    (r.entriesOf name).reverse.Pairwise fun e e' => e'.deployedAt ≤ e.deployedAt :=
  List.pairwise_reverse.2 h

theorem mem_of_mem_latest {e : HistoryRow} (he : e ∈ r.latest name) : e ∈ r.entriesOf name :=
  List.mem_reverse.1 ((firsts_sublist _).subset he)

theorem max_of_latest (h : r.Chronological name) {e : HistoryRow} (he : e ∈ r.latest name) :
    (((r.entriesOf name).filter fun x => x.artifactHash = e.artifactHash).map
      (·.deployedAt)).max? = some e.deployedAt := by
  rw [List.max?_eq_some_iff]
  constructor
  · exact List.mem_map_of_mem (List.mem_filter.2 ⟨mem_of_mem_latest he, decide_eq_true rfl⟩)
  · intro t ht
    obtain ⟨x, hx, rfl⟩ := List.mem_map.1 ht
    obtain ⟨hx, hkey⟩ := List.mem_filter.1 hx
    exact rank_le_of_mem_firsts h.sorted he (List.mem_reverse.2 hx) (of_decide_eq_true hkey)

/-- The rows of the latest entries. -/
def latestRows (r : Registry) (name : String) : List DeployHistoryRow :=
  (r.latest name).map fun e => r.historyRow name e.artifactHash e.deployedAt

theorem map_hash_rows (r : Registry) (name : String) (es : List HistoryRow) :
    (es.map fun e => r.historyRow name e.artifactHash e.deployedAt).map (·.artifactHash) =
      es.map (·.artifactHash) := by
  rw [List.map_map]
  rfl

theorem groups_perm (h : r.Chronological name) : (r.groups name).Perm (r.latestRows name) := by
  have hhashes : ((r.entriesOf name).map (·.artifactHash)).dedup.Perm
      ((r.latest name).map (·.artifactHash)) := by
    unfold latest
    rw [List.perm_ext_iff_of_nodup (List.nodup_dedup _) (nodup_firsts _)]
    intro hash
    rw [List.mem_dedup, mem_map_firsts, List.map_reverse, List.mem_reverse]
  refine (hhashes.map _).trans ?_
  rw [List.map_map]
  refine List.Perm.of_eq (List.map_congr_left fun e he => ?_)
  rw [Function.comp_apply, max_of_latest h he, Option.getD_some]

theorem latestRows_nodup (r : Registry) (name : String) : (r.latestRows name).Nodup := by
  refine List.Nodup.of_map (·.artifactHash) ?_
  unfold latestRows
  rw [map_hash_rows]
  exact nodup_firsts _

theorem latestRows_sorted (h : r.Chronological name) :
    (r.latestRows name).Pairwise fun a b => b.deployedAt ≤ a.deployedAt :=
  List.pairwise_map.2 (h.sorted.sublist (firsts_sublist _))

theorem take_latest_iff (n : ℕ) :
    (r.latest name).take n = (r.collapsed name).take n ↔
      (((r.collapsed name).take n).map (·.artifactHash)).Nodup := by
  unfold latest collapsed
  rw [← firsts_runs]
  exact take_firsts_iff

/-- No other artifact was last deployed in the second of one of the first `n`. -/
def Untied (r : Registry) (name : String) (n : ℕ) : Prop :=
  ∀ e ∈ (r.collapsed name).take n, ∀ e' ∈ r.latest name, e'.deployedAt = e.deployedAt →
    e'.artifactHash = e.artifactHash

theorem decided_iff (n : ℕ) (htake : (r.latest name).take n = (r.collapsed name).take n) :
    Decided (·.deployedAt) n (r.latestRows name) ↔ r.Untied name n := by
  unfold Decided Untied latestRows
  rw [← htake, ← List.map_take]
  constructor
  · intro h e he e' he' htime
    exact congrArg DeployHistoryRow.artifactHash
      (h _ (List.mem_map_of_mem he) _ (List.mem_map_of_mem he') htime)
  · intro h a ha b hb htime
    obtain ⟨e, he, rfl⟩ := List.mem_map.1 ha
    obtain ⟨e', he', rfl⟩ := List.mem_map.1 hb
    have hhash := h e he e' he' htime
    rw [List.inj_on_of_nodup_map (nodup_firsts _) he' (List.mem_of_mem_take he) hhash]

instance (r : Registry) (name : String) (n : ℕ) : Decidable (r.Untied name n) :=
  inferInstanceAs (Decidable (∀ e ∈ _, ∀ e' ∈ _, _ → _))

/-! ## When it is the collapsed history -/

theorem ordersByTime_mergeSort :
    OrdersByTime fun rows => rows.mergeSort fun a b => b.deployedAt ≤ a.deployedAt := by
  refine fun rows => ⟨List.mergeSort_perm _ _, ?_⟩
  have hsorted := @List.pairwise_mergeSort DeployHistoryRow
    (fun a b => decide (b.deployedAt ≤ a.deployedAt))
    (fun a b c hab hbc => decide_eq_true ((of_decide_eq_true hbc).trans (of_decide_eq_true hab)))
    (fun a b => by simpa using le_total b.deployedAt a.deployedAt) rows
  exact hsorted.imp fun h => of_decide_eq_true h

/-- Any order that the times allow is what some `ORDER BY` returns. -/
theorem exists_orderBy {rows sorted : List DeployHistoryRow}
    (h : IsRanking (·.deployedAt) rows sorted) :
    ∃ orderBy, OrdersByTime orderBy ∧ orderBy rows = sorted := by
  refine ⟨fun l => if l = rows then sorted else l.mergeSort fun a b => b.deployedAt ≤ a.deployedAt,
    fun l => ?_, if_pos rfl⟩
  by_cases hl : l = rows
  · simp only [hl, if_true]
    exact h
  · simp only [hl, if_false]
    exact ordersByTime_mergeSort l

theorem limited_asI64 {α : Type} (limit : UInt64) (rows : List α) :
    limited (asI64 limit) rows =
      if limit.toNat < 2 ^ 63 then rows.take limit.toNat else rows := by
  have hcond : asI64 limit = if 2 * limit.toNat < 2 ^ 64 then (limit.toNat : ℤ)
      else limit.toNat - (2 ^ 64 : ℕ) := limit.toBitVec.toInt_eq_toNat_cond
  have hlt := limit.toNat_lt
  unfold limited
  by_cases hlimit : limit.toNat < 2 ^ 63
  · rw [if_pos (by omega)] at hcond
    rw [hcond, if_pos hlimit, if_neg (by omega), Int.toNat_natCast]
  · rw [if_neg (by omega)] at hcond
    rw [hcond, if_neg hlimit, if_pos (by omega)]

theorem limited_eq_take {α : Type} {rows : List α}
    (h : limit.toNat < 2 ^ 63 ∨ rows.length ≤ limit.toNat) :
    limited (asI64 limit) rows = rows.take limit.toNat := by
  rw [limited_asI64]
  split
  · rfl
  case isFalse hlimit => rw [List.take_of_length_le (h.resolve_left hlimit)]

/-- For entries in the order of their times. -/
theorem deployHistoryOf_eq_iff (h : r.Chronological name) :
    (∀ orderBy, OrdersByTime orderBy →
        deployHistoryOf orderBy r name limit = r.collapsedHistory name limit) ↔
      (((r.collapsed name).take limit.toNat).map (·.artifactHash)).Nodup ∧
        r.Untied name limit.toNat ∧
          (limit.toNat < 2 ^ 63 ∨ (r.latest name).length ≤ limit.toNat) := by
  have hperm := groups_perm h
  have hself : IsRanking (·.deployedAt) (r.groups name) (r.latestRows name) :=
    ⟨hperm.symm, latestRows_sorted h⟩
  have hlength : (r.latestRows name).length = (r.latest name).length := List.length_map _
  constructor
  · intro hall
    have hrows {sorted : List DeployHistoryRow}
        (hsorted : IsRanking (·.deployedAt) (r.groups name) sorted) :
        limited (asI64 limit) sorted = r.collapsedHistory name limit := by
      obtain ⟨orderBy, horders, rfl⟩ := exists_orderBy hsorted
      exact hall orderBy horders
    have hlimit : limit.toNat < 2 ^ 63 ∨ (r.latest name).length ≤ limit.toNat := by
      by_contra hnot
      rw [not_or] at hnot
      have heq := congrArg List.length (hrows hself)
      rw [limited_asI64, if_neg hnot.1, hlength, collapsedHistory, List.length_map] at heq
      exact hnot.2 (heq ▸ List.length_take_le _ _)
    have htake {sorted : List DeployHistoryRow}
        (hsorted : IsRanking (·.deployedAt) (r.groups name) sorted) :
        sorted.take limit.toNat = r.collapsedHistory name limit := by
      rw [← hrows hsorted, limited_eq_take]
      rwa [(hsorted.perm.trans hperm).length_eq, hlength]
    have hnodup : (((r.collapsed name).take limit.toNat).map (·.artifactHash)).Nodup := by
      rw [← map_hash_rows r name, ← collapsedHistory, ← htake hself]
      refine List.Nodup.sublist ((List.take_sublist _ _).map _) ?_
      unfold latestRows
      rw [map_hash_rows]
      exact nodup_firsts _
    refine ⟨hnodup, ?_, hlimit⟩
    rw [← decided_iff _ ((take_latest_iff _).2 hnodup)]
    by_contra hopen
    obtain ⟨sorted, hsorted, hne⟩ :=
      exists_ranking_take_ne (latestRows_nodup r name) (latestRows_sorted h) hopen
    exact hne ((htake ⟨hsorted.perm.trans hperm.symm, hsorted.sorted⟩).trans (htake hself).symm)
  · rintro ⟨hnodup, huntied, hlimit⟩ orderBy horders
    have hsame := (take_latest_iff _).2 hnodup
    have hdecided := (decided_iff _ hsame).2 huntied
    have hsorted := horders (r.groups name)
    unfold deployHistoryOf
    rw [limited_eq_take (by rwa [(hsorted.perm.trans hperm).length_eq, hlength]),
      hdecided.take_eq (latestRows_nodup r name) (latestRows_sorted h)
        ⟨hsorted.perm.trans hperm, hsorted.sorted⟩]
    unfold latestRows collapsedHistory
    rw [← List.map_take, hsame]

/-- For every sequence of deploys with a clock that does not go back, what is returned is the
collapsed history, whatever order is given to equal times, if and only if no two of the runs to
be shown are of one artifact, no other artifact was last deployed in the second of one of them,
and the limit is not taken for none. -/
theorem recorded_history_iff {calls : List (ℤ × String × String)} (hempty : r.deployHistory = [])
    (hclock : calls.Pairwise fun c c' => c.1 ≤ c'.1) :
    (∀ orderBy, OrdersByTime orderBy →
        deployHistoryOf orderBy (r.recordAll calls) name limit =
          (r.recordAll calls).collapsedHistory name limit) ↔
      ((((r.recordAll calls).collapsed name).take limit.toNat).map (·.artifactHash)).Nodup ∧
        (r.recordAll calls).Untied name limit.toNat ∧
          (limit.toNat < 2 ^ 63 ∨ ((r.recordAll calls).latest name).length ≤ limit.toNat) :=
  deployHistoryOf_eq_iff (chronological_recordAll hempty hclock name)

section Runs

/-- Back to the first artifact after the second. -/
def backCalls : List (ℤ × String × String) := [(0, "a", "h"), (1, "a", "k"), (2, "a", "h")]

theorem recorded_history_merged :
    ¬ ∀ (r : Registry) (calls : List (ℤ × String × String)) (name : String) (limit : UInt64)
      (orderBy : List DeployHistoryRow → List DeployHistoryRow), r.deployHistory = [] →
      calls.Pairwise (fun c c' => c.1 ≤ c'.1) → OrdersByTime orderBy →
        deployHistoryOf orderBy (r.recordAll calls) name limit =
          (r.recordAll calls).collapsedHistory name limit := by
  intro h
  have heq := congrArg List.length
    (h {} backCalls "a" 20 _ rfl (by decide) ordersByTime_mergeSort)
  rw [deployHistoryOf, limited_asI64, if_pos (by decide), List.length_take,
    List.length_mergeSort] at heq
  exact absurd heq (by decide)

/-- On to a second artifact, and another app to the first. -/
def forthCalls : List (ℤ × String × String) := [(0, "a", "h"), (1, "a", "k"), (1, "b", "h")]

theorem recorded_history_iff_forth :
    deployHistoryOf (fun rows => rows.mergeSort fun x y => y.deployedAt ≤ x.deployedAt)
        (recordAll {} forthCalls) "a" 20 =
      collapsedHistory (recordAll {} forthCalls) "a" 20 :=
  (recorded_history_iff rfl (by decide)).2 ⟨by decide, by decide, Or.inl (by decide)⟩ _
    ordersByTime_mergeSort

end Runs

end Registry

end Nockd
