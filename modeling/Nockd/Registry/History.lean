import Nockd.Data.Trail
import Nockd.Registry.Statements

/-!
# The deploy history

The history of an app is read as a trail of artifact hashes, the newest first. It is in
step with the app's row when its newest entry is the row's artifact. Deploys and
rollbacks write the row and the history with one statement each.
-/

namespace Nockd

namespace Registry

/-- The hashes in the history of an app, the newest first. -/
def trail (r : Registry) (name : String) : List String :=
  ((r.deployHistory.filter fun e => e.appName = name).map (·.artifactHash)).reverse

def artifactOf (r : Registry) (name : String) : Option String :=
  (r.app.lookup name).map (·.artifactHash)

/-- The entry with the largest id of the app. -/
def Newest (r : Registry) (name : String) (e : HistoryRow) : Prop :=
  e ∈ r.deployHistory ∧ e.appName = name ∧
    ∀ e' ∈ r.deployHistory, e'.appName = name → e'.id ≤ e.id

/-- The ids of the history go up, and the next one is larger than all of them. -/
structure Sequenced (r : Registry) : Prop where
  sorted : r.deployHistory.Pairwise fun e e' => e.id < e'.id
  bound : ∀ e ∈ r.deployHistory, e.id ≤ r.historySeq

/-- The newest entry of the app's history is the artifact of its row. -/
def InStep (r : Registry) (name : String) : Prop :=
  ∀ hash, r.artifactOf name = some hash → (r.trail name).head? = some hash

/-- The newest entry of the app's history is its artifact, and it has no history without a row. -/
def Tracked (r : Registry) (name : String) : Prop :=
  r.artifactOf name = (r.trail name).head?

variable {r r' : Registry} {name : String}

theorem Tracked.inStep (h : r.Tracked name) : r.InStep name :=
  fun _ hhash => h ▸ hhash

theorem previousArtifact_eq (r : Registry) (name current : String) :
    r.previousArtifact name current = Trail.before current (r.trail name) := by
  unfold previousArtifact trail Trail.before
  rw [← List.map_reverse, ← List.filter_reverse, List.find?_map, List.find?_filter]
  congr 2
  funext e
  simp

theorem newest_of_head (h : r.Sequenced) {hash : String}
    (hhead : (r.trail name).head? = some hash) :
    ∃ e, r.Newest name e ∧ e.artifactHash = hash := by
  unfold trail at hhead
  rw [List.head?_reverse, List.getLast?_map, Option.map_eq_some_iff] at hhead
  obtain ⟨e, hlast, rfl⟩ := hhead
  obtain ⟨front, hfront⟩ := List.getLast?_eq_some_iff.1 hlast
  have hmem : e ∈ r.deployHistory.filter fun e => e.appName = name := by
    rw [hfront]
    exact List.mem_append_right _ List.mem_cons_self
  refine ⟨e, ⟨(List.mem_filter.1 hmem).1, of_decide_eq_true (List.mem_filter.1 hmem).2, ?_⟩, rfl⟩
  intro e' he' hname
  have hmem' : e' ∈ front ++ [e] := by
    rw [← hfront]
    exact List.mem_filter.2 ⟨he', decide_eq_true hname⟩
  have hsorted := h.sorted.filter fun e => decide (e.appName = name)
  rw [hfront, List.pairwise_append] at hsorted
  rcases List.mem_append.1 hmem' with hold | hself
  · exact (hsorted.2.2 e' hold e List.mem_cons_self).le
  · rw [List.mem_singleton.1 hself]

theorem InStep.newest (h : r.InStep name) (hids : r.Sequenced) {row : AppRecord}
    (hrow : r.app.lookup name = some row) :
    ∃ e, r.Newest name e ∧ e.artifactHash = row.artifactHash :=
  newest_of_head hids (h _ (by rw [artifactOf, hrow]; rfl))

/-! ## What the statements do to it -/

/-- The hash that a statement appends to the app's history. -/
def Statement.records (name : String) : Statement → Option String
  | .recordDeploy app hash => if app = name then some hash else none
  | _ => none

/-- The statement writes the artifact of the app. -/
def Statement.assigns (name : String) : Statement → Bool
  | .upsertApp u => u.name = name
  | .setAppArtifact app _ => app = name
  | _ => false

theorem trail_recordDeploy (r : Registry) (now : ℤ) (app hash name : String) :
    (r.recordDeploy now app hash).trail name =
      if app = name then hash :: r.trail name else r.trail name := by
  unfold trail recordDeploy
  by_cases happ : app = name <;> simp [List.filter_append, happ]

theorem trail_exec (st : Statement) (now : ℤ) (r : Registry) (name : String) :
    (st.exec now r).trail name = (st.records name).toList ++ r.trail name := by
  cases st with
  | recordDeploy app hash =>
      have hrecord := trail_recordDeploy r now app hash name
      by_cases happ : app = name <;> simpa [Statement.exec, Statement.records, happ] using hrecord
  | addTrustedBuilder pubkey =>
      simp only [Statement.exec, addTrustedBuilder]
      split <;> rfl
  | _ => rfl

theorem artifactOf_modify {f : AppRecord → AppRecord} (r : Registry) (app name : String)
    (hf : app = name → ∀ row, (f row).artifactHash = row.artifactHash) :
    ({ r with app := Table.modify r.app app f } : Registry).artifactOf name =
      r.artifactOf name := by
  unfold artifactOf
  by_cases hname : name = app
  · subst hname
    rw [Table.lookup_modify, Option.map_map]
    exact congrArg (fun g => Option.map g _) (funext fun row => hf rfl row)
  · rw [Table.lookup_modify_ne _ _ hname]

theorem artifactOf_upsertApp (r : Registry) (now : ℤ) (u : AppUpsert) (name : String) :
    (r.upsertApp now u).artifactOf name =
      if u.name = name then some u.artifactHash else r.artifactOf name := by
  unfold artifactOf upsertApp
  by_cases hname : u.name = name
  · subst hname
    rw [AList.lookup_insert, if_pos rfl]
    rfl
  · rw [AList.lookup_insert_ne (Ne.symm hname), if_neg hname]

theorem artifactOf_setAppArtifact (r : Registry) (now : ℤ) (app hash name : String) :
    (r.setAppArtifact now app hash).artifactOf name =
      if app = name then (r.artifactOf name).map fun _ => hash else r.artifactOf name := by
  unfold artifactOf setAppArtifact
  by_cases hname : app = name
  · subst hname
    rw [Table.lookup_modify, if_pos rfl, Option.map_map, Option.map_map]
    rfl
  · rw [Table.lookup_modify_ne _ _ (Ne.symm hname), if_neg hname]

theorem artifactOf_exec (now : ℤ) (r : Registry) {st : Statement}
    (h : st.assigns name = false) : (st.exec now r).artifactOf name = r.artifactOf name := by
  cases st with
  | upsertApp u =>
      have hne : name ≠ u.name := fun heq => of_decide_eq_false h heq.symm
      unfold artifactOf Statement.exec upsertApp
      rw [AList.lookup_insert_ne hne]
  | updateAppConfig app c => exact artifactOf_modify r app name fun _ _ => rfl
  | setAppArtifact app hash =>
      exact artifactOf_modify r app name fun heq => absurd heq (of_decide_eq_false h)
  | setDesired app status => exact artifactOf_modify r app name fun _ _ => rfl
  | addTrustedBuilder pubkey =>
      simp only [Statement.exec, addTrustedBuilder]
      split <;> rfl
  | _ => rfl

theorem Sequenced.exec (h : r.Sequenced) (st : Statement) (now : ℤ) :
    (st.exec now r).Sequenced := by
  cases st with
  | recordDeploy app hash =>
      constructor
      · refine List.pairwise_append.2 ⟨h.sorted, List.pairwise_singleton _ _, fun e he e' he' => ?_⟩
        rw [List.mem_singleton.1 he']
        exact Nat.lt_succ_of_le (h.bound e he)
      · intro e he
        rcases List.mem_append.1 he with he | he
        · exact (h.bound e he).trans (Nat.le_succ _)
        · rw [List.mem_singleton.1 he]
          exact le_refl _
  | addTrustedBuilder pubkey =>
      simp only [Statement.exec, addTrustedBuilder]
      split <;> exact ⟨h.sorted, h.bound⟩
  | _ => exact ⟨h.sorted, h.bound⟩

/-! ## Events do not matter -/

theorem trail_of_quiet (h : r'.quiet = r.quiet) (name : String) : r'.trail name = r.trail name :=
  congr_of_quiet (·.trail name) (fun _ => rfl) h

theorem artifactOf_of_quiet (h : r'.quiet = r.quiet) (name : String) :
    r'.artifactOf name = r.artifactOf name :=
  congr_of_quiet (·.artifactOf name) (fun _ => rfl) h

theorem Sequenced.of_quiet (hids : r.Sequenced) (h : r'.quiet = r.quiet) : r'.Sequenced := by
  have hhistory : r'.deployHistory = r.deployHistory :=
    congr_of_quiet (·.deployHistory) (fun _ => rfl) h
  have hseq : r'.historySeq = r.historySeq := congr_of_quiet (·.historySeq) (fun _ => rfl) h
  exact ⟨hhistory ▸ hids.sorted, by rw [hhistory, hseq]; exact hids.bound⟩

end Registry

end Nockd
