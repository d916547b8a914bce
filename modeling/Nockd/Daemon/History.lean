import Nockd.Daemon.Passes
import Nockd.Daemon.References

/-!
# The history follows the app

A handler sets the artifact of an app with one statement and records it with the next, and
the lock is released in between. While handlers of one app overlap, the one that sets last
may not be the one that records last. The history is in step with the row whenever nobody
is between the two statements, as long as whoever records last records what the row
holds.
-/

namespace Nockd

namespace Daemon

open Api Config Interleaving Registry Store Supervisor

namespace Sys

/-- The artifact that a thread is about to record for the app. -/
def records? (s : Sys) (name : String) (i : ℕ) : Option String :=
  (s.call? i).bind (·.records name)

/-- A thread records what the row of the app holds, unless another one has still to
record. No record of the app fails. -/
def RecordsInTurn (s : Sys) (name : String) : Action → Prop
  | .run i _ => ∀ hash ∈ s.records? name i,
      s.world.host.registry.artifactOf name = some hash ∨
        ∃ j < s.threads.length, j ≠ i ∧ (s.records? name j).isSome = true
  | .fail i _ => s.records? name i = none
  | _ => True

instance (s : Sys) (name : String) (a : Action) : Decidable (s.RecordsInTurn name a) :=
  match a with
  | .run i _ => inferInstanceAs (Decidable (∀ hash ∈ s.records? name i, _))
  | .fail i _ => inferInstanceAs (Decidable (s.records? name i = none))
  | .arrive _ => .isTrue trivial
  | .exit _ _ => .isTrue trivial
  | .collect _ => .isTrue trivial
  | .foreign _ => .isTrue trivial
  | .beginStop => .isTrue trivial
  | .stop _ => .isTrue trivial

/-- No handler is in flight, and the history of the app is in step with its row. -/
structure InStepAtRest (name : String) (s : Sys) : Prop where
  threads : s.threads = []
  stopping : s.stopping = none
  ids : s.world.host.registry.Sequenced
  inStep : s.world.host.registry.InStep name

end Sys

variable {paths : Paths} {crates : Crates} {name : String} {s s' : Sys} {a : Action}

/-- The history is in step, or somebody has still to record. -/
structure Following (name : String) (s : Sys) : Prop where
  recordsNext : ∀ t ∈ s.threads, RecordsNext t
  stopping : ∀ p, s.stopping = some p → p.Only Stops
  ids : s.world.host.registry.Sequenced
  inStep : s.world.host.registry.InStep name ∨ ∃ i, (s.records? name i).isSome = true

theorem records?_eq {i : ℕ} {op : Call} {next : Except String op.Reply → Thread}
    (ht : s.threads[i]? = some (.call op next)) : s.records? name i = op.records name := by
  unfold Sys.records?
  rw [Sys.call?_eq ht]
  rfl

/-- The turn of a thread leaves what the others are about to record. -/
theorem records?_set {i j : ℕ} (hne : j ≠ i) (w : World) (t : Thread) :
    Sys.records? { s with world := w, threads := s.threads.set i t } name j =
      s.records? name j := by
  unfold Sys.records? Sys.call?
  rw [List.getElem?_set_ne hne.symm]

theorem records?_append {j : ℕ} (t : Thread) (h : (s.records? name j).isSome = true) :
    (Sys.records? { s with threads := s.threads ++ [t] } name j).isSome = true := by
  have hj : j < s.threads.length := by
    by_contra hge
    unfold Sys.records? Sys.call? at h
    rw [List.getElem?_eq_none (not_lt.1 hge)] at h
    cases h
  unfold Sys.records? Sys.call? at h ⊢
  rwa [List.getElem?_append_left hj]

theorem records?_begins {i : ℕ} {t : Thread} (ht : s.threads[i]? = some t)
    (h : t.Begins fun op => (op.records name).isSome = true) :
    (s.records? name i).isSome = true := by
  cases t with
  | call op next =>
      rw [records?_eq ht]
      exact h
  | _ => exact h.elim

theorem perform_artifactOf {env : Env} {w : World} {op : Call} (h : ¬ op.assigns name) :
    (perform paths crates env w op).1.host.registry.artifactOf name =
      w.host.registry.artifactOf name := by
  cases hst : op.statement with
  | none => exact artifactOf_of_quiet (perform_quiet paths crates env w hst) name
  | some st =>
      cases op with
      | write st => exact artifactOf_exec env.now _ (Bool.eq_false_iff.2 h)
      | _ => cases hst

theorem perform_trail {env : Env} {w : World} {op : Call} :
    (perform paths crates env w op).1.host.registry.trail name =
      (op.records name).toList ++ w.host.registry.trail name := by
  cases hst : op.statement with
  | none =>
      have hnone : op.records name = none := by
        cases op <;> first | rfl | cases hst
      rw [hnone]
      exact trail_of_quiet (perform_quiet paths crates env w hst) name
  | some st =>
      cases op with
      | write st => exact trail_exec st env.now _ name
      | _ => cases hst

/-- When all handlers have finished, nobody has still to record. -/
theorem records?_of_finished (h : ∀ t ∈ s.threads, t.finished = true) (i : ℕ) :
    s.records? name i = none := by
  unfold Sys.records? Sys.call?
  cases ht : s.threads[i]? with
  | none => rfl
  | some t =>
      have hfin := h t (List.mem_of_getElem? ht)
      cases t with
      | call op next => cases hfin
      | _ => rfl

/-- The call of a thread keeps the history in step, or leaves somebody to record. -/
theorem Following.inStep_run (hs : Following name s) {i : ℕ} {env : Env} {op : Call}
    {next : Except String op.Reply → Thread} (ht : s.threads[i]? = some (.call op next))
    (hturn : s.RecordsInTurn name (.run i env)) :
    let world := (perform paths crates env s.world op).1
    let t := next (.ok (perform paths crates env s.world op).2)
    world.host.registry.InStep name ∨
      ∃ j, (Sys.records? { s with world, threads := s.threads.set i t } name j).isSome = true := by
  intro world t
  by_cases hassigns : op.assigns name
  · -- the thread itself records next
    refine Or.inr ⟨i, records?_begins (t := t) ?_ ?_⟩
    · exact List.getElem?_set_self (List.getElem?_eq_some_iff.1 ht).1
    · exact ((hs.recordsNext _ (List.mem_of_getElem? ht)).1 _).1 name hassigns
  have hartifact : world.host.registry.artifactOf name = s.world.host.registry.artifactOf name :=
    perform_artifactOf hassigns
  have htrail : world.host.registry.trail name =
      (op.records name).toList ++ s.world.host.registry.trail name := perform_trail
  cases hrecords : op.records name with
  | some hash =>
      -- whoever records last records what the row holds
      rcases hturn hash ((records?_eq ht).trans hrecords) with hcurrent | ⟨j, -, hne, hj⟩
      · refine Or.inl fun hash' hhash' => ?_
        rw [htrail, hrecords, ← hhash', hartifact, hcurrent]
        rfl
      · exact Or.inr ⟨j, by rwa [records?_set hne]⟩
  | none =>
      rcases hs.inStep with hin | ⟨j, hj⟩
      · refine Or.inl fun hash hhash => ?_
        rw [htrail, hrecords]
        exact hin hash (hartifact ▸ hhash)
      · refine Or.inr ⟨j, ?_⟩
        rwa [records?_set]
        rintro rfl
        rw [records?_eq ht, hrecords] at hj
        cases hj

theorem Following.step (hs : Following name s) (hstep : Sys.Step paths crates s a s')
    (hturn : s.RecordsInTurn name a) : Following name s' := by
  have hids : s'.world.host.registry.Sequenced := by
    rcases hstep.registry hs.stopping with hquiet | ⟨i, env, st, next, -, ht, hexec⟩
    · exact hs.ids.of_quiet hquiet
    · rw [hexec]
      exact hs.ids.exec st env.now
  have hthreads : ∀ t ∈ s'.threads, RecordsNext t :=
    hstep.threads hs.recordsNext (fun r _ => handler_recordsNext r)
      (fun i env op next _ _ ht => (ht.1 _).2) fun op next m ht => ht.2 m
  refine ⟨hthreads, stops_act hstep hs.stopping, hids, ?_⟩
  cases hstep with
  | arrive r => exact hs.inStep.imp_right fun ⟨i, hi⟩ => ⟨i, records?_append _ hi⟩
  | run i env op next ht hopen => exact hs.inStep_run ht hturn
  | fail i message op next ht hfallible =>
      refine hs.inStep.imp_right fun ⟨j, hj⟩ => ⟨j, ?_⟩
      have hne : j ≠ i := by
        rintro rfl
        rw [show s.records? name j = none from hturn] at hj
        cases hj
      exact (records?_set hne s.world _).symm ▸ hj
  | stop env op next hp hopen =>
      have hquiet := perform_quiet paths crates env s.world (hs.stopping _ hp).1.statement
      refine hs.inStep.imp_left fun hin hash hhash => ?_
      rw [artifactOf_of_quiet hquiet] at hhash
      rw [trail_of_quiet hquiet]
      exact hin hash hhash
  | _ => exact hs.inStep

/-- As long as handlers record in turn, the newest entry of the history of an app has the
artifact of its row whenever no handler is between setting and recording it; in particular
when none is in flight. -/
theorem history_follows (h : ReachableWhen (Sys.step paths crates) (Sys.InStepAtRest name)
      (fun s a => s.RecordsInTurn name a) s)
    (hrest : ∀ i, s.records? name i = none) {row : AppRecord}
    (hrow : s.world.host.registry.app.lookup name = some row) :
    ∃ e, s.world.host.registry.Newest name e ∧ e.artifactHash = row.artifactHash := by
  have hs : Following name s := by
    refine h.invariant (I := Following name) ?_ fun s a s' ih hturn hstep =>
      ih.step (Sys.step_cases hstep) hturn
    intro s hstart
    refine ⟨?_, ?_, hstart.ids, Or.inl hstart.inStep⟩
    · simp [hstart.threads]
    · simp [hstart.stopping]
  rcases hs.inStep with hin | ⟨i, hi⟩
  · exact hin.newest hs.ids hrow
  · rw [hrest i] at hi
    cases hi

section Woven

/-- The action is about a deploy or a rollback of the app, and no call of it fails. -/
def Action.changes (name : String) : Action → Bool
  | .arrive (.deploy req) => req.name = name
  | .arrive (.rollback app) => app = name
  | .run _ _ => true
  | _ => false

/-- Two deploys of one app have both set their artifact, and go on in the order `order`. -/
def wovenRun (order : List ℕ) : List Action :=
  [.arrive deployKernel, .arrive deployBare] ++ calls 0 5 ++ calls 1 5 ++
    order.flatMap fun i => calls i 6

/-- The deploy that has set its artifact last records it first. -/
theorem history_misled :
    ¬ ∀ (paths : Paths) (crates : Crates) (name : String) (s : Sys) (row : AppRecord),
      ReachableWhen (Sys.step paths crates) Sys.Blank (fun _ a => a.changes name = true) s →
      (∀ t ∈ s.threads, t.finished = true) →
      s.world.host.registry.app.lookup name = some row →
      ∃ e, s.world.host.registry.Newest name e ∧ e.artifactHash = row.artifactHash := by
  intro h
  have hrun : (runWhen (Sys.step (Paths.ofRoot "/r") stagingCrates)
      (fun _ a => a.changes "a" = true) {} (wovenRun [1, 0])).map (fun s =>
        (s.threads.all (·.finished), s.world.host.registry.artifactOf "a",
          s.world.host.registry.deployHistory.map fun e => (e.id, e.appName, e.artifactHash))) =
      some (true, some bareHash, [(1, "a", bareHash), (2, "a", kernelHash)]) := by
    decide +kernel
  obtain ⟨s, hs, hval⟩ := Option.map_eq_some_iff.1 hrun
  obtain ⟨hfinished, hval⟩ := Prod.mk.inj hval
  obtain ⟨hartifact, hhistory⟩ := Prod.mk.inj hval
  obtain ⟨row, hrow, hbare⟩ := Option.map_eq_some_iff.1 hartifact
  obtain ⟨e, ⟨hmem, hname, hlast⟩, hhash⟩ := h _ _ "a" s row
    (ReachableWhen.runWhen (.start blank_default) hs) (List.all_eq_true.1 hfinished) hrow
  obtain ⟨last, hlastmem, hlasteq⟩ := List.mem_map.1
    (hhistory ▸ List.mem_cons_of_mem _ List.mem_cons_self :
      (2, "a", kernelHash) ∈ s.world.host.registry.deployHistory.map _)
  obtain ⟨hid, happ, -⟩ : last.id = 2 ∧ last.appName = "a" ∧ _ := by simpa using hlasteq
  have hlater := hlast last hlastmem happ
  have hentry : (e.id, e.appName, e.artifactHash) ∈ [(1, "a", bareHash), (2, "a", kernelHash)] := by
    rw [← hhistory]
    exact List.mem_map_of_mem hmem
  have hne : kernelHash ≠ bareHash := by decide +kernel
  rw [hhash, hbare] at hentry
  rcases List.mem_pair.1 hentry with heq | heq
  · have : e.id = 1 := (Prod.mk.inj heq).1
    omega
  · exact hne (Prod.mk.inj (Prod.mk.inj heq).2).2.symm

/-- Two deploys that overlap record in the order in which they have set. -/
theorem history_follows_woven :
    ∃ s row e, runWhen (Sys.step (Paths.ofRoot "/r") stagingCrates)
        (fun s a => s.RecordsInTurn "a" a) {} (wovenRun [0, 1]) = some s ∧
      s.world.host.registry.app.lookup "a" = some row ∧ row.artifactHash = bareHash ∧
      s.world.host.registry.Newest "a" e ∧ e.artifactHash = row.artifactHash := by
  have hrun : (runWhen (Sys.step (Paths.ofRoot "/r") stagingCrates)
      (fun s a => s.RecordsInTurn "a" a) {} (wovenRun [0, 1])).map (fun s =>
        (s.threads.all (·.finished), s.world.host.registry.artifactOf "a")) =
      some (true, some bareHash) := by
    decide +kernel
  obtain ⟨s, hs, hval⟩ := Option.map_eq_some_iff.1 hrun
  obtain ⟨hfinished, hartifact⟩ := Prod.mk.inj hval
  obtain ⟨row, hrow, hbare⟩ := Option.map_eq_some_iff.1 hartifact
  have hstart : Sys.InStepAtRest "a" {} :=
    ⟨rfl, rfl, ⟨List.Pairwise.nil, fun e he => absurd he List.not_mem_nil⟩, fun _ h => by cases h⟩
  obtain ⟨e, he, hhash⟩ := history_follows (ReachableWhen.runWhen (.start hstart) hs)
    (fun i => records?_of_finished (List.all_eq_true.1 hfinished) i) hrow
  exact ⟨s, row, e, hs, hrow, hbare, he, hhash⟩

end Woven

end Daemon

end Nockd
