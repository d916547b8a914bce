import Nockd.Daemon.SingleWriter

/-!
# No deploy is lost

Between requests every live instance should come from the row that the
registry holds now. A handler that changes a row requests a restart
afterwards, so this holds as long as no section starts an app from a row that
has changed since the snapshot and whose restart request has already been
made. A pass that took its snapshot before a deploy can enter its section after the
deploy's restart request: it starts the old row, and nobody restarts it.
-/

namespace Nockd

namespace Registry

/-- The columns that an instance is started from. -/
def AppRow.key (app : AppRow) : String × List String × Option UInt16 :=
  (app.artifactHash, app.args, app.port)

def AppRecord.key (row : AppRecord) : String × List String × Option UInt16 :=
  (row.artifactHash, row.args, row.port)

/-- The registry holds the same key for the app now. -/
def Current (r : Registry) (app : AppRow) : Prop :=
  (r.app.lookup app.name).map AppRecord.key = some app.key

instance (r : Registry) (app : AppRow) : Decidable (Current r app) :=
  inferInstanceAs (Decidable (_ = _))

theorem Current.congr {r r' : Registry} {app : AppRow} (h : Current r app)
    (hkey : (r'.app.lookup app.name).map AppRecord.key =
      (r.app.lookup app.name).map AppRecord.key) : Current r' app :=
  hkey.trans h

end Registry

namespace Daemon

open Api Config Interleaving Registry Store Supervisor

variable {paths : Paths} {crates : Crates} {env : Env} {w w' w₀ : World} {s s' : Sys}

/-- A call that asks for no restart of the app leaves its key alone. -/
theorem perform_key {op : Call} {name : String} (hop : ¬ op.asks name) :
    ((perform paths crates env w op).1.host.registry.app.lookup name).map AppRecord.key =
      (w.host.registry.app.lookup name).map AppRecord.key := by
  cases hst : op.statement with
  | none =>
      rw [congr_of_quiet (·.app) (fun _ => rfl) (perform_quiet paths crates env w hst)]
  | some st =>
      cases op with
      | write st =>
          cases st with
          | upsertApp u =>
              have hne : name ≠ u.name := fun h => hop h.symm
              exact congrArg _ (AList.lookup_insert_ne hne)
          | updateAppConfig app c =>
              have hne : name ≠ app := fun h => hop h.symm
              exact congrArg _ (Table.lookup_modify_ne _ _ hne)
          | setAppArtifact app hash =>
              have hne : name ≠ app := fun h => hop h.symm
              exact congrArg _ (Table.lookup_modify_ne _ _ hne)
          | setDesired app status =>
              by_cases happ : name = app
              · subst happ
                refine (congrArg _ (Table.lookup_modify _ _ _)).trans ?_
                rw [Option.map_map]
                rfl
              · exact congrArg _ (Table.lookup_modify_ne _ _ happ)
          | addTrustedBuilder pubkey =>
              cases hkey : w.host.registry.trustedBuilder.lookup pubkey <;>
                simp [perform, Statement.exec, addTrustedBuilder, World.mapRegistry, hkey]
          | _ => rfl
      | _ => cases hst

/-- After a restart request the app's live entry has a termination pending. -/
theorem requestRestart_terminates (hheld : w.Held) {name : String} {m' : Managed} {pid : Pid}
    (hm' : (w.requestRestart env name).procs.lookup name = some m')
    (hchild : m'.child = some pid) : m'.termDeadline ≠ none := by
  unfold World.requestRestart at hm'
  cases hm : w.procs.lookup name with
  | none => simp [hm] at hm'
  | some m =>
      cases hpid : m.pid with
      | none =>
          simp only [hm, hpid, World.setEntry_procs, AList.lookup_insert,
            Option.some.injEq] at hm'
          subst hm'
          rw [hheld.pidOfChild name m pid hm hchild] at hpid
          cases hpid
      | some q =>
          simp only [hm, hpid, World.setEntry_procs, AList.lookup_insert,
            Option.some.injEq] at hm'
          subst hm'
          exact Option.some_ne_none _

/-- The live instances without a pending termination all have a row that `Good`
admits for their app. -/
def LiveRows (Good : String → AppRow → Prop) (w : World) : Prop :=
  ∀ name m pid launch, w.procs.lookup name = some m → m.child = some pid →
    m.termDeadline = none → w.host.Runs pid launch → Good name launch.row

variable {Good : String → AppRow → Prop}

theorem LiveRows.of_sameHandles (h : LiveRows Good w) (hhandles : World.SameHandles w w')
    (hran : ∀ pid launch, w'.host.Runs pid launch → w.host.Runs pid launch) :
    LiveRows Good w' := by
  intro name m' pid launch hm' hchild hterm hruns
  obtain ⟨m, hm, hc, -, ht⟩ := hhandles.back name m' pid hm' hchild
  exact h name m pid launch hm hc (ht hterm) (hran pid launch hruns)

/-- A section starts instances from good rows only. -/
theorem LiveRows.section (h : LiveRows Good w) (hheld : w.Held) {apps : List AppRow}
    (hnodup : (apps.map (·.name)).Nodup)
    (hgood : ∀ app ∈ apps, w.Due env app → Good app.name app) :
    LiveRows Good (w.lockedSection paths env apps) := by
  refine ((World.lockedSection_moves w apps).keep (P := fun w' => w'.Held ∧ LiveRows Good w')
    ?_ ⟨hheld, h⟩).2
  rintro w₁ w₂ hmove ⟨hheld₁, h₁⟩
  refine ⟨hheld₁.move hmove, ?_⟩
  cases hmove with
  | wait name m child status hm hchild hexit =>
      intro other m' pid launch hm' hc hterm hruns
      have hne : pid ≠ child := by
        rintro rfl
        simp [Host.Runs] at hruns
      refine h₁ other m' pid launch (World.wait_lookup hm' hc).2 hc hterm ?_
      simpa [Host.Runs, Function.update_of_ne hne] using hruns
  | drop name m hm hname =>
      intro other m' pid launch hm' hc hterm hruns
      refine h₁ other m' pid launch ?_ hc hterm hruns
      by_cases hother : other = name
      · rw [hother] at hm'
        simp at hm'
      · rwa [← AList.lookup_erase_ne hother]
  | update app m happ hchild hpid hterm =>
      exact h₁.of_sameHandles (World.sameHandles_setEntry hchild hpid hterm) fun _ _ h => h
  | spawn app pid bin url happ hdue hidle hfree hbin hjam =>
      intro other m' q launch hm' hc hterm hruns
      unfold Host.Runs at hruns
      rw [World.spawn_processes] at hruns
      rcases World.spawn_lookup hm' with ⟨rfl, rfl⟩ | ⟨-, hother⟩
      · cases hc
        rw [Function.update_self] at hruns
        cases hruns
        exact hgood app happ (hdue hnodup)
      · have hne := (hheld₁.started other m' q hother hc).ne_free hfree.2.2
        rw [Function.update_of_ne hne] at hruns
        exact h₁ other m' q launch hother hc hterm hruns
  | _ => exact h₁.of_sameHandles (World.sameHandles_of_procs rfl) fun _ _ h => h

/-! ## Runs -/

/-- Some thread will still request a restart of the app. -/
abbrev RestartPending (s : Sys) (name : String) : Prop :=
  Pending Call.restarts s.threads name

def Action.fails : Action → Bool
  | .fail _ _ => true
  | _ => false

/-- No call fails, and an app that is due to start is started from its current
row or has a restart request coming. -/
def Sys.StartsCurrent (s : Sys) (a : Action) : Prop :=
  a.fails = false ∧ s.AtSection (fun env apps => ∀ app ∈ apps, s.world.Due env app →
    Current s.world.host.registry app ∨ RestartPending s app.name) a

/-- The row of an instance of the app `name` is the current one, or a restart is
coming. -/
def Kept (s : Sys) (name : String) (app : AppRow) : Prop :=
  app.name = name ∧ (Current s.world.host.registry app ∨ RestartPending s name)

structure Deployed (s : Sys) : Prop where
  lawful : Lawful Call.uses Call.learns PlainFact s.threads
  held : s.world.Held
  answers : ∀ t ∈ s.threads, t.Answers Call.asks Call.restarts
  rows : LiveRows (Kept s) s.world

theorem Deployed.of_fresh (h : s.Fresh) : Deployed s where
  lawful := (Tidy.of_fresh h).lawful
  held := (Tidy.of_fresh h).held
  answers := by simp [h.threads]
  rows := fun name m pid launch _ _ _ hruns => absurd hruns (h.quiet pid launch)

/-- A step of the outside. -/
theorem Deployed.of_sameHandles {world : World} (h : Deployed s)
    (hprocs : world.procs = s.world.procs) (htaken : world.taken = s.world.taken)
    (hregistry : world.host.registry = s.world.host.registry)
    (hprocesses : World.ProcessesKept s.world world) : Deployed { s with world } where
  lawful := h.lawful
  held := h.held.of_sameHandles (World.sameHandles_of_procs hprocs) hprocesses htaken
  answers := h.answers
  rows := by
    have hrows := h.rows.of_sameHandles (World.sameHandles_of_procs hprocs) hprocesses.ran
    intro name m pid launch hm hchild hterm hruns
    obtain ⟨hname, hkept⟩ := hrows name m pid launch hm hchild hterm hruns
    exact ⟨hname, hkept.imp_left fun hcurrent => hregistry ▸ hcurrent⟩

/-- The calls of a thread outside the locked section. -/
theorem Deployed.call {i : ℕ} {op : Call} {next : Except String op.Reply → Thread}
    (h : Deployed s) (ht : s.threads[i]? = some (.call op next))
    (hsection : ∀ apps, op ≠ .lockedSection apps) :
    Deployed
      { s with
        world := (perform paths crates env s.world op).1
        threads := s.threads.set i (next (.ok (perform paths crates env s.world op).2)) } := by
  have hmain := lawful_main h.lawful ht
  have hframe : Frame s.world (perform paths crates env s.world op).1 :=
    perform_frame hmain hsection
  refine ⟨lawful_run h.lawful ht, perform_held hmain h.held, answers_set h.answers ht, ?_⟩
  intro name m' pid launch hm' hchild hterm hruns
  obtain ⟨m, hm, hc, -, hdeadline⟩ := hframe.handles.back name m' pid hm' hchild
  have hran : s.world.host.Runs pid launch := by
    unfold Host.Runs at hruns ⊢
    rwa [← hframe.processes]
  obtain ⟨hname, hkept⟩ := h.rows name m pid launch hm hc (hdeadline hterm) hran
  refine ⟨hname, ?_⟩
  by_cases hasks : op.asks name
  · exact Or.inr (Pending.of_asks h.answers ht hasks)
  rcases hkept with hcurrent | hpending
  · left
    subst hname
    exact hcurrent.congr (perform_key hasks)
  · right
    by_cases hop : op = .requestRestart name
    · subst hop
      exact absurd hterm (requestRestart_terminates h.held hm' hchild)
    · exact hpending.set ht hop

/-- The locked section of a thread. -/
theorem Deployed.section {i : ℕ} {apps : List AppRow} {next : Except String Unit → Thread}
    (h : Deployed s) (ht : s.threads[i]? = some (.call (.lockedSection apps) next))
    (hgood : ∀ app ∈ apps, s.world.Due env app →
      Current s.world.host.registry app ∨ RestartPending s app.name) :
    Deployed
      { s with
        world := s.world.lockedSection paths env apps
        threads := s.threads.set i (next (.ok ())) } := by
  have hrows : LiveRows (Kept s) (s.world.lockedSection paths env apps) :=
    h.rows.section h.held (h.lawful.good ht (.snapshot apps) rfl)
      fun app happ hdue => ⟨rfl, hgood app happ hdue⟩
  have hregistry : (s.world.lockedSection paths env apps).host.registry.app =
      s.world.host.registry.app :=
    congr_of_quiet (·.app) (fun _ => rfl) (World.lockedSection_quiet _ _)
  refine ⟨h.lawful.set_ok ht fun _ hf => hf.elim, h.held.lockedSection apps,
    answers_set h.answers ht, ?_⟩
  intro name m pid launch hm hchild hterm hruns
  obtain ⟨hname, hkept⟩ := hrows name m pid launch hm hchild hterm hruns
  refine ⟨hname, ?_⟩
  rcases hkept with hcurrent | hpending
  · exact Or.inl (hcurrent.congr (by rw [hregistry]))
  · exact Or.inr (hpending.set ht (by simp [Call.restarts]))

theorem Deployed.step {a : Action} (h : Deployed s) (hstep : Sys.Step paths crates s a s')
    (hguard : s.StartsCurrent a) (hstop : ∀ env, a ≠ .stop env) : Deployed s' := by
  cases hstep with
  | arrive r =>
      refine ⟨h.lawful.append (plain_facts r) (handler_obeys r), h.held, ?_, ?_⟩
      · intro t ht
        rcases List.mem_append.1 ht with ht | ht
        · exact h.answers t ht
        · rw [List.mem_singleton.1 ht]
          exact handler_answers r
      · intro name m pid launch hm hchild hterm hruns
        obtain ⟨hname, hkept⟩ := h.rows name m pid launch hm hchild hterm hruns
        exact ⟨hname, hkept.imp_right fun hpending => hpending.append _⟩
  | run i env op next ht hopen =>
      rcases op.section_cases with ⟨apps, rfl⟩ | hsection
      · exact h.section ht (hguard.2 apps (Sys.section?_eq ht))
      · exact h.call ht hsection
  | fail i message op next ht hfallible => exact absurd hguard.1 (by simp [Action.fails])
  | exit pid status launch hp =>
      exact h.of_sameHandles rfl rfl rfl (World.processesKept_exit hp)
  | collect pid hexit htaken hchild =>
      exact h.of_sameHandles rfl rfl rfl (World.processesKept_collect htaken hchild)
  | foreign pid hfree => exact h.of_sameHandles rfl rfl rfl (World.processesKept_foreign hfree)
  | beginStop hnone => exact ⟨h.lawful, h.held, h.answers, h.rows⟩
  | stop env op next hp hopen => exact absurd rfl (hstop env)

/-- When no handler and no pass is in flight, every live instance without a
pending termination was started from the key that the registry holds now. -/
theorem deploys_kept
    (h : ReachableWhen (Sys.step paths crates) Sys.Fresh Sys.StartsCurrent s)
    (hstop : s.stopping = none) (hidle : ∀ t ∈ s.threads, t.finished = true) :
    LiveRows (fun name app => app.name = name ∧ Current s.world.host.registry app) s.world := by
  have hdeployed : s.stopping = none → Deployed s := by
    refine h.invariant (I := fun s => s.stopping = none → Deployed s) ?_ ?_
    · exact fun s hfresh _ => Deployed.of_fresh hfresh
    · intro s a s' ih hguard hs hnone
      have hstep := Sys.step_cases hs
      obtain ⟨hbefore, hstop⟩ := hstep.of_not_stopping hnone
      exact (ih hbefore).step hstep hguard hstop
  intro name m pid launch hm hchild hterm hruns
  obtain ⟨hname, hkept⟩ := (hdeployed hstop).rows name m pid launch hm hchild hterm hruns
  exact ⟨hname, hkept.resolve_right (Pending.of_finished hidle)⟩

section Runs

/-- A second deploy of `a`, with a port. -/
def redeployA : Request :=
  .deploy { name := "a", targetTriple := "t", binB64 := "a", port := some 80 }

def runningPort (w : World) (pid : Pid) : Option UInt16 :=
  (w.host.processes pid).bind fun p => p.launch.bind (·.row.port)

/-- No call fails, and an app that is due to start is started from its current
row. -/
def Sys.StartsCurrentRow (s : Sys) (a : Action) : Prop :=
  a.fails = false ∧ s.AtSection (fun env apps => ∀ app ∈ apps, s.world.Due env app →
    Current s.world.host.registry app) a

instance (s : Sys) (a : Action) : Decidable (s.StartsCurrentRow a) :=
  inferInstanceAs (Decidable (_ ∧ _))

/-- The instance is terminated for the second deploy and started again. -/
def redeployRun : List Action :=
  deployRun 0 1 ++ [.arrive redeployA] ++ calls 1 11 ++
    [.exit 1 (.signal 15), .arrive .reconcileTick] ++ calls 2 2 ++ [.run 2 (launches 2)]

theorem deploys_kept_redeployRun :
    ∃ s, runWhen (Sys.step (Paths.ofRoot "/r") (Crates.plainCrates [] [])) Sys.StartsCurrentRow
        {} redeployRun = some s ∧ runningPort s.world 2 = some 80 ∧
      LiveRows (fun name app => app.name = name ∧ Current s.world.host.registry app)
        s.world := by
  have hrun : (runWhen (Sys.step (Paths.ofRoot "/r") (Crates.plainCrates [] []))
      Sys.StartsCurrentRow {} redeployRun).map (fun s => (s.stopping.isNone,
        s.threads.all (·.finished), runningPort s.world 2)) = some (true, true, some 80) := by
    decide
  obtain ⟨s, hs, hval⟩ := Option.map_eq_some_iff.1 hrun
  obtain ⟨hnone, hrest⟩ := Prod.mk.inj hval
  obtain ⟨hidle, hport⟩ := Prod.mk.inj hrest
  have hreach : ReachableWhen (Sys.step (Paths.ofRoot "/r") (Crates.plainCrates [] []))
      Sys.Fresh Sys.StartsCurrent s :=
    (ReachableWhen.runWhen (.start fresh_default) hs).mono fun s a h =>
      ⟨h.1, h.2.mono fun env apps hdue app happ hstart => Or.inl (hdue app happ hstart)⟩
  exact ⟨s, hs, hport, deploys_kept hreach (Option.isNone_iff_eq_none.1 hnone)
    (List.all_eq_true.1 hidle)⟩

/-- The app's entry holds the running child `pid`, no termination is pending, and
the registry holds another key now. -/
def stale (w : World) (name : String) (pid : Pid) : Bool :=
  match w.procs.lookup name, w.host.processes pid with
  | some m, some { launch := some launch, exit := none } =>
    m.child = some pid ∧ m.termDeadline = none ∧ ¬ Current w.host.registry launch.row
  | _, _ => false

theorem not_liveRows_of_stale {name : String} {pid : Pid} (h : stale w name pid = true) :
    ¬ LiveRows (fun name app => app.name = name ∧ Current w.host.registry app) w := by
  unfold stale at h
  split at h
  case h_1 m launch hm hp =>
    obtain ⟨hchild, hterm, hcurrent⟩ := of_decide_eq_true h
    exact fun hrows => hcurrent (hrows name m pid launch hm hchild hterm hp).2
  case h_2 => cases h

/-- The pass of the first deploy has its snapshot when the second deploy changes
the row and requests a restart; then it starts the old row. -/
def lostRun : List Action :=
  [.arrive deployA] ++ calls 0 10 ++ [.arrive redeployA] ++ calls 1 8 ++
    [.run 0 (launches 1)] ++ calls 1 3

theorem deploy_lost :
    ¬ ∀ (paths : Paths) (crates : Crates) (s : Sys),
      ReachableWhen (Sys.step paths crates) Sys.Fresh (fun _ a => a.fails = false) s →
      s.stopping = none → (∀ t ∈ s.threads, t.finished = true) →
        LiveRows (fun name app => app.name = name ∧ Current s.world.host.registry app)
          s.world := by
  intro h
  have hrun : (runWhen (Sys.step (Paths.ofRoot "/r") (Crates.plainCrates [] []))
      (fun _ a => a.fails = false) {} lostRun).map (fun s => (s.stopping.isNone,
        s.threads.all (·.finished), stale s.world "a" 1)) = some (true, true, true) := by
    decide
  obtain ⟨s, hs, hval⟩ := Option.map_eq_some_iff.1 hrun
  obtain ⟨hnone, hrest⟩ := Prod.mk.inj hval
  obtain ⟨hidle, hstale⟩ := Prod.mk.inj hrest
  exact not_liveRows_of_stale hstale (h _ _ s (ReachableWhen.runWhen (.start fresh_default) hs)
    (Option.isNone_iff_eq_none.1 hnone) (List.all_eq_true.1 hidle))

end Runs

end Daemon

end Nockd
