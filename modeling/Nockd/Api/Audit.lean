import Nockd.Api.Success
import Nockd.Registry.Events
import Nockd.Supervisor.Logging

/-!
# The audit log

Deploy, restart, reload and rollback append an event of their own. Stop, start, down and up
leave that to the pass at their end, which logs only what it does to an app; a change of
trust or of endpoints appends nothing.
-/

namespace Nockd

namespace Api

open Config Interleaving Registry Store Supervisor

/-- The request is more than a tick of a background loop. -/
def Request.mutates : Request → Bool
  | .reconcileTick => false
  | .healthTick => false
  | .statusTick => false
  | .sampleTick => false
  | _ => true

/-- An event of this app and kind records the request, on a host with these apps. A change
of trust or of endpoints would be recorded by any event. -/
def Request.records (apps : List String) : Request → String × String → Prop
  | .deploy req, x => x = (req.name, "deploy")
  | .restart name, x => x = (name, "restart")
  | .reload name, x => x = (name, "reload")
  | .rollback name, x => x = (name, "rollback")
  | .stop name, x => x = (name, "stop")
  | .start name, x => x = (name, "start")
  | .down, x => x.1 ∈ apps ∧ x.2 = "stop"
  | .up, x => x.1 ∈ apps ∧ x.2 = "start"
  | _, _ => True

variable (paths : Paths) (crates : Crates)

/-- A served request has left the events as they were, and a mutating one has appended a
record of itself. -/
def Audited (o : Oracle) (w : World) (r : Request) : Prop :=
  let events := w.host.registry.event
  let events' := (serve paths crates o w r).1.world.host.registry.event
  events <+: events' ∧ (r.mutates →
    ∃ e ∈ events'.drop events.length, r.records w.host.registry.app.keys (e.appName, e.kind))

/-! ## When a request is audited -/

/-- The pass whose first call has this number comes to its section. -/
def Passes (o : Oracle) (n : ℕ) (w : World) : Prop :=
  w.shuttingDown = false ∧ o.fails (n + 1) .listApps = none

instance (o : Oracle) (n : ℕ) (w : World) : Decidable (Passes o n w) :=
  inferInstanceAs (Decidable (_ ∧ _))

/-- The desired status of these apps has been set, from the call with this number on. -/
def desiring (o : Oracle) (status : String) : ℕ → List AppRow → World → World
  | _, [], w => w
  | n, a :: as, w => desiring o status (n + 1) as
      (w.mapRegistry fun r => r.setDesired (o.env n).now a.name status)

/-- The rows that a request for the fleet changes. -/
def changed (status : String) (w : World) : List AppRow :=
  w.host.registry.listApps.filter fun a => a.desiredStatus ≠ status

/-- The request appends its own event, or its pass has a stop or a start to log. -/
def Covered (o : Oracle) (w : World) : Request → Prop
  | .stop name => Passes o 2 w ∧ World.LogsStop (o.env 4) w name
  | .start name =>
    let w' := w.mapRegistry fun r => r.setDesired (o.env 1).now name "running"
    Passes o 2 w ∧ ∃ app ∈ w'.host.registry.listApps, app.name = name ∧
      World.LogsStart paths (o.env 4) w' w'.host.registry.listApps app
  | .down =>
    let n := (changed "stopped" w).length
    Passes o (n + 1) w ∧ ∃ name ∈ w.host.registry.app.keys, World.LogsStop (o.env (n + 3)) w name
  | .up =>
    let n := (changed "running" w).length
    let w' := desiring o "running" 1 (changed "running" w) w
    Passes o (n + 1) w ∧ ∃ app ∈ w'.host.registry.listApps,
      World.LogsStart paths (o.env (n + 3)) w' w'.host.registry.listApps app
  | .trustAdd _ => False
  | .trustRemove _ => False
  | .addEndpoint _ _ _ => False
  | .removeEndpoint _ => False
  | _ => True

variable {paths crates} {o : Oracle} {s s' : Alone} {w : World} {env : Env} {α : Type}

/-! ## Nothing removes an event -/

theorem lockedSection_events (w : World) (apps : List AppRow) :
    w.host.registry.event <+: (w.lockedSection paths env apps).host.registry.event := by
  refine (World.lockedSection_moves w apps).keep
    (P := fun w' => w.host.registry.event <+: w'.host.registry.event) ?_ List.prefix_rfl
  intro w₁ w₂ hmove hprefix
  cases hmove with
  | event name kind detail => exact hprefix.trans (List.prefix_append _ _)
  | spawn app pid bin url =>
      exact World.writePidfile_keep (P := fun h => w.host.registry.event <+: h.registry.event)
        hprefix fun _ => hprefix
  | _ => exact hprefix

theorem perform_events (env : Env) (w : World) (op : Call) :
    w.host.registry.event <+: (perform paths crates env w op).1.host.registry.event := by
  cases op with
  | write st =>
      change w.host.registry.event <+: (st.exec env.now w.host.registry).event
      rw [event_exec]
      exact List.prefix_append _ _
  | lockedSection apps => exact lockedSection_events w apps
  | requestRestart name =>
      simp only [perform, World.requestRestart]
      cases w.procs.lookup name with
      | none => exact List.prefix_rfl
      | some m => cases hpid : m.pid <;> simp only [hpid] <;> exact List.prefix_rfl
  | waitTimeout pid =>
      simp only [perform, World.waitTimeout]
      split <;> exact List.prefix_rfl
  | removePidfiles =>
      simp only [perform]
      generalize env.order w.procs.keys = names
      induction names generalizing w with
      | nil => exact List.prefix_rfl
      | cons name names ih => exact ih (w.emit (.remove (resolve (paths.pidFile name))))
  | _ => exact List.prefix_rfl

theorem exec_events (p : Proc α) (s : Alone) :
    s.world.host.registry.event <+:
      (p.exec (o.answer paths crates) s).1.world.host.registry.event := by
  refine (Program.only_true p).exec
    (I := fun s' : Alone => s.world.host.registry.event <+: s'.world.host.registry.event)
    (fun s' op _ hprefix => ?_) List.prefix_rfl
  cases hr : (o.answer paths crates s' op).2 with
  | error m => rwa [(answer_error hr).2.2.1]
  | ok r =>
      rw [(answer_ok hr).2.1]
      exact hprefix.trans (perform_events _ _ op)

/-! ## Events of a handler's own -/

/-- What has been logged since `w`. -/
def news (w w' : World) : List (String × String) := w'.kinds.drop w.kinds.length

theorem news_of_append {w' : World} {l : List (String × String)} (h : w'.kinds = w.kinds ++ l) :
    news w w' = l := by
  rw [news, h, List.drop_left]

theorem exists_event_iff (w' : World) (P : String × String → Prop) :
    (∃ e ∈ w'.host.registry.event.drop w.host.registry.event.length, P (e.appName, e.kind)) ↔
      ∃ x ∈ news w w', P x := by
  unfold news World.kinds
  rw [List.length_map, ← List.map_drop]
  simp only [List.mem_map, exists_exists_and_eq_and]

theorem kinds_prefix {w' : World} (h : w.host.registry.event <+: w'.host.registry.event) :
    w.kinds <+: w'.kinds := h.map _

/-- What the statements of a served request have logged. -/
theorem serve_news (o : Oracle) (w : World) (r : Request) {name kind detail : String}
    (h : .addEvent name kind detail ∈ (serve paths crates o w r).1.issued) :
    (name, kind) ∈ news w (serve paths crates o w r).1.world := by
  have hinv : w.kinds <+: (serve paths crates o w r).1.world.kinds ∧
      ∀ name kind detail, .addEvent name kind detail ∈ (serve paths crates o w r).1.issued →
        (name, kind) ∈ news w (serve paths crates o w r).1.world := by
    refine (Program.only_true (r.handler paths crates)).exec
      (I := fun s : Alone => w.kinds <+: s.world.kinds ∧
        ∀ name kind detail, .addEvent name kind detail ∈ s.issued →
          (name, kind) ∈ news w s.world) (s := { world := w }) ?_
        ⟨List.prefix_rfl, by simp [Alone.issued]⟩
    rintro s op - ⟨⟨l, hl⟩, hissued⟩
    cases hr : (o.answer paths crates s op).2 with
    | error m =>
        obtain ⟨-, -, hworld, hdone⟩ := answer_error hr
        rw [Alone.issued, hdone, hworld]
        exact ⟨⟨l, hl⟩, hissued⟩
    | ok r =>
        obtain ⟨-, hworld, hdone⟩ := answer_ok hr
        have hprefix : s.world.kinds <+: (o.answer paths crates s op).1.world.kinds := by
          rw [hworld]
          exact kinds_prefix (perform_events _ _ op)
        obtain ⟨more, hmore⟩ := hprefix
        have hkinds : (o.answer paths crates s op).1.world.kinds = w.kinds ++ (l ++ more) := by
          rw [← hmore, ← hl, List.append_assoc]
        refine ⟨⟨_, hkinds.symm⟩, fun name kind detail hmem => ?_⟩
        rw [news_of_append hkinds]
        have hnow : (o.answer paths crates s op).1.issued = s.issued ++ op.statement.toList := by
          simp [Alone.issued, hdone]
        rw [hnow] at hmem
        rcases List.mem_append.1 hmem with hmem | hmem
        · have hold := hissued name kind detail hmem
          rw [news_of_append hl.symm] at hold
          exact List.mem_append_left more hold
        · have hnew : (perform paths crates (o.env s.calls) s.world op).1.kinds =
              s.world.kinds ++ [(name, kind)] := by
            cases op with
            | write st =>
                cases List.mem_singleton.1 hmem
                simp [perform, World.mapRegistry, World.kinds, Statement.exec, Registry.addEvent]
            | _ => cases hmem
          rw [hworld, hnew] at hmore
          rw [List.append_cancel_left hmore]
          exact List.mem_append_right l (List.mem_singleton_self _)
  exact hinv.2 name kind detail h

/-- Every way to return has appended an event of this kind about the app. -/
abbrev Logs (name kind : String) (p : Thread) : Prop :=
  p.Issues Call.statement (fun _ _ => True) fun l => ∃ detail, .addEvent name kind detail ∈ l

theorem logs_call {c : Call} {f : c.Reply → Thread} {name kind : String}
    (h : ∀ r, Logs name kind (f r)) : Logs name kind (must c >>= f) :=
  ⟨fun r _ => (h r).mono fun _ ⟨detail, hl⟩ => ⟨detail, List.mem_append_right _ hl⟩,
    fun _ => ⟨[.addEvent name kind ""], "", List.mem_singleton_self _⟩⟩

theorem issues_any (p : Thread) :
    p.Issues Call.statement (fun _ _ => True) fun _ => True := by
  induction p with
  | pure a => trivial
  | throw e => exact ⟨[], trivial⟩
  | call op next ih => exact ⟨fun r _ => ih _, fun m => ih _⟩

theorem logs_here {f : Unit → Thread} {name kind detail : String} :
    Logs name kind (must (.write (.addEvent name kind detail)) >>= f) :=
  ⟨fun _ _ => (issues_any _).mono fun _ _ => ⟨detail, List.mem_cons_self⟩,
    fun _ => ⟨[.addEvent name kind ""], "", List.mem_singleton_self _⟩⟩

theorem logs_throw {name kind : String} (e : ApiError) : Logs name kind (.throw e) :=
  ⟨[.addEvent name kind ""], "", List.mem_singleton_self _⟩

theorem appOr404_logs {name app kind : String} {f : AppRow → Thread}
    (h : ∀ row, Logs name kind (f row)) : Logs name kind (appOr404 app >>= f) := by
  unfold appOr404
  rw [Program.bind_assoc]
  refine logs_call fun row => ?_
  cases row with
  | none => exact logs_throw _
  | some row => exact h row

theorem restart_logs (name : String) : Logs name "restart" (restart name) :=
  appOr404_logs fun _ => logs_call fun _ => logs_call fun _ => logs_here

theorem reload_logs (name : String) : Logs name "reload" (reload crates name) := by
  refine appOr404_logs fun app => ?_
  cases app.manifestPath with
  | none => exact logs_throw _
  | some path =>
      refine logs_call fun files => ?_
      cases loadManifest crates files path with
      | error e => exact logs_throw _
      | ok manifest =>
          refine logs_call fun files' => ?_
          cases manifestIcon crates files' path manifest.icon with
          | error e => exact logs_throw _
          | ok icon => exact logs_call fun _ => logs_call fun _ => logs_call fun _ => logs_here

theorem rollback_logs (name : String) : Logs name "rollback" (rollback name) := by
  refine appOr404_logs fun app => logs_call fun prev => ?_
  cases prev with
  | none => exact logs_throw _
  | some prev =>
      exact logs_call fun _ => logs_call fun _ => logs_call fun _ => logs_call fun _ => logs_here

theorem deploy_logs (req : DeployRequest) : Logs req.name "deploy" (deploy paths crates req) := by
  unfold deploy
  cases decodeBundle crates req with
  | error e => exact logs_throw _
  | ok bundle =>
      refine logs_call fun record => logs_call fun _ => logs_call fun isTrusted => ?_
      refine logs_call fun _ => ?_
      unfold deployApp
      cases checkIcon crates req.icon with
      | error m => exact logs_throw _
      | ok _ => exact logs_call fun _ => logs_call fun _ => logs_here

theorem Logs.news_of_ok {r : Request} {name kind : String}
    (hp : Logs name kind (r.handler paths crates)) {x : Response}
    (h : (serve paths crates o w r).2 = .ok x) :
    (name, kind) ∈ news w (serve paths crates o w r).1.world := by
  obtain ⟨done, hissued, detail, hdetail⟩ := hp.exec_ok (A := o.answer paths crates)
    (T := Alone.issued) (s := { world := w }) (fun _ _ _ _ => trivial)
    (fun s op r hr => by simp [Alone.issued, (answer_ok hr).2.2])
    (fun s op m hr => by rw [Alone.issued, (answer_error hr).2.2.2, Alone.issued]) h
  refine serve_news o w r (?_ : Statement.addEvent name kind detail ∈ _)
  unfold serve
  rw [hissued]
  exact List.mem_append_right _ hdetail

/-! ## Events of the pass -/

/-- What a pass whose first call has this number makes of a world. -/
def passed (paths : Paths) (o : Oracle) (n : ℕ) (w : World) : World :=
  if Passes o n w then w.lockedSection paths (o.env (n + 2)) w.host.registry.listApps else w

theorem answer_of_infallible (o : Oracle) (s : Alone) {op : Call} (h : op.fallible = false) :
    (o.answer paths crates s op).1.world = (perform paths crates (o.env s.calls) s.world op).1 ∧
      (o.answer paths crates s op).2 =
        .ok (perform paths crates (o.env s.calls) s.world op).2 := by
  unfold Oracle.answer
  rw [h]
  exact ⟨rfl, rfl⟩

theorem not_fails_of_ok {op : Call} {r : op.Reply} (hfallible : op.fallible = true)
    (h : (o.answer paths crates s op).2 = .ok r) : o.fails s.calls op = none := by
  unfold Oracle.answer at h
  rw [hfallible, if_pos rfl] at h
  cases hfail : o.fails s.calls op with
  | none => rfl
  | some m =>
      rw [hfail] at h
      cases h

theorem exec_reconcile (f : Unit → Proc α) (s : Alone) :
    ∃ s', s'.world = passed paths o s.calls s.world ∧
      (reconcile >>= f).exec (o.answer paths crates) s =
        (f ()).exec (o.answer paths crates) s' := by
  have hshutting : Call.isShuttingDown.fallible = false := rfl
  obtain ⟨hworld, hreply⟩ := @answer_of_infallible paths crates o s _ hshutting
  have hcalls : (o.answer paths crates s .isShuttingDown).1.calls = s.calls + 1 :=
    answer_calls o s _
  unfold reconcile
  rw [Program.bind_assoc, Program.exec_attempt_ok _ hreply]
  generalize (o.answer paths crates s .isShuttingDown).1 = s₁ at hworld hcalls
  change s₁.world = s.world at hworld
  unfold passed
  cases hshut : s.world.shuttingDown with
  | true =>
      refine ⟨s₁, by rw [if_neg fun h => by simp [h.1] at hshut, hworld], ?_⟩
      simp only [perform, hshut, if_true, Program.monad_pure, Program.pure_bind]
  | false =>
      simp only [perform, hshut, Bool.false_eq_true, if_false, Program.bind_assoc,
        Program.exec_outcome]
      cases hr : (o.answer paths crates s₁ .listApps).2 with
      | error m =>
          obtain ⟨-, hfail, hworld₂, -⟩ := answer_error hr
          refine ⟨(o.answer paths crates s₁ .listApps).1, ?_, ?_⟩
          · rw [if_neg, hworld₂, hworld]
            rintro ⟨-, hnone⟩
            rw [hcalls, hnone] at hfail
            cases hfail
          · rfl
      | ok apps =>
          obtain ⟨happs, hworld₂, -⟩ := answer_ok hr
          have hcalls₂ : (o.answer paths crates s₁ .listApps).1.calls = s₁.calls + 1 :=
            answer_calls o s₁ _
          have hfail := not_fails_of_ok rfl hr
          have hsection : (Call.lockedSection apps).fallible = false := rfl
          obtain ⟨hworld₃, hreply₃⟩ := @answer_of_infallible paths crates o
            (o.answer paths crates s₁ .listApps).1 _ hsection
          refine ⟨(o.answer paths crates (o.answer paths crates s₁ .listApps).1
            (.lockedSection apps)).1, ?_, ?_⟩
          · rw [if_pos ⟨hshut, hcalls ▸ hfail⟩, hworld₃, hcalls₂, hcalls, hworld₂]
            change s₁.world.lockedSection paths _ apps = _
            rw [happs, hworld]
            rfl
          · exact Program.exec_attempt_ok f hreply₃

/-- What the pass at the end of a request logs. -/
theorem passed_kinds {n : ℕ} (hheld : w.shuttingDown = false → w.Held) :
    (passed paths o n w).kinds = w.kinds ++
      if Passes o n w then w.logged paths (o.env (n + 2)) w.host.registry.listApps else [] := by
  unfold passed
  split
  case isTrue hpasses =>
    exact World.lockedSection_kinds (hheld hpasses.1) (nodup_listApps _)
  case isFalse => rw [List.append_nil]

/-- The same world with another registry, and the same events. -/
def Reregistered (w w' : World) : Prop :=
  ∃ r : Registry, w' = w.mapRegistry (fun _ => r) ∧ r.event = w.host.registry.event

theorem Reregistered.kinds {w' : World} (h : Reregistered w w') : w'.kinds = w.kinds := by
  obtain ⟨r, rfl, hevent⟩ := h
  exact congrArg (List.map fun e : EventRow => (e.appName, e.kind)) hevent

theorem Reregistered.held {w' : World} (h : Reregistered w w')
    (hheld : w.shuttingDown = false → w.Held) : w'.shuttingDown = false → w'.Held := by
  obtain ⟨r, rfl, -⟩ := h
  exact fun hshut =>
    ⟨(hheld hshut).pidOfChild, (hheld hshut).started, (hheld hshut).taken, (hheld hshut).apart⟩

theorem Reregistered.passes {w' : World} (h : Reregistered w w') (n : ℕ) :
    Passes o n w' ↔ Passes o n w := by
  obtain ⟨r, rfl, -⟩ := h
  exact Iff.rfl

theorem Reregistered.logsStop {w' : World} (h : Reregistered w w') (name : String) :
    World.LogsStop env w' name ↔ World.LogsStop env w name := by
  obtain ⟨r, rfl, -⟩ := h
  exact Iff.rfl

/-- A pass that begins in a world with the same events. -/
theorem mem_news_passed {w' : World} (h : Reregistered w w') {n : ℕ}
    (hheld : w.shuttingDown = false → w.Held) {x : String × String} :
    x ∈ news w (passed paths o n w') ↔
      Passes o n w ∧ x ∈ w'.logged paths (o.env (n + 2)) w'.host.registry.listApps := by
  have hkinds : (passed paths o n w').kinds = w'.kinds ++
      if Passes o n w' then w'.logged paths (o.env (n + 2)) w'.host.registry.listApps else [] :=
    passed_kinds (h.held hheld)
  rw [h.kinds] at hkinds
  rw [news_of_append hkinds, ← h.passes]
  split <;> simp [*]

/-! ## Desired statuses -/

/-- The desired status of a registered app. -/
def desiredOf (w : World) (name : String) : Option String :=
  (w.host.registry.getApp name).map (·.desiredStatus)

theorem desiredOf_setDesired (now : ℤ) (name other status : String) :
    desiredOf (w.mapRegistry fun r => r.setDesired now name status) other =
      if other = name then (desiredOf w other).map fun _ => status else desiredOf w other := by
  unfold desiredOf Registry.getApp
  by_cases hname : other = name
  · subst hname
    simp only [World.mapRegistry, Registry.setDesired, Table.lookup_modify, Option.map_map,
      if_pos]
    rfl
  · simp only [World.mapRegistry, Registry.setDesired, Table.lookup_modify_ne _ _ hname,
      if_neg hname, Option.map_map]
    rfl

theorem desiredOf_of_mem {app : AppRow} (h : app ∈ w.host.registry.listApps) :
    desiredOf w app.name = some app.desiredStatus := by
  rw [desiredOf, mem_listApps.1 h]
  rfl

theorem desiredOf_desiring (status : String) (n : ℕ) (apps : List AppRow) (name : String) :
    desiredOf (desiring o status n apps w) name =
      if name ∈ apps.map (·.name) then (desiredOf w name).map fun _ => status
      else desiredOf w name := by
  induction apps generalizing n w with
  | nil => rfl
  | cons a apps ih =>
      rw [desiring, ih, desiredOf_setDesired]
      by_cases hname : name = a.name
      · subst hname
        rw [if_pos rfl, List.map_cons, if_pos List.mem_cons_self]
        split
        · rw [Option.map_map]
          rfl
        · rfl
      · simp [hname]

theorem reregistered_desiring (status : String) (n : ℕ) (apps : List AppRow) :
    Reregistered w (desiring o status n apps w) := by
  induction apps generalizing n w with
  | nil => exact ⟨w.host.registry, rfl, rfl⟩
  | cons a apps ih =>
      obtain ⟨r, hr, hevent⟩ := ih (w := w.mapRegistry fun r => r.setDesired (o.env n).now a.name
        status) (n + 1)
      exact ⟨r, hr, hevent⟩

/-- A request for the fleet leaves every app with its status. -/
theorem desired_of_fleet {status : String} {n : ℕ} {app : AppRow}
    (h : app ∈ (desiring o status n (changed status w) w).host.registry.listApps) :
    app.desiredStatus = status := by
  have hdesired := desiredOf_of_mem h
  rw [desiredOf_desiring] at hdesired
  split at hdesired
  case isTrue =>
    obtain ⟨_, -, hstatus⟩ := Option.map_eq_some_iff.1 hdesired
    exact hstatus.symm
  case isFalse hnot =>
    obtain ⟨row, hrow, hstatus⟩ := Option.map_eq_some_iff.1 hdesired
    have hname : row.name = app.name := by
      obtain ⟨record, -, rfl⟩ := Option.map_eq_some_iff.1 hrow
      rfl
    by_contra hne
    refine hnot (List.mem_map.2 ⟨row, List.mem_filter.2 ⟨?_, by simpa [hstatus] using hne⟩, hname⟩)
    rw [mem_listApps, hname]
    exact hrow

/-! ## The handlers that rely on the pass -/

/-- The writes of a request for the fleet. -/
abbrev setAll (status : String) (apps : List AppRow) : Proc Unit :=
  Program.forEach apps fun a => must (.write (.setDesired a.name status))

theorem exec_setAll_ok {status : String} {apps : List AppRow} {f : Unit → Proc α} {x : α}
    (h : ((setAll status apps >>= f).exec (o.answer paths crates) s).2 = .ok x) :
    ∃ s', s'.world = desiring o status s.calls apps s.world ∧ s'.calls = s.calls + apps.length ∧
      (setAll status apps >>= f).exec (o.answer paths crates) s =
        (f ()).exec (o.answer paths crates) s' := by
  induction apps generalizing s with
  | nil => exact ⟨s, rfl, rfl, rfl⟩
  | cons a apps ih =>
      have hcons : (setAll status (a :: apps) >>= f).exec (o.answer paths crates) s =
          (must (.write (.setDesired a.name status)) >>= fun _ =>
            setAll status apps >>= f).exec (o.answer paths crates) s := by
        rw [setAll, Program.forEach, Program.bind_assoc]
      rw [hcons] at h ⊢
      obtain ⟨s₁, h₁, hexec₁⟩ := exec_must_ok h
      rw [hexec₁] at h ⊢
      obtain ⟨s₂, hworld, hcalls, hexec₂⟩ := ih h
      refine ⟨s₂, ?_, ?_, hexec₂⟩
      · rw [hworld, h₁.world, h₁.calls]
        rfl
      · rw [hcalls, h₁.calls, List.length_cons]
        omega

theorem serve_fleet_world {r : Request} {status : String}
    (hr : r.handler paths crates = fleetSet status) {x : Response}
    (h : (serve paths crates o w r).2 = .ok x) :
    (serve paths crates o w r).1.world = passed paths o ((changed status w).length + 1)
      (desiring o status 1 (changed status w) w) := by
  unfold serve at h ⊢
  rw [hr] at h ⊢
  unfold fleetSet at h ⊢
  obtain ⟨s₁, h₁, hexec₁⟩ := exec_must_ok h
  rw [hexec₁] at h ⊢
  obtain ⟨s₂, hworld₂, hcalls₂, hexec₂⟩ := @exec_setAll_ok paths crates o s₁ _ status
    (changed status w) _ _ h
  obtain ⟨s₃, hworld₃, hexec₃⟩ := @exec_reconcile paths crates o Response
    (fun _ => pure (Response.fleet (changed status w).length w.host.registry.listApps.length)) s₂
  refine (congrArg (fun y : Alone × Except ApiError Response => y.1.world)
    (hexec₂.trans hexec₃)).trans ?_
  change s₃.world = _
  rw [hworld₃, hcalls₂, hworld₂, h₁.calls, h₁.world, Nat.zero_add, Nat.add_comm]
  rfl

theorem serve_setStatus_world {r : Request} {name status : String}
    (hr : r.handler paths crates = setStatus name status) {x : Response}
    (h : (serve paths crates o w r).2 = .ok x) :
    (∃ app, w.host.registry.getApp name = some app) ∧
      (serve paths crates o w r).1.world = passed paths o 2
        (w.mapRegistry fun r => r.setDesired (o.env 1).now name status) := by
  unfold serve at h ⊢
  rw [hr] at h ⊢
  unfold setStatus at h ⊢
  obtain ⟨s₁, app, h₁, happ, hexec₁⟩ := exec_appOr404_ok h
  rw [hexec₁] at h ⊢
  obtain ⟨s₂, h₂, hexec₂⟩ := exec_must_ok h
  rw [hexec₂] at h ⊢
  obtain ⟨s₃, hworld₃, hexec₃⟩ := @exec_reconcile paths crates o Response
    (fun _ => pure Response.ok) s₂
  refine ⟨⟨app, happ⟩, ?_⟩
  refine (congrArg (fun y : Alone × Except ApiError Response => y.1.world) hexec₃).trans ?_
  change s₃.world = _
  rw [hworld₃, h₂.calls, h₂.world, h₁.calls, h₁.world]
  rfl

/-! ## Audited requests -/

theorem mem_keys_iff (w : World) (name : String) :
    name ∈ w.host.registry.app.keys ↔ (desiredOf w name).isSome = true := by
  rw [desiredOf, Option.isSome_map, Registry.getApp, Option.isSome_map, AList.lookup_isSome,
    AList.mem_keys]

theorem exists_row {name : String} (h : name ∈ w.host.registry.app.keys) :
    ∃ app ∈ w.host.registry.listApps, app.name = name :=
  List.mem_map.1 (name_mem_listApps.2 h)

theorem keys_desiring (status : String) (n : ℕ) (apps : List AppRow) (name : String) :
    name ∈ (desiring o status n apps w).host.registry.app.keys ↔
      name ∈ w.host.registry.app.keys := by
  rw [mem_keys_iff, mem_keys_iff, desiredOf_desiring]
  split
  · rw [Option.isSome_map]
  · rfl

/-- A stop is recorded when the pass has a stop to log. -/
theorem recorded_stop {r : Request} {name : String}
    (hr : r.handler paths crates = setStatus name "stopped")
    (hheld : w.shuttingDown = false → w.Held) {x : Response}
    (h : (serve paths crates o w r).2 = .ok x) :
    (name, "stop") ∈ news w (serve paths crates o w r).1.world ↔
      Passes o 2 w ∧ World.LogsStop (o.env 4) w name := by
  obtain ⟨⟨row, hrow⟩, hworld⟩ := serve_setStatus_world hr h
  have hsame : Reregistered w
      (w.mapRegistry fun r => r.setDesired (o.env 1).now name "stopped") := ⟨_, rfl, rfl⟩
  have hdesired : desiredOf (w.mapRegistry fun r => r.setDesired (o.env 1).now name "stopped")
      name = some "stopped" := by
    rw [desiredOf_setDesired, if_pos rfl, desiredOf, hrow]
    rfl
  obtain ⟨app, happ, rfl⟩ := exists_row ((mem_keys_iff _ name).2 (by rw [hdesired]; rfl))
  rw [desiredOf_of_mem happ] at hdesired
  rw [hworld, mem_news_passed hsame hheld,
    World.mem_logged_stop (nodup_listApps _) happ (Option.some.inj hdesired), hsame.logsStop]

/-- A start is recorded when the pass starts the app. -/
theorem recorded_start {r : Request} {name : String}
    (hr : r.handler paths crates = setStatus name "running")
    (hheld : w.shuttingDown = false → w.Held) {x : Response}
    (h : (serve paths crates o w r).2 = .ok x) :
    (name, "start") ∈ news w (serve paths crates o w r).1.world ↔
      Covered paths o w (.start name) := by
  obtain ⟨⟨row, hrow⟩, hworld⟩ := serve_setStatus_world hr h
  have hsame : Reregistered w
      (w.mapRegistry fun r => r.setDesired (o.env 1).now name "running") := ⟨_, rfl, rfl⟩
  have hdesired : desiredOf (w.mapRegistry fun r => r.setDesired (o.env 1).now name "running")
      name = some "running" := by
    rw [desiredOf_setDesired, if_pos rfl, desiredOf, hrow]
    rfl
  obtain ⟨app, happ, rfl⟩ := exists_row ((mem_keys_iff _ name).2 (by rw [hdesired]; rfl))
  rw [hworld, mem_news_passed hsame hheld, World.mem_logged_start (nodup_listApps _) happ]
  refine and_congr_right fun _ => ⟨fun h => ⟨app, happ, rfl, h⟩, ?_⟩
  rintro ⟨other, hother, hname, h⟩
  rwa [World.eq_of_name_eq (nodup_listApps _) happ hother hname] at h

theorem recorded_down (hheld : w.shuttingDown = false → w.Held) {x : Response}
    (h : (serve paths crates o w .down).2 = .ok x) :
    (∃ y ∈ news w (serve paths crates o w .down).1.world,
        Request.down.records w.host.registry.app.keys y) ↔ Covered paths o w .down := by
  have hworld := @serve_fleet_world paths crates o w .down "stopped" rfl x h
  have hsame : Reregistered w (desiring o "stopped" 1 (changed "stopped" w) w) :=
    reregistered_desiring _ _ _
  rw [hworld]
  constructor
  · rintro ⟨⟨name, kind⟩, hy, hkey, rfl⟩
    obtain ⟨hpasses, hlogged⟩ := (mem_news_passed hsame hheld).1 hy
    obtain ⟨app, happ, rfl⟩ := exists_row ((keys_desiring _ _ _ name).2 hkey)
    rw [World.mem_logged_stop (nodup_listApps _) happ (desired_of_fleet happ), hsame.logsStop]
      at hlogged
    exact ⟨hpasses, app.name, hkey, hlogged⟩
  · rintro ⟨hpasses, name, hkey, hlogs⟩
    obtain ⟨app, happ, rfl⟩ := exists_row ((keys_desiring _ _ _ name).2 hkey)
    refine ⟨(app.name, "stop"), (mem_news_passed hsame hheld).2 ⟨hpasses, ?_⟩, hkey, rfl⟩
    rwa [World.mem_logged_stop (nodup_listApps _) happ (desired_of_fleet happ), hsame.logsStop]

theorem recorded_up (hheld : w.shuttingDown = false → w.Held) {x : Response}
    (h : (serve paths crates o w .up).2 = .ok x) :
    (∃ y ∈ news w (serve paths crates o w .up).1.world,
        Request.up.records w.host.registry.app.keys y) ↔ Covered paths o w .up := by
  have hworld := @serve_fleet_world paths crates o w .up "running" rfl x h
  have hsame : Reregistered w (desiring o "running" 1 (changed "running" w) w) :=
    reregistered_desiring _ _ _
  rw [hworld]
  constructor
  · rintro ⟨⟨name, kind⟩, hy, hkey, rfl⟩
    obtain ⟨hpasses, hlogged⟩ := (mem_news_passed hsame hheld).1 hy
    obtain ⟨app, happ, rfl⟩ := exists_row ((keys_desiring _ _ _ name).2 hkey)
    exact ⟨hpasses, app, happ, (World.mem_logged_start (nodup_listApps _) happ).1 hlogged⟩
  · rintro ⟨hpasses, app, happ, hlogs⟩
    have hkey : app.name ∈ w.host.registry.app.keys :=
      (keys_desiring _ _ _ app.name).1 (name_mem_listApps.1 (List.mem_map_of_mem happ))
    refine ⟨(app.name, "start"), (mem_news_passed hsame hheld).2 ⟨hpasses, ?_⟩, hkey, rfl⟩
    exact (World.mem_logged_start (nodup_listApps _) happ).2 hlogs

/-- A handler that issues one statement logs nothing, unless the statement does. -/
theorem news_writeOnly {r : Request} {st : Statement}
    (hr : r.handler paths crates = writeOnly st) (hst : ∀ now id, st.logs now id = none)
    {x : Response} (h : (serve paths crates o w r).2 = .ok x) :
    news w (serve paths crates o w r).1.world = [] := by
  unfold serve at h ⊢
  rw [hr] at h ⊢
  unfold writeOnly at h ⊢
  obtain ⟨s₁, h₁, hexec₁⟩ := exec_must_ok h
  refine news_of_append ?_
  rw [hexec₁]
  change s₁.world.kinds = _
  rw [h₁.world, List.append_nil]
  change List.map _ (st.exec _ w.host.registry).event = _
  rw [event_exec, hst, Option.toList_none, List.append_nil]
  rfl

/-- In a world whose entries hold what they should, a request that succeeds is audited
exactly when it is covered. -/
theorem audited_of_held (hheld : w.shuttingDown = false → w.Held) {r : Request} {x : Response}
    (h : (serve paths crates o w r).2 = .ok x) :
    Audited paths crates o w r ↔ Covered paths o w r := by
  have hkept : w.host.registry.event <+:
      (serve paths crates o w r).1.world.host.registry.event :=
    exec_events (r.handler paths crates) { world := w }
  unfold Audited
  simp only [hkept, true_and, exists_event_iff]
  cases r with
  | deploy req =>
      refine iff_of_true (fun _ => ⟨_, ?_, rfl⟩) trivial
      exact (deploy_logs req).news_of_ok (r := .deploy req) h
  | restart name =>
      refine iff_of_true (fun _ => ⟨_, ?_, rfl⟩) trivial
      exact (restart_logs name).news_of_ok (r := .restart name) h
  | reload name =>
      refine iff_of_true (fun _ => ⟨_, ?_, rfl⟩) trivial
      exact (reload_logs name).news_of_ok (r := .reload name) h
  | rollback name =>
      refine iff_of_true (fun _ => ⟨_, ?_, rfl⟩) trivial
      exact (rollback_logs name).news_of_ok (r := .rollback name) h
  | stop name =>
      simp only [Request.mutates, Request.records, true_imp_iff, exists_eq_right]
      exact recorded_stop rfl hheld h
  | start name =>
      simp only [Request.mutates, Request.records, true_imp_iff, exists_eq_right]
      exact recorded_start rfl hheld h
  | down =>
      simp only [Request.mutates, true_imp_iff]
      exact recorded_down hheld h
  | up =>
      simp only [Request.mutates, true_imp_iff]
      exact recorded_up hheld h
  | trustAdd pubkey =>
      rw [news_writeOnly (r := .trustAdd pubkey) rfl (fun _ _ => rfl) h]
      exact iff_of_false (by simp [Request.mutates]) id
  | trustRemove pubkey =>
      rw [news_writeOnly (r := .trustRemove pubkey) rfl (fun _ _ => rfl) h]
      exact iff_of_false (by simp [Request.mutates]) id
  | addEndpoint name url kind =>
      rw [news_writeOnly (r := .addEndpoint name url kind) rfl (fun _ _ => rfl) h]
      exact iff_of_false (by simp [Request.mutates]) id
  | removeEndpoint name =>
      rw [news_writeOnly (r := .removeEndpoint name) rfl (fun _ _ => rfl) h]
      exact iff_of_false (by simp [Request.mutates]) id
  | _ => exact iff_of_true (fun hmut => by cases hmut) trivial

end Api

end Nockd
