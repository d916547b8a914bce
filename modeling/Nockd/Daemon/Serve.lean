import Nockd.Daemon.Crash
import Nockd.Supervisor.Disown

/-!
# From the start of the daemon to the return of serve

`serve` cleans up, starts its loops, binds the listener and then serves until the server
fails or a shutdown signal comes. Only the last of its three exits stops the apps. The loops
run from before the listener is bound, so any amount of their work may precede an
error; no instance is left behind if an error finds none running.
-/

namespace Nockd

namespace Daemon

open Api Config Interleaving Registry Store Supervisor

/-! ## The daemon cannot tell what others started -/

section Disown

variable {paths : Paths} {crates : Crates} {env : Env} {w : World} {s s' : Sys}

theorem enabled_disown (op : Call) :
    enabled paths crates env w.disown op = enabled paths crates env w op := by
  cases op with
  | waitTimeout pid => exact congrArg (·.isSome || env.timedOut) (World.exited_disown pid)
  | waitExit pid => exact congrArg Option.isSome (World.exited_disown pid)
  | _ => rfl

theorem collectTaken_disown (pid : Pid) : (w.collectTaken pid).disown = w.disown.collectTaken pid :=
  World.disown_emit (w := { w with taken := w.taken.filter (· ≠ pid) }) (by simp)

theorem perform_disown {op : Call} (hop : ∀ pid, op ≠ .pidAlive pid) :
    perform paths crates env w.disown op =
      ((perform paths crates env w op).1.disown, (perform paths crates env w op).2) := by
  cases op with
  | pidAlive pid => exact absurd rfl (hop pid)
  | requestRestart name =>
      refine Prod.ext ?_ rfl
      simp only [perform, World.requestRestart, World.disown_procs]
      cases w.procs.lookup name with
      | none => rfl
      | some m =>
          cases hpid : m.pid with
          | none =>
              simp only [hpid]
              rfl
          | some pid =>
              simp only [hpid]
              rfl
  | lockedSection apps => exact Prod.ext (World.disown_lockedSection apps).symm rfl
  | waitTimeout pid =>
      have hexited : w.disown.exited pid = w.exited pid :=
        congrArg Option.isSome (World.exited_disown pid)
      simp only [perform, World.waitTimeout, hexited]
      split
      · exact Prod.ext (collectTaken_disown pid).symm rfl
      · rfl
  | waitExit pid => exact Prod.ext (collectTaken_disown pid).symm rfl
  | removePidfiles =>
      refine Prod.ext ?_ rfl
      exact (World.foldl_disown (fun w name => rfl) _ w).symm
  | _ => rfl

namespace Sys

def disown (s : Sys) : Sys := { s with world := s.world.disown }

@[simp] theorem disown_world : s.disown.world = s.world.disown := rfl

@[simp] theorem disown_threads : s.disown.threads = s.threads := rfl

@[simp] theorem disown_stopping : s.disown.stopping = s.stopping := rfl

theorem setProcess_disown (pid : Pid) (p : Option Process) :
    (w.setProcess pid p).disown = w.disown.setProcess pid (p.map (Process.disown w.daemon)) :=
  congrArg (fun processes => { w with host := { w.host with processes } })
    (Host.disown_update pid p)

theorem step_of_disown {a : Action} {world : World}
    (h : Step paths crates s.disown a { s.disown with world := world.disown }) :
    Step paths crates s.disown a (disown { s with world }) := h

/-- The steps of the daemon are steps of the daemon that takes what others started for
processes that are not ours. -/
theorem Step.disown {a : Action} (h : Step paths crates s a s')
    (hlawful : Lawful Call.uses Call.learns PlainFact s.threads)
    (hstops : ∀ p, s.stopping = some p → p.Only Stops) :
    Step paths crates s.disown a s'.disown := by
  cases h with
  | arrive r => exact .arrive r
  | run i env op next ht hopen =>
      have hop : ∀ pid, op ≠ .pidAlive pid := by
        rintro pid rfl
        exact lawful_main hlawful ht rfl
      have hstep : Step paths crates s.disown (.run i env) _ :=
        .run i env op next ht ((enabled_disown op).trans hopen)
      simp only [disown_world, perform_disown hop] at hstep
      exact hstep
  | fail i message op next ht hfallible => exact .fail i message op next ht hfallible
  | exit pid status launch hp =>
      have hprocess : s.disown.world.host.processes pid =
          some { launch := launch.filter fun l => l.daemon = s.world.daemon, exit := none } :=
        congrArg (Option.map (Process.disown s.world.daemon)) hp
      refine step_of_disown ?_
      rw [setProcess_disown]
      exact .exit pid status _ hprocess
  | collect pid hexit htaken hchild =>
      have hexited : s.disown.world.exited pid = true :=
        (congrArg Option.isSome (World.exited_disown pid)).trans hexit
      refine step_of_disown ?_
      rw [setProcess_disown]
      exact .collect pid hexited htaken hchild
  | foreign pid hfree =>
      refine step_of_disown ?_
      rw [setProcess_disown]
      exact .foreign pid ((Host.freePid_disown pid).2 hfree)
  | beginStop hnone => exact .beginStop hnone
  | stop env op next hp hopen =>
      have hop : ∀ pid, op ≠ .pidAlive pid := by
        rintro pid rfl
        rcases (hstops _ hp).1 with h | h | h
        · exact h
        · cases h
        · cases h
      have hstep : Step paths crates s.disown (.stop env) _ :=
        .stop env op next hp ((enabled_disown op).trans hopen)
      simp only [disown_world, perform_disown hop] at hstep
      exact hstep

theorem orderlyStop_disown (a : Action) : s.disown.OrderlyStop a ↔ s.OrderlyStop a := by
  unfold OrderlyStop
  rw [disown_world, World.liveNames_disown]
  simp only [World.due_disown]
  cases a <;> exact Iff.rfl

end Sys

/-- What the daemon started is tracked, or it has been taken and is waited for. -/
def Minded (s : Sys) : Prop := Serving s.disown ∨ Stopping s.disown

theorem Minded.lawful (h : Minded s) : Lawful Call.uses Call.learns PlainFact s.threads :=
  h.elim (·.tidy.lawful) (·.lawful)

theorem Minded.stops (h : Minded s) : ∀ p, s.stopping = some p → p.Only Stops := by
  intro p hp
  rw [← Sys.disown_stopping] at hp
  rcases h with hserving | hstopping
  · rcases hserving.stopping with hstop | hstop | hstop <;> rw [hstop] at hp <;> cases hp
    · exact stopAll_only
    · exact stopAll_only.2.1 ()
  · obtain ⟨q, hq, honly, -⟩ := hstopping.waits
    obtain rfl := Option.some.inj (hp.symm.trans hq)
    exact honly.mono fun _ => Or.inl

theorem Minded.step {a : Action} (h : Minded s) (hstep : Sys.Step paths crates s a s')
    (horderly : s.OrderlyStop a) : Minded s' := by
  have hdisown := hstep.disown h.lawful h.stops
  have horderly' := (Sys.orderlyStop_disown a).2 horderly
  exact h.elim (·.step hdisown horderly') fun h => Or.inr (h.step hdisown horderly')

/-- Before a shutdown, what runs of the daemon is held by a live entry. -/
theorem Minded.live (h : Minded s) (hstop : s.stopping = none) {pid : Pid} {launch : Launch}
    (hruns : s.world.host.Runs pid launch) (hown : launch.daemon = s.world.daemon) :
    launch.app ∈ s.world.liveNames := by
  rcases h with hserving | hstopping
  · have hruns' := Host.runs_disown.2 ⟨hruns, hown⟩
    rw [← World.liveNames_disown]
    have hnone : s.disown.world.taken = [] := hserving.tidy.taken
    have htracked := hserving.tidy.tracked pid launch hruns'
    rw [hnone] at htracked
    exact World.mem_liveNames (htracked.resolve_right (by simp)) hruns'
  · obtain ⟨p, hp, -⟩ := hstopping.waits
    cases hstop.symm.trans hp

/-- When `stop_all` has returned, nothing of the daemon runs. -/
theorem Minded.idle (h : Minded s) {p : Proc Unit} (hp : s.stopping = some p)
    (hfin : p.finished = true) {pid : Pid} {launch : Launch}
    (hruns : s.world.host.Runs pid launch) : launch.daemon ≠ s.world.daemon := by
  intro hown
  rw [← Sys.disown_stopping] at hp
  rcases h with hserving | hstopping
  · rcases hserving.stopping with hstop | hstop | hstop <;> rw [hstop] at hp <;> cases hp <;>
      cases hfin
  · obtain ⟨q, hq, -, hwaits⟩ := hstopping.waits
    obtain rfl := Option.some.inj (hp.symm.trans hq)
    have htaken := hstopping.emptied.taken pid launch (Host.runs_disown.2 ⟨hruns, hown⟩)
    have hwait := (hwaits pid htaken).not_finished
    rw [hfin] at hwait
    cases hwait

end Disown

/-! ## The pidfiles of what others started -/

section Unfiled

variable {paths : Paths} {crates : Crates} {env : Env} {w w' : World} {s s' : Sys}

theorem unfiled_of_same (h : World.Unfiled paths w) (hdaemon : w'.daemon = w.daemon)
    (hran : ∀ pid launch, w'.host.Runs pid launch → w.host.Runs pid launch)
    (hfiled : ∀ name, World.filed paths w'.host name = World.filed paths w.host name ∨
      World.filed paths w'.host name = none) : World.Unfiled paths w' := by
  intro pid launch hruns hother
  have hbefore := h pid launch (hran pid launch hruns) (hdaemon ▸ hother)
  rcases hfiled launch.app with hsame | hnone
  · rwa [hsame]
  · simp [hnone]

/-- A shutdown only removes pidfiles. -/
theorem filed_stops {op : Call} (hop : Stops op) (name : String) :
    World.filed paths (perform paths crates env w op).1.host name =
        World.filed paths w.host name ∨
      World.filed paths (perform paths crates env w op).1.host name = none := by
  obtain ⟨added, hhost, heffects⟩ := stops_effects paths crates env w hop
  rw [hhost]
  refine Host.foldl_apply_keep (P := fun h => World.filed paths h name =
    World.filed paths w.host name ∨ World.filed paths h name = none) ?_ (Or.inl rfl) heffects
  intro h e he hkeep
  cases e with
  | remove file =>
      obtain ⟨-, other, rfl⟩ := he
      rcases World.filed_remove (h := h) other name with hsame | hnone
      · rwa [hsame]
      · exact Or.inr hnone
  | signal t pid sig => exact hkeep
  | wait pid => exact hkeep
  | takeChildren => exact hkeep
  | _ => exact he.elim

theorem unfiled_step {a : Action} (h : World.Unfiled paths s.world) (hminded : Minded s)
    (hstep : Sys.Step paths crates s a s')
    (hcut : s.AtSection (fun env apps => ∀ app ∈ apps, ∀ pid ∈ World.cutPid env app.name,
      World.NotLeft paths s.world app.name pid) a) : World.Unfiled paths s'.world := by
  cases hstep with
  | run i env op next ht hopen =>
      rcases op.section_cases with ⟨apps, rfl⟩ | hsection
      · exact World.Unfiled.section h (hcut apps (Sys.section?_eq ht))
      · refine unfiled_of_same h (perform_daemon paths crates env s.world op)
          (fun _ _ => runs_of_perform hsection) fun name => Or.inl ?_
        unfold World.filed
        rw [perform_pidFile (lawful_main hminded.lawful ht) hsection]
  | stop env op next hp hopen =>
      have hop : Stops op := (hminded.stops _ hp).1
      refine unfiled_of_same h (perform_daemon paths crates env s.world op)
        (fun pid launch hruns => ?_) (filed_stops hop)
      refine runs_of_perform (fun apps heq => ?_) hruns
      subst heq
      rcases hop with hop | hop | hop
      · exact hop
      · cases hop
      · cases hop
  | exit pid status launch hp =>
      exact unfiled_of_same h rfl (World.processesKept_exit hp).ran fun _ => Or.inl rfl
  | collect pid hexit htaken hchild =>
      exact unfiled_of_same h rfl (World.processesKept_collect htaken hchild).ran
        fun _ => Or.inl rfl
  | foreign pid hfree =>
      exact unfiled_of_same h rfl (World.processesKept_foreign hfree).ran fun _ => Or.inl rfl
  | _ => exact h

end Unfiled

/-! ## The phases of serve -/

/-- How `serve` returns. -/
inductive Exit where
  | bindError
  | serverError
  | signal
deriving DecidableEq, Repr

inductive Serve where
  /-- The daemon, with what is left of its cleanup. -/
  | cleanup (w : World) (p : Proc Unit)
  /-- The loops run, and the listener is not bound yet. -/
  | binding (s : Sys)
  | listening (s : Sys)
  | returned (w : World) (exit : Exit)

inductive ServeAction where
  | act (a : Action)
  /-- The cleanup makes its next call. -/
  | call (env : Env)
  | failCall (message : String)
  | spawnLoops
  | bound
  | bindFails
  | serverFails
  | stopped

/-- What can happen before anybody can connect, or be heard. -/
def background : Action → Bool
  | .arrive .reconcileTick => true
  | .arrive .healthTick => true
  | .arrive .statusTick => true
  | .arrive .sampleTick => true
  | .arrive _ => false
  | .beginStop => false
  | _ => true

namespace Serve

variable (paths : Paths) (crates : Crates)

def step : Serve → ServeAction → Option Serve
  | .cleanup w p, .act a => (outside w a).map fun w => .cleanup w p
  | .cleanup w p, .call env => (turn paths crates env w p).map fun next => .cleanup next.1 next.2
  | .cleanup w p, .failCall message => (failTurn message p).map fun p => .cleanup w p
  | .cleanup w p, .spawnLoops => if p.finished then some (.binding { world := w }) else none
  | .binding s, .act a => if background a then (s.step paths crates a).map .binding else none
  | .binding s, .bound => some (.listening s)
  | .binding s, .bindFails => some (.returned s.world .bindError)
  | .listening s, .act a => (s.step paths crates a).map .listening
  | .listening s, .serverFails =>
    if s.stopping.isNone then some (.returned s.world .serverError) else none
  | .listening s, .stopped =>
    if s.stopping.any (·.finished) then some (.returned s.world .signal) else none
  | _, _ => none

/-- A daemon that has just been started, on any host. -/
def Opening : Serve → Prop
  | .cleanup w p => p = cleanupOrphans ∧ w.procs = ∅ ∧ w.taken = [] ∧ w.host.log = [] ∧
      ∀ pid launch, w.host.Runs pid launch → launch.daemon ≠ w.daemon
  | _ => False

/-- When `serve` has returned, nothing runs that it started, and no pidfile names what an
earlier daemon started and still runs. -/
def LeavesNothing : Serve → Prop
  | .returned w _ => ∀ pid launch, w.host.Runs pid launch →
      launch.daemon ≠ w.daemon ∧ ¬ OnFile paths w.host pid launch
  | _ => True

/-- The sections are orderly and cut no pidfile short to the number of what an earlier daemon
left. -/
def Orderly (s : Sys) (a : Action) : Prop :=
  s.OrderlyStop a ∧ s.AtSection (fun env apps => ∀ app ∈ apps,
    ∀ pid ∈ World.cutPid env app.name, World.NotLeft paths s.world app.name pid) a

instance (s : Sys) (a : Action) : Decidable (Orderly paths s a) :=
  inferInstanceAs (Decidable (_ ∧ s.AtSection _ a))

/-- The cleanup lists the app of every running process whose pidfile is there, and an error
finds no instance running. -/
def Clean : Serve → ServeAction → Prop
  | .cleanup w p, .call _ => p.Begins (· = .listApps) → ∀ pid launch, w.host.Runs pid launch →
      OnFile paths w.host pid launch → launch.app ∈ w.host.registry.app.keys
  | .cleanup w _, .failCall _ => ∀ pid launch, w.host.Runs pid launch →
      ¬ OnFile paths w.host pid launch
  | .binding s, .act a => Orderly paths s a
  | .listening s, .act a => Orderly paths s a
  | .binding s, .bindFails => s.world.liveNames = []
  | .listening s, .serverFails => s.world.liveNames = []
  | _, _ => True

end Serve

variable {paths : Paths} {crates : Crates} {env : Env} {w w' : World} {s s' : Sys}

/-- The pidfiles of what runs are still to be removed, and nothing has been started. -/
structure Sweeping (paths : Paths) (w : World) (p : Proc Unit) : Prop where
  only : p.Only Cleans
  procs : w.procs = ∅
  taken : w.taken = []
  log : .takeChildren ∉ w.host.log
  other : ∀ pid launch, w.host.Runs pid launch → launch.daemon ≠ w.daemon
  removes : ∀ pid launch, w.host.Runs pid launch → OnFile paths w.host pid launch →
    Removes launch.app p

theorem Sweeping.start (hprocs : w.procs = ∅) (htaken : w.taken = []) (hlog : w.host.log = [])
    (hother : ∀ pid launch, w.host.Runs pid launch → launch.daemon ≠ w.daemon) :
    Sweeping paths w cleanupOrphans where
  only := cleanupOrphans_only
  procs := hprocs
  taken := htaken
  log := by simp [hlog]
  other := hother
  removes := fun _ _ _ _ => cleanupOrphans_removes

/-- A process ends or comes from the outside. -/
theorem Sweeping.setProcess {p : Proc Unit} (h : Sweeping paths w p) {pid : Pid}
    {q : Option Process} (hprocesses : World.ProcessesKept w (w.setProcess pid q)) :
    Sweeping paths (w.setProcess pid q) p where
  only := h.only
  procs := h.procs
  taken := h.taken
  log := h.log
  other := fun pid launch hruns => h.other pid launch (hprocesses.ran pid launch hruns)
  removes := fun pid launch hruns => h.removes pid launch (hprocesses.ran pid launch hruns)

theorem Sweeping.outside {p : Proc Unit} (h : Sweeping paths w p) {a : Action}
    (hw' : outside w a = some w') (hstep : Sys.Step paths crates { world := w } a { world := w' }) :
    Sweeping paths w' p := by
  cases hstep with
  | exit pid status launch hp => exact h.setProcess (World.processesKept_exit hp)
  | collect pid hexit htaken hchild =>
      exact h.setProcess (World.processesKept_collect htaken hchild)
  | foreign pid hfree => exact h.setProcess (World.processesKept_foreign hfree)
  | _ => cases hw'

/-- The calls of the cleanup touch no entry and take no child. -/
theorem cleans_entries {op : Call} (hop : Cleans op) :
    (perform paths crates env w op).1.procs = w.procs ∧
      (perform paths crates env w op).1.taken = w.taken ∧
      (perform paths crates env w op).1.daemon = w.daemon ∧
      (.takeChildren ∉ w.host.log →
        .takeChildren ∉ (perform paths crates env w op).1.host.log) := by
  cases op with
  | removePidfile name => exact ⟨rfl, rfl, rfl, fun h => by simpa [perform] using h⟩
  | signal pid sig => exact ⟨rfl, rfl, rfl, fun h => by simpa [perform] using h⟩
  | _ => first | exact ⟨rfl, rfl, rfl, id⟩ | exact hop.elim

theorem Sweeping.call {op : Call} {next : Except String op.Reply → Proc Unit}
    (h : Sweeping paths w (.call op next))
    (hlisted : op = .listApps → ∀ pid launch, w.host.Runs pid launch →
      OnFile paths w.host pid launch → launch.app ∈ w.host.registry.app.keys) :
    Sweeping paths (perform paths crates env w op).1
      (next (.ok (perform paths crates env w op).2)) := by
  obtain ⟨hprocesses, -, hdisk⟩ := cleans_perform paths crates env w h.only.1
  have hentries := @cleans_entries paths crates env w op h.only.1
  have hran {pid : Pid} {launch : Launch}
      (hruns : (perform paths crates env w op).1.host.Runs pid launch) :
      w.host.Runs pid launch := by
    unfold Host.Runs at hruns ⊢
    rwa [← hprocesses]
  refine ⟨h.only.2.1 _, hentries.1.trans h.procs, hentries.2.1.trans h.taken,
    hentries.2.2.2 h.log, fun pid launch hruns => ?_, fun pid launch hruns honFile => ?_⟩
  · rw [hentries.2.2.1]
    exact h.other pid launch (hran hruns)
  · have hkept : ∀ name, op = .removePidfile name →
        resolve (paths.pidFile launch.app) ≠ resolve (paths.pidFile name) := by
      rintro name rfl hfile
      have hgone : (perform paths crates env w (.removePidfile name)).1.host.disk
          (resolve (paths.pidFile name)) = none := Disk.set_self _ _ _
      unfold OnFile at honFile
      rw [hfile, hgone] at honFile
      cases honFile
    unfold OnFile at honFile
    rw [hdisk _ hkept] at honFile
    have hremoves := h.removes pid launch (hran hruns) honFile
    refine hremoves.step ?_ ?_
    · rintro rfl
      exact hkept launch.app rfl rfl
    · cases op with
      | listApps =>
          exact name_mem_listApps.2 (hlisted rfl pid launch (hran hruns) honFile)
      | _ => trivial

theorem Sweeping.failCall {op : Call} {next : Except String op.Reply → Proc Unit}
    (h : Sweeping paths w (.call op next))
    (hnone : ∀ pid launch, w.host.Runs pid launch → ¬ OnFile paths w.host pid launch)
    (message : String) : Sweeping paths w (next (.error message)) :=
  { h with
    only := h.only.2.2 message
    removes := fun pid launch hruns honFile => absurd honFile (hnone pid launch hruns) }

/-- Once the cleanup is over, no pidfile names what runs. -/
theorem Sweeping.over {p : Proc Unit} (h : Sweeping paths w p) (hfin : p.finished = true) :
    Minded { world := w } ∧ World.Unfiled paths w := by
  constructor
  · refine Or.inl ⟨⟨by simp [Lawful], ?_, fun pid launch hruns => ?_, h.taken⟩, h.log, Or.inl rfl⟩
    · constructor <;> simp [h.procs, h.taken, World.disown]
    · obtain ⟨hran, hown⟩ := Host.runs_disown.1 hruns
      exact absurd hown (h.other pid launch hran)
  · intro pid launch hruns _ honFile
    have hwait := (h.removes pid launch hruns honFile).not_finished
    rw [hfin] at hwait
    cases hwait

namespace Serve

/-- What holds in each phase. -/
def Sound (paths : Paths) : Serve → Prop
  | .cleanup w p => Sweeping paths w p
  | .binding s => Minded s ∧ World.Unfiled paths s.world ∧ s.stopping = none
  | .listening s => Minded s ∧ World.Unfiled paths s.world
  | .returned w _ => LeavesNothing paths (.returned w .signal)

variable {v v' : Serve}

/-- Nothing stops the daemon before the listener is bound. -/
theorem stopping_of_background {a : Action} (hback : background a = true)
    (hstop : s.stopping = none) (hstep : Sys.Step paths crates s a s') : s'.stopping = none := by
  cases hstep with
  | beginStop => cases hback
  | stop env op next hp => cases hstop.symm.trans hp
  | _ => exact hstop

/-- An error leaves nothing behind if it finds nothing running. -/
theorem leavesNothing_of_error (hminded : Minded s) (hunfiled : World.Unfiled paths s.world)
    (hstop : s.stopping = none) (hidle : s.world.liveNames = []) (exit : Exit) :
    LeavesNothing paths (.returned s.world exit) := by
  intro pid launch hruns
  have hother : launch.daemon ≠ s.world.daemon := by
    intro hown
    have hlive := hminded.live hstop hruns hown
    rw [hidle] at hlive
    cases hlive
  exact ⟨hother, hunfiled pid launch hruns hother⟩

theorem Sound.step (h : v.Sound paths) {a : ServeAction} (hclean : v.Clean paths a)
    (hs : v.step paths crates a = some v') : v'.Sound paths := by
  cases v with
  | cleanup w p =>
      have hsweeping : Sweeping paths w p := h
      cases a with
      | act a =>
          obtain ⟨w', hw', rfl⟩ := Option.map_eq_some_iff.1 hs
          have hstep : Sys.Step paths crates { world := w } a { world := w' } :=
            step_of_outside hw'
          exact hsweeping.outside hw' hstep
      | call env =>
          obtain ⟨⟨w', p'⟩, hturn, rfl⟩ := Option.map_eq_some_iff.1 hs
          obtain ⟨op, next, rfl, -, rfl, rfl⟩ := Sys.turn_eq_some hturn
          exact hsweeping.call hclean
      | failCall message =>
          obtain ⟨p', hfail, rfl⟩ := Option.map_eq_some_iff.1 hs
          obtain ⟨op, next, rfl, -, rfl⟩ := Sys.failTurn_eq_some hfail
          exact hsweeping.failCall hclean message
      | spawnLoops =>
          simp only [Serve.step] at hs
          split at hs
          case isTrue hfin =>
            cases hs
            obtain ⟨hminded, hunfiled⟩ := hsweeping.over hfin
            exact ⟨hminded, hunfiled, rfl⟩
          case isFalse => cases hs
      | _ => cases hs
  | binding s =>
      obtain ⟨hminded, hunfiled, hstop⟩ := h
      cases a with
      | act a =>
          simp only [Serve.step] at hs
          split at hs
          case isTrue hback =>
            obtain ⟨s', hs', rfl⟩ := Option.map_eq_some_iff.1 hs
            have hstep := Sys.step_cases hs'
            exact ⟨hminded.step hstep hclean.1, unfiled_step hunfiled hminded hstep hclean.2,
              stopping_of_background hback hstop hstep⟩
          case isFalse => cases hs
      | bound =>
          cases hs
          exact ⟨hminded, hunfiled⟩
      | bindFails =>
          cases hs
          exact leavesNothing_of_error hminded hunfiled hstop hclean .bindError
      | _ => cases hs
  | listening s =>
      obtain ⟨hminded, hunfiled⟩ := h
      cases a with
      | act a =>
          obtain ⟨s', hs', rfl⟩ := Option.map_eq_some_iff.1 hs
          have hstep := Sys.step_cases hs'
          exact ⟨hminded.step hstep hclean.1, unfiled_step hunfiled hminded hstep hclean.2⟩
      | serverFails =>
          simp only [Serve.step] at hs
          split at hs
          case isTrue hnone =>
            cases hs
            exact leavesNothing_of_error hminded hunfiled (Option.isNone_iff_eq_none.1 hnone)
              hclean .serverError
          case isFalse => cases hs
      | stopped =>
          simp only [Serve.step] at hs
          split at hs
          case isTrue hfin =>
            cases hs
            obtain ⟨p, hp, hfin⟩ := (Option.any_eq_true _ _).1 hfin
            intro pid launch hruns
            have hother := hminded.idle hp hfin hruns
            exact ⟨hother, hunfiled pid launch hruns hother⟩
          case isFalse => cases hs
      | _ => cases hs
  | returned w exit => cases a <;> cases hs

end Serve

/-- In a run whose sections are orderly, whose cleanup lists the apps of what it finds, and
whose errors come while no instance runs, `serve` leaves nothing behind on any of its exits. -/
theorem serve_leaves_nothing {v : Serve}
    (h : ReachableWhen (Serve.step paths crates) Serve.Opening (Serve.Clean paths) v) :
    v.LeavesNothing paths := by
  have hsound : v.Sound paths := by
    refine h.invariant (I := Serve.Sound paths) ?_ fun v a v' ih hclean hs => ih.step hclean hs
    intro v hopening
    cases v with
    | cleanup w p =>
        obtain ⟨rfl, hprocs, htaken, hlog, hother⟩ := hopening
        exact .start hprocs htaken hlog hother
    | _ => exact hopening.elim
  cases v with
  | returned w exit => exact hsound
  | _ => trivial

section Runs

/-- An orderly run of the daemon is one of `serve` while it listens. -/
theorem listening_runWhen {as : List Action}
    (h : ReachableWhen (Serve.step paths crates) Serve.Opening (Serve.Clean paths) (.listening s))
    (hrun : runWhen (Sys.step paths crates) (Serve.Orderly paths) s as = some s') :
    ReachableWhen (Serve.step paths crates) Serve.Opening (Serve.Clean paths) (.listening s') := by
  induction as generalizing s with
  | nil =>
      cases hrun
      exact h
  | cons a as ih =>
      unfold runWhen at hrun
      split at hrun
      case isTrue hguard =>
        obtain ⟨t, hstep, hrest⟩ := Option.bind_eq_some_iff.1 hrun
        refine ih (.step h (a := .act a) hguard ?_) hrest
        exact congrArg (Option.map Serve.listening) hstep
      case isFalse => cases hrun

/-- A fresh daemon that has come to listen. -/
theorem listening_fresh : ReachableWhen (Serve.step paths crates) Serve.Opening
    (Serve.Clean paths) (.listening {}) := by
  have hstart : ReachableWhen (Serve.step paths crates) Serve.Opening (Serve.Clean paths)
      (.cleanup {} cleanupOrphans) := .start ⟨rfl, rfl, rfl, rfl, fun _ _ h => by cases h⟩
  have hlisted : (Serve.cleanup {} cleanupOrphans).Clean paths (.call {}) :=
    fun _ _ _ h => by cases h
  have hcleaned : ReachableWhen (Serve.step paths crates) Serve.Opening (Serve.Clean paths)
      (.cleanup {} (.pure ())) := .step hstart hlisted rfl
  have hbinding : ReachableWhen (Serve.step paths crates) Serve.Opening (Serve.Clean paths)
      (.binding {}) := .step (a := .spawnLoops) hcleaned trivial rfl
  exact .step (a := .bound) hbinding trivial rfl

/-- The instance outlives its grace period, and the daemon waits for its end. -/
theorem serve_leaves_nothing_killRun :
    ∃ s, runWhen (Sys.step (Paths.ofRoot "/r") (Crates.plainCrates [] []))
        (Serve.Orderly (Paths.ofRoot "/r")) {} killRun = some s ∧
      (Serve.listening s).step (Paths.ofRoot "/r") (Crates.plainCrates [] []) .stopped =
        some (.returned s.world .signal) ∧
      Serve.LeavesNothing (Paths.ofRoot "/r") (.returned s.world .signal) := by
  have hrun : (runWhen (Sys.step (Paths.ofRoot "/r") (Crates.plainCrates [] []))
      (Serve.Orderly (Paths.ofRoot "/r")) {} killRun).map
        (fun s => s.stopping.any (·.finished)) = some true := by
    decide
  obtain ⟨s, hs, hfin⟩ := Option.map_eq_some_iff.1 hrun
  have hstopped : (Serve.listening s).step (Paths.ofRoot "/r") (Crates.plainCrates [] [])
      .stopped = some (.returned s.world .signal) := if_pos hfin
  have hclean : (Serve.listening s).Clean (Paths.ofRoot "/r") .stopped := trivial
  have hlistening := listening_runWhen listening_fresh hs
  exact ⟨s, hs, hstopped, serve_leaves_nothing (.step hlistening hclean hstopped)⟩

/-- The host after a restart of the machine, with the next daemon. -/
def restarted (w : World) : World :=
  { host := { w.host with processes := fun _ => none, log := [] }, daemon := w.daemon + 1 }

theorem opening_restarted (w : World) : (Serve.cleanup (restarted w) cleanupOrphans).Opening :=
  ⟨rfl, rfl, rfl, rfl, fun _ _ h => by cases h⟩

/-- The cleanup finds a stale pidfile, and a pass starts the app again before the listener
turns out to be taken. -/
def takenPortRun : List ServeAction :=
  List.replicate 4 (.call {}) ++ [.spawnLoops, .act (.arrive .reconcileTick)] ++
    (calls 0 2).map .act ++ [.act (.run 0 (launches 2)), .bindFails]

/-- The process still runs when `serve` has returned, and whether this daemon started it. -/
def leftover (pid : Pid) : Serve → Option Bool
  | .returned w _ =>
    match w.host.processes pid with
    | some { launch := some launch, exit := none } => some (launch.daemon = w.daemon)
    | _ => none
  | _ => none

theorem returned_of_leftover {v : Serve} {pid : Pid} (h : leftover pid v = some true) :
    ∃ w exit launch, v = .returned w exit ∧ w.host.Runs pid launch ∧ launch.daemon = w.daemon := by
  unfold leftover at h
  split at h
  case h_1 w exit =>
    split at h
    case h_1 launch hp =>
      exact ⟨w, exit, launch, rfl, hp, of_decide_eq_true (Option.some.inj h)⟩
    case h_2 => cases h
  case h_2 => cases h

theorem leftovers_reachable :
    ¬ ∀ (paths : Paths) (crates : Crates) (v : Serve),
      Reachable (Serve.step paths crates) Serve.Opening v → v.LeavesNothing paths := by
  intro h
  have hrun : ((run (Sys.step (Paths.ofRoot "/r") (Crates.plainCrates [] [])) {}
      (deployRun 0 1)).bind fun s => (run (Serve.step (Paths.ofRoot "/r")
        (Crates.plainCrates [] [])) (.cleanup (restarted s.world) cleanupOrphans)
          takenPortRun).map (leftover 2)) = some (some true) := by
    decide
  obtain ⟨s, -, hserve⟩ := Option.bind_eq_some_iff.1 hrun
  obtain ⟨v, hv, hleft⟩ := Option.map_eq_some_iff.1 hserve
  obtain ⟨w, exit, launch, rfl, hruns, hown⟩ := returned_of_leftover hleft
  have hreach := ReachableWhen.runWhen (.start (opening_restarted s.world)) hv
  exact (h _ _ _ hreach 2 launch hruns).1 hown

end Runs

end Daemon

end Nockd
