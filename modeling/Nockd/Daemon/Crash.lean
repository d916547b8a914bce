import Nockd.Api.Cleanup
import Nockd.Daemon.Records

/-!
# A crash and the daemon after it

The first daemon dies inside any step, after any number of its effects. The second one
finds the host as it was left, cleans up after the first, and then serves. If all that runs
was on record when the first daemon died, and has exited by the time the cleanup
is over, no app ever has instances of both daemons.
-/

namespace Nockd

namespace Daemon

open Api Config Interleaving Registry Store Supervisor

/-- A host over the lives of two daemons. -/
inductive Lives where
  | first (s : Sys)
  /-- The second daemon, with what is left of its cleanup. -/
  | boot (w : World) (p : Proc Unit)
  | second (s : Sys)

inductive LivesAction where
  | act (a : Action)
  /-- The daemon dies inside a step, after this many effects. -/
  | crash (a : Action) (n : ℕ)
  /-- The cleanup makes its next call. -/
  | call (env : Env)
  | failCall (message : String)
  | serve

/-- What nobody but the processes decides. -/
def outside (w : World) : Action → Option World
  | .exit pid status => w.exits pid status
  | .collect pid => w.collects pid
  | .foreign pid => w.appears pid
  | _ => none

namespace Lives

variable (paths : Paths) (crates : Crates)

/-- The first effects of a step. -/
def cut (s s' : Sys) (n : ℕ) : List Effect :=
  (s'.world.host.log.drop s.world.host.log.length).take n

/-- The world the next daemon starts in. -/
def left (w : World) (done : List Effect) : World :=
  { host := { done.foldl Host.apply w.host with log := [] }, daemon := w.daemon + 1 }

def step : Lives → LivesAction → Option Lives
  | .first s, .act a => (s.step paths crates a).map .first
  | .first s, .crash a n =>
    (s.step paths crates a).map fun s' => .boot (left s.world (cut s s' n)) cleanupOrphans
  | .boot w p, .act a => (outside w a).map fun w => .boot w p
  | .boot w p, .call env => (turn paths crates env w p).map fun next => .boot next.1 next.2
  | .boot w p, .failCall message => (failTurn message p).map fun p => .boot w p
  | .boot w p, .serve => if p.finished then some (.second { world := w }) else none
  | .second s, .act a => (s.step paths crates a).map .second
  | _, _ => none

/-- The first daemon has just started. -/
def Fresh : Lives → Prop
  | .first s => s.Fresh
  | _ => False

def world : Lives → World
  | .first s => s.world
  | .boot w _ => w
  | .second s => s.world

/-- A call of the cleanup that can read its pidfile, removes no other app's
pidfile and kills nothing that still runs. -/
def sweeps (env : Env) (w : World) : Call → Bool
  | .readPidfile _ => !env.queryErr
  | .removePidfile name => OwnPidfile paths w.host name
  | .signal pid .kill => (runningApp w pid).isNone
  | _ => true

/-- The first daemon saves the pids of what it starts, and does not die between a
spawn and the write of its pid; the cleanup makes all its calls, and is not left
with a process that outlives its grace period. -/
def survivable : Lives → LivesAction → Bool
  | .first s, .act a => s.SavesPids paths a
  | .first s, .crash a n => s.SavesPids paths a ∧
      (s.step paths crates a).all fun s' => (cut s s' n).getLast?.all fun e => !isSpawn e
  | .boot w (.call op _), .call env => sweeps paths env w op
  | .boot _ _, .failCall _ => false
  | _, _ => true

end Lives

variable {paths : Paths} {crates : Crates} {env : Env} {w : World} {s s' : Sys}

/-! ## The cleanup -/

/-- The cleanup is yet to find, or to see the end of, every instance that runs. -/
structure Cleaning (paths : Paths) (w : World) (p : Proc Unit) : Prop where
  only : p.Only Cleans
  daemon : ∃ d, ∀ pid launch, w.host.Runs pid launch → launch.daemon = d
  known : ∀ pid launch, w.host.Runs pid launch → Known w.host pid launch
  orphans : ∀ pid launch, w.host.Runs pid launch →
    OnFile paths w.host pid launch ∧ Reads launch.app pid p ∨ Checks launch.app pid p

theorem Cleaning.of_recorded {d : ℕ} {h : Host} (hr : Recorded paths d h) (daemon : ℕ) :
    Cleaning paths { host := { h with log := [] }, daemon } cleanupOrphans where
  only := cleanupOrphans_only
  daemon := ⟨d, fun pid launch hruns => (hr pid launch hruns).1⟩
  known := fun pid launch hruns =>
    let hknown := (hr pid launch hruns).2.1
    ⟨hknown.pos, hknown.lt, hknown.registered⟩
  orphans := fun pid launch hruns => Or.inl ⟨(hr pid launch hruns).2.2, cleanupOrphans_reads⟩

/-- A process ends or comes from the outside. -/
theorem Cleaning.setProcess {p : Proc Unit} (h : Cleaning paths w p) {pid : Pid}
    {q : Option Process} (hprocesses : World.ProcessesKept w (w.setProcess pid q)) :
    Cleaning paths (w.setProcess pid q) p where
  only := h.only
  daemon := h.daemon.imp fun _ hd pid launch hruns =>
    hd pid launch (hprocesses.ran pid launch hruns)
  known := fun pid launch hruns =>
    (h.known pid launch (hprocesses.ran pid launch hruns)).mono fun _ => id
  orphans := fun pid launch hruns => h.orphans pid launch (hprocesses.ran pid launch hruns)

/-- What a running instance makes the calls of the cleanup answer. -/
theorem seen_perform (crates : Crates) (env : Env) (op : Call) {pid : Pid} {launch : Launch}
    (hruns : w.host.Runs pid launch) (hknown : Known w.host pid launch) :
    Seen launch.app pid op (perform paths crates env w op).2 := by
  cases op with
  | listApps => exact name_mem_listApps.2 hknown.registered
  | pidAlive q =>
      rintro rfl
      unfold Host.Runs at hruns
      simp only [perform, World.pidAlive, hruns]
      exact if_pos ⟨hknown.pos, hknown.lt⟩
  | _ => trivial

/-- The calls of the cleanup start and collect nothing, keep the tables, and touch
no file but the pidfile they remove. -/
theorem cleans_perform (paths : Paths) (crates : Crates) (env : Env) (w : World) {op : Call}
    (hop : Cleans op) :
    (perform paths crates env w op).1.host.processes = w.host.processes ∧
      (perform paths crates env w op).1.host.registry = w.host.registry ∧
      ∀ file, (∀ name, op = .removePidfile name → file ≠ resolve (paths.pidFile name)) →
        (perform paths crates env w op).1.host.disk file = w.host.disk file := by
  cases op with
  | removePidfile name => exact ⟨rfl, rfl, fun file h => Disk.set_of_ne _ _ (h name rfl)⟩
  | _ => first | exact ⟨rfl, rfl, fun _ _ => rfl⟩ | exact hop.elim

/-- A pidfile on record is read, and its pid will be checked. -/
theorem checks_of_finds {op : Call} {next : Except String op.Reply → Proc Unit} {pid : Pid}
    {launch : Launch} (hfinds : Finds launch.app pid op next)
    (hsweeps : Lives.sweeps paths env w op = true) (honFile : OnFile paths w.host pid launch) :
    Checks launch.app pid (next (.ok (perform paths crates env w op).2)) := by
  cases op with
  | readPidfile name =>
      obtain ⟨rfl, hchecks⟩ := hfinds
      obtain ⟨text, htext, hpid⟩ := Option.bind_eq_some_iff.1 honFile
      have hread : (perform paths crates env w (.readPidfile launch.app)).2 = some text := by
        simp only [Lives.sweeps, Bool.not_eq_true'] at hsweeps
        simp only [perform, hsweeps, Bool.false_eq_true, if_false]
        exact htext
      rw [hread]
      exact hchecks text hpid
  | _ => exact hfinds.elim

/-- A call of the cleanup keeps sight of what still runs. -/
theorem Cleaning.call {op : Call} {next : Except String op.Reply → Proc Unit}
    (h : Cleaning paths w (.call op next)) (hsweeps : Lives.sweeps paths env w op = true) :
    Cleaning paths (perform paths crates env w op).1
      (next (.ok (perform paths crates env w op).2)) := by
  obtain ⟨hprocesses, hregistry, hdisk⟩ := cleans_perform paths crates env w h.only.1
  have hran {pid : Pid} {launch : Launch}
      (hruns : (perform paths crates env w op).1.host.Runs pid launch) :
      w.host.Runs pid launch := by
    unfold Host.Runs at hruns ⊢
    rwa [← hprocesses]
  refine ⟨h.only.2.1 _, h.daemon.imp fun _ hd pid launch hruns => hd pid launch (hran hruns),
    fun pid launch hruns => ?_, fun pid launch hruns => ?_⟩
  · refine (h.known pid launch (hran hruns)).mono fun name hname => ?_
    rwa [hregistry]
  have hknown := h.known pid launch (hran hruns)
  have hseen : Seen launch.app pid op (perform paths crates env w op).2 :=
    seen_perform crates env op (hran hruns) hknown
  rcases h.orphans pid launch (hran hruns) with ⟨honFile, hreads⟩ | hchecks
  · by_cases hfinds : Finds launch.app pid op next
    · exact Or.inr (checks_of_finds hfinds hsweeps honFile)
    · obtain ⟨hsafe, hrest⟩ := hreads.resolve_left hfinds
      refine Or.inl ⟨?_, hrest _ hseen⟩
      unfold OnFile
      rw [hdisk]
      · exact honFile
      · rintro name rfl hfile
        have hown := of_decide_eq_true (p := OwnPidfile paths w.host name) hsweeps
        rw [hown launch.app hknown.registered hfile] at hsafe
        exact hsafe rfl
  · refine Or.inr (hchecks.step ?_ hseen)
    rintro rfl
    simp [Lives.sweeps, runningApp_of_runs (hran hruns)] at hsweeps

/-- Once the cleanup is over, nothing of the first daemon runs. -/
theorem Cleaning.idle {p : Proc Unit} (h : Cleaning paths w p) (hfin : p.finished = true) :
    ∀ pid launch, ¬ w.host.Runs pid launch := by
  intro pid launch hruns
  have hwait : p.finished = false :=
    (h.orphans pid launch hruns).elim (·.2.not_finished) (·.not_finished)
  rw [hfin] at hwait
  cases hwait

/-! ## The second daemon -/

/-- Every running instance was started by this daemon. -/
def Own (w : World) : Prop := ∀ pid launch, w.host.Runs pid launch → launch.daemon = w.daemon

/-- Only sections start instances. -/
theorem runs_of_perform {op : Call} (hsection : ∀ apps, op ≠ .lockedSection apps) {pid : Pid}
    {launch : Launch} (hruns : (perform paths crates env w op).1.host.Runs pid launch) :
    w.host.Runs pid launch := by
  cases op with
  | lockedSection apps => exact absurd rfl (hsection apps)
  | requestRestart name =>
      have hframe : Frame w (w.requestRestart env name) := frame_requestRestart name
      unfold Host.Runs at hruns ⊢
      rwa [← hframe.processes]
  | waitExit q => exact runs_of_apply rfl hruns
  | waitTimeout q =>
      simp only [perform, World.waitTimeout] at hruns
      split at hruns
      · exact runs_of_apply rfl hruns
      · exact hruns
  | removePidfiles =>
      have hstops : Stops .removePidfiles := Or.inl trivial
      obtain ⟨added, hhost, heffects⟩ := stops_effects paths crates env w hstops
      rw [hhost] at hruns
      refine Host.foldl_apply_keep (P := fun h => h.Runs pid launch → w.host.Runs pid launch)
        (fun _ e he hkeep hruns => hkeep (runs_of_apply ?_ hruns)) id heffects hruns
      cases e <;> trivial
  | _ => exact hruns

theorem Own.section (h : Own w) (apps : List AppRow) :
    Own (w.lockedSection paths env apps) := by
  refine (World.lockedSection_moves w apps).keep (P := Own) (fun w₁ w₂ hmove hw₁ => ?_) h
  intro pid launch hruns
  rw [hmove.daemon]
  rcases hmove.runs hruns with hran | ⟨hstarted, -⟩
  · exact hw₁ pid launch hran
  · exact hstarted

theorem Own.perform (h : Own w) (op : Call) : Own (perform paths crates env w op).1 := by
  rcases op.section_cases with ⟨apps, rfl⟩ | hsection
  · exact h.section apps
  · intro pid launch hruns
    rw [perform_daemon]
    exact h pid launch (runs_of_perform hsection hruns)

theorem Own.step {a : Action} (h : Own s.world) (hstep : Sys.Step paths crates s a s') :
    Own s'.world := by
  cases hstep with
  | run i env op next ht hopen => exact h.perform op
  | stop env op next hp hopen => exact h.perform op
  | exit pid status launch hp =>
      exact fun q l hruns => h q l ((World.processesKept_exit hp).ran q l hruns)
  | collect pid hexit htaken hchild =>
      exact fun q l hruns => h q l ((World.processesKept_collect htaken hchild).ran q l hruns)
  | foreign pid hfree =>
      exact fun q l hruns => h q l ((World.processesKept_foreign hfree).ran q l hruns)
  | _ => exact h

/-! ## Both lives -/

/-- Running instances of one app are of one daemon. -/
def OneDaemon (w : World) : Prop :=
  ∀ pid pid' launch launch', w.host.Runs pid launch → w.host.Runs pid' launch' →
    launch.app = launch'.app → launch.daemon = launch'.daemon

/-- What holds of the host in each phase. -/
def Lives.Sound (paths : Paths) : Lives → Prop
  | .first s => Remembered paths s
  | .boot w p => Cleaning paths w p
  | .second s => Own s.world

variable {l l' : Lives}

theorem Lives.Sound.oneDaemon (h : l.Sound paths) : OneDaemon l.world := by
  intro pid pid' launch launch' hruns hruns' _
  cases l with
  | first s => exact (h.recorded pid launch hruns).1.trans (h.recorded pid' launch' hruns').1.symm
  | boot w p =>
      obtain ⟨d, hd⟩ := h.daemon
      exact (hd pid launch hruns).trans (hd pid' launch' hruns').symm
  | second s => exact (h pid launch hruns).trans (h pid' launch' hruns').symm

theorem step_of_outside {a : Action} {w' : World} (h : outside w a = some w') :
    Sys.Step paths crates { world := w } a { world := w' } := by
  refine Sys.step_cases ?_
  cases a with
  | exit pid status => exact congrArg (Option.map fun world => ({ world } : Sys)) h
  | collect pid => exact congrArg (Option.map fun world => ({ world } : Sys)) h
  | foreign pid => exact congrArg (Option.map fun world => ({ world } : Sys)) h
  | _ => cases h

/-- The steps of the outside while the second daemon cleans up. -/
theorem Cleaning.outside {p : Proc Unit} (h : Cleaning paths w p) {a : Action} {w' : World}
    (hw' : outside w a = some w') (hstep : Sys.Step paths crates { world := w } a { world := w' }) :
    Cleaning paths w' p := by
  cases hstep with
  | exit pid status launch hp => exact h.setProcess (World.processesKept_exit hp)
  | collect pid hexit htaken hchild =>
      exact h.setProcess (World.processesKept_collect htaken hchild)
  | foreign pid hfree => exact h.setProcess (World.processesKept_foreign hfree)
  | _ => cases hw'

theorem Lives.Sound.step (h : l.Sound paths) {a : LivesAction}
    (hguard : l.survivable paths crates a = true) (hs : l.step paths crates a = some l') :
    l'.Sound paths := by
  cases l with
  | first s =>
      cases a with
      | act a =>
          obtain ⟨s', hs', rfl⟩ := Option.map_eq_some_iff.1 hs
          exact (h.step (Sys.step_cases hs') (of_decide_eq_true hguard)).1
      | crash a n =>
          obtain ⟨s', hs', rfl⟩ := Option.map_eq_some_iff.1 hs
          obtain ⟨hsaves, hcut⟩ := of_decide_eq_true (p := _ ∧ _) hguard
          have hkeeps := (h.step (Sys.step_cases hs') hsaves).2
          rw [hs'] at hcut
          exact Cleaning.of_recorded (hkeeps.cut n hcut) _
      | _ => cases hs
  | boot w p =>
      cases a with
      | act a =>
          obtain ⟨w', hw', rfl⟩ := Option.map_eq_some_iff.1 hs
          have hstep : Sys.Step paths crates { world := w } a { world := w' } :=
            step_of_outside hw'
          exact h.outside hw' hstep
      | call env =>
          obtain ⟨⟨w', p'⟩, hturn, rfl⟩ := Option.map_eq_some_iff.1 hs
          obtain ⟨op, next, rfl, -, rfl, rfl⟩ := Sys.turn_eq_some hturn
          exact h.call hguard
      | failCall message => cases p <;> cases hguard
      | serve =>
          simp only [Lives.step] at hs
          split at hs
          case isTrue hfin =>
            cases hs
            exact fun pid launch hruns => absurd hruns (h.idle hfin pid launch)
          case isFalse => cases hs
      | crash a n => cases hs
  | second s =>
      cases a with
      | act a =>
          obtain ⟨s', hs', rfl⟩ := Option.map_eq_some_iff.1 hs
          exact Own.step h (Sys.step_cases hs')
      | _ => cases hs

/-- If what the first daemon started was on record when it died, and all of it
has exited when the cleanup is over, no app ever has instances of both daemons. -/
theorem one_daemon_runs (h : ReachableWhen (Lives.step paths crates) Lives.Fresh
      (fun l a => l.survivable paths crates a = true) l) : OneDaemon l.world := by
  have hsound : l.Sound paths := by
    refine h.invariant (I := Lives.Sound paths) (fun l hfresh => ?_)
      fun l a l' ih hguard hs => ih.step hguard hs
    cases l with
    | first s => exact Remembered.of_fresh hfresh
    | boot w p => exact hfresh.elim
    | second s => exact hfresh.elim
  exact hsound.oneDaemon

section Runs

theorem fresh_first : Lives.Fresh (.first {}) := fresh_default

def acts (as : List Action) : List LivesAction := as.map .act

/-- The cleanup makes its next `n` calls. -/
def sweepCalls (n : ℕ) : List LivesAction := List.replicate n (.call {})

/-- The second daemon starts what its first pass finds due. -/
def restartRun (pid : Pid) : List LivesAction :=
  [.serve] ++ acts ([.arrive .reconcileTick] ++ calls 0 2 ++ [.run 0 (launches pid)])

/-- The instance is asked to exit, exits and is collected by the host. -/
def recoverRun : List LivesAction :=
  acts (deployRun 0 1) ++ [.crash (.arrive .reconcileTick) 0] ++ sweepCalls 5 ++
    [.act (.exit 1 (.signal 15))] ++ sweepCalls 2 ++ [.act (.collect 1)] ++ sweepCalls 2 ++
    restartRun 2

theorem one_daemon_runs_recoverRun :
    ∃ l, runWhen (Lives.step (Paths.ofRoot "/r") (Crates.plainCrates [] []))
        (fun l a => l.survivable (Paths.ofRoot "/r") (Crates.plainCrates [] []) a = true)
        (.first {}) recoverRun = some l ∧ runningApp l.world 2 = some "a" ∧
      OneDaemon l.world := by
  have hrun : (runWhen (Lives.step (Paths.ofRoot "/r") (Crates.plainCrates [] []))
      (fun l a => l.survivable (Paths.ofRoot "/r") (Crates.plainCrates [] []) a = true)
      (.first {}) recoverRun).map (fun l => runningApp l.world 2) = some (some "a") := by
    decide
  obtain ⟨l, hl, happ⟩ := Option.map_eq_some_iff.1 hrun
  exact ⟨l, hl, happ, one_daemon_runs (ReachableWhen.runWhen (.start fresh_first) hl)⟩

/-- The first daemon dies between the spawn and the write of the pidfile. -/
def orphanRun : List LivesAction :=
  acts ([.arrive deployA] ++ calls 0 10) ++ [.crash (.run 0 (launches 1)) 4] ++
    sweepCalls 3 ++ restartRun 2

/-- The daemon that started a running process. -/
def runningDaemon (w : World) (pid : Pid) : Option (String × ℕ) :=
  match w.host.processes pid with
  | some { launch := some launch, exit := none } => some (launch.app, launch.daemon)
  | _ => none

theorem runs_of_runningDaemon {pid : Pid} {app : String} {d : ℕ}
    (h : runningDaemon w pid = some (app, d)) :
    ∃ launch, w.host.Runs pid launch ∧ launch.app = app ∧ launch.daemon = d := by
  unfold runningDaemon at h
  split at h
  case h_1 launch hp =>
    cases h
    exact ⟨launch, hp, rfl, rfl⟩
  case h_2 => cases h

theorem two_daemons_reachable :
    ¬ ∀ (paths : Paths) (crates : Crates) (l : Lives),
      Reachable (Lives.step paths crates) Lives.Fresh l → OneDaemon l.world := by
  intro h
  have hrun : (run (Lives.step (Paths.ofRoot "/r") (Crates.plainCrates [] [])) (.first {})
      orphanRun).map (fun l => (runningDaemon l.world 1, runningDaemon l.world 2)) =
        some (some ("a", 0), some ("a", 1)) := by
    decide
  obtain ⟨l, hl, hval⟩ := Option.map_eq_some_iff.1 hrun
  obtain ⟨hfirst, hsecond⟩ := Prod.mk.inj hval
  obtain ⟨launch, hruns, happ, hdaemon⟩ := runs_of_runningDaemon hfirst
  obtain ⟨launch', hruns', happ', hdaemon'⟩ := runs_of_runningDaemon hsecond
  have hone := h _ _ l (ReachableWhen.runWhen (.start fresh_first) hl) 1 2 launch launch'
    hruns hruns' (happ.trans happ'.symm)
  rw [hdaemon, hdaemon'] at hone
  cases hone

end Runs

end Daemon

end Nockd
