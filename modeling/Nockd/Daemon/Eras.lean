import Nockd.Daemon.Crash

/-!
# Daemons that live one after another

A data root outlives its daemons. Between two of them only processes come and go; each daemon
opens the registry, cleans up after those before it, serves, and dies inside some step. As long
as each saves the pids of what it starts and finishes its cleanup, no app ever has instances of
two of them, however many there have been.
-/

namespace Nockd

/-- The host without the effects of a daemon that is no more. -/
def Supervisor.Host.forget (h : Supervisor.Host) : Supervisor.Host := { h with log := [] }

namespace Daemon

open Api Config Interleaving Registry Store Supervisor

inductive Era where
  /-- No daemon is alive. -/
  | idle (h : Host)
  /-- A daemon, with what is left of its cleanup. -/
  | boot (w : World) (p : Proc Unit)
  | serving (s : Sys)

inductive EraAction where
  | act (a : Action)
  /-- A daemon opens the registry, and may trust its own builder key. -/
  | opens (number : ℕ) (key : Option String) (now : ℤ)
  /-- The cleanup makes its next call. -/
  | call (env : Env)
  | failCall (message : String)
  | serve
  /-- The daemon dies inside a step, after this many effects. -/
  | crash (a : Action) (n : ℕ)
  /-- The daemon dies between two calls of its cleanup. -/
  | die

/-- What `Daemon::new` makes of the host once the lock is held. -/
def opened (h : Host) (key : Option String) (now : ℤ) : Host :=
  { h with
    registry := key.elim h.registry (h.registry.addTrustedBuilder now)
    log := [] }

/-- A pidfile is removed. -/
def isRemove : Effect → Bool
  | .remove _ => true
  | _ => false

namespace Era

variable (paths : Paths) (crates : Crates)

def step : Era → EraAction → Option Era
  | .idle h, .act a => (outside { host := h } a).map fun w => .idle w.host
  | .idle h, .opens number key now =>
    some (.boot { host := opened h key now, daemon := number } cleanupOrphans)
  | .boot w p, .act a => (outside w a).map fun w => .boot w p
  | .boot w p, .call env => (turn paths crates env w p).map fun next => .boot next.1 next.2
  | .boot w p, .failCall message => (failTurn message p).map fun p => .boot w p
  | .boot w p, .serve =>
    if p.finished then some (.serving { world := { host := w.host.forget, daemon := w.daemon } })
    else none
  | .boot w _, .die => some (.idle w.host.forget)
  | .serving s, .act a => (s.step paths crates a).map .serving
  | .serving s, .crash a n =>
    (s.step paths crates a).map fun s' =>
      .idle ((Lives.cut s s' n).foldl Host.apply s.world.host).forget
  | _, _ => none

/-- No daemon has started anything that runs. -/
def Fresh : Era → Prop
  | .idle h => ∀ pid launch, ¬ h.Runs pid launch
  | _ => False

def host : Era → Host
  | .idle h => h
  | .boot w _ => w.host
  | .serving s => s.world.host

/-- Every daemon saves the pids of what it starts, and does not die between a spawn and the
write of its pid; its cleanup makes all its calls, is not left with a process that outlives
its grace period, and is not cut off once it has removed a pidfile. -/
def survivable : Era → EraAction → Bool
  | .serving s, .act a => s.SavesPids paths a
  | .serving s, .crash a n => s.SavesPids paths a ∧
      (s.step paths crates a).all fun s' => (Lives.cut s s' n).getLast?.all fun e => !isSpawn e
  | .boot w (.call op _), .call env => Lives.sweeps paths env w op
  | .boot _ _, .failCall _ => false
  | .boot w p, .die => p.finished || !w.host.log.any isRemove
  | _, _ => true

end Era

variable {paths : Paths} {crates : Crates} {env : Env} {w : World} {h h' : Host} {d : ℕ}

/-! ## What is on record between the daemons -/

theorem Recorded.forget (hr : Recorded paths d h) : Recorded paths d h.forget :=
  hr.of_same (fun _ _ => id) (fun _ => id) fun _ _ _ => rfl

theorem keys_opened (h : Host) (key : Option String) (now : ℤ) :
    (opened h key now).registry.app = h.registry.app := by
  unfold opened
  cases key with
  | none => rfl
  | some pubkey =>
      simp only [Option.elim_some, Registry.addTrustedBuilder]
      split <;> rfl

theorem Recorded.opened (hr : Recorded paths d h) (key : Option String) (now : ℤ) :
    Recorded paths d (opened h key now) :=
  hr.of_same (fun _ _ => id) (fun name hname => by rwa [keys_opened]) fun _ _ _ => rfl

/-- Processes that come and go are of no daemon. -/
theorem outside_setProcess {a : Action} {w' : World} (h : outside w a = some w') :
    World.ProcessesKept w w' ∧ ∃ pid p, w' = w.setProcess pid p := by
  have hstep : Sys.Step (Paths.ofRoot "/") (Crates.plainCrates [] []) { world := w } a
      { world := w' } := step_of_outside h
  cases hstep with
  | exit pid status launch hp => exact ⟨World.processesKept_exit hp, _, _, rfl⟩
  | collect pid hexit htaken hchild =>
      exact ⟨World.processesKept_collect htaken hchild, _, _, rfl⟩
  | foreign pid hfree => exact ⟨World.processesKept_foreign hfree, _, _, rfl⟩
  | _ => cases h

theorem Recorded.outside (hr : Recorded paths d w.host) {a : Action} {w' : World}
    (h : Daemon.outside w a = some w') : Recorded paths d w'.host := by
  obtain ⟨hprocesses, pid, p, rfl⟩ := outside_setProcess h
  exact hr.of_same hprocesses.ran (fun _ hname => hname) fun _ _ _ => rfl

/-- Until the cleanup removes a pidfile, everything stays on record. -/
theorem Recorded.call {op : Call} (hr : Recorded paths d w.host) (hop : Cleans op)
    (hlog : (perform paths crates env w op).1.host.log.any isRemove = false) :
    Recorded paths d (perform paths crates env w op).1.host := by
  obtain ⟨hprocesses, hregistry, hdisk⟩ := cleans_perform paths crates env w hop
  refine hr.of_same (fun pid launch hruns => ?_) (fun name hname => by rwa [hregistry])
    fun pid launch hruns => hdisk _ fun name heq => ?_
  · unfold Host.Runs at hruns ⊢
    rwa [← hprocesses]
  · subst heq
    simp [perform, World.emit, Host.apply, isRemove] at hlog

theorem log_any_of_call {op : Call} (hop : Cleans op)
    (hlog : (perform paths crates env w op).1.host.log.any isRemove = false) :
    w.host.log.any isRemove = false := by
  cases op with
  | removePidfile name => simp [perform, World.emit, Host.apply, isRemove] at hlog
  | signal pid sig => simpa [perform, World.emit, Host.apply, isRemove] using hlog
  | _ => first | exact hlog | exact hop.elim

/-! ## All lives -/

/-- What holds of the host in each phase. -/
def Era.Sound (paths : Paths) : Era → Prop
  | .idle h => ∃ d, Recorded paths d h
  | .boot w p => Cleaning paths w p ∧
      (w.host.log.any isRemove = false → ∃ d, Recorded paths d w.host)
  | .serving s => Remembered paths s

variable {e e' : Era}

theorem Era.Sound.of_fresh (h : e.Fresh) : e.Sound paths := by
  cases e with
  | idle h₀ => exact ⟨0, .of_idle h⟩
  | boot w p => exact h.elim
  | serving s => exact h.elim

theorem Era.Sound.oneDaemon (h : e.Sound paths) {pid pid' : Pid} {launch launch' : Launch}
    (hruns : e.host.Runs pid launch) (hruns' : e.host.Runs pid' launch') :
    launch.daemon = launch'.daemon := by
  cases e with
  | idle h₀ =>
      obtain ⟨d, hr⟩ := h
      exact (hr pid launch hruns).1.trans (hr pid' launch' hruns').1.symm
  | boot w p =>
      obtain ⟨d, hd⟩ := h.1.daemon
      exact (hd pid launch hruns).trans (hd pid' launch' hruns').symm
  | serving s =>
      exact (h.recorded pid launch hruns).1.trans (h.recorded pid' launch' hruns').1.symm

theorem Era.Sound.step (h : e.Sound paths) {a : EraAction}
    (hguard : e.survivable paths crates a = true) (hs : e.step paths crates a = some e') :
    e'.Sound paths := by
  cases e with
  | idle h₀ =>
      obtain ⟨d, hr⟩ := h
      cases a with
      | act a =>
          obtain ⟨w, hw, rfl⟩ := Option.map_eq_some_iff.1 hs
          exact ⟨d, Recorded.outside (w := { host := h₀ }) hr hw⟩
      | opens number key now =>
          cases hs
          exact ⟨Cleaning.of_recorded (hr.opened key now) number, fun _ => ⟨d, hr.opened key now⟩⟩
      | _ => cases hs
  | boot w p =>
      obtain ⟨hcleaning, hrecorded⟩ := h
      cases a with
      | act a =>
          obtain ⟨w', hw', rfl⟩ := Option.map_eq_some_iff.1 hs
          have hstep : Sys.Step paths crates { world := w } a { world := w' } :=
            step_of_outside hw'
          refine ⟨hcleaning.outside hw' hstep, fun hlog => ?_⟩
          obtain ⟨-, pid, q, rfl⟩ := outside_setProcess hw'
          obtain ⟨d, hr⟩ := hrecorded hlog
          exact ⟨d, hr.outside hw'⟩
      | call env =>
          obtain ⟨⟨w', p'⟩, hturn, rfl⟩ := Option.map_eq_some_iff.1 hs
          obtain ⟨op, next, rfl, -, rfl, rfl⟩ := Sys.turn_eq_some hturn
          refine ⟨hcleaning.call hguard, fun hlog => ?_⟩
          obtain ⟨d, hr⟩ := hrecorded (log_any_of_call hcleaning.only.1 hlog)
          exact ⟨d, hr.call hcleaning.only.1 hlog⟩
      | failCall message => cases p <;> cases hguard
      | serve =>
          simp only [Era.step] at hs
          split at hs
          case isTrue hfin =>
            cases hs
            exact Remembered.of_fresh ⟨rfl, rfl, rfl, rfl, rfl, rfl, hcleaning.idle hfin⟩
          case isFalse => cases hs
      | die =>
          cases hs
          have hlast : (p.finished || !w.host.log.any isRemove) = true := by
            cases p <;> exact hguard
          rcases Bool.or_eq_true_iff.1 hlast with hfin | hlog
          · exact ⟨0, .of_idle (hcleaning.idle hfin)⟩
          · obtain ⟨d, hr⟩ := hrecorded (by simpa using hlog)
            exact ⟨d, hr.forget⟩
      | _ => cases hs
  | serving s =>
      cases a with
      | act a =>
          obtain ⟨s', hs', rfl⟩ := Option.map_eq_some_iff.1 hs
          exact (h.step (Sys.step_cases hs') (of_decide_eq_true hguard)).1
      | crash a n =>
          obtain ⟨s', hs', rfl⟩ := Option.map_eq_some_iff.1 hs
          obtain ⟨hsaves, hcut⟩ := of_decide_eq_true (p := _ ∧ _) hguard
          rw [hs'] at hcut
          exact ⟨_, ((h.step (Sys.step_cases hs') hsaves).2.cut n hcut).forget⟩
      | _ => cases hs

end Daemon

end Nockd
