import Nockd.Daemon.SingleWriter
import Nockd.Supervisor.Signals

/-!
# Whom the supervisor signals

While `stop_all` has not begun, the pid of an entry is its unreaped child's, so a restart
request or a round of a section signals an instance of its own app or nothing. SIGKILL comes
a grace period after SIGTERM, or because the snapshot does not name the app. That is the
same as not being registered, unless the snapshot is older than the app's first deploy: then
an app that has just started is killed.
-/

namespace Nockd

namespace Daemon

open Api Config Interleaving Registry Store Supervisor

/-- A daemon that has just started, whatever runs on its host. -/
structure Sys.Started (s : Sys) : Prop where
  procs : s.world.procs = ∅
  taken : s.world.taken = []
  shuttingDown : s.world.shuttingDown = false
  log : s.world.host.log = []
  threads : s.threads = []
  stopping : s.stopping = none

theorem Sys.Fresh.started {s : Sys} (h : s.Fresh) : s.Started :=
  ⟨h.procs, h.taken, h.shuttingDown, h.log, h.threads, h.stopping⟩

/-- The entries are kept up, and the threads are lawful. -/
structure Supervised (s : Sys) : Prop where
  lawful : Lawful Call.uses Call.learns PlainFact s.threads
  upkeep : s.world.Upkeep

variable {paths : Paths} {crates : Crates} {s s' : Sys} {env : Env} {apps : List AppRow}
  {w : World}

theorem Supervised.of_started (h : s.Started) : Supervised s where
  lawful := by simp [Lawful, h.threads]
  upkeep := by
    have hnone (name : String) : s.world.procs.lookup name = none := by simp [h.procs]
    constructor
    · constructor <;> simp [hnone, h.taken]
    · exact fun name m hm => by simp [hnone] at hm
    · rintro name pid ⟨m, hm, -⟩
      simp [hnone] at hm
    · exact fun name m pid d hm => by simp [hnone] at hm

theorem Supervised.step {a : Action} (h : Supervised s) (hstep : Sys.Step paths crates s a s')
    (hstop : ∀ env, a ≠ .stop env) : Supervised s' := by
  have hset {pid q : Pid} {p : Option Process} {name : String} (hq : q ≠ pid)
      (hchild : s.world.host.ChildOf s.world.daemon name q) :
      (s.world.setProcess pid p).host.ChildOf s.world.daemon name q :=
    hchild.congr (Function.update_of_ne hq _ _)
  cases hstep with
  | arrive r => exact ⟨h.lawful.append (plain_facts r) (handler_obeys r), h.upkeep⟩
  | run i env op next ht hopen =>
      exact ⟨lawful_run h.lawful ht, perform_upkeep (lawful_main h.lawful ht) h.upkeep⟩
  | fail i message op next ht hfallible => exact ⟨h.lawful.set_error ht, h.upkeep⟩
  | exit pid status launch hp =>
      refine ⟨h.lawful, h.upkeep.of_processes rfl rfl rfl rfl (World.processesKept_exit hp)
        fun name q _ hchild => ?_⟩
      by_cases hq : q = pid
      · subst hq
        obtain ⟨launch', exit, hp', hown⟩ := hchild
        rw [hp] at hp'
        cases hp'
        exact ⟨launch', some status, Function.update_self _ _ _, hown⟩
      · exact hset hq hchild
  | collect pid hexit htaken hchild =>
      refine ⟨h.lawful, h.upkeep.of_processes rfl rfl rfl rfl
        (World.processesKept_collect htaken hchild) fun name q hby => hset ?_⟩
      rintro rfl
      exact hchild name hby
  | foreign pid hfree =>
      refine ⟨h.lawful, h.upkeep.of_processes rfl rfl rfl rfl
        (World.processesKept_foreign hfree) fun name q hby => hset ?_⟩
      obtain ⟨m, hm, hc⟩ := hby
      exact (h.upkeep.held.started name m q hm hc).ne_free hfree.2.2
  | beginStop hnone => exact ⟨h.lawful, h.upkeep⟩
  | stop env op next hp hopen => exact absurd rfl (hstop env)

theorem supervised_reachable {guard : Sys → Action → Prop}
    (h : ReachableWhen (Sys.step paths crates) Sys.Started guard s)
    (hstop : s.stopping = none) : Supervised s := by
  have hinv : s.stopping = none → Supervised s := by
    refine h.invariant (I := fun s => s.stopping = none → Supervised s) ?_ ?_
    · exact fun s hstarted _ => Supervised.of_started hstarted
    · intro s a s' ih _ hs hnone
      have hstep := Sys.step_cases hs
      obtain ⟨hbefore, hstop⟩ := hstep.of_not_stopping hnone
      exact (ih hbefore).step hstep hstop
  exact hinv hstop

/-! ## Signals reach the app's own process -/

/-- An effect that signals no process but an instance of the app that the daemon
started and has not reaped. -/
def SignalsOwn (daemon : ℕ) (name : String) (h : Host) : Effect → Prop
  | .signal _ pid _ => h.ChildOf daemon name pid
  | _ => True

/-- The process that a round signals is the child of its app's entry. -/
theorem sends_heldBy (h : w.Upkeep) {r : Round} {pid : Pid} {sig : Signal}
    (hsends : World.Sends env apps w r pid sig) : w.HeldBy pid r.app := by
  have hheld {name : String} {m : Managed} (hm : w.procs.lookup name = some m)
      (hpid : m.pid = some pid) : w.HeldBy pid name :=
    ⟨m, hm, (h.coherent name m hm).pid.symm.trans hpid⟩
  cases r with
  | reap name =>
      obtain ⟨-, m, d, hm, hpid, -⟩ := hsends
      exact hheld hm hpid
  | drop name =>
      obtain ⟨-, -, m, hm, hpid⟩ := hsends
      exact hheld hm hpid
  | drive app =>
      obtain ⟨-, hpid⟩ := hsends
      have hchild : (w.entry app.name).child = some pid :=
        (h.coherent.entry app.name).pid.symm.trans hpid
      exact ⟨_, World.lookup_of_entry hchild, hchild⟩

theorem round_signalsOwn (h : w.Upkeep) (r : Round) :
    Host.Acts (SignalsOwn w.daemon r.app) w.host (r.apply paths env apps w).host := by
  refine (World.Round.acts r).mono fun h' e he => ?_
  cases e with
  | signal t pid sig =>
      obtain ⟨rfl, -, hsends⟩ := he
      exact h.owned r.app pid (sends_heldBy h hsends)
  | _ => trivial

/-- Until `stop_all` begins, an entry has a pid exactly when it holds a child,
which is an unreaped instance of its app; a restart is pending only with a
deadline, and a deadline only with a child. So restart requests and the rounds of
sections signal nothing but such instances of their app. -/
theorem signals_reach_own (h : Reachable (Sys.step paths crates) Sys.Started s)
    (hstop : s.stopping = none) :
    (∀ name m, s.world.procs.lookup name = some m →
      m.pid = m.child ∧
      (∀ pid, m.child = some pid → s.world.host.ChildOf s.world.daemon name pid) ∧
      (m.restartRequested = true → m.termDeadline.isSome = true) ∧
      (m.termDeadline.isSome = true → m.child.isSome = true)) ∧
    (∀ env name, Host.Acts (SignalsOwn s.world.daemon name) s.world.host
      (s.world.requestRestart env name).host) ∧
    ∀ env apps done r rest, s.world.rounds paths env apps = done ++ r :: rest →
      let w := done.foldl (Round.apply paths env apps) s.world
      Host.Acts (SignalsOwn s.world.daemon r.app) w.host (r.apply paths env apps w).host := by
  have hupkeep := (supervised_reachable h hstop).upkeep
  refine ⟨fun name m hm => ?_, fun env name => ?_, fun env apps done r rest hsplit => ?_⟩
  · have hcoherent := hupkeep.coherent name m hm
    exact ⟨hcoherent.pid, fun pid hchild => hupkeep.owned name pid ⟨m, hm, hchild⟩,
      hcoherent.restart, hcoherent.term⟩
  · refine World.requestRestart_acts fun m pid hm hpid => ?_
    exact hupkeep.owned name pid ⟨m, hm, (hupkeep.coherent name m hm).pid.symm.trans hpid⟩
  · have hdone : (done.foldl (Round.apply paths env apps) s.world).Upkeep ∧
        (done.foldl (Round.apply paths env apps) s.world).daemon = s.world.daemon := by
      refine World.rounds_keep (P := fun w => w.Upkeep ∧ w.daemon = s.world.daemon)
        ⟨hupkeep, rfl⟩ (fun w r hr hw => ?_) hsplit
      have hlisted := World.listed_of_mem_rounds hr
      refine ⟨hw.1.round hlisted, ?_⟩
      exact (World.round_moves hlisted).keep (P := fun w => w.daemon = s.world.daemon)
        (fun _ _ hmove hdaemon => hmove.daemon.trans hdaemon) hw.2
    simp only
    rw [← hdone.2]
    exact round_signalsOwn hdone.1 r

/-! ## SIGKILL comes after the grace period -/

/-- A SIGKILL goes to an instance of an app that is not registered, or that was
sent SIGTERM a grace period before. -/
def Graceful (daemon : ℕ) (h : Host) : Effect → Prop
  | .signal t pid .kill => ∃ name, h.ChildOf daemon name pid ∧
      (name ∉ h.registry.app.keys ∨ ∃ t₀, TermSent h.log pid t₀ ∧ t₀ + graceSecs ≤ t)
  | _ => True

def Sys.SeesHeld (s : Sys) : Action → Prop := s.AtSection fun env apps => s.world.SeesHeld env apps

instance (s : Sys) (a : Action) : Decidable (s.SeesHeld a) :=
  inferInstanceAs (Decidable (s.AtSection _ a))

/-- What a section that began in `w₀` has kept. -/
structure InSection (w₀ w : World) : Prop where
  upkeep : w.Upkeep
  daemon : w.daemon = w₀.daemon
  registry : w.host.registry.quiet = w₀.host.registry.quiet

theorem InSection.round {w₀ : World} (h : InSection w₀ w) {r : Round} (hr : r.Listed apps) :
    InSection w₀ (r.apply paths env apps w) where
  upkeep := h.upkeep.round hr
  daemon := (World.round_moves hr).keep (P := fun w => w.daemon = w₀.daemon)
    (fun _ _ hmove hdaemon => hmove.daemon.trans hdaemon) h.daemon
  registry := (World.round_moves hr).keep (P := fun w => w.host.registry.quiet = _)
    (fun _ _ hmove hquiet => hmove.quiet.trans hquiet) h.registry

theorem round_graceful {w₀ : World} (h : InSection w₀ w) (r : Round)
    (hkill : ∀ pid, World.Sends env apps w r pid .kill → r.app ∈ w₀.host.registry.app.keys →
      ∃ t₀, TermSent w.host.log pid t₀ ∧ t₀ + graceSecs ≤ env.now) :
    Host.Acts (Graceful w₀.daemon) w.host (r.apply paths env apps w).host := by
  have hkeys : w.host.registry.app = w₀.host.registry.app :=
    congr_of_quiet (·.app) (fun _ => rfl) h.registry
  refine (World.Round.acts r).mono fun h' e he => ?_
  cases e with
  | signal t pid sig =>
      cases sig with
      | term => trivial
      | kill =>
          obtain ⟨rfl, rfl, hsends⟩ := he
          refine ⟨r.app, h.daemon ▸ h.upkeep.owned r.app pid (sends_heldBy h.upkeep hsends), ?_⟩
          rw [hkeys]
          exact (em _).symm.imp_right (hkill pid hsends)
  | _ => trivial

/-- A deadline that has passed is a SIGTERM a grace period before. -/
theorem termSent_of_deadline (h : w.Upkeep) {name : String} {m : Managed} {pid : Pid} {d : ℤ}
    (hm : w.procs.lookup name = some m) (hpid : m.pid = some pid)
    (hd : m.termDeadline = some d) (hnow : d ≤ env.now) :
    ∃ t₀, TermSent w.host.log pid t₀ ∧ t₀ + graceSecs ≤ env.now := by
  have hchild : m.child = some pid := (h.coherent name m hm).pid.symm.trans hpid
  exact ⟨_, h.termed name m pid d hm hchild hd, by rwa [sub_add_cancel]⟩

theorem sweep_acts {γ : Type} {f : World → γ → World} {I : World → Prop}
    {Q : Host → Effect → Prop} {xs : List γ} (hw : I w)
    (hstep : ∀ w x, x ∈ xs → I w → I (f w x) ∧ Host.Acts Q w.host (f w x).host) :
    I (xs.foldl f w) ∧ Host.Acts Q w.host (xs.foldl f w).host := by
  induction xs generalizing w with
  | nil => exact ⟨hw, .refl⟩
  | cons x xs ih =>
      obtain ⟨hround, hacts⟩ := hstep w x List.mem_cons_self hw
      obtain ⟨hrest, hacts'⟩ := ih hround fun w y hy => hstep w y (List.mem_cons_of_mem _ hy)
      exact ⟨hrest, hacts.trans hacts'⟩

/-- The entry that the second sweep finds for an app with a child is the one of
the start. -/
theorem entry_of_reapedAll (hheld : w.Held) {name : String} {m : Managed} {pid : Pid}
    (hm : (w.reapedAll paths env).procs.lookup name = some m) (hchild : m.child = some pid) :
    w.afterReap env name = m ∧ w.entry name = m := by
  rw [World.reapedAll_lookup hheld.sole] at hm
  obtain ⟨m₀, hm₀, rfl⟩ := Option.map_eq_some_iff.1 hm
  refine ⟨rfl, ?_⟩
  unfold World.afterReap World.entry at *
  simp only [hm₀] at hchild ⊢
  split at hchild
  · rw [Managed.reaped_child] at hchild
    cases hchild
  case isFalse hwait => rw [if_neg hwait]; rfl

theorem lockedSection_graceful (h : w.Upkeep) (hsees : w.SeesHeld env apps) :
    Host.Acts (Graceful w.daemon) w.host (w.lockedSection paths env apps).host := by
  have hsection : InSection w w := ⟨h, rfl, rfl⟩
  -- the first sweep: only entries past their deadline
  have hreap : InSection w (w.reapedAll paths env) ∧
      Host.Acts (Graceful w.daemon) w.host (w.reapedAll paths env).host := by
    refine sweep_acts (I := InSection w) hsection fun w' name _ hw' => ?_
    have hround : InSection w (Round.apply paths env apps w' (.reap name)) := hw'.round trivial
    have hkill : Host.Acts (Graceful w.daemon) w'.host
        (Round.apply paths env apps w' (.reap name)).host := by
      refine round_graceful hw' _ fun pid hsends _ => ?_
      obtain ⟨-, m, d, hm, hpid, hd, hnow⟩ := hsends
      exact termSent_of_deadline hw'.upkeep hm hpid hd hnow
    exact ⟨hround, hkill⟩
  -- the second: apps that the snapshot does not name
  have hdrop : InSection w (w.swept paths env apps) ∧
      Host.Acts (Graceful w.daemon) (w.reapedAll paths env).host
        (w.swept paths env apps).host := by
    refine (sweep_acts (I := fun w' => InSection w w' ∧ ∀ name m,
      w'.procs.lookup name = some m → (w.reapedAll paths env).procs.lookup name = some m)
        ⟨hreap.1, fun _ _ hm => hm⟩ fun w' name _ hw' => ?_).imp_left And.left
    have hround : InSection w (Round.apply paths env apps w' (.drop name)) := hw'.1.round trivial
    refine ⟨⟨hround, fun other m hm => hw'.2 other m (World.dropRemoved_lookup_some hm)⟩, ?_⟩
    refine round_graceful hw'.1 (.drop name) fun pid hsends hkey => ?_
    obtain ⟨-, hname, m, hm, hpid⟩ := hsends
    have hchild : m.child = some pid := (hw'.1.upkeep.coherent name m hm).pid.symm.trans hpid
    obtain ⟨hafter, hentry⟩ := entry_of_reapedAll h.held (hw'.2 name m hm) hchild
    rcases hsees name hkey with hnamed | hnone | hdeadline
    · exact absurd hnamed hname
    · rw [hafter, hchild] at hnone
      cases hnone
    · rw [hentry] at hdeadline
      obtain ⟨d, hd, hnow⟩ := (Option.any_eq_true _ _).1 hdeadline
      exact termSent_of_deadline hw'.1.upkeep hm hpid hd (of_decide_eq_true hnow)
  -- the third sends no SIGKILL
  have hdrive : Host.Acts (Graceful w.daemon) (w.swept paths env apps).host
      (w.lockedSection paths env apps).host := by
    refine (sweep_acts (I := InSection w) hdrop.1 fun w' app happ hw' => ?_).2
    have hround : InSection w (Round.apply paths env apps w' (.drive app)) := hw'.round happ
    have hkill : Host.Acts (Graceful w.daemon) w'.host
        (Round.apply paths env apps w' (.drive app)).host :=
      round_graceful hw' _ fun pid hsends _ => by cases hsends.1
    exact ⟨hround, hkill⟩
  exact (hreap.2.trans hdrop.2).trans hdrive

/-- In a run in which no section misses a registered app with a child, every
SIGKILL of a section goes to an app that is not registered, or comes a grace
period after SIGTERM. -/
theorem kills_graceful
    (h : ReachableWhen (Sys.step paths crates) Sys.Started Sys.SeesHeld s) {i : ℕ}
    (hsection : s.section? i = some apps) (hsees : s.SeesHeld (.run i env))
    (hs : s.step paths crates (.run i env) = some s') (hstop : s'.stopping = none) :
    Host.Acts (Graceful s.world.daemon) s.world.host s'.world.host := by
  have hstep := Sys.step_cases hs
  have hupkeep := (supervised_reachable h (hstep.of_not_stopping hstop).1).upkeep
  have hheld : s.world.SeesHeld env apps := hsees apps hsection
  cases hstep with
  | run i env op next ht hopen =>
      unfold Sys.section? at hsection
      rw [ht] at hsection
      cases op with
      | lockedSection apps' =>
          cases hsection
          exact lockedSection_graceful hupkeep hheld
      | _ => cases hsection

section Runs

/-- The instance is asked to restart and has not exited yet. -/
def askedRun : List Action := deployRun 0 1 ++ [.arrive (.restart "a")] ++ calls 1 3

theorem signals_reach_own_askedRun :
    ∃ s m, run (Sys.step (Paths.ofRoot "/r") (Crates.plainCrates [] [])) {} askedRun = some s ∧
      s.world.procs.lookup "a" = some m ∧ m.restartRequested = true ∧ m.pid = some 1 ∧
      m.pid = m.child ∧ m.termDeadline.isSome = true ∧
      Host.Acts (SignalsOwn s.world.daemon "a") s.world.host
        (s.world.requestRestart {} "a").host := by
  have hrun : (run (Sys.step (Paths.ofRoot "/r") (Crates.plainCrates [] [])) {} askedRun).map
      (fun s => (s.stopping.isNone, (s.world.procs.lookup "a").map fun m =>
        (m.restartRequested, m.pid))) = some (true, some (true, some 1)) := by
    decide
  obtain ⟨s, hs, hval⟩ := Option.map_eq_some_iff.1 hrun
  obtain ⟨hnone, hentry⟩ := Prod.mk.inj hval
  obtain ⟨m, hm, hfields⟩ := Option.map_eq_some_iff.1 hentry
  obtain ⟨hrestart, hpid⟩ := Prod.mk.inj hfields
  obtain ⟨hentries, hrequests, -⟩ := signals_reach_own
    (ReachableWhen.runWhen (.start fresh_default.started) hs) (Option.isNone_iff_eq_none.1 hnone)
  obtain ⟨hsame, -, hdeadline, -⟩ := hentries "a" m hm
  exact ⟨s, m, hs, hm, hrestart, hpid, hsame, hdeadline hrestart, hrequests {} "a"⟩

/-- The app is stopped, and does not react to SIGTERM. -/
def stopRun : List Action :=
  deployRun 0 1 ++ [.arrive (.stop "a")] ++ calls 1 5 ++ [.arrive .reconcileTick] ++ calls 2 2

theorem kills_graceful_stopRun :
    ∃ s s', runWhen (Sys.step (Paths.ofRoot "/r") (Crates.plainCrates [] [])) Sys.SeesHeld {}
        stopRun = some s ∧
      s.step (Paths.ofRoot "/r") (Crates.plainCrates [] []) (.run 2 { now := 10 }) = some s' ∧
      .signal 10 1 .kill ∈ s'.world.host.log ∧
      Host.Acts (Graceful s.world.daemon) s.world.host s'.world.host := by
  have hrun : (runWhen (Sys.step (Paths.ofRoot "/r") (Crates.plainCrates [] [])) Sys.SeesHeld {}
      stopRun).map (fun s => (decide (s.SeesHeld (.run 2 { now := 10 })), (s.section? 2).isSome,
        (s.step (Paths.ofRoot "/r") (Crates.plainCrates [] []) (.run 2 { now := 10 })).map
          fun s' => (s'.stopping.isNone, decide (.signal 10 1 .kill ∈ s'.world.host.log)))) =
        some (true, true, some (true, true)) := by
    decide
  obtain ⟨s, hs, hval⟩ := Option.map_eq_some_iff.1 hrun
  obtain ⟨hsees, hrest⟩ := Prod.mk.inj hval
  obtain ⟨hsection, hstep⟩ := Prod.mk.inj hrest
  obtain ⟨apps, happs⟩ := Option.isSome_iff_exists.1 hsection
  obtain ⟨s', hs', hlast⟩ := Option.map_eq_some_iff.1 hstep
  obtain ⟨hnone, hkill⟩ := Prod.mk.inj hlast
  exact ⟨s, s', hs, hs', of_decide_eq_true hkill,
    kills_graceful (ReachableWhen.runWhen (.start fresh_default.started) hs) happs
      (of_decide_eq_true hsees) hs' (Option.isNone_iff_eq_none.1 hnone)⟩

/-- The clock stands at 0. -/
def Action.atZero : Action → Bool
  | .run _ env => env.now = 0
  | .stop env => env.now = 0
  | _ => true

/-- A pass lists the apps before the first deploy of `a`, which then starts. -/
def earlyListRun : List Action := [.arrive .reconcileTick] ++ calls 0 2 ++ deployRun 1 1

def noTerm (log : List Effect) : Bool :=
  log.all fun e => match e with
    | .signal _ _ .term => false
    | _ => true

/-- The section of that pass kills the registered app, with the clock standing
still and no SIGTERM sent. -/
theorem ungraceful_kill_reachable :
    ¬ ∀ (paths : Paths) (crates : Crates) (s s' : Sys) (i : ℕ) (env : Env),
      ReachableWhen (Sys.step paths crates) Sys.Started (fun _ a => a.atZero = true) s →
      env.now = 0 → s.section? i ≠ none → s.step paths crates (.run i env) = some s' →
      s'.stopping = none →
        Host.Acts (Graceful s.world.daemon) s.world.host s'.world.host := by
  intro h
  have hrun : (runWhen (Sys.step (Paths.ofRoot "/r") (Crates.plainCrates [] []))
      (fun _ a => a.atZero = true) {} earlyListRun).map (fun s =>
        (runningApp s.world 1, decide ("a" ∈ s.world.host.registry.app.keys) &&
            noTerm s.world.host.log && (s.section? 0).isSome,
          (s.step (Paths.ofRoot "/r") (Crates.plainCrates [] []) (.run 0 {})).map fun s' =>
            (s'.stopping.isNone, (s'.world.host.log.drop s.world.host.log.length).head?))) =
        some (some "a", true, some (true, some (.signal 0 1 .kill))) := by
    decide
  obtain ⟨s, hs, hval⟩ := Option.map_eq_some_iff.1 hrun
  obtain ⟨happ, hval⟩ := Prod.mk.inj hval
  obtain ⟨hbools, hval⟩ := Prod.mk.inj hval
  obtain ⟨hbools, hsection⟩ := Bool.and_eq_true_iff.1 hbools
  obtain ⟨hkey, hquiet⟩ := Bool.and_eq_true_iff.1 hbools
  obtain ⟨s', hs', hlast⟩ := Option.map_eq_some_iff.1 hval
  obtain ⟨hnone, hkill⟩ := Prod.mk.inj hlast
  obtain ⟨added, hhost, hall⟩ := h _ _ s s' 0 {}
    (ReachableWhen.runWhen (.start fresh_default.started) hs) rfl
    (Option.isSome_iff_ne_none.1 hsection) hs' (Option.isNone_iff_eq_none.1 hnone)
  rw [hhost, Host.foldl_apply_log, List.drop_left] at hkill
  obtain ⟨rest, hadded⟩ := List.head?_eq_some_iff.1 hkill
  obtain ⟨name, ⟨launch, exit, hp, hname, -⟩, hwhy⟩ := hall [] _ rest hadded
  rw [List.foldl_nil] at hp hwhy
  obtain ⟨launch', hruns, hlaunch⟩ := runs_of_runningApp happ
  rw [hruns] at hp
  cases hp
  rcases hwhy with hmissing | ⟨t₀, ⟨before, after, hlog, -⟩, -⟩
  · rw [← hname, hlaunch] at hmissing
    exact hmissing (of_decide_eq_true hkey)
  · have hterm := List.all_eq_true.1 hquiet (.signal t₀ 1 .term) (by rw [hlog]; simp)
    cases hterm

end Runs

end Daemon

end Nockd
