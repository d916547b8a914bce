import Nockd.Daemon.Recall
import Nockd.Supervisor.Deadlines

/-!
# Grace deadlines in runs

In a run with atomic passes an instance that is asked to exit is killed by the first pass
that finds it alive a grace period later, as long as no restart request moves a pending deadline.
A second restart request within the grace period does.
-/

namespace Nockd

namespace Daemon

open Api Config Interleaving Registry Store Supervisor

/-- The app that a thread is about to request a restart of. -/
def Sys.restart? (s : Sys) (i : ℕ) : Option String :=
  match s.call? i with
  | some (.requestRestart name) => some name
  | _ => none

/-- A restart request does not find a deadline that it would move back. -/
def Sys.KeepsDeadlines (s : Sys) : Action → Prop
  | .run i env => ∀ name ∈ s.restart? i, ∀ d ∈ (s.world.entry name).termDeadline,
      env.now + graceSecs ≤ d
  | _ => True

instance (s : Sys) (a : Action) : Decidable (s.KeepsDeadlines a) :=
  match a with
  | .run i _ => inferInstanceAs (Decidable (∀ name ∈ s.restart? i, _))
  | .arrive _ => .isTrue trivial
  | .fail _ _ => .isTrue trivial
  | .exit _ _ => .isTrue trivial
  | .collect _ => .isTrue trivial
  | .foreign _ => .isTrue trivial
  | .beginStop => .isTrue trivial
  | .stop _ => .isTrue trivial

/-- An entry holds the process as its child, and a pass would see no exit of it. -/
def FindsAlive (w : World) (env : Env) (pid : Pid) : Prop :=
  ∃ name, w.HeldBy pid name ∧ w.tryWait env name (some pid) = none

variable {paths : Paths} {crates : Crates} {s s' : Sys} {a : Action} {env : Env}
  {apps : List AppRow} {w : World} {pid : Pid} {launch : Launch} {t : ℤ}

/-- A call that is neither a section nor a restart request has no effects to log. -/
theorem perform_log {op : Call} (hmain : .main ∉ op.uses)
    (hsection : ∀ apps, op ≠ .lockedSection apps) (hrestart : ∀ name, op ≠ .requestRestart name) :
    (perform paths crates env w op).1.host.log = w.host.log := by
  cases op with
  | lockedSection apps => exact absurd rfl (hsection apps)
  | requestRestart name => exact absurd rfl (hrestart name)
  | setShuttingDown => exact absurd rfl hmain
  | takeChildren => exact absurd rfl hmain
  | signal pid sig => exact absurd rfl hmain
  | waitTimeout pid => exact absurd rfl hmain
  | waitExit pid => exact absurd rfl hmain
  | removePidfiles => exact absurd rfl hmain
  | removePidfile name => exact absurd rfl hmain
  | _ => rfl

theorem findsAlive_of_runs (h : Orderly s) (hruns : s.world.host.Runs pid launch) :
    FindsAlive s.world env pid := by
  have hheld : s.world.HeldBy pid launch.app :=
    (h.tidy.tracked pid launch hruns).resolve_right (by simp [h.tidy.taken])
  refine ⟨launch.app, hheld, ?_⟩
  unfold Host.Runs at hruns
  unfold World.tryWait
  split
  · rfl
  · simp [hruns]

/-! ## The invariant -/

structure Timely (s : Sys) : Prop where
  orderly : Orderly s
  punctual : s.world.Punctual

theorem Timely.of_fresh (h : s.Fresh) : Timely s where
  orderly := ⟨Passing.of_started h.started, Tidy.of_fresh h⟩
  punctual := fun name m pid t hm => by simp [h.procs] at hm

theorem Timely.step (h : Timely s) (hstep : Sys.Step paths crates s a s') (hatomic : s.Atomic a)
    (hkeeps : s.KeepsDeadlines a) : Timely s' := by
  refine ⟨h.orderly.step hstep hatomic, ?_⟩
  have hupkeep := h.orderly.passing.supervised.upkeep
  cases hstep with
  | run i env op next ht hopen =>
      have hmain := lawful_main h.orderly.passing.supervised.lawful ht
      rcases op.section_cases with ⟨apps, rfl⟩ | hsection
      · simp only [perform, World.lockedSection_eq_rounds]
        exact (World.rounds_keep (P := fun w => w.Upkeep ∧ w.Punctual) ⟨hupkeep, h.punctual⟩
          (fun w r hr hw => ⟨hw.1.round (World.listed_of_mem_rounds hr), hw.2.round hw.1 r⟩)
          (List.append_nil _).symm).2
      · by_cases hrestart : ∃ name, op = .requestRestart name
        · obtain ⟨name, rfl⟩ := hrestart
          have hrequest : s.restart? i = some name := by
            unfold Sys.restart?
            rw [Sys.call?_eq ht]
          exact h.punctual.requestRestart hupkeep (hkeeps name hrequest)
        · have hother (name : String) : op ≠ .requestRestart name := fun heq => hrestart ⟨name, heq⟩
          exact h.punctual.of_sameCores (perform_sameCores hmain hsection hother)
            (perform_log hmain hsection hother)
  | stop env op next hp hopen =>
      rw [h.orderly.passing.stopping] at hp
      cases hp
  | _ => exact h.punctual.of_sameCores (World.sameCores_of_procs rfl) rfl

/-- In a run with atomic passes in which restart requests keep the deadlines, a pass that
finds an instance alive a grace period after its first SIGTERM sends it SIGKILL, and passes find
every running instance alive. -/
theorem grace_kept
    (h : ReachableWhen (Sys.step paths crates) Sys.Fresh
      (fun s a => s.Atomic a ∧ s.KeepsDeadlines a) s)
    (hsection : s.sectionOf a = some (env, apps)) (hs : s.step paths crates a = some s') :
    (∀ pid launch, s.world.host.Runs pid launch → FindsAlive s.world env pid) ∧
      ∀ pid t, FindsAlive s.world env pid → firstTerm s.world.host.log pid = some t →
        t + graceSecs ≤ env.now →
        ∃ added, s'.world.host.log = s.world.host.log ++ added ∧
          .signal env.now pid .kill ∈ added := by
  have htimely : Timely s :=
    h.invariant (I := Timely) (fun s hs => Timely.of_fresh hs)
      fun s a s' ih hguard hs => ih.step (Sys.step_cases hs) hguard.1 hguard.2
  refine ⟨fun pid launch => findsAlive_of_runs htimely.orderly, ?_⟩
  rintro pid t ⟨name, ⟨m, hm, hchild⟩, hwait⟩ hfirst hnow
  obtain ⟨d, hd, hle⟩ := htimely.punctual name m pid t hm hchild hfirst
  have hpassing := htimely.orderly.passing
  have hstep := Sys.step_cases hs
  rcases hstep.entries hpassing.supervised (hstep.not_stop hpassing.stopping) with
    ⟨env', apps', hfound, hworld, -⟩ | ⟨hnone, -⟩
  · rw [hsection, Option.some.injEq, Prod.mk.injEq] at hfound
    obtain ⟨rfl, rfl⟩ := hfound
    rw [hworld]
    exact World.lockedSection_kills hpassing.supervised.upkeep.held hm hchild
      (by rwa [hchild]) hd (hle.trans hnow)
  · rw [hsection] at hnone
    cases hnone

/-! ## With a clock -/

def Action.now? : Action → Option ℤ
  | .run _ env => some env.now
  | .stop env => some env.now
  | _ => none

/-- The daemon, with the latest reading of the clock. -/
abbrev clocked (paths : Paths) (crates : Crates) :
    Sys × Option ℤ → Action → Option (Sys × Option ℤ) :=
  ghostStep (Sys.step paths crates) fun _ a clock => a.now?.or clock

/-- Passes are atomic, and the clock does not go back. -/
def Forward (v : Sys × Option ℤ) (a : Action) : Prop :=
  v.1.Atomic a ∧ ∀ t ∈ a.now?, ∀ c ∈ v.2, c ≤ t

instance (v : Sys × Option ℤ) (a : Action) : Decidable (Forward v a) :=
  inferInstanceAs (Decidable (_ ∧ _))

section Runs

/-- A thread makes its next `n` calls at time `t`. -/
def callsAt (t : ℤ) (i n : ℕ) : List Action := List.replicate n (.run i { now := t })

/-- A restart at time 0, and a pass up to its section at time 10. -/
def overdueRun : List Action :=
  askedRun ++ [.arrive .reconcileTick] ++ callsAt 10 2 2

/-- The same with a second restart request at time 5. -/
def delayedRun : List Action :=
  askedRun ++ [.arrive (.restart "a")] ++ callsAt 5 2 3 ++ [.arrive .reconcileTick] ++
    callsAt 10 3 2

/-- The instance was first sent SIGTERM at time 0 and runs on. -/
def overdue (s : Sys) : Bool :=
  s.stopping.isNone && decide (runningApp s.world 1 = some "a") &&
    decide (firstTerm s.world.host.log 1 = some 0)

theorem grace_kept_overdueRun :
    ∃ s s' added, runWhen (Sys.step (Paths.ofRoot "/r") (Crates.plainCrates [] []))
        (fun s a => s.Atomic a ∧ s.KeepsDeadlines a) {} overdueRun = some s ∧
      s.step (Paths.ofRoot "/r") (Crates.plainCrates [] []) (.run 2 { now := 10 }) = some s' ∧
      s'.world.host.log = s.world.host.log ++ added ∧ .signal 10 1 .kill ∈ added := by
  have hrun : (runWhen (Sys.step (Paths.ofRoot "/r") (Crates.plainCrates [] []))
      (fun s a => s.Atomic a ∧ s.KeepsDeadlines a) {} overdueRun).map (fun s => (overdue s,
        (s.section? 2).isSome, (s.step (Paths.ofRoot "/r") (Crates.plainCrates [] [])
          (.run 2 { now := 10 })).isSome)) = some (true, true, true) := by
    decide
  obtain ⟨s, hs, hval⟩ := Option.map_eq_some_iff.1 hrun
  obtain ⟨hoverdue, hval⟩ := Prod.mk.inj hval
  obtain ⟨hsection, hstep⟩ := Prod.mk.inj hval
  simp only [overdue, Bool.and_eq_true, decide_eq_true_eq] at hoverdue
  obtain ⟨apps, happs⟩ := Option.isSome_iff_exists.1 hsection
  obtain ⟨s', hs'⟩ := Option.isSome_iff_exists.1 hstep
  obtain ⟨launch, hruns, -⟩ := runs_of_runningApp hoverdue.1.2
  obtain ⟨hfinds, hkills⟩ := @grace_kept _ _ _ _ _ { now := 10 } apps
    (ReachableWhen.runWhen (.start fresh_default) hs) (Sys.sectionOf_of_section happs _) hs'
  obtain ⟨added, hlog, hkill⟩ := hkills 1 0 (hfinds 1 launch hruns) hoverdue.2 (by decide)
  exact ⟨s, s', added, hs, hs', hlog, hkill⟩

theorem grace_not_kept :
    ¬ ∀ (paths : Paths) (crates : Crates) (v v' : Sys × Option ℤ) (a : Action) (env : Env)
      (apps : List AppRow) (pid : Pid) (launch : Launch) (t : ℤ),
      ReachableWhen (clocked paths crates) (fun v => v.1.Fresh ∧ v.2 = none) Forward v →
      v.1.sectionOf a = some (env, apps) → Forward v a → clocked paths crates v a = some v' →
      v.1.world.host.Runs pid launch → firstTerm v.1.world.host.log pid = some t →
      t + graceSecs ≤ env.now →
        ∃ added, v'.1.world.host.log = v.1.world.host.log ++ added ∧
          .signal env.now pid .kill ∈ added := by
  intro h
  have hrun : (runWhen (clocked (Paths.ofRoot "/r") (Crates.plainCrates [] [])) Forward ({}, none)
      delayedRun).map (fun v => (overdue v.1, (v.1.section? 3).isSome,
        decide (Forward v (.run 3 { now := 10 })),
        (clocked (Paths.ofRoot "/r") (Crates.plainCrates [] []) v (.run 3 { now := 10 })).map
          fun v' => decide (.signal 10 1 .kill ∈ v'.1.world.host.log))) =
        some (true, true, true, some false) := by
    decide
  obtain ⟨v, hv, hval⟩ := Option.map_eq_some_iff.1 hrun
  obtain ⟨hoverdue, hval⟩ := Prod.mk.inj hval
  obtain ⟨hsection, hval⟩ := Prod.mk.inj hval
  obtain ⟨hforward, hstep⟩ := Prod.mk.inj hval
  simp only [overdue, Bool.and_eq_true, decide_eq_true_eq] at hoverdue
  obtain ⟨apps, happs⟩ := Option.isSome_iff_exists.1 hsection
  obtain ⟨v', hv', hspared⟩ := Option.map_eq_some_iff.1 hstep
  obtain ⟨launch, hruns, -⟩ := runs_of_runningApp hoverdue.1.2
  obtain ⟨added, hlog, hkill⟩ := h _ _ v v' _ { now := 10 } apps 1 launch 0
    (ReachableWhen.runWhen (.start ⟨fresh_default, rfl⟩) hv)
    (Sys.sectionOf_of_section happs _) (of_decide_eq_true hforward) hv' hruns hoverdue.2
    (by decide)
  refine of_decide_eq_false hspared ?_
  rw [hlog]
  exact List.mem_append_right _ hkill

end Runs

end Daemon

end Nockd
