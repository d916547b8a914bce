import Nockd.Daemon.Passes

/-!
# Backoff

A `Tally` follows one app through a run: how often it has failed since the daemon started, and
what the clock read in the last pass. The counter of the app's entry is the number of failures.
After a failure the entry rests, without a child and with its deadline, until a pass
finds the deadline over and the app to be running.
-/

namespace Nockd

namespace Daemon

open Api Config Interleaving Registry Store Supervisor

structure Tally where
  failures : ℕ := 0
  clock : Option ℤ := none

def Tally.follow (paths : Paths) (name : String) (s : Sys) (a : Action) (t : Tally) : Tally :=
  match s.sectionOf a with
  | some (env, apps) =>
      { failures := t.failures + s.world.failures paths env apps name, clock := some env.now }
  | none => t

/-- The daemon, with the tally of the app. -/
abbrev tallied (paths : Paths) (crates : Crates) (name : String) :
    Sys × Tally → Action → Option (Sys × Tally) :=
  ghostStep (Sys.step paths crates) (Tally.follow paths name)

def TallyStarted (v : Sys × Tally) : Prop := v.1.Started ∧ v.2 = {}

/-- Passes are atomic, the clock does not go back, and the policy of the app is
not "never". -/
def Steady (name : String) (v : Sys × Tally) (a : Action) : Prop :=
  v.1.Atomic a ∧ v.1.AtSection (fun env apps => (∀ c ∈ v.2.clock, c ≤ env.now) ∧
    ∀ app ∈ apps, app.name = name → app.restartPolicy ≠ "never") a

instance (name : String) (v : Sys × Tally) (a : Action) : Decidable (Steady name v a) :=
  inferInstanceAs (Decidable (_ ∧ _))

/-- Steady, and no restart of the app is requested. -/
def Unasked (name : String) (v : Sys × Tally) (a : Action) : Prop :=
  Steady name v a ∧ ¬ v.1.Requests name a

instance (name : String) (v : Sys × Tally) (a : Action) : Decidable (Unasked name v a) :=
  inferInstanceAs (Decidable (_ ∧ _))

/-- Unasked, and no section that reads at least `bound` on the clock wants the app
to run. -/
def Early (name : String) (bound : ℤ) (v : Sys × Tally) (a : Action) : Prop :=
  Unasked name v a ∧ v.1.AtSection (fun env apps => ∀ app ∈ apps, app.name = name →
    app.desiredStatus ≠ "stopped" → env.now < bound) a

instance (name : String) (bound : ℤ) (v : Sys × Tally) (a : Action) :
    Decidable (Early name bound v a) :=
  inferInstanceAs (Decidable (_ ∧ _))

/-- The app waits for the deadline, without a child. -/
structure Resting (w : World) (name : String) (bound : ℤ) : Prop where
  registered : name ∈ w.host.registry.app.keys
  child : (w.entry name).child = none
  backoff : (w.entry name).backoffUntil = bound

variable {paths : Paths} {crates : Crates} {name : String} {v v' v₁ v₂ : Sys × Tally}
  {a a' : Action} {env env' : Env} {apps apps' : List AppRow} {app : AppRow} {bound : ℤ}
  {w w' : World}

theorem follow_section (hsection : v.1.sectionOf a = some (env, apps)) (t : Tally) :
    Tally.follow paths name v.1 a t =
      { failures := t.failures + v.1.world.failures paths env apps name
        clock := some env.now } := by
  unfold Tally.follow
  rw [hsection]

theorem follow_other (hsection : v.1.sectionOf a = none) (t : Tally) :
    Tally.follow paths name v.1 a t = t := by
  unfold Tally.follow
  rw [hsection]

/-! ## Counting -/

/-- The counter of the app's entry is the number of its failures. -/
structure Counted (name : String) (v : Sys × Tally) : Prop where
  passing : Passing v.1
  count : (v.1.world.entry name).restarts = UInt32.ofNat v.2.failures

theorem not_mem_of_untracked (h : Registered w) {name : String}
    (hname : name ∉ w.host.registry.app.keys) : w.procs.lookup name = none := by
  cases hm : w.procs.lookup name with
  | none => rfl
  | some m => exact absurd (h name (by rw [hm]; rfl)) hname

theorem failures_of_not_mem (hnone : w.procs.lookup name = none)
    (hname : name ∉ apps.map (·.name)) : w.failures paths env apps name = 0 := by
  unfold World.failures World.crashes
  rw [hnone, Option.any_none]
  have hany : (apps.any fun app => app.name = name && decide (w.Due env app) &&
      !w.spawnOk paths env apps app) = false := by
    rw [List.any_eq_false]
    intro app happ hfail
    simp only [Bool.and_eq_true, decide_eq_true_eq] at hfail
    exact hname (hfail.1.1 ▸ List.mem_map_of_mem happ)
  rw [hany]
  rfl

theorem Counted.step (h : Counted name v) (hs : tallied paths crates name v a = some v')
    (hsteady : Steady name v a) : Counted name v' := by
  obtain ⟨hs, htally⟩ := ghostStep_eq_some hs
  have hstep := Sys.step_cases hs
  refine ⟨h.passing.step hstep hsteady.1, ?_⟩
  have hstop := hstep.not_stop h.passing.stopping
  rw [htally]
  rcases hstep.entries h.passing.supervised hstop with ⟨env, apps, hsection, hworld, hnodup⟩ |
    ⟨hsection, ⟨env, other, -, hworld⟩ | ⟨-, hcores⟩⟩
  · rw [follow_section hsection, hworld, UInt32.ofNat_add, ← h.count]
    by_cases hname : name ∈ apps.map (·.name)
    · obtain ⟨app, happ, rfl⟩ := List.mem_map.1 hname
      exact World.lockedSection_restarts h.passing.supervised.upkeep.held hnodup happ
    · have happs := hsteady.1.2.of_sectionOf hsection
      have hnone := not_mem_of_untracked h.passing.registered
        (by rwa [happs, name_mem_listApps] at hname)
      rw [failures_of_not_mem hnone hname, World.entry, World.entry, hnone,
        World.lockedSection_lookup_of_not_mem hname]
      simp
  · rw [follow_other hsection, hworld, ← h.count]
    by_cases hother : name = other
    · subst hother
      exact (requestRestart_entry h.passing.supervised.upkeep.coherent env name).2.2.1
    · rw [requestRestart_entry_ne env _ hother]
  · rw [follow_other hsection, ← h.count]
    exact congrArg Core.restarts (hcores.entry name)

theorem counted_reachable
    (h : ReachableWhen (tallied paths crates name) TallyStarted (Steady name) v) :
    Counted name v := by
  refine h.invariant (I := Counted name) ?_ fun v a v' ih hsteady hs => ih.step hs hsteady
  rintro v ⟨hstarted, htally⟩
  refine ⟨Passing.of_started hstarted, ?_⟩
  rw [htally, World.entry, hstarted.procs]
  rfl

/-! ## Resting -/

theorem Resting.of_sameCores (h : Resting w name bound) (hcores : World.SameCores w w')
    (hname : name ∈ w'.host.registry.app.keys) : Resting w' name bound where
  registered := hname
  child := (congrArg Core.child (hcores.entry name)).trans h.child
  backoff := (congrArg Core.backoffUntil (hcores.entry name)).trans h.backoff

theorem Resting.mem_listApps (h : Resting w name bound) :
    ∃ app ∈ w.host.registry.listApps, app.name = name :=
  List.mem_map.1 (name_mem_listApps.2 h.registered)

/-- A section in which the app is not due leaves it resting. -/
theorem Resting.section (h : Resting w app.name bound) (hheld : w.Held)
    (hnodup : (apps.map (·.name)).Nodup) (happ : app ∈ apps) (hdue : ¬ w.Due env app) :
    Resting (w.lockedSection paths env apps) app.name bound := by
  have hentry : (w.lockedSection paths env apps).entry app.name = _ :=
    World.lockedSection_entry hheld hnodup happ
  obtain ⟨hchild, -, hbackoff, -⟩ := World.driven_of_not_startable hdue
    ((w.reached paths env apps app.name).launchResult paths env app)
  rw [World.afterReap_of_no_child h.child] at hentry hchild hbackoff
  refine ⟨?_, ?_, ?_⟩
  · rw [keys_of_quiet (World.lockedSection_quiet w apps)]
    exact h.registered
  · rw [hentry, hchild, h.child]
  · rw [hentry, hbackoff, h.backoff]

theorem Resting.le_of_due (h : Resting w app.name bound) (hdue : w.Due env app) :
    bound ≤ env.now := by
  have hbackoff := hdue.2.2.2
  rwa [World.afterReap_of_no_child h.child, h.backoff] at hbackoff

theorem Resting.due (h : Resting w app.name bound) (hrunning : app.desiredStatus ≠ "stopped")
    (hpolicy : app.restartPolicy ≠ "never") (hnow : bound ≤ env.now) : w.Due env app := by
  unfold World.Due
  rw [World.afterReap_of_no_child h.child]
  exact ⟨hrunning, h.child, fun hnever => hpolicy hnever.1, h.backoff ▸ hnow⟩

theorem Resting.step {s s' : Sys} (h : Resting s.world name bound) (hpassing : Passing s)
    (hstep : Sys.Step paths crates s a s') (hatomic : s.Atomic a)
    (hrequest : ¬ s.Requests name a)
    (hdue : ∀ env apps app, s.sectionOf a = some (env, apps) → app ∈ apps → app.name = name →
      ¬ s.world.Due env app) : Resting s'.world name bound := by
  have hkeys : name ∈ s'.world.host.registry.app.keys := hstep.keys h.registered
  rcases hstep.entries hpassing.supervised (hstep.not_stop hpassing.stopping) with
    ⟨env, apps, hsection, hworld, hnodup⟩ | ⟨-, ⟨env, other, hother, hworld⟩ | ⟨-, hcores⟩⟩
  · obtain ⟨app, happ, rfl⟩ := h.mem_listApps
    rw [← hatomic.2.of_sectionOf hsection] at happ
    rw [hworld]
    exact h.section hpassing.supervised.upkeep.held hnodup happ
      (hdue env apps app hsection happ rfl)
  · have hne : name ≠ other := by
      rintro rfl
      exact hrequest hother
    have hentry : s'.world.entry name = s.world.entry name := by
      rw [hworld, requestRestart_entry_ne env _ hne]
    exact ⟨hkeys, hentry ▸ h.child, hentry ▸ h.backoff⟩
  · exact h.of_sameCores hcores hkeys

/-- The failure that makes the count `k` puts the app to rest until the backoff
for `k` is over. -/
theorem resting_of_failure (h : Counted name v) (hsteady : Steady name v a)
    (hsection : v.1.sectionOf a = some (env, apps))
    (hs : tallied paths crates name v a = some v₁) (hfail : v.2.failures < v₁.2.failures)
    (hk : v₁.2.failures < 2 ^ 32) :
    Resting v₁.1.world name (env.now + min (2 ^ v₁.2.failures) 60) := by
  have hcounted := h.step hs hsteady
  obtain ⟨hs, htally⟩ := ghostStep_eq_some hs
  have hstep := Sys.step_cases hs
  rw [htally, follow_section hsection] at hfail
  have hfailures : 0 < v.1.world.failures paths env apps name := by
    simpa using hfail
  rcases hstep.entries h.passing.supervised (hstep.not_stop h.passing.stopping) with
    ⟨env', apps', hsection', hworld, hnodup⟩ | ⟨hnone, -⟩
  · rw [hsection] at hsection'
    cases hsection'
    have happs := hsteady.1.2.of_sectionOf hsection
    have hname : name ∈ apps.map (·.name) := by
      by_contra hname
      have hnone := not_mem_of_untracked h.passing.registered
        (by rwa [happs, name_mem_listApps] at hname)
      rw [failures_of_not_mem hnone hname] at hfailures
      exact lt_irrefl 0 hfailures
    have hkeys : name ∈ v.1.world.host.registry.app.keys := by
      rwa [happs, name_mem_listApps] at hname
    obtain ⟨app, happ, rfl⟩ := List.mem_map.1 hname
    obtain ⟨hchild, hbackoff⟩ :=
      World.lockedSection_failed h.passing.supervised.upkeep.held hnodup happ hfailures
    rw [← hworld, hcounted.count, backoffSecs_ofNat hk] at hbackoff
    exact ⟨hstep.keys hkeys, by rwa [hworld], hbackoff⟩
  · rw [hsection] at hnone
    cases hnone

/-! ## The law -/

/-- The app rests, or the last pass was past the deadline. -/
structure Backing (name : String) (bound : ℤ) (v : Sys × Tally) : Prop where
  passing : Passing v.1
  kept : Resting v.1.world name bound ∨ ∃ c ∈ v.2.clock, bound ≤ c

theorem Backing.le_of_due (h : Backing name bound v) (hsteady : Steady name v a)
    (hsection : v.1.sectionOf a = some (env, apps)) (hname : app.name = name)
    (hdue : v.1.world.Due env app) : bound ≤ env.now := by
  rcases h.kept with hrest | ⟨c, hc, hbound⟩
  · subst hname
    exact hrest.le_of_due hdue
  · exact hbound.trans ((hsteady.2.of_sectionOf hsection).1 c hc)

theorem Backing.step (h : Backing name bound v) (hsteady : Steady name v a)
    (hrequest : ¬ v.1.Requests name a) (hs : tallied paths crates name v a = some v') :
    Backing name bound v' := by
  have hbacking := h
  obtain ⟨hs, htally⟩ := ghostStep_eq_some hs
  have hstep := Sys.step_cases hs
  refine ⟨h.passing.step hstep hsteady.1, ?_⟩
  rw [htally]
  cases hsection : v.1.sectionOf a with
  | none =>
      rw [follow_other hsection]
      refine h.kept.imp_left fun hrest => hrest.step h.passing hstep hsteady.1 hrequest ?_
      intro env apps app hsome
      rw [hsection] at hsome
      cases hsome
  | some x =>
      obtain ⟨env, apps⟩ := x
      rw [follow_section hsection]
      by_cases hnow : bound ≤ env.now
      · exact Or.inr ⟨env.now, rfl, hnow⟩
      · rcases h.kept with hrest | ⟨c, hc, hbound⟩
        · refine Or.inl (hrest.step h.passing hstep hsteady.1 hrequest ?_)
          intro env' apps' app hsome _ hname hdue
          rw [hsection] at hsome
          cases hsome
          exact hnow (hbacking.le_of_due hsteady hsection hname hdue)
        · exact absurd (hbound.trans ((hsteady.2.of_sectionOf hsection).1 c hc)) hnow

section Runs

abbrev talliedA : Sys × Tally → Action → Option (Sys × Tally) :=
  tallied (Paths.ofRoot "/r") (Crates.plainCrates [] []) "a"

/-- The instance has crashed, and a pass is about to see it. -/
def crashedRun : List Action :=
  deployRun 0 1 ++ [.exit 1 (.code 7), .arrive .reconcileTick] ++ calls 1 2

/-- The next pass, up to its section. -/
def nextPass : List Action := [.arrive .reconcileTick] ++ calls 2 2

end Runs

end Daemon

end Nockd
