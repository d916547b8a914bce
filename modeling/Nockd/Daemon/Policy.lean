import Nockd.Daemon.Passes

/-!
# Restart policies

The documented policies are "always", "on-failure" and "never". The third sweep asks for
the policy once, and distinguishes "never" from all other texts: an entry with a
failure on its counter stays down. It does not know how an instance ended, so under "on-failure"
one that exits with code 0 is started again like one that fails.
-/

namespace Nockd

namespace Supervisor

open Config Registry

/-- An exit with this status asks for a restart. -/
def MustRestart (policy : String) (status : ExitStatus) : Prop :=
  policy = "always" ∨ policy = "on-failure" ∧ status ≠ .code 0

namespace World

/-- The app's exit has been recorded, and the clock has reached its deadline. -/
def Ready (env : Env) (w : World) (name : String) : Prop :=
  (w.entry name).child = none ∧ (w.entry name).backoffUntil ≤ env.now

instance (env : Env) (w : World) (name : String) : Decidable (w.Ready env name) :=
  inferInstanceAs (Decidable (_ ∧ _))

/-- The app's instance is gone, and nobody has asked for that. Under "never" its
counter tells. -/
structure Exited (policy name : String) (w : World) : Prop where
  gone : ∀ pid launch, (w.entry name).child = some pid → ¬ w.host.Runs pid launch
  restart : (w.entry name).restartRequested = false
  term : (w.entry name).termDeadline = none
  spent : policy = "never" → (w.entry name).child = none → 0 < (w.entry name).restarts

/-- Under "never" an entry that holds a child has had no failure. -/
def Unspent (policy name : String) (w : World) : Prop :=
  policy = "never" → (w.entry name).child.isSome = true → (w.entry name).restarts = 0

variable {paths : Paths} {env : Env} {w w' : World} {apps : List AppRow} {app : AppRow}
  {policy name : String}

theorem Unspent.of_core (h : w.Unspent policy name)
    (hchild : (w'.entry name).child = (w.entry name).child)
    (hrestarts : (w'.entry name).restarts = (w.entry name).restarts) :
    w'.Unspent policy name := by
  unfold Unspent
  rw [hchild, hrestarts]
  exact h

/-- An entry that a sweep does not reap is left as it is. -/
theorem afterReap_of_child (h : (w.afterReap env name).child.isSome = true) :
    w.afterReap env name = w.entry name := by
  unfold afterReap entry at *
  cases hm : w.procs.lookup name with
  | none => rfl
  | some m =>
      simp only [hm] at h
      simp only [Option.getD_some]
      split at h
      · rw [Managed.reaped_child] at h
        cases h
      case isFalse hexit => rw [if_neg hexit]

theorem Unspent.section (h : w.Unspent policy app.name) (hheld : w.Held)
    (hnodup : (apps.map (·.name)).Nodup) (happ : app ∈ apps)
    (hpolicy : app.restartPolicy = policy) :
    (w.lockedSection paths env apps).Unspent policy app.name := by
  intro hnever hchild
  rw [lockedSection_entry hheld hnodup happ] at hchild ⊢
  by_cases hdue : w.Due env app
  · have hzero : (w.afterReap env app.name).restarts = 0 := by
      by_contra hne
      refine hdue.2.2.1 ⟨hpolicy.trans hnever, ?_⟩
      exact UInt32.pos_iff_ne_zero.2 hne
    rw [driven_startable hdue] at hchild ⊢
    cases hresult : (w.reached paths env apps app.name).launchResult paths env app with
    | ok pid => exact hzero
    | error e =>
        rw [hresult] at hchild
        have hnone : (w.afterReap env app.name).child = none := hdue.2.1
        simp [Managed.spawnFailed, hnone] at hchild
  · obtain ⟨hc, hrestarts, -⟩ := driven_of_not_startable hdue
      ((w.reached paths env apps app.name).launchResult paths env app)
    rw [hc] at hchild
    rw [hrestarts, afterReap_of_child hchild]
    rw [afterReap_of_child hchild] at hchild
    exact h hnever hchild

/-- With nothing pending the first sweep records a crash or leaves the entry. -/
theorem afterReap_of_not_crashes (hrestart : (w.entry name).restartRequested = false)
    (hterm : (w.entry name).termDeadline = none) (hcrash : w.crashes env name = false) :
    w.afterReap env name = w.entry name := by
  unfold afterReap entry crashes at *
  cases hm : w.procs.lookup name with
  | none => rfl
  | some m =>
      simp only [hm, Option.getD_some, Option.any_some] at hrestart hterm hcrash ⊢
      simp only [hrestart, hterm, Option.isNone_none, Bool.not_false, Bool.and_true] at hcrash
      rw [hcrash]
      simp

/-- The row is to run, so a sweep that does not spawn it keeps its deadline. -/
theorem driven_termDeadline_of_running {m : Managed} (hrunning : app.desiredStatus ≠ "stopped")
    (hstart : ¬ Startable env app m) (result : Except String Pid) :
    (driven env app result m).termDeadline = m.termDeadline := by
  unfold driven
  rw [if_neg hrunning]
  split
  · rfl
  case isFalse hchild =>
    split
    · rfl
    case isFalse hpolicy =>
      split
      · rfl
      case isFalse hbackoff =>
        exact absurd ⟨hrunning, by simpa using hchild, hpolicy, not_lt.1 hbackoff⟩ hstart

/-- An app that is not held is not under way: the section does not start it. -/
theorem Exited.section (h : w.Exited policy app.name) (hunspent : w.Unspent policy app.name)
    (hheld : w.Held) (hnodup : (apps.map (·.name)).Nodup) (happ : app ∈ apps)
    (hrunning : app.desiredStatus ≠ "stopped") (hdue : ¬ w.Due env app) :
    (w.lockedSection paths env apps).Exited policy app.name := by
  have hentry : (w.lockedSection paths env apps).entry app.name = _ :=
    lockedSection_entry hheld hnodup happ
  obtain ⟨hchild, hrestarts, -, hrequested⟩ := driven_of_not_startable hdue
    ((w.reached paths env apps app.name).launchResult paths env app)
  have hterm := driven_termDeadline_of_running hrunning hdue
    ((w.reached paths env apps app.name).launchResult paths env app)
  rw [← hentry] at hchild hrestarts hrequested hterm
  have hgone : ∀ pid launch, ((w.lockedSection paths env apps).entry app.name).child = some pid →
      ¬ (w.lockedSection paths env apps).host.Runs pid launch := by
    intro pid launch hc hruns
    have hname : launch.app = app.name := by
      obtain ⟨launch', exit, hp, happ', -⟩ :=
        (hheld.lockedSection apps).started app.name _ pid (lookup_of_entry hc) hc
      unfold Host.Runs at hruns
      rw [hruns] at hp
      cases hp
      exact happ'
    have hbefore : w.host.Runs pid launch := by
      by_contra hnot
      refine lockedSection_not_starts hnodup (fun row hrow hrow' => ?_)
        ⟨pid, launch, hname, hruns, hnot⟩
      rw [eq_of_name_eq hnodup happ hrow hrow']
      exact hdue
    rw [hchild] at hc
    rw [afterReap_of_child (by rw [hc]; rfl)] at hc
    exact h.gone pid launch hc hbefore
  cases hcrash : w.crashes env app.name with
  | true =>
      rw [afterReap_of_crashes hcrash] at hrestarts hrequested hterm
      refine ⟨hgone, hrequested.trans h.restart, hterm.trans h.term, fun hnever _ => ?_⟩
      rw [hrestarts]
      -- the crash found a child, so under "never" the counter stood at 0
      obtain ⟨m, hm, hexit⟩ := (Option.any_eq_true _ _).1 hcrash
      simp only [Bool.and_eq_true, Option.isSome_iff_exists] at hexit
      obtain ⟨⟨⟨status, hstatus⟩, -⟩, -⟩ := hexit
      obtain ⟨pid, hpid, -⟩ := tryWait_eq_some hstatus
      have hsome : (w.entry app.name).child.isSome = true := by
        rw [entry_of_lookup hm, hpid]
        rfl
      have hzero := hunspent hnever hsome
      simp only [hzero]
      decide
  | false =>
      rw [afterReap_of_not_crashes h.restart h.term hcrash] at hchild hrestarts hrequested hterm
      refine ⟨hgone, hrequested.trans h.restart, hterm.trans h.term, fun hnever hc => ?_⟩
      rw [hrestarts]
      exact h.spent hnever (hchild.symm.trans hc)

end World

end Supervisor

namespace Daemon

open Api Config Interleaving Registry Store Supervisor

namespace Sys

/-- `stop_all` does not begin, and a section finds the app to run under this
policy; once the app is tracked, the snapshot names it. -/
def Fixed (name policy : String) (s : Sys) (a : Action) : Prop :=
  a.beginsStop = false ∧ s.AtSection (fun _ apps =>
    ((s.world.procs.lookup name).isSome = true → name ∈ apps.map (·.name)) ∧
      ∀ app ∈ apps, app.name = name →
        app.desiredStatus = "running" ∧ app.restartPolicy = policy) a

instance (name policy : String) (s : Sys) (a : Action) : Decidable (s.Fixed name policy a) :=
  inferInstanceAs (Decidable (_ ∧ _))

/-- The row is fixed, and no restart of the app is requested. -/
def Left (name policy : String) (s : Sys) (a : Action) : Prop :=
  s.Fixed name policy a ∧ ¬ s.Requests name a

instance (name policy : String) (s : Sys) (a : Action) : Decidable (s.Left name policy a) :=
  inferInstanceAs (Decidable (_ ∧ _))

/-- The same, and no section that begins finds the app ready. -/
def LeftUnready (name policy : String) (s : Sys) (a : Action) : Prop :=
  s.Left name policy a ∧ s.AtSection (fun env _ => ¬ s.world.Ready env name) a

instance (name policy : String) (s : Sys) (a : Action) : Decidable (s.LeftUnready name policy a) :=
  inferInstanceAs (Decidable (_ ∧ _))

end Sys

variable {paths : Paths} {crates : Crates} {name policy : String} {s s' s₀ s₁ : Sys} {a : Action}
  {env : Env} {apps : List AppRow} {app : AppRow}

/-- What holds in a run in which the app's row is fixed. -/
structure Ruled (name policy : String) (s : Sys) : Prop where
  supervised : Supervised s
  unspent : s.world.Unspent policy name
  stopping : s.stopping = none

theorem entry_of_not_mem {w : World} (hname : name ∉ apps.map (·.name)) :
    (w.lockedSection paths env apps).entry name = {} := by
  rw [World.entry, World.lockedSection_lookup_of_not_mem hname]
  rfl

theorem Ruled.step (h : Ruled name policy s) (hstep : Sys.Step paths crates s a s')
    (hfixed : s.Fixed name policy a) : Ruled name policy s' := by
  have hstop := hstep.not_stop h.stopping
  refine ⟨h.supervised.step hstep hstop, ?_, hstep.stopping_none h.stopping hfixed.1⟩
  rcases hstep.entries h.supervised hstop with ⟨env, apps, hsection, hworld, hnodup⟩ |
    ⟨-, ⟨env, other, -, hworld⟩ | ⟨-, hcores⟩⟩
  · rw [hworld]
    by_cases hname : name ∈ apps.map (·.name)
    · obtain ⟨app, happ, rfl⟩ := List.mem_map.1 hname
      exact h.unspent.section h.supervised.upkeep.held hnodup happ
        ((hfixed.2.of_sectionOf hsection).2 app happ rfl).2
    · intro _ hchild
      rw [entry_of_not_mem hname] at hchild
      cases hchild
  · by_cases hother : name = other
    · subst hother
      obtain ⟨-, hchild, hrestarts, -⟩ :=
        requestRestart_entry h.supervised.upkeep.coherent env name
      exact h.unspent.of_core (by rw [hworld, hchild]) (by rw [hworld, hrestarts])
    · have hentry := requestRestart_entry_ne env s.world hother
      rw [← hworld] at hentry
      exact h.unspent.of_core (by rw [hentry]) (by rw [hentry])
  · exact h.unspent.of_core (congrArg Core.child (hcores.entry name))
      (congrArg Core.restarts (hcores.entry name))

theorem ruled_reachable {guard : Sys → Action → Prop}
    (h : ReachableWhen (Sys.step paths crates) Sys.Started guard s)
    (hguard : ∀ s a, guard s a → s.Fixed name policy a) : Ruled name policy s := by
  refine h.invariant (I := Ruled name policy) (fun s hstarted => ?_)
    fun s a s' ih hs hstep => ih.step (Sys.step_cases hstep) (hguard s a hs)
  refine ⟨Supervised.of_started hstarted, fun _ hchild => ?_, hstarted.stopping⟩
  rw [World.entry, hstarted.procs] at hchild
  cases hchild

/-- The entries after a step that concerns another app. -/
theorem exited_of_entry {w w' : World} (h : w.Exited policy name)
    (hentry : (w'.entry name).core = (w.entry name).core)
    (hran : ∀ pid launch, w'.host.Runs pid launch → w.host.Runs pid launch) :
    w'.Exited policy name where
  gone := fun pid launch hc hruns =>
    h.gone pid launch ((congrArg Core.child hentry).symm.trans hc) (hran pid launch hruns)
  restart := (congrArg Core.restartRequested hentry).trans h.restart
  term := (congrArg Core.termDeadline hentry).trans h.term
  spent := by
    have hchild : (w'.entry name).child = (w.entry name).child := congrArg Core.child hentry
    have hrestarts : (w'.entry name).restarts = (w.entry name).restarts :=
      congrArg Core.restarts hentry
    rw [hchild, hrestarts]
    exact h.spent

/-- As long as it is not due, an exited app stays so. -/
theorem exited_step (h : s.world.Exited policy name) (hruled : Ruled name policy s)
    (hstep : Sys.Step paths crates s a s') (hleft : s.Left name policy a)
    (hdue : ∀ env apps app, s.sectionOf a = some (env, apps) → app ∈ apps → app.name = name →
      ¬ s.world.Due env app) : s'.world.Exited policy name := by
  have hstop := hstep.not_stop hruled.stopping
  rcases hstep.entries hruled.supervised hstop with ⟨env, apps, hsection, hworld, hnodup⟩ |
    ⟨hsection, ⟨env, other, hother, hworld⟩ | ⟨-, hcores⟩⟩
  · rw [hworld]
    obtain ⟨htracked, hrow⟩ := hleft.1.2.of_sectionOf hsection
    by_cases hname : name ∈ apps.map (·.name)
    · obtain ⟨app, happ, rfl⟩ := List.mem_map.1 hname
      refine h.section hruled.unspent hruled.supervised.upkeep.held hnodup happ ?_
        (hdue env apps app hsection happ rfl)
      rw [(hrow app happ rfl).1]
      decide
    · have hnone : s.world.procs.lookup name = none := by
        by_contra hsome
        exact hname (htracked (Option.isSome_iff_ne_none.2 hsome))
      have hbefore : s.world.entry name = {} := by
        rw [World.entry, hnone]
        rfl
      have hspent := h.spent
      rw [hbefore] at hspent
      constructor
      · intro pid launch hc
        rw [entry_of_not_mem hname] at hc
        cases hc
      · rw [entry_of_not_mem hname]
      · rw [entry_of_not_mem hname]
      · rw [entry_of_not_mem hname]
        exact hspent
  · have hne : name ≠ other := by
      rintro rfl
      exact hleft.2 hother
    refine exited_of_entry h ?_ fun pid launch => hstep.ran hruled.supervised hstop hsection
    rw [hworld, requestRestart_entry_ne env _ hne]
  · exact exited_of_entry h (hcores.entry name) fun pid launch =>
      hstep.ran hruled.supervised hstop hsection

/-- A process that exits with nothing pending leaves its app's entry exited. -/
theorem exited_of_exit {m : Managed} {pid : Pid}
    {status : ExitStatus} (hm : s₀.world.procs.lookup name = some m)
    (hchild : m.child = some pid) (hterm : m.termDeadline = none)
    (hrestart : m.restartRequested = false)
    (hstep : Sys.Step paths crates s₀ (.exit pid status) s₁) :
    s₁.world.Exited policy name := by
  cases hstep with
  | exit pid status launch hp =>
      have hentry : (s₀.world.setProcess pid (some { launch, exit := some status })).entry name =
          m := World.entry_of_lookup hm
      constructor
      · intro q launch' hc hruns
        rw [hentry, hchild, Option.some.injEq] at hc
        subst hc
        rcases World.runs_setProcess hruns with ⟨-, h⟩ | ⟨h, -⟩
        · cases h
        · exact h rfl
      · rw [hentry, hrestart]
      · rw [hentry, hterm]
      · rw [hentry, hchild]
        exact fun _ h => by cases h

/-- A ready app that is not spent is due, and a spent one is not. -/
theorem due_of_ready (h : s.world.Ready env app.name) (hrunning : app.desiredStatus ≠ "stopped") :
    s.world.Due env app ↔
      ¬(app.restartPolicy = "never" ∧ 0 < (s.world.entry app.name).restarts) := by
  unfold World.Due
  rw [World.afterReap_of_no_child h.1]
  exact ⟨fun hdue => hdue.2.2.1, fun hpolicy => ⟨hrunning, h.1, hpolicy, h.2⟩⟩

/-- A crash that is seen now puts the deadline into the future. -/
theorem ready_of_due (h : s.world.Exited policy app.name) (hdue : s.world.Due env app) :
    s.world.Ready env app.name := by
  cases hcrash : s.world.crashes env app.name with
  | true =>
      have hbackoff := hdue.2.2.2
      rw [World.afterReap_of_crashes hcrash] at hbackoff
      exact absurd hbackoff (not_le.2 (lt_add_of_pos_right _ (backoffSecs_pos _)))
  | false =>
      have hsame := World.afterReap_of_not_crashes h.restart h.term hcrash
      obtain ⟨-, hchild, -, hbackoff⟩ := hdue
      rw [hsame] at hchild hbackoff
      exact ⟨hchild, hbackoff⟩

/-- The first pass that finds an exited app ready starts it, unless its policy is
"never"; that is what the policy asks for, unless it is "on-failure" and the exit
was a success. Under "never" no later step starts it. -/
theorem restart_policy_kept
    (h : ReachableWhen (Sys.step paths crates) Sys.Started (Sys.Fixed name policy) s₀)
    {m : Managed} {pid : Pid} {status : ExitStatus} (hm : s₀.world.procs.lookup name = some m)
    (hchild : m.child = some pid) (hterm : m.termDeadline = none)
    (hrestart : m.restartRequested = false)
    (hexit : s₀.step paths crates (.exit pid status) = some s₁)
    (hpolicy : policy = "always" ∨ policy = "on-failure" ∨ policy = "never") :
    (∀ s a env apps app s',
      ReachableWhen (Sys.step paths crates) (· = s₁) (Sys.LeftUnready name policy) s →
      s.Left name policy a → s.sectionOf a = some (env, apps) → app ∈ apps → app.name = name →
      s.world.Ready env name → s.world.spawnOk paths env apps app = true →
      s.step paths crates a = some s' →
        ((World.Starts name s.world s'.world ↔ MustRestart policy status) ↔
          ¬(policy = "on-failure" ∧ status = .code 0))) ∧
    (policy = "never" → ∀ s a s',
      ReachableWhen (Sys.step paths crates) (· = s₁) (Sys.Left name policy) s →
      s.Left name policy a → s.step paths crates a = some s' →
        ¬ World.Starts name s.world s'.world) := by
  have hruled := ruled_reachable h fun _ _ h => h
  have hstep₁ := Sys.step_cases hexit
  have hruled₁ : Ruled name policy s₁ := hruled.step hstep₁ ⟨rfl, trivial⟩
  have hexited₁ : s₁.world.Exited policy name :=
    exited_of_exit hm hchild hterm hrestart hstep₁
  constructor
  · intro s a env apps app s' hreach hleft hsection happ hname hready hok hs
    obtain ⟨hruled, hexited⟩ : Ruled name policy s ∧ s.world.Exited policy name := by
      refine hreach.invariant (I := fun s => Ruled name policy s ∧ s.world.Exited policy name)
        ?_ ?_
      · rintro _ rfl
        exact ⟨hruled₁, hexited₁⟩
      · rintro s a s' ⟨hruled, hexited⟩ ⟨hleft, hunready⟩ hs
        have hstep := Sys.step_cases hs
        refine ⟨hruled.step hstep hleft.1, exited_step hexited hruled hstep hleft ?_⟩
        rintro env apps app hsection - rfl hdue
        exact hunready.of_sectionOf hsection (ready_of_due hexited hdue)
    subst hname
    have hstep := Sys.step_cases hs
    have hrow := (hleft.1.2.of_sectionOf hsection).2 app happ rfl
    have hdue := due_of_ready hready (by rw [hrow.1]; decide)
    rcases hstep.entries hruled.supervised (hstep.not_stop hruled.stopping) with
      ⟨env', apps', hsection', hworld, hnodup⟩ | ⟨hnone, -⟩
    · rw [hsection] at hsection'
      cases hsection'
      have hstarts : World.Starts app.name s.world s'.world ↔ policy ≠ "never" := by
        rw [hworld]
        constructor
        · rintro hstarts rfl
          refine World.lockedSection_not_starts hnodup (fun row hrow' hname => ?_) hstarts
          rw [World.eq_of_name_eq hnodup happ hrow' hname, hdue, not_not]
          exact ⟨hrow.2, hexited.spent rfl hready.1⟩
        · intro hnever
          refine World.lockedSection_starts hruled.supervised.upkeep.held hnodup happ ?_ hok
          exact hdue.2 fun h => hnever (hrow.2.symm.trans h.1)
      rw [hstarts]
      unfold MustRestart
      rcases hpolicy with rfl | rfl | rfl <;> simp
    · rw [hsection] at hnone
      cases hnone
  · rintro rfl s a s' hreach hleft hs
    have hnot {s : Sys} {env : Env} {apps : List AppRow} {app : AppRow} {a : Action}
        (hexited : s.world.Exited "never" name) (hleft : s.Left name "never" a)
        (hsection : s.sectionOf a = some (env, apps)) (happ : app ∈ apps)
        (hname : app.name = name) : ¬ s.world.Due env app := by
      subst hname
      intro hdue
      have hrow := (hleft.1.2.of_sectionOf hsection).2 app happ rfl
      have hready := ready_of_due hexited hdue
      exact (due_of_ready hready hdue.1).1 hdue ⟨hrow.2, hexited.spent rfl hready.1⟩
    obtain ⟨hruled, hexited⟩ : Ruled name "never" s ∧ s.world.Exited "never" name := by
      refine hreach.invariant (I := fun s => Ruled name "never" s ∧ s.world.Exited "never" name)
        ?_ ?_
      · rintro _ rfl
        exact ⟨hruled₁, hexited₁⟩
      · rintro s a s' ⟨hruled, hexited⟩ hleft hs
        have hstep := Sys.step_cases hs
        exact ⟨hruled.step hstep hleft.1, exited_step hexited hruled hstep hleft
          fun env apps app hsection happ hname => hnot hexited hleft hsection happ hname⟩
    have hstep := Sys.step_cases hs
    rcases hstep.entries hruled.supervised (hstep.not_stop hruled.stopping) with
      ⟨env, apps, hsection, hworld, hnodup⟩ | ⟨hsection, -⟩
    · rw [hworld]
      exact World.lockedSection_not_starts hnodup fun app happ hname =>
        hnot hexited hleft hsection happ hname
    · exact World.not_starts_of_ran fun pid launch =>
        hstep.ran hruled.supervised (hstep.not_stop hruled.stopping) hsection

section Runs

abbrev stepA : Sys → Action → Option Sys :=
  Sys.step (Paths.ofRoot "/r") (Crates.plainCrates [] [])

/-- One pass records the exit, and the next is about to enter its section. -/
def recordRun : List Action :=
  [.arrive .reconcileTick] ++ calls 1 3 ++ [.arrive .reconcileTick] ++ calls 2 2

/-- What a pass at time 60 meets. -/
def retryEnv : Env := { launches 2 with now := 60 }

/-- Deployed under "on-failure", the instance exits, and after its backoff a second
one starts. -/
theorem retry_run {status : ExitStatus} (h : status = .code 7 ∨ status = .code 0) :
    ∃ s₀ s₁ s s' m apps app,
      runWhen stepA (Sys.Fixed "a" "on-failure") {} (deployRun 0 1) = some s₀ ∧
      s₀.world.procs.lookup "a" = some m ∧ m.child = some 1 ∧ m.termDeadline = none ∧
      m.restartRequested = false ∧ stepA s₀ (.exit 1 status) = some s₁ ∧
      runWhen stepA (Sys.LeftUnready "a" "on-failure") s₁ recordRun = some s ∧
      s.Left "a" "on-failure" (.run 2 retryEnv) ∧ s.section? 2 = some apps ∧ app ∈ apps ∧
      app.name = "a" ∧ s.world.Ready retryEnv "a" ∧
      s.world.spawnOk (Paths.ofRoot "/r") retryEnv apps app = true ∧
      stepA s (.run 2 retryEnv) = some s' ∧ runningApp s.world 2 = none ∧
      runningApp s'.world 2 = some "a" := by
  have hrun : (runWhen stepA (Sys.Fixed "a" "on-failure") {} (deployRun 0 1)).bind (fun s₀ =>
      (stepA s₀ (.exit 1 status)).bind fun s₁ =>
        (runWhen stepA (Sys.LeftUnready "a" "on-failure") s₁ recordRun).bind fun s =>
          (stepA s (.run 2 retryEnv)).map fun s' =>
            ((s₀.world.procs.lookup "a").any (fun m => decide (m.child = some 1 ∧
                m.termDeadline = none ∧ m.restartRequested = false)) &&
              decide (s.Left "a" "on-failure" (.run 2 retryEnv)) &&
              decide (s.world.Ready retryEnv "a") &&
              (s.section? 2).any fun apps => apps.any fun app => app.name = "a" &&
                s.world.spawnOk (Paths.ofRoot "/r") retryEnv apps app,
              runningApp s.world 2, runningApp s'.world 2)) = some (true, none, some "a") := by
    rcases h with rfl | rfl <;> decide
  obtain ⟨s₀, hs₀, hrun⟩ := Option.bind_eq_some_iff.1 hrun
  obtain ⟨s₁, hs₁, hrun⟩ := Option.bind_eq_some_iff.1 hrun
  obtain ⟨s, hs, hrun⟩ := Option.bind_eq_some_iff.1 hrun
  obtain ⟨s', hs', hval⟩ := Option.map_eq_some_iff.1 hrun
  obtain ⟨hbools, hval⟩ := Prod.mk.inj hval
  obtain ⟨hbefore, hafter⟩ := Prod.mk.inj hval
  simp only [Bool.and_eq_true, decide_eq_true_eq] at hbools
  obtain ⟨⟨⟨hentry, hleft⟩, hready⟩, hrows⟩ := hbools
  obtain ⟨m, hm, hfields⟩ := (Option.any_eq_true _ _).1 hentry
  obtain ⟨hchild, hterm, hrestart⟩ := of_decide_eq_true hfields
  obtain ⟨apps, happs, hany⟩ := (Option.any_eq_true _ _).1 hrows
  obtain ⟨app, happ, hrow⟩ := List.any_eq_true.1 hany
  simp only [Bool.and_eq_true, decide_eq_true_eq] at hrow
  exact ⟨s₀, s₁, s, s', m, apps, app, hs₀, hm, hchild, hterm, hrestart, hs₁, hs, hleft, happs, happ,
    hrow.1, hready, hrow.2, hs', hbefore, hafter⟩

theorem restart_policy_kept_crash :
    ∃ s₀ s₁ s s', runWhen stepA (Sys.Fixed "a" "on-failure") {} (deployRun 0 1) = some s₀ ∧
      stepA s₀ (.exit 1 (.code 7)) = some s₁ ∧
      runWhen stepA (Sys.LeftUnready "a" "on-failure") s₁ recordRun = some s ∧
      stepA s (.run 2 retryEnv) = some s' ∧
      ((World.Starts "a" s.world s'.world ↔ MustRestart "on-failure" (.code 7)) ↔
        ¬("on-failure" = "on-failure" ∧ ExitStatus.code 7 = .code 0)) := by
  obtain ⟨s₀, s₁, s, s', m, apps, app, hs₀, hm, hchild, hterm, hrestart, hs₁, hs, hleft, happs,
    happ, hname, hready, hok, hs', -⟩ := retry_run (Or.inl rfl)
  have hsection := Sys.sectionOf_of_section happs retryEnv
  exact ⟨s₀, s₁, s, s', hs₀, hs₁, hs, hs', (restart_policy_kept
    (ReachableWhen.runWhen (.start fresh_default.started) hs₀) hm hchild hterm hrestart hs₁
    (Or.inr (Or.inl rfl))).1 s _ _ _ app s' (ReachableWhen.runWhen (.start rfl) hs) hleft hsection
    happ hname hready hok hs'⟩

/-- Under "on-failure" an instance that exits with code 0 is started again. -/
theorem clean_exit_restarted :
    ¬ ∀ (paths : Paths) (crates : Crates) (name : String) (s₀ s₁ : Sys) (m : Managed) (pid : Pid),
      ReachableWhen (Sys.step paths crates) Sys.Started (Sys.Fixed name "on-failure") s₀ →
      s₀.world.procs.lookup name = some m → m.child = some pid → m.termDeadline = none →
      m.restartRequested = false → s₀.step paths crates (.exit pid (.code 0)) = some s₁ →
        ∀ s a s', ReachableWhen (Sys.step paths crates) (· = s₁) (Sys.Left name "on-failure") s →
          s.Left name "on-failure" a → s.step paths crates a = some s' →
            ¬ World.Starts name s.world s'.world := by
  intro h
  obtain ⟨s₀, s₁, s, s', m, apps, app, hs₀, hm, hchild, hterm, hrestart, hs₁, hs, hleft, -, -, -,
    -, -, hs', hbefore, hafter⟩ := retry_run (Or.inr rfl)
  have hreach : ReachableWhen stepA (· = s₁) (Sys.LeftUnready "a" "on-failure") s :=
    ReachableWhen.runWhen (.start rfl) hs
  obtain ⟨launch, hruns, hname⟩ := runs_of_runningApp hafter
  refine h _ _ "a" s₀ s₁ m 1 (ReachableWhen.runWhen (.start fresh_default.started) hs₀) hm hchild
    hterm hrestart hs₁ s _ s' (hreach.mono fun _ _ h => h.1) hleft hs' ⟨2, launch, hname, hruns, ?_⟩
  intro hold
  unfold Host.Runs at hold
  unfold runningApp at hbefore
  rw [hold] at hbefore
  cases hbefore

end Runs

end Daemon

end Nockd
