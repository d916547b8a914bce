import Nockd.Daemon.Recall

/-!
# Stale observations

The loops of the daemon record the health, the status line and the resources of an app. A
pass clears health and status line when it sees the end of a stop and while an app is to be
stopped, and never clears the resources. So what it leaves of an app that has no process, and
that it does not start, depends on what was recorded before.
-/

namespace Nockd

namespace Supervisor.World

open Config Registry Store Supervisor

/-- An instance of the app runs. -/
def Live (w : World) (name : String) : Prop :=
  ∃ pid launch, w.host.Runs pid launch ∧ launch.app = name

/-- The first sweep sees the end of a stop of the app. -/
def endsStop (env : Env) (w : World) (name : String) : Bool :=
  (w.procs.lookup name).any fun m =>
    (w.tryWait env name m.child).isSome && !m.restartRequested && m.termDeadline.isSome

variable {paths : Paths} {env : Env} {w : World} {apps : List AppRow} {app : AppRow}
  {name : String}

/-- After a section run those apps that ran before and those that it starts. -/
theorem live_lockedSection_iff (hheld : w.Held) (hnodup : (apps.map (·.name)).Nodup)
    (happ : app ∈ apps) :
    (w.lockedSection paths env apps).Live app.name ↔
      w.Live app.name ∨ w.Due env app ∧ w.spawnOk paths env apps app = true := by
  rw [← lockedSection_starts_iff hheld hnodup happ]
  constructor
  · rintro ⟨pid, launch, hruns, hname⟩
    by_cases hran : w.host.Runs pid launch
    · exact Or.inl ⟨pid, launch, hran, hname⟩
    · exact Or.inr ⟨pid, launch, hname, hruns, hran⟩
  · rintro (⟨pid, launch, hruns, hname⟩ | ⟨pid, launch, hname, hruns, -⟩)
    · refine ⟨pid, launch, ?_, hname⟩
      rw [lockedSection_eq_rounds]
      exact rounds_keep (P := fun w => w.host.Runs pid launch) hruns
        (fun w' r hr hw' => round_runs (listed_of_mem_rounds hr) hw') (List.append_nil _).symm
    · exact ⟨pid, launch, hruns, hname⟩

/-! ## The first sweep and the observations -/

theorem afterReap_resources (name : String) :
    (w.afterReap env name).cpuPct = (w.entry name).cpuPct ∧
      (w.afterReap env name).rssBytes = (w.entry name).rssBytes := by
  unfold afterReap entry
  cases hm : w.procs.lookup name with
  | none => exact ⟨rfl, rfl⟩
  | some m =>
      simp only [Option.getD_some]
      split
      · unfold Managed.reaped
        split
        · exact ⟨rfl, rfl⟩
        · split <;> exact ⟨rfl, rfl⟩
      · exact ⟨rfl, rfl⟩

theorem afterReap_probes_iff (name : String) :
    (w.afterReap env name).health = .unknown ∧ (w.afterReap env name).statusLine = none ↔
      w.endsStop env name = true ∨
        (w.entry name).health = .unknown ∧ (w.entry name).statusLine = none := by
  unfold afterReap endsStop entry
  cases hm : w.procs.lookup name with
  | none => simp
  | some m =>
      simp only [Option.any_some, Option.getD_some]
      cases hexit : (w.tryWait env name m.child).isSome with
      | false => simp
      | true =>
          unfold Managed.reaped
          cases hrestart : m.restartRequested with
          | true => simp
          | false => cases hterm : m.termDeadline <;> simp

/-- The exit of a child that does not run is seen, unless `try_wait` fails. -/
theorem afterReap_child_iff (hupkeep : w.Upkeep) (hlive : ¬ w.Live name) :
    (w.afterReap env name).child = none ↔
      ((w.entry name).child.isSome = true → env.tryWaitErr name = false) := by
  unfold afterReap entry
  cases hm : w.procs.lookup name with
  | none => simp
  | some m =>
      simp only [Option.getD_some]
      cases hchild : m.child with
      | none => simp [tryWait, hchild]
      | some pid =>
          obtain ⟨launch, exit, hp, hname, -⟩ := hupkeep.owned name pid ⟨m, hm, hchild⟩
          cases exit with
          | none => exact absurd ⟨pid, launch, hp, hname⟩ hlive
          | some status => cases herr : env.tryWaitErr name <;> simp [tryWait, herr, hp, hchild]

end Supervisor.World

namespace Daemon

open Api Config Interleaving Registry Store Supervisor

/-- The status of an app shows nothing of a process. -/
structure Blank (st : RuntimeStatus) : Prop where
  pid : st.pid = none
  cpuPct : st.cpuPct = none
  rssBytes : st.rssBytes = none
  statusLine : st.statusLine = none
  health : st.health = .unknown

/-- What the section does not clear of the app's entry is not there: a child whose exit
`try_wait` hides, readings of the resources, and what was probed, unless the app is to
be stopped or the section sees the end of a stop. -/
structure Cleared (env : Env) (w : World) (app : AppRow) : Prop where
  seen : (w.entry app.name).child.isSome = true → env.tryWaitErr app.name = false
  resources : (w.entry app.name).cpuPct = none ∧ (w.entry app.name).rssBytes = none
  probes : app.desiredStatus = "stopped" ∨ w.endsStop env app.name = true ∨
    (w.entry app.name).health = .unknown ∧ (w.entry app.name).statusLine = none

instance (env : Env) (w : World) (app : AppRow) : Decidable (Cleared env w app) :=
  decidable_of_iff (_ ∧ _ ∧ _)
    ⟨fun h => ⟨h.1, h.2.1, h.2.2⟩, fun h => ⟨h.seen, h.resources, h.probes⟩⟩

variable {paths : Paths} {crates : Crates} {env : Env} {app : AppRow} {apps : List AppRow}
  {m : Managed} {s s' : Sys} {a : Action} {w : World}

/-- What the third sweep leaves of an app that it does not start. -/
theorem blank_driven_iff (hcoherent : m.Coherent) {result : Except String Pid}
    (hnot : ¬ (World.Startable env app m ∧ result.isOk = true)) :
    Blank (statusOf (World.driven env app result m)) ↔
      m.child = none ∧ (m.cpuPct = none ∧ m.rssBytes = none) ∧
        (app.desiredStatus = "stopped" ∨ m.health = .unknown ∧ m.statusLine = none) := by
  have hunknown : Blank (statusOf (World.driven env app result m)) ↔
      (World.driven env app result m).pid = none ∧
        ((World.driven env app result m).cpuPct = none ∧
          (World.driven env app result m).rssBytes = none) ∧
        (World.driven env app result m).health = .unknown ∧
          (World.driven env app result m).statusLine = none :=
    ⟨fun h => ⟨h.pid, ⟨h.cpuPct, h.rssBytes⟩, h.health, h.statusLine⟩,
      fun h => ⟨h.1, h.2.1.1, h.2.1.2, h.2.2.2, h.2.2.1⟩⟩
  rw [hunknown, ← hcoherent.pid]
  unfold World.driven
  by_cases hstopped : app.desiredStatus = "stopped"
  · cases hchild : m.child with
    | none => simp [hstopped, hchild, Managed.idle]
    | some pid =>
        have hpid : m.pid = some pid := hcoherent.pid.trans hchild
        cases hterm : m.termDeadline <;> simp [hstopped, hchild, hpid, Managed.terminating]
  · cases hchild : m.child with
    | some pid =>
        have hpid : m.pid = some pid := hcoherent.pid.trans hchild
        simp [hstopped, hpid]
    | none =>
        rw [if_neg hstopped, if_neg (by simp)]
        split
        · simp [hstopped]
        case isFalse hpolicy =>
          split
          · simp [hstopped]
          case isFalse hbackoff =>
            cases result with
            | error e => simp [hstopped, Managed.spawnFailed]
            | ok pid => exact absurd ⟨⟨hstopped, hchild, hpolicy, not_lt.1 hbackoff⟩, rfl⟩ hnot

theorem blank_lockedSection_iff (hupkeep : w.Upkeep) (hnodup : (apps.map (·.name)).Nodup)
    (happ : app ∈ apps) (hlive : ¬ w.Live app.name)
    (hstart : ¬(w.Due env app ∧ w.spawnOk paths env apps app = true)) :
    (∀ m ∈ (w.lockedSection paths env apps).procs.lookup app.name, Blank (statusOf m)) ↔
      Cleared env w app := by
  have hcoherent : (w.afterReap env app.name).Coherent := by
    unfold World.afterReap
    cases hm : w.procs.lookup app.name with
    | none => exact Managed.coherent_default
    | some m =>
        simp only
        split
        · exact Managed.coherent_reaped m env.now
        · exact hupkeep.coherent _ m hm
  obtain ⟨hcpu, hrss⟩ := @World.afterReap_resources env w app.name
  rw [World.lockedSection_lookup hupkeep.held.sole hnodup happ]
  simp only [Option.mem_def, Option.some.injEq, forall_eq']
  rw [blank_driven_iff hcoherent hstart, World.afterReap_child_iff hupkeep hlive, hcpu, hrss,
    World.afterReap_probes_iff]
  exact ⟨fun h => ⟨h.1, h.2.1, h.2.2⟩, fun h => ⟨h.seen, h.resources, h.probes⟩⟩

/-- In every state that the daemon reaches before `stop_all` begins, a pass leaves every app
without a process blank if and only if all that it does not clear of such an app, and does
not start, is not there when its section begins. -/
theorem blank_iff (h : Reachable (Sys.step paths crates) Sys.Started s)
    (hsection : s.sectionOf a = some (env, apps)) (hs : s.step paths crates a = some s')
    (hstop : s'.stopping = none) :
    (∀ name, ¬ s'.world.Live name → ∀ m ∈ s'.world.procs.lookup name, Blank (statusOf m)) ↔
      ∀ app ∈ apps, ¬ s.world.Live app.name →
        ¬(s.world.Due env app ∧ s.world.spawnOk paths env apps app = true) →
          Cleared env s.world app := by
  have hstep := Sys.step_cases hs
  obtain ⟨hbefore, hnot⟩ := hstep.of_not_stopping hstop
  have hsupervised := supervised_reachable h hbefore
  have hheld := hsupervised.upkeep.held
  rcases hstep.entries hsupervised hnot with ⟨env', apps', hfound, hworld, hnodup⟩ | ⟨hnone, -⟩
  · rw [hsection, Option.some.injEq, Prod.mk.injEq] at hfound
    obtain ⟨rfl, rfl⟩ := hfound
    rw [hworld]
    constructor
    · intro h app happ hlive hstart
      refine (blank_lockedSection_iff hsupervised.upkeep hnodup happ hlive hstart).1 (h _ ?_)
      rw [World.live_lockedSection_iff hheld hnodup happ]
      exact not_or.2 ⟨hlive, hstart⟩
    · intro h name hlive m hm
      have hname : name ∈ apps.map (·.name) := by
        by_contra hmissing
        rw [World.lockedSection_lookup_of_not_mem hmissing] at hm
        cases hm
      obtain ⟨app, happ, rfl⟩ := List.mem_map.1 hname
      rw [World.live_lockedSection_iff hheld hnodup happ, not_or] at hlive
      exact (blank_lockedSection_iff hsupervised.upkeep hnodup happ hlive.1 hlive.2).2
        (h app happ hlive.1 hlive.2) m hm
  · rw [hsection] at hnone
    cases hnone

section Runs

theorem not_live_of_orderly (h : Orderly s) {name : String}
    (hchild : (s.world.entry name).child = none) : ¬ s.world.Live name := by
  rintro ⟨pid, launch, hruns, rfl⟩
  obtain ⟨m, hm, hheld⟩ := (h.tidy.tracked pid launch hruns).resolve_right (by simp [h.tidy.taken])
  rw [World.entry_of_lookup hm, hheld] at hchild
  cases hchild

/-- The instance exits on its own, and a pass is about to see it. -/
def exitedRun (i : ℕ) : List Action :=
  [.exit 1 (.code 7), .arrive .reconcileTick] ++ calls i 2

/-- The sampler finds the instance to have used some memory. -/
def sampledRun : List Action :=
  deployRun 0 1 ++ [.arrive .sampleTick] ++ calls 1 2 ++
    [.run 1 { sample := fun _ => some (0, 4096) }] ++ calls 1 1 ++ exitedRun 2

/-- The app has no process, and the memory that was sampled is on show. -/
def showsMemory (s : Sys) : Bool :=
  s.stopping.isNone && decide ((s.world.entry "a").child = none) &&
    (s.world.procs.lookup "a").any fun m => m.rssBytes.isSome

theorem stale_observations :
    ¬ ∀ (paths : Paths) (crates : Crates) (s s' : Sys) (a : Action) (env : Env)
      (apps : List AppRow), Reachable (Sys.step paths crates) Sys.Started s →
      s.sectionOf a = some (env, apps) → s.step paths crates a = some s' → s'.stopping = none →
        ∀ name, ¬ s'.world.Live name → ∀ m ∈ s'.world.procs.lookup name, Blank (statusOf m) := by
  intro h
  have hrun : (runWhen (Sys.step (Paths.ofRoot "/r") (Crates.plainCrates [] [])) Sys.Atomic {}
      sampledRun).map (fun s => (decide (s.Atomic (.run 2 {})), (s.section? 2).isSome,
        (s.step (Paths.ofRoot "/r") (Crates.plainCrates [] []) (.run 2 {})).map showsMemory)) =
        some (true, true, some true) := by
    decide
  obtain ⟨s, hs, hval⟩ := Option.map_eq_some_iff.1 hrun
  obtain ⟨hatomic, hval⟩ := Prod.mk.inj hval
  obtain ⟨hsection, hstep⟩ := Prod.mk.inj hval
  obtain ⟨apps, happs⟩ := Option.isSome_iff_exists.1 hsection
  obtain ⟨s', hs', hshows⟩ := Option.map_eq_some_iff.1 hstep
  have hreach : ReachableWhen (Sys.step (Paths.ofRoot "/r") (Crates.plainCrates [] [])) Sys.Fresh
      Sys.Atomic s := .runWhen (.start fresh_default) hs
  have horderly := orderly_reachable (.step hreach (of_decide_eq_true hatomic) hs')
  simp only [showsMemory, Bool.and_eq_true, decide_eq_true_eq, Option.isNone_iff_eq_none] at hshows
  obtain ⟨⟨hnone, hchild⟩, hshown⟩ := hshows
  obtain ⟨m, hm, hrss⟩ := (Option.any_eq_true _ _).1 hshown
  have hstarted := ReachableWhen.runWhen (.start fresh_default.started) hs
  have hblank := h _ _ s s' _ {} apps (hstarted.mono fun _ _ _ => trivial)
    (Sys.sectionOf_of_section happs _) hs' hnone "a" (not_live_of_orderly horderly hchild) m hm
  rw [show m.rssBytes = none from hblank.rssBytes] at hrss
  cases hrss

/-- An instance that was never sampled exits, and waits for its next start. -/
theorem blank_iff_exitedRun :
    ∃ s s' m, run (Sys.step (Paths.ofRoot "/r") (Crates.plainCrates [] [])) {}
        (deployRun 0 1 ++ exitedRun 1) = some s ∧
      s.step (Paths.ofRoot "/r") (Crates.plainCrates [] []) (.run 1 {}) = some s' ∧
      s'.world.procs.lookup "a" = some m ∧ m.state = .backoff ∧
      ∀ name, ¬ s'.world.Live name → ∀ m ∈ s'.world.procs.lookup name, Blank (statusOf m) := by
  have hrun : (run (Sys.step (Paths.ofRoot "/r") (Crates.plainCrates [] [])) {}
      (deployRun 0 1 ++ exitedRun 1)).map (fun s =>
        ((s.section? 1).map fun apps => decide (∀ app ∈ apps, Cleared {} s.world app),
          (s.step (Paths.ofRoot "/r") (Crates.plainCrates [] []) (.run 1 {})).map fun s' =>
            (s'.stopping.isNone, (s'.world.procs.lookup "a").map (·.state)))) =
        some (some true, some (true, some .backoff)) := by
    decide
  obtain ⟨s, hs, hval⟩ := Option.map_eq_some_iff.1 hrun
  obtain ⟨hsection, hstep⟩ := Prod.mk.inj hval
  obtain ⟨apps, happs, hcleared⟩ := Option.map_eq_some_iff.1 hsection
  obtain ⟨s', hs', hafter⟩ := Option.map_eq_some_iff.1 hstep
  obtain ⟨hnone, hentry⟩ := Prod.mk.inj hafter
  obtain ⟨m, hm, hstate⟩ := Option.map_eq_some_iff.1 hentry
  exact ⟨s, s', m, hs, hs', hm, hstate,
    (blank_iff (ReachableWhen.runWhen (.start fresh_default.started) hs)
      (Sys.sectionOf_of_section happs _) hs' (Option.isNone_iff_eq_none.1 hnone)).2
      fun app happ _ _ => of_decide_eq_true hcleared app happ⟩

end Runs

end Daemon

end Nockd
