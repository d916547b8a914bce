import Nockd.Daemon.Passes

/-!
# The reported run state

At the end of a pass the state of an app says whether a child is held and whether its
termination is pending. The branch for stopped apps leaves the state alone when a
termination is pending already, which a restart request may have begun without showing it.
-/

namespace Nockd

namespace Daemon

open Api Config Interleaving Registry Store Supervisor

/-- What the state of an entry says. Every desired status but `stopped` counts as running. -/
structure Truthful (app : AppRow) (m : Managed) : Prop where
  running : m.state = .running → m.child.isSome = true ∧ m.termDeadline = none
  stopping : m.state = .stopping ↔ m.child.isSome = true ∧ m.termDeadline.isSome = true
  stopped : m.state = .stopped → m.child = none ∧ app.desiredStatus = "stopped"
  waiting : m.state = .backoff ∨ m.state = .crashed →
    m.child = none ∧ app.desiredStatus ≠ "stopped"

/-- A pending termination of an app that is to be stopped shows already, unless its end is
seen now. -/
def StopsShown (w : World) (env : Env) (apps : List AppRow) : Prop :=
  ∀ app ∈ apps, app.desiredStatus = "stopped" → ∀ m ∈ w.procs.lookup app.name,
    m.child.isSome = true → w.tryWait env app.name m.child = none →
      m.termDeadline.isSome = true → m.state = .stopping

instance (w : World) (env : Env) (apps : List AppRow) : Decidable (StopsShown w env apps) :=
  inferInstanceAs (Decidable (∀ app ∈ apps, _))

variable {paths : Paths} {crates : Crates} {env : Env} {app : AppRow} {apps : List AppRow}
  {m : Managed} {s s' : Sys} {a : Action} {w : World}

theorem truthful_held (hchild : m.child.isSome = true)
    (hstate : m.state = if m.termDeadline.isSome then .stopping else .running) :
    Truthful app m := by
  cases hterm : m.termDeadline with
  | none =>
      have hrunning : m.state = .running := by rw [hstate, hterm]; rfl
      constructor <;> simp [hrunning, hterm, hchild]
  | some d =>
      have hstopping : m.state = .stopping := by rw [hstate, hterm]; rfl
      constructor <;> simp [hstopping, hterm, hchild]

theorem truthful_stopped (hchild : m.child = none) (hstate : m.state = .stopped)
    (hdesired : app.desiredStatus = "stopped") : Truthful app m := by
  constructor <;> simp [hstate, hchild, hdesired]

theorem truthful_waiting (hchild : m.child = none)
    (hstate : m.state = .backoff ∨ m.state = .crashed)
    (hdesired : app.desiredStatus ≠ "stopped") : Truthful app m := by
  rcases hstate with hstate | hstate <;> constructor <;> simp [hstate, hchild, hdesired]

/-- The third sweep leaves a truthful state, unless the app is to be stopped and its
termination, pending already, does not show. -/
theorem truthful_driven (result : Except String Pid) :
    Truthful app (World.driven env app result m) ↔
      (app.desiredStatus = "stopped" → m.child.isSome = true → m.termDeadline.isSome = true →
        m.state = .stopping) := by
  by_cases hdesired : app.desiredStatus = "stopped"
  · by_cases hchild : m.child.isSome = true
    · cases hterm : m.termDeadline with
      | none =>
          have hdriven : World.driven env app result m = m.terminating env.now := by
            simp [World.driven, hdesired, hchild, hterm]
          rw [hdriven]
          exact iff_of_true (truthful_held hchild rfl) (by simp)
      | some d =>
          -- the branch that leaves the entry as it is
          have hdriven : World.driven env app result m = m := by
            simp [World.driven, hdesired, hchild, hterm]
          rw [hdriven]
          have hterm' : m.termDeadline.isSome = true := by rw [hterm]; rfl
          constructor
          · exact fun h _ _ _ => h.stopping.2 ⟨hchild, hterm'⟩
          · exact fun h => truthful_held hchild (by rw [h hdesired hchild rfl, hterm]; rfl)
    · have hdriven : World.driven env app result m = m.idle := by
        simp [World.driven, hdesired, hchild]
      rw [hdriven]
      have hnone : m.child = none := by simpa using hchild
      exact iff_of_true (truthful_stopped hnone rfl hdesired) fun _ h => absurd h hchild
  · refine iff_of_true ?_ fun h => absurd h hdesired
    unfold World.driven
    rw [if_neg hdesired]
    split
    case isTrue hchild => exact truthful_held hchild rfl
    case isFalse hchild =>
      have hnone : m.child = none := by simpa using hchild
      split
      · exact truthful_waiting hnone (.inr rfl) hdesired
      · split
        · exact truthful_waiting hnone (.inl rfl) hdesired
        · cases result with
          | ok pid => exact truthful_held rfl rfl
          | error e => exact truthful_waiting hnone (.inl rfl) hdesired

/-- What the third sweep finds of an app whose termination was pending. -/
theorem afterReap_pending_iff {name : String} :
    ((w.afterReap env name).child.isSome = true →
        (w.afterReap env name).termDeadline.isSome = true →
        (w.afterReap env name).state = .stopping) ↔
      ∀ m ∈ w.procs.lookup name, m.child.isSome = true → w.tryWait env name m.child = none →
        m.termDeadline.isSome = true → m.state = .stopping := by
  unfold World.afterReap
  cases hm : w.procs.lookup name with
  | none => simp
  | some m =>
      cases hexit : w.tryWait env name m.child with
      | none => simp [hexit]
      | some status => simp [hexit]

/-- In every state that the daemon reaches before `stop_all` begins, a pass leaves truthful
states if and only if the terminations of the apps to be stopped show when it begins. -/
theorem truthful_iff (h : Reachable (Sys.step paths crates) Sys.Started s)
    (hsection : s.sectionOf a = some (env, apps)) (hs : s.step paths crates a = some s')
    (hstop : s'.stopping = none) :
    (∀ app ∈ apps, ∃ m, s'.world.procs.lookup app.name = some m ∧ Truthful app m) ↔
      StopsShown s.world env apps := by
  have hstep := Sys.step_cases hs
  obtain ⟨hbefore, hnot⟩ := hstep.of_not_stopping hstop
  have hsupervised := supervised_reachable h hbefore
  rcases hstep.entries hsupervised hnot with ⟨env', apps', hfound, hworld, hnodup⟩ | ⟨hnone, -⟩
  · rw [hsection, Option.some.injEq, Prod.mk.injEq] at hfound
    obtain ⟨rfl, rfl⟩ := hfound
    refine forall₂_congr fun app happ => ?_
    rw [hworld, World.lockedSection_lookup hsupervised.upkeep.held.sole hnodup happ]
    simp only [Option.some.injEq, exists_eq_left', truthful_driven, afterReap_pending_iff]
  · rw [hsection] at hnone
    cases hnone

section Hidden

/-- A restart of the running app up to its request, then a stop up to its section. -/
def hiddenRun : List Action :=
  deployRun 0 1 ++ [.arrive (.restart "a")] ++ calls 1 3 ++ [.arrive (.stop "a")] ++ calls 2 4

/-- The state of the app when the stop has made its pass. -/
def hiddenState (s : Sys) : Option (Bool × Option (RunState × Bool)) :=
  (s.step (Paths.ofRoot "/r") (Crates.plainCrates [] []) (.run 2 {})).map fun s' =>
    (s'.stopping.isNone, (s'.world.procs.lookup "a").map fun m =>
      (m.state, m.termDeadline.isSome))

/-- The app is to be stopped, its termination is pending, and it is reported as running. -/
theorem hidden_termination :
    ¬ ∀ (paths : Paths) (crates : Crates) (s s' : Sys) (a : Action) (env : Env)
      (apps : List AppRow), Reachable (Sys.step paths crates) Sys.Started s →
      s.sectionOf a = some (env, apps) → s.step paths crates a = some s' → s'.stopping = none →
        ∀ app ∈ apps, ∃ m, s'.world.procs.lookup app.name = some m ∧ Truthful app m := by
  intro h
  have hrun : (run (Sys.step (Paths.ofRoot "/r") (Crates.plainCrates [] [])) {} hiddenRun).map
      (fun s => (hiddenState s, (s.section? 2).map fun apps => apps.map (·.name))) =
        some (some (true, some (.running, true)), some ["a"]) := by
    decide
  obtain ⟨s, hs, hval⟩ := Option.map_eq_some_iff.1 hrun
  obtain ⟨hstate, hsection⟩ := Prod.mk.inj hval
  obtain ⟨s', hs', hafter⟩ := Option.map_eq_some_iff.1 hstate
  obtain ⟨hnone, hentry⟩ := Prod.mk.inj hafter
  obtain ⟨m, hm, hfields⟩ := Option.map_eq_some_iff.1 hentry
  obtain ⟨hrunning, hterm⟩ := Prod.mk.inj hfields
  obtain ⟨apps, happs, hnames⟩ := Option.map_eq_some_iff.1 hsection
  obtain ⟨app, happ, hname⟩ := List.mem_map.1 (hnames ▸ List.mem_singleton_self "a")
  obtain ⟨m', hm', htruthful⟩ := h _ _ s s' (.run 2 {}) {} apps
    (ReachableWhen.runWhen (.start fresh_default.started) hs)
    (Sys.sectionOf_of_section happs _) hs' (Option.isNone_iff_eq_none.1 hnone) app happ
  rw [hname, hm, Option.some.injEq] at hm'
  subst hm'
  rw [(htruthful.running hrunning).2] at hterm
  cases hterm

theorem truthful_iff_stop :
    ∃ s s' apps, run (Sys.step (Paths.ofRoot "/r") (Crates.plainCrates [] [])) {}
        (deployRun 0 1 ++ [.arrive (.stop "a")] ++ calls 1 4) = some s ∧
      s.section? 1 = some apps ∧ apps.map (·.desiredStatus) = ["stopped"] ∧
      s.step (Paths.ofRoot "/r") (Crates.plainCrates [] []) (.run 1 {}) = some s' ∧
      ∀ app ∈ apps, ∃ m, s'.world.procs.lookup app.name = some m ∧ Truthful app m := by
  have hrun : (run (Sys.step (Paths.ofRoot "/r") (Crates.plainCrates [] [])) {}
      (deployRun 0 1 ++ [.arrive (.stop "a")] ++ calls 1 4)).map (fun s =>
        ((s.section? 1).map fun apps =>
          (apps.map (·.desiredStatus), decide (StopsShown s.world {} apps)),
        (s.step (Paths.ofRoot "/r") (Crates.plainCrates [] []) (.run 1 {})).map
          fun s' => s'.stopping.isNone)) = some (some (["stopped"], true), some true) := by
    decide
  obtain ⟨s, hs, hval⟩ := Option.map_eq_some_iff.1 hrun
  obtain ⟨hsection, hstep⟩ := Prod.mk.inj hval
  obtain ⟨apps, happs, hpair⟩ := Option.map_eq_some_iff.1 hsection
  obtain ⟨hdesired, hshown⟩ := Prod.mk.inj hpair
  obtain ⟨s', hs', hnone⟩ := Option.map_eq_some_iff.1 hstep
  exact ⟨s, s', apps, hs, happs, hdesired, hs',
    (truthful_iff (ReachableWhen.runWhen (.start fresh_default.started) hs)
      (Sys.sectionOf_of_section happs _) hs' (Option.isNone_iff_eq_none.1 hnone)).2
      (of_decide_eq_true hshown)⟩

end Hidden

end Daemon

end Nockd
