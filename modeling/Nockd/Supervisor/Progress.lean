import Nockd.Supervisor.Rest

/-!
# What passes bring about

An entry is paced by a bound when its deadlines come no later, and a stop that its row asks for
has begun. A pass after the bound, in which spawns succeed, leaves an app at rest, unless it
finds a child with a pending termination alive; that child it kills.
-/

namespace Nockd

namespace Supervisor

open Config Registry

/-- The app shows what its row asks for, and nothing is pending. -/
def AtRest (desired policy : String) (m : Managed) : Prop :=
  m.termDeadline = none ∧
    if desired = "stopped" then m.child = none ∧ m.state = .stopped
    else if m.child.isSome then m.state = .running
    else policy = "never" ∧ 0 < m.restarts ∧ m.state = .crashed

/-- What an entry waits for after a pass at time `t` or before. -/
structure Managed.Dated (t : ℤ) (m : Managed) : Prop where
  term : ∀ d ∈ m.termDeadline, d ≤ t + graceSecs
  backoff : m.backoffUntil ≤ max 0 (t + maxBackoffSecs)

structure Managed.Paced (bound : ℤ) (desired : String) (m : Managed) : Prop where
  term : ∀ d ∈ m.termDeadline, d ≤ bound
  backoff : m.backoffUntil ≤ bound
  begun : desired = "stopped" → m.child.isSome = true → m.termDeadline.isSome = true

variable {paths : Paths} {env : Env} {w : World} {apps : List AppRow} {app : AppRow}
  {m m' : Managed} {desired policy name : String} {t t' bound : ℤ} {result : Except String Pid}

theorem backoffSecs_le (restarts : UInt32) : backoffSecs restarts ≤ maxBackoffSecs :=
  min_le_right _ _

/-- A settled entry idles at every time. -/
theorem AtRest.idles (h : AtRest app.desiredStatus app.restartPolicy m) (env : Env) :
    World.Idles env app m := by
  obtain ⟨hterm, h⟩ := h
  refine ⟨by simp [hterm], ?_⟩
  split
  case isTrue hstopped =>
    rw [if_pos hstopped] at h
    exact Or.inr h
  case isFalse hrunning =>
    rw [if_neg hrunning] at h
    split
    case isTrue hchild =>
      rw [if_pos hchild] at h
      simp [h, hterm]
    case isFalse hchild =>
      rw [if_neg hchild] at h
      rw [if_pos ⟨h.1, h.2.1⟩]
      exact h.2.2

/-! ## Deadlines are set a bounded time ahead -/

namespace Managed

theorem dated_default : Dated t {} := ⟨nofun, le_max_left _ _⟩

theorem Dated.mono (h : m.Dated t) (hle : t ≤ t') : m.Dated t' :=
  ⟨fun d hd => (h.term d hd).trans (add_le_add_left hle _),
    h.backoff.trans (max_le_max_left _ (add_le_add_left hle _))⟩

theorem Dated.of_core (h : m.Dated t) (hcore : m'.core = m.core) : m'.Dated t := by
  have hterm : m'.termDeadline = m.termDeadline := congrArg Core.termDeadline hcore
  have hbackoff : m'.backoffUntil = m.backoffUntil := congrArg Core.backoffUntil hcore
  exact ⟨by rw [hterm]; exact h.term, by rw [hbackoff]; exact h.backoff⟩

theorem le_max_backoff (now : ℤ) (restarts : UInt32) :
    now + backoffSecs restarts ≤ max 0 (now + maxBackoffSecs) :=
  (add_le_add_right (backoffSecs_le restarts) now).trans (le_max_right _ _)

theorem Dated.reaped (h : m.Dated t) (now : ℤ) (hle : t ≤ now) : (m.reaped now).Dated now := by
  have hnow := h.mono hle
  unfold Managed.reaped
  split
  · exact ⟨nofun, le_max_left _ _⟩
  · split
    · exact ⟨nofun, hnow.backoff⟩
    · exact ⟨hnow.term, le_max_backoff now _⟩

theorem Dated.driven (h : m.Dated t) (hle : t ≤ env.now) :
    (World.driven env app result m).Dated env.now := by
  have hnow := h.mono hle
  unfold World.driven
  split
  · split
    · split
      · refine ⟨fun d hd => ?_, hnow.backoff⟩
        rw [← Option.some.inj hd]
      · exact hnow
    · exact ⟨nofun, hnow.backoff⟩
  · split
    · exact ⟨hnow.term, hnow.backoff⟩
    · split
      · exact ⟨hnow.term, hnow.backoff⟩
      · split
        · exact ⟨hnow.term, hnow.backoff⟩
        · cases result with
          | ok pid => exact ⟨nofun, hnow.backoff⟩
          | error e => exact ⟨hnow.term, le_max_backoff env.now _⟩

/-! ## Paced entries -/

theorem Paced.of_core (h : m.Paced bound desired) (hcore : m'.core = m.core) :
    m'.Paced bound desired := by
  have hchild : m'.child = m.child := congrArg Core.child hcore
  have hterm : m'.termDeadline = m.termDeadline := congrArg Core.termDeadline hcore
  have hbackoff : m'.backoffUntil = m.backoffUntil := congrArg Core.backoffUntil hcore
  exact ⟨by rw [hterm]; exact h.term, by rw [hbackoff]; exact h.backoff,
    by rw [hchild, hterm]; exact h.begun⟩

/-- An exit that something had asked for does not move the backoff. -/
theorem Paced.reaped (h : m.Paced bound desired) (hbound : 0 ≤ bound)
    (hterm : m.termDeadline.isSome = true) (now : ℤ) : (m.reaped now).Paced bound desired := by
  unfold Managed.reaped
  rw [if_pos hterm]
  split
  · exact ⟨nofun, hbound, nofun⟩
  · exact ⟨nofun, h.backoff, nofun⟩

/-- A pass begins the stops that its rows ask for, and sets no deadline past the bound. -/
theorem paced_driven (hterm : ∀ d ∈ m.termDeadline, d ≤ bound) (hbackoff : m.backoffUntil ≤ bound)
    (hstop : app.desiredStatus = "stopped" → m.child.isSome = true → m.termDeadline = none →
      env.now + graceSecs ≤ bound)
    (hok : World.Startable env app m → result.isOk = true) :
    (World.driven env app result m).Paced bound app.desiredStatus := by
  by_cases hstart : World.Startable env app m
  · have hresult := hok hstart
    rw [World.driven_startable hstart]
    cases result with
    | ok pid => exact ⟨nofun, hbackoff, fun hstopped => absurd hstopped hstart.1⟩
    | error e => cases hresult
  · refine ⟨?_, ?_, ?_⟩
    · unfold World.driven
      split
      case isTrue hstopped =>
        split
        case isTrue hchild =>
          split
          case isTrue hnone =>
            intro d hd
            rw [← Option.some.inj hd]
            exact hstop hstopped hchild (Option.isNone_iff_eq_none.1 hnone)
          case isFalse => exact hterm
        case isFalse => exact nofun
      case isFalse hrunning =>
        split
        · exact hterm
        case isFalse hchild =>
          split
          · exact hterm
          case isFalse hpolicy =>
            split
            · exact hterm
            case isFalse hbackoff =>
              exact absurd ⟨hrunning, by simpa using hchild, hpolicy, not_lt.1 hbackoff⟩ hstart
    · rw [(World.driven_of_not_startable hstart result).2.2.1]
      exact hbackoff
    · intro hstopped hchild
      unfold World.driven at hchild ⊢
      rw [if_pos hstopped] at hchild ⊢
      split at hchild
      case isTrue hsome =>
        rw [if_pos hsome]
        split
        · rfl
        case isFalse hnone => simpa [Option.isSome_iff_ne_none] using hnone
      case isFalse hnone => exact absurd hchild hnone

end Managed

/-- Past the bound the third sweep leaves the app at rest, unless a termination of its child is
pending. -/
theorem atRest_driven (hcoherent : m.Coherent) (h : m.Paced bound app.desiredStatus)
    (hnow : bound ≤ env.now) (hok : World.Startable env app m → result.isOk = true) :
    AtRest app.desiredStatus app.restartPolicy (World.driven env app result m) ∨
      m.child.isSome = true ∧ m.termDeadline.isSome = true := by
  by_cases hchild : m.child.isSome = true
  · cases hterm : m.termDeadline with
    | some d => exact Or.inr ⟨hchild, rfl⟩
    | none =>
        have hrunning : app.desiredStatus ≠ "stopped" := fun hstopped => by
          have := h.begun hstopped hchild
          simp [hterm] at this
        left
        unfold World.driven AtRest
        simp [hrunning, hchild, hterm]
  · have hnone : m.child = none := by simpa using hchild
    obtain ⟨-, hterm, -⟩ := hcoherent.idle_fields hnone
    left
    unfold World.driven AtRest
    by_cases hstopped : app.desiredStatus = "stopped"
    · simp [hstopped, hnone, Managed.idle]
    · by_cases hpolicy : app.restartPolicy = "never" ∧ 0 < m.restarts
      · simp [hstopped, hnone, hpolicy, hterm]
      · have hbackoff : ¬ env.now < m.backoffUntil := not_lt.2 (h.backoff.trans hnow)
        have hresult := hok ⟨hstopped, hnone, hpolicy, not_lt.1 hbackoff⟩
        cases result with
        | error e => cases hresult
        | ok pid => simp [hstopped, hnone, hpolicy, hbackoff, Managed.spawned]

namespace World

/-- `try_wait` does not fail for the app, and a spawn that it is due succeeds. -/
def Served (paths : Paths) (env : Env) (w : World) (apps : List AppRow) (app : AppRow) : Prop :=
  env.tryWaitErr app.name = false ∧ (w.Due env app → w.spawnOk paths env apps app = true)

instance (apps : List AppRow) (app : AppRow) : Decidable (w.Served paths env apps app) :=
  inferInstanceAs (Decidable (_ ∧ (_ → _)))

/-- The first sweep leaves an entry alone, or it sees the exit of its child. -/
theorem afterReap_cases (env : Env) (w : World) (name : String) :
    w.tryWait env name (w.entry name).child = none ∧ w.afterReap env name = w.entry name ∨
      (w.tryWait env name (w.entry name).child).isSome = true ∧
        w.afterReap env name = (w.entry name).reaped env.now := by
  unfold afterReap entry
  cases hm : w.procs.lookup name with
  | none => exact Or.inl ⟨by simp [tryWait], rfl⟩
  | some m =>
      cases hexit : w.tryWait env name m.child with
      | none => exact Or.inl ⟨by simpa using hexit, by simp [hexit]⟩
      | some status => exact Or.inr ⟨by simp [hexit], by simp [hexit]⟩

theorem isOk_of_startable (hserved : w.Served paths env apps app)
    (hstart : Startable env app (w.afterReap env app.name)) :
    ((w.reached paths env apps app.name).launchResult paths env app).isOk = true :=
  hserved.2 hstart

/-- After a pass every child that an entry of the snapshot holds is running. -/
theorem lockedSection_child_runs (hupkeep : w.Upkeep) (hnodup : (apps.map (·.name)).Nodup)
    (happ : app ∈ apps) (herr : env.tryWaitErr app.name = false) {pid : Pid}
    (hchild : ((w.lockedSection paths env apps).entry app.name).child = some pid) :
    ∃ launch, (w.lockedSection paths env apps).host.Runs pid launch ∧ launch.app = app.name := by
  rw [lockedSection_entry hupkeep.held hnodup happ] at hchild
  by_cases hstart : Startable env app (w.afterReap env app.name)
  · rw [driven_startable hstart] at hchild
    cases hresult : (w.reached paths env apps app.name).launchResult paths env app with
    | error e =>
        rw [hresult] at hchild
        have hnone : (w.afterReap env app.name).child = none := hstart.2.1
        rw [show (w.afterReap env app.name).child = some pid from hchild] at hnone
        cases hnone
    | ok q =>
        rw [hresult] at hchild
        obtain rfl : q = pid := Option.some.inj hchild
        obtain ⟨launch, hname, -, hruns⟩ :=
          lockedSection_started hupkeep.held hnodup happ hstart hresult
        exact ⟨launch, hruns, hname⟩
  · rw [(driven_of_not_startable hstart _).1] at hchild
    rcases afterReap_cases env w app.name with ⟨hwait, hsame⟩ | ⟨-, hreaped⟩
    · rw [hsame] at hchild
      obtain ⟨launch, exit, hp, hname, -⟩ :=
        hupkeep.owned app.name pid ⟨_, lookup_of_entry hchild, hchild⟩
      have hrunning : exit = none := by
        rw [hchild] at hwait
        simpa [tryWait, herr, hp] using hwait
      subst hrunning
      refine ⟨launch, ?_, hname⟩
      rw [lockedSection_eq_rounds]
      exact rounds_keep (P := fun w => w.host.Runs pid launch) hp
        (fun w' r hr hw' => round_runs (listed_of_mem_rounds hr) hw') (List.append_nil _).symm
    · rw [hreaped, Managed.reaped_child] at hchild
      cases hchild

/-! ## One app through a pass -/

/-- The first of a series of passes bounds what the app waits for. -/
theorem lockedSection_dated_paced (hheld : w.Held) (hnodup : (apps.map (·.name)).Nodup)
    (happ : app ∈ apps) (hserved : w.Served paths env apps app)
    (hdated : (w.entry app.name).Dated t) (hle : t ≤ env.now) (hnow : 0 ≤ env.now) :
    ((w.lockedSection paths env apps).entry app.name).Paced (env.now + maxBackoffSecs)
      app.desiredStatus := by
  have hgrace : graceSecs ≤ maxBackoffSecs := by decide
  have hafter : (w.afterReap env app.name).Dated env.now := by
    rcases afterReap_cases env w app.name with ⟨-, hsame⟩ | ⟨-, hreaped⟩
    · rw [hsame]
      exact hdated.mono hle
    · rw [hreaped]
      exact hdated.reaped env.now hle
  rw [lockedSection_entry hheld hnodup happ]
  refine Managed.paced_driven (fun d hd => (hafter.term d hd).trans (add_le_add_right hgrace _))
    ?_ (fun _ _ _ => add_le_add_right hgrace _) (isOk_of_startable hserved)
  have hbackoff := hafter.backoff
  rwa [max_eq_right (add_nonneg hnow (by decide))] at hbackoff

variable (hheld : w.Held) (hnodup : (apps.map (·.name)).Nodup) (happ : app ∈ apps)
  (hserved : w.Served paths env apps app)

theorem afterReap_paced (hpaced : (w.entry name).Paced bound desired) (hbound : 0 ≤ bound)
    (hasked : (w.tryWait env name (w.entry name).child).isSome = true →
      (w.entry name).termDeadline.isSome = true) :
    (w.afterReap env name).Paced bound desired := by
  rcases afterReap_cases env w name with ⟨-, hsame⟩ | ⟨hexit, hreaped⟩
  · rw [hsame]
    exact hpaced
  · rw [hreaped]
    exact hpaced.reaped hbound (hasked hexit) env.now

include hheld hnodup happ hserved in
/-- Every further pass that finds only exits that were asked for keeps the bound. -/
theorem lockedSection_paced (hpaced : (w.entry app.name).Paced bound app.desiredStatus)
    (hbound : 0 ≤ bound)
    (hasked : (w.tryWait env app.name (w.entry app.name).child).isSome = true →
      (w.entry app.name).termDeadline.isSome = true) :
    ((w.lockedSection paths env apps).entry app.name).Paced bound app.desiredStatus := by
  have hafter := afterReap_paced hpaced hbound hasked
  rw [lockedSection_entry hheld hnodup happ]
  refine Managed.paced_driven hafter.term hafter.backoff (fun hstopped hchild hnone => ?_)
    (isOk_of_startable hserved)
  have hbegun := hafter.begun hstopped hchild
  rw [hnone] at hbegun
  cases hbegun

include hheld hnodup happ hserved in
/-- A pass past the bound leaves the app at rest, or it finds a child alive whose termination
is pending. -/
theorem lockedSection_atRest (hcoherent : w.Coherent)
    (hpaced : (w.entry app.name).Paced bound app.desiredStatus) (hbound : 0 ≤ bound)
    (hasked : (w.tryWait env app.name (w.entry app.name).child).isSome = true →
      (w.entry app.name).termDeadline.isSome = true) (hnow : bound ≤ env.now) :
    AtRest app.desiredStatus app.restartPolicy
        ((w.lockedSection paths env apps).entry app.name) ∨
      ∃ pid, (w.entry app.name).child = some pid ∧
        w.tryWait env app.name (some pid) = none ∧
        ((w.lockedSection paths env apps).entry app.name).child = some pid ∧
        ∃ d ∈ (w.entry app.name).termDeadline, d ≤ env.now := by
  have hafter := afterReap_paced hpaced hbound hasked
  have hstill : (w.afterReap env app.name).Coherent := by
    rcases afterReap_cases env w app.name with ⟨-, hsame⟩ | ⟨-, hreaped⟩
    · rw [hsame]
      exact hcoherent.entry app.name
    · rw [hreaped]
      exact Managed.coherent_reaped _ _
  rw [lockedSection_entry hheld hnodup happ]
  refine (atRest_driven hstill hafter hnow (isOk_of_startable hserved)).imp_right ?_
  rintro ⟨hchild, hterm⟩
  rcases afterReap_cases env w app.name with ⟨hwait, hsame⟩ | ⟨-, hreaped⟩
  · rw [hsame] at hchild hterm ⊢
    obtain ⟨pid, hpid⟩ := Option.isSome_iff_exists.1 hchild
    obtain ⟨d, hd⟩ := Option.isSome_iff_exists.1 hterm
    refine ⟨pid, hpid, by rwa [hpid] at hwait, ?_, d, hd, (hpaced.term d hd).trans hnow⟩
    rw [(driven_of_not_startable ?_ _).1, hpid]
    exact fun hstart => absurd hstart.2.1 (by simp [hpid])
  · rw [hreaped, Managed.reaped_child] at hchild
    cases hchild

/-! ## What a pass kills -/

end World

/-- The process that an effect kills. -/
def Effect.kills : Effect → Option Pid
  | .signal _ pid .kill => some pid
  | _ => none

namespace World

/-- The processes that were sent SIGKILL on the way from `w` to `w'`. -/
def killed (w w' : World) : List Pid :=
  (w'.host.log.drop w.host.log.length).filterMap Effect.kills

theorem mem_killed {added : List Effect} {w' : World} {pid : Pid}
    (hlog : w'.host.log = w.host.log ++ added) (hkill : .signal t pid .kill ∈ added) :
    pid ∈ killed w w' := by
  unfold killed
  rw [hlog, List.drop_left]
  exact List.mem_filterMap.2 ⟨_, hkill, rfl⟩

end World

end Supervisor

end Nockd
