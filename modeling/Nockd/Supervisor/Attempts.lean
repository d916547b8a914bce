import Nockd.Supervisor.Entries

/-!
# Failures and attempts

A failure of an app is an exit that nothing has asked for, or a spawn that does not succeed.
The counter of an entry goes up by one with each, and the backoff deadline moves with it.
Apart from a spawn, the third sweep leaves child, counter and deadline as they are.
-/

namespace Nockd

namespace Supervisor

open Config Registry

theorem backoffSecs_pos (restarts : UInt32) : 0 < backoffSecs restarts := by
  unfold backoffSecs maxBackoffSecs
  exact lt_min (pow_pos (by decide) _) (by decide)

theorem backoffSecs_ofNat {k : ℕ} (hk : k < 2 ^ 32) :
    backoffSecs (UInt32.ofNat k) = min (2 ^ k) 60 := by
  have hnat : (UInt32.ofNat k).toNat = k := UInt32.toNat_ofNat_of_lt' hk
  unfold backoffSecs maxBackoffSecs
  simp only [hnat]
  rcases le_total k 6 with hle | hle
  · rw [min_eq_left hle]
  · have hpow : (2 : ℤ) ^ 6 ≤ 2 ^ k := pow_le_pow_right₀ (by decide) hle
    rw [min_eq_right hle, min_eq_right (by decide), min_eq_right (by omega)]

namespace World

/-- The first sweep sees an exit of the app's child while no stop and no restart is
pending. -/
def crashes (env : Env) (w : World) (name : String) : Bool :=
  (w.procs.lookup name).any fun m =>
    (w.tryWait env name m.child).isSome && !m.restartRequested && m.termDeadline.isNone

/-- The spawn that the third sweep makes for the app succeeds. -/
def spawnOk (paths : Paths) (env : Env) (w : World) (apps : List AppRow) (app : AppRow) : Bool :=
  ((w.reached paths env apps app.name).launchResult paths env app).isOk

/-- How many failures of the app the section records. -/
def failures (paths : Paths) (env : Env) (w : World) (apps : List AppRow) (name : String) : ℕ :=
  (w.crashes env name).toNat +
    (apps.any fun app => app.name = name && decide (w.Due env app) &&
      !w.spawnOk paths env apps app).toNat

variable {paths : Paths} {env : Env} {w w' : World} {apps : List AppRow} {app : AppRow}
  {m : Managed}

/-! ## The third sweep and one entry -/

theorem driven_startable (h : Startable env app m) (result : Except String Pid) :
    driven env app result m = match result with
      | .ok pid => m.spawned env.now pid
      | .error _ => m.spawnFailed env.now := by
  obtain ⟨hrunning, hchild, hpolicy, hbackoff⟩ := h
  have hnone : ¬ m.child.isSome = true := by simp [hchild]
  unfold driven
  cases result <;> simp only [if_neg hrunning, if_neg hnone, if_neg hpolicy,
    if_neg (not_lt.2 hbackoff)]

/-- Without a spawn the decisive fields stay, but for a termination that begins or
turns out to be over. -/
theorem driven_of_not_startable (h : ¬ Startable env app m) (result : Except String Pid) :
    (driven env app result m).child = m.child ∧ (driven env app result m).restarts = m.restarts ∧
      (driven env app result m).backoffUntil = m.backoffUntil ∧
      (driven env app result m).restartRequested = m.restartRequested := by
  unfold driven
  split
  · split
    · split <;> exact ⟨rfl, rfl, rfl, rfl⟩
    · exact ⟨rfl, rfl, rfl, rfl⟩
  case isFalse hrunning =>
    split
    · exact ⟨rfl, rfl, rfl, rfl⟩
    case isFalse hchild =>
      split
      · exact ⟨rfl, rfl, rfl, rfl⟩
      case isFalse hpolicy =>
        split
        · exact ⟨rfl, rfl, rfl, rfl⟩
        case isFalse hbackoff =>
          exact absurd ⟨hrunning, by simpa using hchild, hpolicy, not_lt.1 hbackoff⟩ h

theorem driven_congr (h : ¬ Startable env app m) (result result' : Except String Pid) :
    driven env app result m = driven env app result' m := by
  unfold driven
  split
  · rfl
  case isFalse hrunning =>
    split
    · rfl
    case isFalse hchild =>
      split
      · rfl
      case isFalse hpolicy =>
        split
        · rfl
        case isFalse hbackoff =>
          exact absurd ⟨hrunning, by simpa using hchild, hpolicy, not_lt.1 hbackoff⟩ h

/-! ## The first sweep and one entry -/

theorem afterReap_of_crashes {name : String} (h : w.crashes env name = true) :
    w.afterReap env name =
      { w.entry name with
        child := none, pid := none, restarts := (w.entry name).restarts + 1
        backoffUntil := env.now + backoffSecs ((w.entry name).restarts + 1)
        state := .backoff } := by
  obtain ⟨m, hm, hcrash⟩ := (Option.any_eq_true _ _).1 h
  simp only [Bool.and_eq_true, Bool.not_eq_true', Option.isNone_iff_eq_none] at hcrash
  obtain ⟨⟨hexit, hrestart⟩, hterm⟩ := hcrash
  unfold afterReap Managed.reaped entry
  simp [hm, hexit, hrestart, hterm]

theorem afterReap_restarts (name : String) :
    (w.afterReap env name).restarts =
      (w.entry name).restarts + UInt32.ofNat (w.crashes env name).toNat := by
  cases hcrash : w.crashes env name with
  | true =>
      rw [afterReap_of_crashes hcrash]
      rfl
  | false =>
      unfold afterReap crashes entry at *
      cases hm : w.procs.lookup name with
      | none => simp
      | some m =>
          simp only [hm, Option.any_some, Bool.and_eq_false_iff] at hcrash
          simp only [Option.getD_some, Bool.toNat_false]
          split
          case isFalse => simp
          case isTrue hexit =>
            unfold Managed.reaped
            split
            · simp
            · split
              · simp
              case isFalse hrestart hterm => simp_all

theorem afterReap_of_no_child {name : String} (h : (w.entry name).child = none) :
    w.afterReap env name = w.entry name := by
  unfold afterReap entry at *
  cases hm : w.procs.lookup name with
  | none => rfl
  | some m =>
      have hchild : m.child = none := by simpa [hm] using h
      simp [tryWait, hchild]

/-! ## The section and one entry -/

theorem lockedSection_entry (hheld : w.Held) (hnodup : (apps.map (·.name)).Nodup)
    (happ : app ∈ apps) :
    (w.lockedSection paths env apps).entry app.name =
      driven env app ((w.reached paths env apps app.name).launchResult paths env app)
        (w.afterReap env app.name) := by
  rw [entry, lockedSection_lookup hheld.sole hnodup happ]
  rfl

theorem eq_of_name_eq {row : AppRow} (hnodup : (apps.map (·.name)).Nodup) (happ : app ∈ apps)
    (hrow : row ∈ apps) (hname : row.name = app.name) : row = app :=
  List.inj_on_of_nodup_map hnodup hrow happ hname

theorem failures_of_mem (hnodup : (apps.map (·.name)).Nodup) (happ : app ∈ apps) :
    w.failures paths env apps app.name = (w.crashes env app.name).toNat +
      (decide (w.Due env app) && !w.spawnOk paths env apps app).toNat := by
  unfold failures
  congr 2
  rw [Bool.eq_iff_iff, List.any_eq_true]
  constructor
  · rintro ⟨row, hrow, hfail⟩
    simp only [Bool.and_eq_true, decide_eq_true_eq] at hfail
    obtain ⟨⟨hname, hdue⟩, hresult⟩ := hfail
    rw [eq_of_name_eq hnodup happ hrow hname] at hdue hresult
    simp [hdue, hresult]
  · intro hfail
    exact ⟨app, happ, by simpa using hfail⟩

/-- The counter of an app's entry goes up with its failures. -/
theorem lockedSection_restarts (hheld : w.Held) (hnodup : (apps.map (·.name)).Nodup)
    (happ : app ∈ apps) :
    ((w.lockedSection paths env apps).entry app.name).restarts =
      (w.entry app.name).restarts + UInt32.ofNat (w.failures paths env apps app.name) := by
  rw [lockedSection_entry hheld hnodup happ, failures_of_mem hnodup happ, UInt32.ofNat_add,
    ← UInt32.add_assoc, ← afterReap_restarts]
  by_cases hdue : w.Due env app
  · rw [driven_startable hdue]
    unfold spawnOk
    cases hresult : (w.reached paths env apps app.name).launchResult paths env app with
    | ok pid => simp [Except.isOk, Except.toBool, Managed.spawned]
    | error e => simp [hdue, Except.isOk, Except.toBool, Managed.spawnFailed]
  · rw [(driven_of_not_startable hdue _).2.1]
    simp [hdue]

/-! ## The deadline after a failure -/

/-- A section that records a failure leaves the app without a child, and backing
off from now on. -/
theorem lockedSection_failed (hheld : w.Held) (hnodup : (apps.map (·.name)).Nodup)
    (happ : app ∈ apps) (hfail : 0 < w.failures paths env apps app.name) :
    let m := (w.lockedSection paths env apps).entry app.name
    m.child = none ∧ m.backoffUntil = env.now + backoffSecs m.restarts := by
  simp only
  rw [failures_of_mem hnodup happ] at hfail
  rw [lockedSection_entry hheld hnodup happ]
  by_cases hdue : w.Due env app
  · rw [driven_startable hdue]
    cases hresult : (w.reached paths env apps app.name).launchResult paths env app with
    | error e => exact ⟨hdue.2.1, rfl⟩
    | ok pid =>
        have hcrash : w.crashes env app.name = true := by
          refine (Bool.eq_false_or_eq_true _).resolve_right fun hcrash => ?_
          simp [hcrash, hdue, spawnOk, hresult, Except.isOk, Except.toBool] at hfail
        -- a crash has just moved the deadline past this moment
        have hbackoff := hdue.2.2.2
        rw [afterReap_of_crashes hcrash] at hbackoff
        exact absurd hbackoff (not_le.2 (lt_add_of_pos_right _ (backoffSecs_pos _)))
  · have hcrash : w.crashes env app.name = true := by
      refine (Bool.eq_false_or_eq_true _).resolve_right fun hcrash => ?_
      simp [hcrash, hdue] at hfail
    obtain ⟨hchild, hrestarts, hbackoff, -⟩ := driven_of_not_startable hdue
      ((w.reached paths env apps app.name).launchResult paths env app)
    rw [hchild, hrestarts, hbackoff, afterReap_of_crashes hcrash]
    exact ⟨rfl, rfl⟩

/-! ## Starting an instance -/

/-- An instance of the app runs in `w'` that did not run in `w`. -/
def Starts (name : String) (w w' : World) : Prop :=
  ∃ pid launch, launch.app = name ∧ w'.host.Runs pid launch ∧ ¬ w.host.Runs pid launch

theorem not_starts_of_ran {name : String}
    (h : ∀ pid launch, w'.host.Runs pid launch → w.host.Runs pid launch) :
    ¬ Starts name w w' := by
  rintro ⟨pid, launch, -, hruns, hnot⟩
  exact hnot (h pid launch hruns)

/-- A section starts no app that is not due. -/
theorem lockedSection_not_starts {name : String} (hnodup : (apps.map (·.name)).Nodup)
    (hdue : ∀ app ∈ apps, app.name = name → ¬ w.Due env app) :
    ¬ Starts name w (w.lockedSection paths env apps) := by
  have hran : ∀ pid launch, launch.app = name →
      (w.lockedSection paths env apps).host.Runs pid launch → w.host.Runs pid launch := by
    refine (lockedSection_moves w apps).keep (P := fun w' => ∀ pid launch, launch.app = name →
      w'.host.Runs pid launch → w.host.Runs pid launch) ?_ fun _ _ _ h => h
    intro w₁ w₂ hmove hw₁ pid launch hname hruns
    rcases hmove.runs hruns with hran | ⟨-, app, happ, happname, hstart⟩
    · exact hw₁ pid launch hname hran
    · exact absurd (hstart hnodup) (hdue app happ (happname.symm.trans hname))
  rintro ⟨pid, launch, hname, hruns, hnot⟩
  exact hnot (hran pid launch hname hruns)

/-- What runs before a round runs after it. -/
theorem round_runs {r : Round} (hr : r.Listed apps) {pid : Pid} {launch : Launch}
    (hruns : w.host.Runs pid launch) : (r.apply paths env apps w).host.Runs pid launch := by
  refine (round_moves hr).keep (P := fun w => w.host.Runs pid launch) ?_ hruns
  intro w₁ w₂ hmove hw₁
  unfold Host.Runs at hw₁ ⊢
  cases hmove with
  | wait name m child status hm hchild hexit =>
      have hne : pid ≠ child := by
        rintro rfl
        rw [hw₁] at hexit
        cases hexit
      simpa [Function.update_of_ne hne] using hw₁
  | spawn app q bin url happ hstart hidle hfree hbin hjam =>
      have hne : pid ≠ q := by
        rintro rfl
        rw [hfree.2.2] at hw₁
        cases hw₁
      rw [spawn_processes, Function.update_of_ne hne]
      exact hw₁
  | _ => exact hw₁

/-- What every round keeps, the section keeps until it comes to an app. -/
theorem reached_keep {P : World → Prop} (hw : P w)
    (hround : ∀ (w' : World) (r : Round), r.Listed apps → P w' →
      P (r.apply paths env apps w')) (name : String) :
    P (w.reached paths env apps name) := by
  have hreaped : P (w.reapedAll paths env) :=
    List.foldlRecOn _ _ hw fun w' hw' other _ => hround w' (.reap other) trivial hw'
  have hswept : P (w.swept paths env apps) :=
    List.foldlRecOn _ _ hreaped fun w' hw' other _ => hround w' (.drop other) trivial hw'
  exact List.foldlRecOn _ _ hswept fun w' hw' row hrow =>
    hround w' (.drive row) ((List.takeWhile_prefix _).subset hrow) hw'

theorem reached_runs {pid : Pid} {launch : Launch} (hruns : w.host.Runs pid launch)
    (name : String) : (w.reached paths env apps name).host.Runs pid launch :=
  reached_keep (P := fun w => w.host.Runs pid launch) hruns
    (fun _ _ hr hw' => round_runs hr hw') name

/-- A due app whose spawn succeeds is started. -/
theorem lockedSection_starts (hheld : w.Held) (hnodup : (apps.map (·.name)).Nodup)
    (happ : app ∈ apps) (hdue : w.Due env app) (hok : w.spawnOk paths env apps app = true) :
    Starts app.name w (w.lockedSection paths env apps) := by
  unfold spawnOk at hok
  cases hresult : (w.reached paths env apps app.name).launchResult paths env app with
  | error e =>
      rw [hresult] at hok
      cases hok
  | ok pid =>
      obtain ⟨launch, hname, -, hruns⟩ := lockedSection_started hheld hnodup happ hdue hresult
      refine ⟨pid, launch, hname, hruns, fun hbefore => ?_⟩
      have hreached : (w.reached paths env apps app.name).host.Runs pid launch :=
        reached_runs hbefore app.name
      unfold launchResult at hresult
      rcases spawn_cases (w.reached paths env apps app.name).host _ app _ _ with
        ⟨e, herror, -⟩ | ⟨q, launch', hq, hfree, -⟩
      · rw [herror] at hresult
        cases hresult
      · rw [hq] at hresult
        cases hresult
        unfold Host.Runs at hreached
        rw [hfree] at hreached
        cases hreached

/-- What a section starts for an app of its snapshot, the app's entry holds afterwards. -/
theorem lockedSection_started_heldBy (happ : app ∈ apps) {pid : Pid} {launch : Launch}
    (hname : launch.app = app.name)
    (hruns : (w.lockedSection paths env apps).host.Runs pid launch)
    (hnot : ¬ w.host.Runs pid launch) :
    (w.lockedSection paths env apps).HeldBy pid app.name := by
  refine ((lockedSection_moves w apps).keep (P := fun w' => w'.host.Runs pid launch →
    w.host.Runs pid launch ∨ w'.HeldBy pid app.name) ?_ Or.inl hruns).resolve_left hnot
  intro w₁ w₂ hmove hw₁ hruns
  cases hmove with
  | wait name m child status hm hchild hexit =>
      have hrun₁ : w₁.host.Runs pid launch := w₁.host.runs_apply_wait hruns
      refine (hw₁ hrun₁).imp_right ?_
      rintro ⟨m', hm', hc⟩
      have hother : app.name ≠ name := by
        rintro rfl
        rw [hm] at hm'
        cases hm'
        rw [hchild] at hc
        cases hc
        rw [hrun₁] at hexit
        cases hexit
      exact ⟨m', by rw [setEntry_procs, emit_procs, AList.lookup_insert_ne hother, hm'], hc⟩
  | drop name m hm hdropped =>
      refine (hw₁ hruns).imp_right ?_
      rintro ⟨m', hm', hc⟩
      have hother : app.name ≠ name := by
        rintro rfl
        exact hdropped (List.mem_map_of_mem happ)
      exact ⟨m', by rw [← hm']; exact AList.lookup_erase_ne hother, hc⟩
  | update row m hrow hchild hpid hterm =>
      exact (hw₁ hruns).imp_right
        ((sameHandles_setEntry hchild hpid hterm).heldBy_iff pid app.name).2
  | spawn row q bin url hrow hdue hidle hfree hbin hjam =>
      unfold Host.Runs at hruns
      rw [spawn_processes] at hruns
      unfold HeldBy
      rw [writePidfile_procs, setEntry_procs, emit_procs]
      by_cases hq : pid = q
      · subst hq
        rw [Function.update_self] at hruns
        cases hruns
        rw [← hname]
        exact Or.inr ⟨_, AList.lookup_insert _, rfl⟩
      · rw [Function.update_of_ne hq] at hruns
        refine (hw₁ hruns).imp_right ?_
        rintro ⟨m', hm', hc⟩
        have hother : app.name ≠ row.name := by
          intro heq
          rw [← heq, entry_of_lookup hm', hc] at hidle
          cases hidle
        exact ⟨m', by rw [AList.lookup_insert_ne hother, hm'], hc⟩
  | _ => exact hw₁ hruns

/-- A section starts the apps that are due and whose spawn succeeds. -/
theorem lockedSection_starts_iff (hheld : w.Held) (hnodup : (apps.map (·.name)).Nodup)
    (happ : app ∈ apps) :
    Starts app.name w (w.lockedSection paths env apps) ↔
      w.Due env app ∧ w.spawnOk paths env apps app = true := by
  refine ⟨fun hstarts => ?_, fun h => lockedSection_starts hheld hnodup happ h.1 h.2⟩
  have hdue : w.Due env app := by
    by_contra hnot
    refine lockedSection_not_starts hnodup (fun row hrow hname => ?_) hstarts
    rwa [eq_of_name_eq hnodup happ hrow hname]
  refine ⟨hdue, ?_⟩
  obtain ⟨pid, launch, hname, hruns, hnot⟩ := hstarts
  obtain ⟨m, hm, hchild⟩ := lockedSection_started_heldBy happ hname hruns hnot
  rw [lockedSection_lookup hheld.sole hnodup happ, driven_startable hdue, Option.some.injEq] at hm
  unfold spawnOk
  cases hresult : (w.reached paths env apps app.name).launchResult paths env app with
  | ok q => rfl
  | error e =>
      rw [hresult] at hm
      have hnone : m.child = none := hm ▸ hdue.2.1
      rw [hnone] at hchild
      cases hchild

end World

end Supervisor

end Nockd
