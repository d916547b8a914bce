import Nockd.Supervisor.Attempts
import Nockd.Supervisor.Signals

/-!
# Grace deadlines

`firstTerm log pid` is the time of the first SIGTERM to the process that has the pid now.
Two places set the deadline of its termination: the branch of a pass for stopped apps, which
leaves a pending deadline alone, and a restart request, which does not. `Punctual` says that
every deadline is at most a grace period after the first SIGTERM. Sections keep it, and so do
restart requests that do not move a pending deadline back.
-/

namespace Nockd

namespace Supervisor

open Config Registry

/-- The first SIGTERM to the process of `pid`, with a further effect. -/
def noteTerm (pid : Pid) (first : Option ℤ) : Effect → Option ℤ
  | .signal t q .term => if q = pid then some (first.getD t) else first
  | .spawn q _ => if q = pid then none else first
  | _ => first

/-- When the process that has the pid now was first sent SIGTERM. -/
def firstTerm (log : List Effect) (pid : Pid) : Option ℤ := log.foldl (noteTerm pid) none

theorem firstTerm_concat (log : List Effect) (e : Effect) (pid : Pid) :
    firstTerm (log ++ [e]) pid = noteTerm pid (firstTerm log pid) e := by
  simp [firstTerm]

theorem firstTerm_concat_of_ne (log : List Effect) {e : Effect} {pid : Pid}
    (hterm : ∀ t, e ≠ .signal t pid .term) (hspawn : ∀ launch, e ≠ .spawn pid launch) :
    firstTerm (log ++ [e]) pid = firstTerm log pid := by
  rw [firstTerm_concat]
  cases e with
  | signal t q sig =>
      cases sig with
      | term =>
          have hq : q ≠ pid := by
            rintro rfl
            exact hterm t rfl
          simp [noteTerm, hq]
      | kill => rfl
  | spawn q launch =>
      have hq : q ≠ pid := by
        rintro rfl
        exact hspawn launch rfl
      simp [noteTerm, hq]
  | _ => rfl

/-- A process that is not collected, and is sent no SIGTERM, keeps its first one. -/
theorem Host.Acts.firstTerm {Q : Host → Effect → Prop} {h h' : Host} {pid : Pid}
    (hacts : Host.Acts Q h h') (hwait : ∀ h, ¬ Q h (.wait pid))
    (hterm : ∀ h t, ¬ Q h (.signal t pid .term))
    (hspawn : ∀ h launch, Q h (.spawn pid launch) → h.processes pid = none)
    (hp : h.processes pid ≠ none) :
    Supervisor.firstTerm h'.log pid = Supervisor.firstTerm h.log pid := by
  refine (hacts.keep (P := fun h₁ => h₁.processes pid ≠ none ∧
    Supervisor.firstTerm h₁.log pid = Supervisor.firstTerm h.log pid) ?_ ⟨hp, rfl⟩).2
  rintro h₁ e he ⟨hp, hfirst⟩
  have hne (launch : Launch) : e ≠ .spawn pid launch := by
    rintro rfl
    exact hp (hspawn h₁ launch he)
  have hquiet (t : ℤ) : e ≠ .signal t pid .term := by
    rintro rfl
    exact hterm h₁ t he
  refine ⟨?_, by rw [Host.apply_log, firstTerm_concat_of_ne _ hquiet hne, hfirst]⟩
  cases e with
  | wait q =>
      have hq : pid ≠ q := by
        rintro rfl
        exact hwait h₁ he
      rwa [Host.apply_wait_processes, Function.update_of_ne hq]
  | spawn q launch =>
      have hq : pid ≠ q := by
        rintro rfl
        exact hne launch rfl
      rwa [Host.apply_spawn_processes, Function.update_of_ne hq]
  | _ => exact hp

namespace World

variable {paths : Paths} {env : Env} {apps : List AppRow} {w w' : World}

/-- No deadline is later than a grace period after the first SIGTERM. -/
def Punctual (w : World) : Prop :=
  ∀ name m pid t, w.procs.lookup name = some m → m.child = some pid →
    firstTerm w.host.log pid = some t → ∃ d ∈ m.termDeadline, d ≤ t + graceSecs

/-! ## What a round does to the first SIGTERM -/

theorem event_firstTerm (name kind detail : String) (pid : Pid) :
    firstTerm (w.event env name kind detail).host.log pid = firstTerm w.host.log pid := by
  unfold event
  split
  · rfl
  · exact firstTerm_concat_of_ne _ (by simp) (by simp)

theorem writePidfile_firstTerm (name : String) (q pid : Pid) :
    firstTerm (w.writePidfile paths env name q).host.log pid = firstTerm w.host.log pid :=
  writePidfile_keep (P := fun h => firstTerm h.log pid = firstTerm w.host.log pid) rfl
    fun _ => firstTerm_concat_of_ne _ (by simp) (by simp)

/-- A process that has just been started was sent no SIGTERM. -/
theorem spawn_firstTerm (h : Host) (daemon : ℕ) (app : AppRow) (endpointUrl : Option String)
    (outcome : LaunchOutcome) {pid : Pid}
    (hok : (h.spawn paths daemon app endpointUrl outcome).2 = .ok pid) :
    firstTerm (h.spawn paths daemon app endpointUrl outcome).1.log pid = none := by
  obtain ⟨h', -, ⟨e, hspawn⟩ | ⟨q, bin, -, -, hspawn⟩⟩ :=
    Host.spawn_spec (P := fun _ => True) (h := h) paths daemon app endpointUrl outcome
      (fun _ _ _ _ => trivial) (fun _ _ _ => trivial) (fun _ _ _ => trivial) trivial
  · rw [hspawn] at hok
    cases hok
  · rw [hspawn] at hok ⊢
    cases hok
    rw [Host.apply_log, firstTerm_concat, noteTerm, if_pos rfl]

/-- A round leaves the first SIGTERM of the other apps' children, and of its own if the app is
not driven and no exit is seen. -/
theorem firstTerm_round (hupkeep : w.Upkeep) (r : Round) {name : String} {m : Managed}
    {pid : Pid} (hm : w.procs.lookup name = some m) (hchild : m.child = some pid)
    (hkeep : r = .reap name → w.tryWait env name m.child = none)
    (hdrive : ∀ app, r = .drive app → name ≠ app.name) :
    firstTerm (r.apply paths env apps w).host.log pid = firstTerm w.host.log pid := by
  refine (Round.acts r).firstTerm ?_ ?_ (fun _ _ hfree => hfree) ?_
  · rintro h ⟨m', hr, hm', hchild', hexit⟩
    have hname := hupkeep.held.unique ⟨m', hm', hchild'⟩ ⟨m, hm, hchild⟩
    rw [hname, hm] at hm'
    cases hm'
    rw [hname, hkeep (hr.trans (by rw [hname]))] at hexit
    cases hexit
  · rintro h t ⟨-, -, hsends⟩
    cases r with
    | reap other => cases hsends.1
    | drop other => cases hsends.1
    | drive app =>
        have hother : (w.entry app.name).child = some pid :=
          (hupkeep.coherent.entry app.name).pid.symm.trans hsends.2
        exact hdrive app rfl
          (hupkeep.held.unique ⟨m, hm, hchild⟩ ⟨_, lookup_of_entry hother, hother⟩)
  · obtain ⟨launch, exit, hp, -⟩ := hupkeep.held.started name m pid hm hchild
    rw [hp]
    exact Option.some_ne_none _

/-- Driving an app sends its child SIGTERM to begin a stop, and only then. -/
theorem drive_firstTerm {app : AppRow} {pid : Pid}
    (hchild : (w.entry app.name).child = some pid) (hpid : (w.entry app.name).pid = some pid) :
    firstTerm (w.drive paths env app).host.log pid =
      if app.desiredStatus = "stopped" ∧ (w.entry app.name).termDeadline = none then
        some ((firstTerm w.host.log pid).getD env.now)
      else firstTerm w.host.log pid := by
  have hentry : (w.procs.lookup app.name).getD {} = w.entry app.name := rfl
  unfold drive
  simp only [hentry]
  by_cases hstopped : app.desiredStatus = "stopped"
  · rw [if_pos hstopped]
    unfold driveStopped
    simp only [hchild, hpid, Option.isSome_some, if_true]
    cases hterm : (w.entry app.name).termDeadline with
    | none =>
        rw [if_pos (show _ ∧ _ from ⟨hstopped, rfl⟩), if_pos Option.isNone_none, event_firstTerm,
          setEntry_host, emit_host, Host.apply_log, firstTerm_concat, noteTerm, if_pos rfl]
    | some d => simp
  · have hheld : (w.entry app.name).child.isSome = true := by rw [hchild]; rfl
    rw [if_neg hstopped, if_pos hheld, if_neg (show ¬ (_ ∧ _) from fun h => hstopped h.1)]
    rfl

theorem driven_termDeadline_of_child {app : AppRow} {result : Except String Pid} {m : Managed}
    (hchild : m.child.isSome = true) :
    (driven env app result m).termDeadline =
      if app.desiredStatus = "stopped" ∧ m.termDeadline = none then some (env.now + graceSecs)
      else m.termDeadline := by
  unfold driven
  by_cases hstopped : app.desiredStatus = "stopped"
  · cases hterm : m.termDeadline with
    | none => simp [hstopped, hchild, Managed.terminating]
    | some d => simp [hstopped, hchild, hterm]
  · simp [hstopped, hchild]

/-- An app's child after the app was driven is the one before, or has just been started. -/
theorem drive_child {app : AppRow} {pid : Pid}
    (hchild : (driven env app (w.launchResult paths env app) (w.entry app.name)).child =
      some pid) :
    (w.entry app.name).child = some pid ∨
      firstTerm (w.drive paths env app).host.log pid = none := by
  by_cases hstart : Startable env app (w.entry app.name)
  · refine Or.inr ?_
    rw [driven_startable hstart] at hchild
    rw [drive_of_startable hstart]
    cases hresult : w.launchResult paths env app with
    | error e =>
        rw [hresult] at hchild
        exact absurd (hstart.2.1.symm.trans hchild) (by simp)
    | ok q =>
        rw [hresult] at hchild
        cases hchild
        have hnone := spawn_firstTerm w.host w.daemon app _ _ hresult
        unfold driveSpawn
        simp only
        split
        case h_1 host q' hspawn =>
          rw [event_firstTerm, writePidfile_firstTerm, setEntry_host]
          rwa [hspawn] at hnone
        case h_2 host e hspawn =>
          unfold launchResult at hresult
          rw [hspawn] at hresult
          cases hresult
  · exact Or.inl ((driven_of_not_startable hstart _).1.symm.trans hchild)

/-! ## Sections and restart requests -/

theorem Punctual.round (hupkeep : w.Upkeep) (h : w.Punctual) (r : Round) :
    (r.apply paths env apps w).Punctual := by
  intro name m' pid t hm' hchild hfirst
  by_cases hname : name = r.app
  · cases r with
    | reap app =>
        simp only [Round.app] at hname
        subst hname
        simp only [Round.apply] at hm'
        rw [reap_lookup] at hm'
        obtain ⟨m, hm, rfl⟩ := Option.map_eq_some_iff.1 hm'
        split at hchild
        · rw [Managed.reaped_child] at hchild
          cases hchild
        case isFalse hwait =>
          rw [if_neg hwait]
          refine h name m pid t hm hchild ?_
          rwa [firstTerm_round hupkeep _ hm hchild (fun _ => by simpa using hwait)
            (fun _ hr => by cases hr)] at hfirst
    | drop app =>
        have hm : w.procs.lookup name = some m' := dropRemoved_lookup_some hm'
        refine h name m' pid t hm hchild ?_
        rwa [firstTerm_round hupkeep _ hm hchild (fun hr => by cases hr)
          (fun _ hr => by cases hr)] at hfirst
    | drive app =>
        simp only [Round.app] at hname
        subst hname
        simp only [Round.apply] at hm' hfirst
        rw [drive_lookup, Option.some.injEq] at hm'
        subst hm'
        rcases drive_child hchild with hbefore | hnone
        · have hpid := hupkeep.held.pidOfChild _ _ pid (lookup_of_entry hbefore) hbefore
          rw [drive_firstTerm hbefore hpid] at hfirst
          rw [driven_termDeadline_of_child (by rw [hbefore]; rfl)]
          split at hfirst
          case isTrue hbegin =>
            -- no deadline was pending, so this SIGTERM is the first
            have hnone : firstTerm w.host.log pid = none := by
              by_contra hsome
              obtain ⟨t₀, ht₀⟩ := Option.ne_none_iff_exists'.1 hsome
              obtain ⟨d, hd, -⟩ := h _ _ pid t₀ (lookup_of_entry hbefore) hbefore ht₀
              rw [hbegin.2] at hd
              cases hd
            rw [hnone] at hfirst
            rw [if_pos hbegin]
            cases hfirst
            exact ⟨_, rfl, le_rfl⟩
          case isFalse hbegin =>
            rw [if_neg hbegin]
            exact h _ _ pid t (lookup_of_entry hbefore) hbefore hfirst
        · rw [hnone] at hfirst
          cases hfirst
  · have hm : w.procs.lookup name = some m' := by rwa [Round.lookup_ne hname] at hm'
    refine h name m' pid t hm hchild ?_
    rwa [firstTerm_round hupkeep r hm hchild (fun hr => absurd (by rw [hr]; rfl) hname)
      (fun app hr => by rw [hr] at hname; exact hname)] at hfirst

/-- A restart request keeps deadlines punctual if it does not move a pending one back. -/
theorem Punctual.requestRestart (hupkeep : w.Upkeep) (h : w.Punctual) {name : String}
    (hkeep : ∀ d ∈ (w.entry name).termDeadline, env.now + graceSecs ≤ d) :
    (w.requestRestart env name).Punctual := by
  unfold World.requestRestart
  cases hm : w.procs.lookup name with
  | none => exact h
  | some m =>
      rw [entry_of_lookup hm] at hkeep
      intro other m' pid t hm' hchild hfirst
      cases hpid : m.pid with
      | none =>
          simp only [hpid, setEntry_procs, setEntry_host] at hm' hfirst
          by_cases hother : other = name
          · subst hother
            rw [AList.lookup_insert, Option.some.injEq] at hm'
            subst hm'
            exact h other m pid t hm hchild hfirst
          · rw [AList.lookup_insert_ne hother] at hm'
            exact h other m' pid t hm' hchild hfirst
      | some q =>
          simp only [hpid, setEntry_procs, emit_procs, setEntry_host, emit_host, Host.apply_log]
            at hm' hfirst
          have hq : m.child = some q := (hupkeep.coherent name m hm).pid.symm.trans hpid
          by_cases hother : other = name
          · subst hother
            rw [AList.lookup_insert, Option.some.injEq] at hm'
            subst hm'
            have hsame : q = pid := Option.some.inj (hq.symm.trans hchild)
            rw [firstTerm_concat, noteTerm, if_pos hsame, Option.some.injEq] at hfirst
            refine ⟨_, rfl, ?_⟩
            cases hold : firstTerm w.host.log pid with
            | none =>
                rw [hold] at hfirst
                exact hfirst ▸ le_rfl
            | some t₀ =>
                rw [hold] at hfirst
                obtain ⟨d, hd, hle⟩ := h other m pid t₀ hm hchild hold
                exact (hkeep d hd).trans (hfirst ▸ hle)
          · rw [AList.lookup_insert_ne hother] at hm'
            have hne : q ≠ pid := by
              rintro rfl
              exact hother (hupkeep.held.unique ⟨m', hm', hchild⟩ ⟨m, hm, hq⟩)
            rw [firstTerm_concat_of_ne _ (by simp [hne]) (by simp)] at hfirst
            exact h other m' pid t hm' hchild hfirst

theorem Punctual.of_sameCores (h : w.Punctual) (hcores : SameCores w w')
    (hlog : w'.host.log = w.host.log) : w'.Punctual := by
  intro name m' pid t hm' hchild hfirst
  obtain ⟨m, hm, hcore⟩ := hcores.back hm'
  rw [hlog] at hfirst
  obtain ⟨d, hd, hle⟩ := h name m pid t hm
    ((congrArg Core.child hcore).symm.trans hchild) hfirst
  exact ⟨d, (congrArg Core.termDeadline hcore).trans hd, hle⟩

/-! ## Escalation -/

theorem rounds_log (rs : List Round) (w : World) :
    ∃ added, (rs.foldl (Round.apply paths env apps) w).host.log = w.host.log ++ added := by
  induction rs generalizing w with
  | nil => exact ⟨[], by simp⟩
  | cons r rs ih =>
      obtain ⟨added, hadded, -⟩ :=
        (show Host.Acts _ w.host (r.apply paths env apps w).host from Round.acts r).adds
          (P := fun _ => True) fun _ _ _ => trivial
      obtain ⟨more, hmore⟩ := ih (r.apply paths env apps w)
      exact ⟨added ++ more, by rw [List.foldl_cons, hmore, hadded, List.append_assoc]⟩

theorem reap_overdue {name : String} {m : Managed} {pid : Pid} {d : ℤ}
    (hm : w.procs.lookup name = some m) (hpid : m.pid = some pid)
    (hwait : w.tryWait env name m.child = none) (hd : d ∈ m.termDeadline) (hnow : d ≤ env.now) :
    w.reap paths env name = w.emit (.signal env.now pid .kill) := by
  have hdue : m.termDeadline.any (· ≤ env.now) = true := by
    rw [Option.mem_def.1 hd]
    exact decide_eq_true hnow
  unfold reap
  simp only [hm, hwait, hdue, if_true, hpid]
  cases m.child <;> rfl

/-- A section that sees no exit of a child past its deadline sends it SIGKILL. -/
theorem lockedSection_kills (hheld : w.Held) {name : String} {m : Managed} {pid : Pid} {d : ℤ}
    (hm : w.procs.lookup name = some m) (hchild : m.child = some pid)
    (hwait : w.tryWait env name m.child = none) (hd : d ∈ m.termDeadline) (hnow : d ≤ env.now) :
    ∃ added, (w.lockedSection paths env apps).host.log = w.host.log ++ added ∧
      .signal env.now pid .kill ∈ added := by
  have hmem : name ∈ env.order w.procs.keys := by
    rw [mem_order_keys, hm]
    rfl
  obtain ⟨before, after, hsplit⟩ := List.append_of_mem hmem
  have hnodup := nodup_order_keys env w
  rw [hsplit] at hnodup
  obtain ⟨hbefore, -, hapart⟩ := List.nodup_append.1 hnodup
  have hfresh : name ∉ before := fun hname => hapart name hname name (by simp) rfl
  -- the rounds before it leave the entry and its child alone
  obtain ⟨hlookup, hprocesses⟩ := @reapSweep_spec paths env w hheld.sole _ hbefore
  have hsame := @tryWait_of_others env w _ hheld.sole _ _ hfresh hprocesses _ hm
  rw [hwait] at hsame
  have hentry := hlookup name
  rw [if_neg hfresh, hm] at hentry
  have hround := @reap_overdue paths env _ _ _ _ _ hentry (hheld.pidOfChild name m pid hm hchild)
    hsame hd hnow
  obtain ⟨first, hfirst⟩ := @rounds_log paths env apps
    (before.map .reap) w
  obtain ⟨last, hlast⟩ := @rounds_log paths env apps
    (after.map .reap ++ (env.order (w.reapedAll paths env).procs.keys).map .drop ++
      apps.map .drive) ((before.foldl (reap paths env) w).reap paths env name)
  refine ⟨first ++ [.signal env.now pid .kill] ++ last, ?_, by simp⟩
  have hrounds : w.rounds paths env apps = before.map .reap ++ .reap name ::
      (after.map .reap ++ (env.order (w.reapedAll paths env).procs.keys).map .drop ++
        apps.map .drive) := by
    unfold rounds
    simp [hsplit]
  have hsweep : (before.map .reap).foldl (Round.apply paths env apps) w =
      before.foldl (reap paths env) w := List.foldl_map
  rw [hsweep] at hfirst
  rw [hround, emit_host, Host.apply_log, hfirst] at hlast
  rw [lockedSection_eq_rounds, hrounds, List.foldl_append, hsweep, List.foldl_cons]
  simp only [Round.apply, hround] at hlast ⊢
  rw [hlast]
  simp

end World

end Supervisor

end Nockd
