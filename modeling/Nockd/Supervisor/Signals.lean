import Nockd.Supervisor.Entries

/-!
# The effects of a round

`RoundEffect` says what one round of a section may do to the host, and in which hosts. It
signals at most one process, the one whose pid its app's entry has, and `Sends` says
why: SIGKILL past a deadline or to an app that the snapshot does not name, SIGTERM to begin a
stop.

`Owned` and `Termed` say what an entry's pid and deadline stand for: an
unreaped instance of the app that this daemon started, and a SIGTERM that was
sent to it `graceSecs` before.
-/

namespace Nockd

namespace Supervisor

open Config Registry

/-- SIGTERM was sent at time `t` to the process that has the pid now. -/
def TermSent (log : List Effect) (pid : Pid) (t : ℤ) : Prop :=
  ∃ before after, log = before ++ .signal t pid .term :: after ∧
    ∀ launch, .spawn pid launch ∉ after

theorem TermSent.append {log : List Effect} {pid : Pid} {t : ℤ} {e : Effect}
    (h : TermSent log pid t) (he : ∀ launch, e ≠ .spawn pid launch) :
    TermSent (log ++ [e]) pid t := by
  obtain ⟨before, after, rfl, hafter⟩ := h
  refine ⟨before, after ++ [e], by simp, fun launch hmem => ?_⟩
  rcases List.mem_append.1 hmem with hmem | hmem
  · exact hafter launch hmem
  · exact he launch (List.mem_singleton.1 hmem).symm

/-- A SIGTERM that has just been sent. -/
theorem termSent_concat (log : List Effect) (pid : Pid) (t : ℤ) :
    TermSent (log ++ [.signal t pid .term]) pid t := ⟨log, [], rfl, by simp⟩

namespace Host

/-- The process of `pid` is an instance of the app that the daemon started, and
its exit has not been collected. -/
def ChildOf (h : Host) (daemon : ℕ) (name : String) (pid : Pid) : Prop :=
  ∃ launch exit, h.processes pid = some { launch := some launch, exit } ∧
    launch.app = name ∧ launch.daemon = daemon

theorem ChildOf.congr {h h' : Host} {daemon : ℕ} {name : String} {pid : Pid}
    (hchild : h.ChildOf daemon name pid) (hp : h'.processes pid = h.processes pid) :
    h'.ChildOf daemon name pid := by
  unfold ChildOf at hchild ⊢
  rwa [hp]

/-- A process that is not collected keeps the SIGTERM that it was sent. -/
theorem Acts.termSent {Q : Host → Effect → Prop} {h h' : Host} {pid : Pid} {t : ℤ}
    (hacts : Acts Q h h') (hwait : ∀ h, ¬ Q h (.wait pid))
    (hspawn : ∀ h launch, Q h (.spawn pid launch) → h.processes pid = none)
    (hp : h.processes pid ≠ none) (hterm : TermSent h.log pid t) : TermSent h'.log pid t := by
  refine (hacts.keep (P := fun h => h.processes pid ≠ none ∧ TermSent h.log pid t) ?_
    ⟨hp, hterm⟩).2
  rintro h e he ⟨hp, hterm⟩
  have hne (launch : Launch) : e ≠ .spawn pid launch := by
    rintro rfl
    exact hp (hspawn h launch he)
  refine ⟨?_, hterm.append hne⟩
  cases e with
  | wait q =>
      have hq : pid ≠ q := by
        rintro rfl
        exact hwait h he
      rwa [apply_wait_processes, Function.update_of_ne hq]
  | spawn q launch =>
      have hq : pid ≠ q := by
        rintro rfl
        exact hne launch rfl
      rwa [apply_spawn_processes, Function.update_of_ne hq]
  | _ => exact hp

end Host

namespace World

variable {paths : Paths} {env : Env} {apps : List AppRow} {w w' w₀ : World}

/-- The round sends the signal to the pid. -/
def Sends (env : Env) (apps : List AppRow) (w : World) : Round → Pid → Signal → Prop
  | .reap name, pid, sig => sig = .kill ∧ ∃ m d, w.procs.lookup name = some m ∧
      m.pid = some pid ∧ m.termDeadline = some d ∧ d ≤ env.now
  | .drop name, pid, sig => sig = .kill ∧ name ∉ apps.map (·.name) ∧
      ∃ m, w.procs.lookup name = some m ∧ m.pid = some pid
  | .drive app, pid, sig => sig = .term ∧ (w.entry app.name).pid = some pid

/-- What the round that begins in `w` does to a host it has come to. -/
def RoundEffect (env : Env) (apps : List AppRow) (w : World) (r : Round) (h : Host) :
    Effect → Prop
  | .signal t pid sig => h = w.host ∧ t = env.now ∧ Sends env apps w r pid sig
  | .wait pid => ∃ m, r = .reap r.app ∧ w.procs.lookup r.app = some m ∧ m.child = some pid ∧
      (w.tryWait env r.app m.child).isSome = true
  | .spawn pid _ => h.processes pid = none
  | .takeChildren => False
  | _ => True

/-! ## The effects of each round -/

section Acts

variable {Q : Host → Effect → Prop}

theorem event_acts (hevent : ∀ h ts app kind detail, Q h (.event ts app kind detail))
    (name kind detail : String) :
    Host.Acts Q w.host (w.event env name kind detail).host := by
  unfold event
  split
  · exact .refl
  · exact Host.Acts.refl.apply (hevent _ _ _ _ _)

theorem reap_acts (name : String) :
    Host.Acts (RoundEffect env apps w (.reap name)) w.host (w.reap paths env name).host := by
  unfold reap
  cases hm : w.procs.lookup name with
  | none => exact .refl
  | some m =>
      simp only
      split
      case h_1 child status hchild hstatus =>
        have hwait : RoundEffect env apps w (.reap name) w.host (.wait child) :=
          ⟨m, rfl, hm, hchild, Option.isSome_iff_exists.2 ⟨status, hstatus⟩⟩
        have hreaped : Host.Acts (RoundEffect env apps w (.reap name)) w.host
            ((w.host.apply (.wait child)).apply (.remove (resolve (paths.pidFile name)))) :=
          (Host.Acts.refl.apply hwait).apply trivial
        refine hreaped.trans ?_
        unfold reapEvent
        split
        · exact .refl
        · split <;> exact event_acts (fun _ _ _ _ _ => trivial) _ _ _
      case h_2 =>
        split
        case isTrue hdeadline =>
          cases hpid : m.pid with
          | none => exact .refl
          | some pid =>
              obtain ⟨d, hd, hnow⟩ := (Option.any_eq_true _ _).1 hdeadline
              exact Host.Acts.refl.apply
                ⟨rfl, rfl, rfl, m, d, hm, hpid, hd, of_decide_eq_true hnow⟩
        case isFalse => exact .refl

theorem dropRemoved_acts (name : String) :
    Host.Acts (RoundEffect env apps w (.drop name)) w.host
      (w.dropRemoved paths env apps name).host := by
  unfold dropRemoved
  split
  case isTrue => exact .refl
  case isFalse hname =>
    cases hm : w.procs.lookup name with
    | none => exact .refl
    | some m =>
        cases hpid : m.pid with
        | none =>
            simp only [hpid]
            exact Host.Acts.refl.apply trivial
        | some pid =>
            simp only [hpid]
            exact (Host.Acts.refl.apply ⟨rfl, rfl, rfl, hname, m, hm, hpid⟩).apply trivial

theorem driveStopped_acts (app : AppRow) :
    Host.Acts (RoundEffect env apps w (.drive app)) w.host
      (w.driveStopped env app (w.entry app.name)).host := by
  have hevent (h : Host) (ts : ℤ) (app' kind detail : String) :
      RoundEffect env apps w (.drive app) h (.event ts app' kind detail) := trivial
  unfold driveStopped
  split
  · split
    · cases hpid : (w.entry app.name).pid with
      | none => exact event_acts hevent _ _ _
      | some pid =>
          exact (Host.Acts.refl.apply ⟨rfl, rfl, rfl, hpid⟩).trans (event_acts hevent _ _ _)
    · exact .refl
  · exact .refl

/-- What a spawn does to the host, whatever its outcome. -/
theorem spawn_acts (h : Host) (hdir : ∀ h dir, Q h (.createDir dir))
    (hwrite : ∀ h file node, Q h (.write file node))
    (hspawn : ∀ h pid launch, h.processes pid = none → Q h (.spawn pid launch)) (daemon : ℕ)
    (app : AppRow) (endpointUrl : Option String) (outcome : LaunchOutcome) :
    Host.Acts Q h (h.spawn paths daemon app endpointUrl outcome).1 := by
  obtain ⟨h', hacts, ⟨e, hresult⟩ | ⟨pid, bin, -, hfree, hresult⟩⟩ :=
    Host.spawn_spec (P := Host.Acts Q h) paths daemon app endpointUrl outcome
      (fun _ _ _ hacts => hacts.apply (hdir _ _)) (fun _ _ hacts => hacts.apply (hwrite _ _ _))
      (fun _ _ hacts => hacts.apply (hwrite _ _ _)) .refl
  · rw [hresult]
    exact hacts
  · rw [hresult]
    exact hacts.apply (hspawn _ _ _ hfree.2.2)

theorem driveSpawn_acts (app : AppRow) (m : Managed) :
    Host.Acts (RoundEffect env apps w (.drive app)) w.host
      (w.driveSpawn paths env app m).host := by
  have hspawn : Host.Acts (RoundEffect env apps w (.drive app)) w.host
      (w.host.spawn paths w.daemon app (w.endpointUrl env app) (env.launch app.name)).1 :=
    spawn_acts w.host (fun _ _ => trivial) (fun _ _ _ => trivial) (fun _ _ _ hfree => hfree)
      w.daemon app _ _
  unfold driveSpawn
  simp only
  split
  case h_1 host pid hresult =>
    rw [hresult] at hspawn
    refine Host.Acts.trans ?_ (event_acts (fun _ _ _ _ _ => trivial) _ _ _)
    exact writePidfile_keep (P := Host.Acts _ w.host) hspawn fun node => hspawn.apply trivial
  case h_2 host e hresult =>
    rw [hresult] at hspawn
    exact hspawn.trans (event_acts (fun _ _ _ _ _ => trivial) _ _ _)

/-- The effects of a round. -/
theorem Round.acts (r : Round) :
    Host.Acts (RoundEffect env apps w r) w.host (r.apply paths env apps w).host := by
  cases r with
  | reap name => exact reap_acts name
  | drop name => exact dropRemoved_acts name
  | drive app =>
      have hentry : (w.procs.lookup app.name).getD {} = w.entry app.name := rfl
      unfold Round.apply drive
      simp only [hentry]
      split
      · exact driveStopped_acts app
      · split
        · exact .refl
        · split
          · exact .refl
          · split
            · exact .refl
            · exact driveSpawn_acts app _

theorem requestRestart_acts {name : String}
    (hsignal : ∀ m pid, w.procs.lookup name = some m → m.pid = some pid →
      Q w.host (.signal env.now pid .term)) :
    Host.Acts Q w.host (w.requestRestart env name).host := by
  unfold requestRestart
  cases hm : w.procs.lookup name with
  | none => exact .refl
  | some m =>
      cases hpid : m.pid with
      | none =>
          simp only [hpid]
          exact .refl
      | some pid =>
          simp only [hpid]
          exact Host.Acts.refl.apply (hsignal m pid hm hpid)

end Acts

/-! ## What the pids and deadlines stand for -/

/-- Every child was started for its app by this daemon. -/
def Owned (w : World) : Prop :=
  ∀ name pid, w.HeldBy pid name → w.host.ChildOf w.daemon name pid

/-- A pending termination began with a SIGTERM. -/
def Termed (w : World) : Prop :=
  ∀ name m pid d, w.procs.lookup name = some m → m.child = some pid →
    m.termDeadline = some d → TermSent w.host.log pid (d - graceSecs)

theorem Owned.of_heldBy (h : w.Owned) (hdaemon : w'.daemon = w.daemon)
    (hback : ∀ pid name, w'.HeldBy pid name → w.HeldBy pid name)
    (hchild : ∀ pid name, w.HeldBy pid name → w.host.ChildOf w.daemon name pid →
      w'.host.ChildOf w.daemon name pid) : w'.Owned := by
  intro name pid hheld
  have hbefore := hback pid name hheld
  rw [hdaemon]
  exact hchild pid name hbefore (h name pid hbefore)

theorem Owned.move (hheld : w.Held) (h : w.Owned) (hmove : Move paths env apps w₀ w w') :
    w'.Owned := by
  cases hmove with
  | wait name m child status hm hchild hexit =>
      rintro other pid ⟨m', hm', hc⟩
      obtain ⟨hne, hother⟩ := wait_lookup hm' hc
      have hpid : pid ≠ child := by
        rintro rfl
        exact hne (hheld.unique ⟨m', hother, hc⟩ ⟨m, hm, hchild⟩)
      exact (h other pid ⟨m', hother, hc⟩).congr (Function.update_of_ne hpid _ _)
  | drop name m hm hname =>
      refine h.of_heldBy rfl (fun pid other hby => ?_) fun pid other _ hold => hold
      obtain ⟨m', hm', hc⟩ := hby
      by_cases hother : other = name
      · rw [hother, AList.lookup_erase] at hm'
        cases hm'
      · exact ⟨m', by rwa [AList.lookup_erase_ne hother] at hm', hc⟩
  | update app m happ hchild hpid hterm =>
      have hhandles := sameHandles_setEntry hchild hpid hterm
      exact h.of_heldBy rfl (fun pid name => (hhandles.heldBy_iff pid name).1)
        fun pid name _ hold => hold
  | spawn app pid bin url happ hdue hidle hfree hbin hjam =>
      rintro other q ⟨m', hm', hc⟩
      rw [writePidfile_daemon]
      rcases spawn_lookup hm' with ⟨rfl, rfl⟩ | ⟨-, hother⟩
      · cases hc
        refine ⟨w.host.launchOf paths w.daemon app url bin, none, ?_, rfl, rfl⟩
        rw [spawn_processes, Function.update_self]
      · have hne := (hheld.started other m' q hother hc).ne_free hfree.2.2
        refine (h other q ⟨m', hother, hc⟩).congr ?_
        rw [spawn_processes, Function.update_of_ne hne]
  | _ => exact h.of_heldBy rfl (fun pid name hby => hby) fun pid name _ hold => hold

theorem Owned.round (hheld : w.Held) (h : w.Owned) {r : Round} (hr : r.Listed apps) :
    (r.apply paths env apps w).Held ∧ (r.apply paths env apps w).Owned :=
  (round_moves hr).keep (P := fun w => w.Held ∧ w.Owned)
    (fun _ _ hmove h => ⟨h.1.move hmove, h.2.move h.1 hmove⟩) ⟨hheld, h⟩

/-! ## A deadline stands for a SIGTERM -/

/-- A round leaves the SIGTERMs of the children that it does not collect. -/
theorem termSent_round (hheld : w.Held) (r : Round) {name : String} {m : Managed} {pid : Pid}
    {t : ℤ} (hm : w.procs.lookup name = some m) (hchild : m.child = some pid)
    (hkeep : r = .reap name → w.tryWait env name m.child = none)
    (hterm : TermSent w.host.log pid t) :
    TermSent (r.apply paths env apps w).host.log pid t := by
  refine (Round.acts r).termSent ?_ (fun _ _ hfree => hfree) ?_ hterm
  · rintro h ⟨m', hr, hm', hchild', hexit⟩
    have hname := hheld.unique ⟨m', hm', hchild'⟩ ⟨m, hm, hchild⟩
    rw [hname, hm] at hm'
    cases hm'
    rw [hname, hkeep (hr.trans (by rw [hname]))] at hexit
    cases hexit
  · obtain ⟨launch, exit, hp, -⟩ := hheld.started name m pid hm hchild
    rw [hp]
    exact Option.some_ne_none _

theorem dropRemoved_lookup_some {name other : String} {m : Managed}
    (hm : (w.dropRemoved paths env apps other).procs.lookup name = some m) :
    w.procs.lookup name = some m := by
  by_cases hother : name = other
  · subst hother
    unfold dropRemoved at hm
    split at hm
    · exact hm
    · cases hlookup : w.procs.lookup name with
      | none => simp [hlookup] at hm
      | some m₀ => cases hpid : m₀.pid <;> simp [hlookup, hpid] at hm
  · rwa [dropRemoved_lookup_ne hother] at hm

/-- A deadline after the third sweep was there before or is set with SIGTERM. -/
theorem driven_termDeadline {app : AppRow} {result : Except String Pid} {m : Managed} {pid : Pid}
    {d : ℤ} (hchild : (driven env app result m).child = some pid)
    (hd : (driven env app result m).termDeadline = some d) :
    m.child = some pid ∧ (m.termDeadline = some d ∨
      app.desiredStatus = "stopped" ∧ m.termDeadline = none ∧ d = env.now + graceSecs) := by
  unfold driven at hchild hd
  split at hchild
  case isTrue hstopped =>
    rw [if_pos hstopped] at hd
    split at hchild
    case isTrue hsome =>
      rw [if_pos hsome] at hd
      split at hchild
      case isTrue hnone =>
        rw [if_pos hnone] at hd
        exact ⟨hchild, Or.inr ⟨hstopped, by simpa using hnone, (Option.some.inj hd).symm⟩⟩
      case isFalse hnone =>
        rw [if_neg hnone] at hd
        exact ⟨hchild, Or.inl hd⟩
    case isFalse hnone =>
      rw [if_neg hnone] at hd
      cases hd
  case isFalse hrunning =>
    rw [if_neg hrunning] at hd
    split at hchild
    case isTrue hsome =>
      rw [if_pos hsome] at hd
      exact ⟨hchild, Or.inl hd⟩
    case isFalse hnone =>
      rw [if_neg hnone] at hd
      have hidle : m.child = none := by simpa using hnone
      split at hchild
      · exact absurd hchild (by simp [hidle])
      case isFalse hpolicy =>
        rw [if_neg hpolicy] at hd
        split at hchild
        · exact absurd hchild (by simp [hidle])
        case isFalse hbackoff =>
          rw [if_neg hbackoff] at hd
          cases result with
          | ok q => cases hd
          | error e => exact absurd hchild (by simp [Managed.spawnFailed, hidle])

theorem event_termSent {pid : Pid} {t : ℤ} (h : TermSent w.host.log pid t)
    (name kind detail : String) : TermSent (w.event env name kind detail).host.log pid t := by
  unfold event
  split
  · exact h
  · exact h.append (by simp)

/-- The round that begins a stop sends SIGTERM. -/
theorem drive_termSent {app : AppRow} {pid : Pid} (hstopped : app.desiredStatus = "stopped")
    (hchild : (w.entry app.name).child = some pid) (hpid : (w.entry app.name).pid = some pid)
    (hnone : (w.entry app.name).termDeadline = none) :
    TermSent (w.drive paths env app).host.log pid env.now := by
  have hentry : (w.procs.lookup app.name).getD {} = w.entry app.name := rfl
  unfold drive driveStopped
  simp only [hentry, if_pos hstopped, hchild, hpid, hnone, Option.isSome_some, Option.isNone_none,
    if_true]
  exact event_termSent (termSent_concat _ _ _) _ _ _

theorem Termed.round (hheld : w.Held) (h : w.Termed) (r : Round) :
    (r.apply paths env apps w).Termed := by
  intro name m' pid d hm' hchild hd
  by_cases hname : name = r.app
  · cases r with
    | reap app =>
        simp only [Round.apply, Round.app] at hname hm'
        subst hname
        rw [reap_lookup] at hm'
        obtain ⟨m, hm, rfl⟩ := Option.map_eq_some_iff.1 hm'
        split at hchild
        · rw [Managed.reaped_child] at hchild
          cases hchild
        case isFalse hwait =>
          rw [if_neg hwait] at hd
          exact termSent_round hheld _ hm hchild (fun _ => by simpa using hwait)
            (h name m pid d hm hchild hd)
    | drop app =>
        have hm : w.procs.lookup name = some m' := dropRemoved_lookup_some hm'
        exact termSent_round hheld _ hm hchild (fun hr => by cases hr)
          (h name m' pid d hm hchild hd)
    | drive app =>
        simp only [Round.apply, Round.app] at hname hm'
        subst hname
        rw [drive_lookup, Option.some.injEq] at hm'
        subst hm'
        obtain ⟨hbefore, hdeadline⟩ := driven_termDeadline hchild hd
        have hm := lookup_of_entry hbefore
        rcases hdeadline with hold | ⟨hstopped, hnone, rfl⟩
        · exact termSent_round hheld _ hm hbefore (fun hr => by cases hr)
            (h _ _ pid d hm hbefore hold)
        · rw [add_sub_cancel_right]
          exact drive_termSent hstopped hbefore (hheld.pidOfChild _ _ pid hm hbefore) hnone
  · have hm : w.procs.lookup name = some m' := by rwa [Round.lookup_ne hname] at hm'
    refine termSent_round hheld r hm hchild (fun hr => ?_) (h name m' pid d hm hchild hd)
    rw [hr] at hname
    exact absurd rfl hname

theorem Termed.requestRestart (hheld : w.Held) (h : w.Termed) (env : Env) (name : String) :
    (w.requestRestart env name).Termed := by
  unfold World.requestRestart
  cases hm : w.procs.lookup name with
  | none => exact h
  | some m =>
      intro other m' pid d hm' hchild hd
      cases hpid : m.pid with
      | none =>
          simp only [hpid, setEntry_procs] at hm' ⊢
          by_cases hother : other = name
          · subst hother
            rw [AList.lookup_insert, Option.some.injEq] at hm'
            subst hm'
            exact h other m pid d hm hchild hd
          · rw [AList.lookup_insert_ne hother] at hm'
            exact h other m' pid d hm' hchild hd
      | some q =>
          simp only [hpid, setEntry_procs, emit_procs] at hm' ⊢
          by_cases hother : other = name
          · subst hother
            rw [AList.lookup_insert, Option.some.injEq] at hm'
            subst hm'
            have hq : q = pid := by
              rw [hheld.pidOfChild other m pid hm hchild] at hpid
              exact (Option.some.inj hpid).symm
            have hd' : env.now = d - graceSecs :=
              eq_sub_of_add_eq (Option.some.inj hd)
            rw [hq, ← hd']
            exact termSent_concat _ _ _
          · rw [AList.lookup_insert_ne hother] at hm'
            exact (h other m' pid d hm' hchild hd).append (by simp)

theorem Termed.of_sameCores (h : w.Termed) (hcores : SameCores w w')
    (hlog : ∀ pid t, TermSent w.host.log pid t → TermSent w'.host.log pid t) : w'.Termed := by
  intro name m' pid d hm' hchild hd
  obtain ⟨m, hm, hcore⟩ := hcores.back hm'
  have hc : m.child = some pid := (congrArg Core.child hcore).symm.trans hchild
  have hd' : m.termDeadline = some d := (congrArg Core.termDeadline hcore).symm.trans hd
  exact hlog pid _ (h name m pid d hm hc hd')

/-! ## Together -/

/-- What holds of the entries as long as no child is taken out of the map. -/
structure Upkeep (w : World) : Prop where
  held : w.Held
  coherent : w.Coherent
  owned : w.Owned
  termed : w.Termed

/-- A registered app that the snapshot does not name has no child once exits are
seen, or its termination has timed out. -/
def SeesHeld (w : World) (env : Env) (apps : List AppRow) : Prop :=
  ∀ name ∈ w.host.registry.app.keys, name ∈ apps.map (·.name) ∨
    (w.afterReap env name).child = none ∨
      (w.entry name).termDeadline.any (· ≤ env.now) = true

instance (w : World) (env : Env) (apps : List AppRow) : Decidable (w.SeesHeld env apps) :=
  inferInstanceAs (Decidable (∀ name ∈ w.host.registry.app.keys, _))

theorem Upkeep.round (h : w.Upkeep) {r : Round} (hr : r.Listed apps) :
    (r.apply paths env apps w).Upkeep := by
  obtain ⟨hheld, howned⟩ := h.owned.round h.held hr
  exact ⟨hheld, h.coherent.round r, howned, h.termed.round h.held r⟩

/-- A change of the process table that leaves the children in place. -/
theorem Upkeep.of_processes (h : w.Upkeep) (hprocs : w'.procs = w.procs)
    (hlog : w'.host.log = w.host.log) (htaken : w'.taken = w.taken)
    (hdaemon : w'.daemon = w.daemon) (hprocesses : ProcessesKept w w')
    (hchild : ∀ name pid, w.HeldBy pid name → w.host.ChildOf w.daemon name pid →
      w'.host.ChildOf w.daemon name pid) : w'.Upkeep where
  held := h.held.of_sameHandles (sameHandles_of_procs hprocs) hprocesses htaken
  coherent := h.coherent.of_sameCores (sameCores_of_procs hprocs)
  owned := h.owned.of_heldBy hdaemon
    (fun pid name => ((sameHandles_of_procs hprocs).heldBy_iff pid name).1)
    fun pid name => hchild name pid
  termed := h.termed.of_sameCores (sameCores_of_procs hprocs) fun pid t hterm => by rwa [hlog]

end World

end Supervisor

namespace Api

open Config Registry Store Supervisor Supervisor.World

/-- The calls of a thread. -/
theorem perform_upkeep {paths : Paths} {crates : Crates} {env : Env} {w : World} {op : Call}
    (hmain : .main ∉ op.uses) (h : w.Upkeep) : (perform paths crates env w op).1.Upkeep := by
  rcases op.section_cases with ⟨apps, rfl⟩ | hsection
  · simp only [perform, lockedSection_eq_rounds]
    exact rounds_keep h (fun w' r hr hw' => hw'.round (listed_of_mem_rounds hr))
      (List.append_nil _).symm
  · have hframe : Frame w (perform paths crates env w op).1 := perform_frame hmain hsection
    have howned : (perform paths crates env w op).1.Owned :=
      h.owned.of_heldBy hframe.daemon (fun pid name => (hframe.handles.heldBy_iff pid name).1)
        fun pid name _ hold => hold.congr (congrFun hframe.processes pid)
    refine ⟨perform_held hmain h.held, perform_coherent hmain h.coherent, howned, ?_⟩
    by_cases hrestart : ∃ name, op = .requestRestart name
    · obtain ⟨name, rfl⟩ := hrestart
      exact h.termed.requestRestart h.held env name
    · refine h.termed.of_sameCores (perform_sameCores hmain hsection
        fun name heq => hrestart ⟨name, heq⟩) fun pid t hterm => ?_
      rcases hframe.signals with hlog | ⟨t', pid', sig, hlog⟩
      · rwa [hlog]
      · rw [hlog]
        exact hterm.append (by simp)

end Api

end Nockd
