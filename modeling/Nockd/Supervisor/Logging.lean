import Nockd.Supervisor.Attempts
import Nockd.Supervisor.Signals

/-!
# What a section logs

A round appends at most one event, about its own app: the first sweep when it sees an exit,
the third when it begins a stop or tries a spawn. `kinds` is the event log without times
and details.
-/

namespace Nockd

namespace Supervisor

open Config Registry

namespace World

/-- What the first sweep logs for an app whose exit it sees. -/
def exitKind (env : Env) (w : World) (name : String) : Option String :=
  (w.procs.lookup name).bind fun m =>
    if (w.tryWait env name m.child).isSome then
      if m.restartRequested then none
      else if m.termDeadline.isSome then some "stop" else some "crash"
    else none

/-- What the third sweep logs for an app whose entry it finds as `m`. -/
def driveKind (env : Env) (app : AppRow) (result : Except String Pid) (m : Managed) :
    Option String :=
  if app.desiredStatus = "stopped" then
    if m.child.isSome ∧ m.termDeadline.isNone then some "stop" else none
  else if Startable env app m then
    some (if result.isOk then "start" else "error")
  else none

/-- The apps and kinds of the events. -/
def kinds (w : World) : List (String × String) :=
  w.host.registry.event.map fun e => (e.appName, e.kind)

/-- What is logged of an app, unless the inserts of its events fail. -/
def noted (env : Env) (name : String) (kind : Option String) : List (String × String) :=
  if env.eventErr name then [] else kind.toList.map (name, ·)

variable {paths : Paths} {env : Env} {w : World} {apps : List AppRow}

@[simp] theorem noted_none (name : String) : noted env name none = [] := by simp [noted]

theorem event_kinds (name kind detail : String) :
    (w.event env name kind detail).kinds = w.kinds ++ noted env name (some kind) := by
  unfold event noted
  split
  · simp
  · simp [kinds, Host.apply, Host.perform, Registry.addEvent]

theorem reap_kinds (name : String) :
    (w.reap paths env name).kinds = w.kinds ++ noted env name (w.exitKind env name) := by
  unfold reap exitKind
  cases hm : w.procs.lookup name with
  | none => simp
  | some m =>
      simp only [Option.bind_some]
      split
      case h_1 child status hchild hstatus =>
        rw [hstatus, Option.isSome_some, if_pos rfl]
        unfold reapEvent
        split
        · simp [kinds, Host.apply, Host.perform]
        · split <;> exact event_kinds name _ _
      case h_2 hnone =>
        have hwait : ¬ (w.tryWait env name m.child).isSome = true := by
          intro hsome
          obtain ⟨status, hstatus⟩ := Option.isSome_iff_exists.1 hsome
          obtain ⟨child, hchild, -⟩ := tryWait_eq_some hstatus
          exact hnone child status hchild hstatus
        rw [if_neg hwait, noted_none, List.append_nil]
        split
        · cases hpid : m.pid <;> rfl
        · rfl

theorem dropRemoved_kinds (name : String) :
    (w.dropRemoved paths env apps name).kinds = w.kinds := by
  unfold dropRemoved
  split
  · rfl
  · cases hm : w.procs.lookup name with
    | none => rfl
    | some m => cases hpid : m.pid <;> simp only [hpid] <;> rfl

theorem spawn_registry (h : Host) (daemon : ℕ) (app : AppRow) (url : Option String)
    (outcome : LaunchOutcome) : (h.spawn paths daemon app url outcome).1.registry = h.registry := by
  have hacts : Host.Acts (fun _ e => ∀ ts app kind detail, e ≠ .event ts app kind detail) h
      (h.spawn paths daemon app url outcome).1 :=
    spawn_acts h (by simp) (by simp) (by simp) daemon app url outcome
  refine hacts.keep (P := fun h' => h'.registry = h.registry) (fun h' e he hsame => ?_) rfl
  cases e with
  | event ts app kind detail => exact absurd rfl (he ts app kind detail)
  | _ => exact hsame

theorem driveSpawn_kinds (app : AppRow) (m : Managed) :
    (w.driveSpawn paths env app m).kinds = w.kinds ++
      noted env app.name
        (some (if (w.launchResult paths env app).isOk then "start" else "error")) := by
  have hregistry : (w.host.spawn paths w.daemon app (w.endpointUrl env app)
      (env.launch app.name)).1.registry = w.host.registry := spawn_registry _ _ _ _ _
  unfold driveSpawn launchResult
  simp only
  split
  case h_1 host pid hresult =>
    rw [hresult] at hregistry ⊢
    have hkinds : host.registry.event.map (fun e => (e.appName, e.kind)) = w.kinds :=
      congrArg (fun r : Registry => r.event.map fun e => (e.appName, e.kind)) hregistry
    rw [event_kinds]
    congr 1
    exact writePidfile_keep
      (P := fun h => h.registry.event.map (fun e => (e.appName, e.kind)) = w.kinds) hkinds
      fun _ => hkinds
  case h_2 host e hresult =>
    rw [hresult] at hregistry ⊢
    rw [event_kinds]
    congr 1
    exact congrArg (fun r : Registry => r.event.map fun e => (e.appName, e.kind)) hregistry

theorem drive_kinds (app : AppRow) :
    (w.drive paths env app).kinds = w.kinds ++ noted env app.name
      (driveKind env app (w.launchResult paths env app) (w.entry app.name)) := by
  have hentry : (w.procs.lookup app.name).getD {} = w.entry app.name := rfl
  unfold drive driveKind
  simp only [hentry]
  split
  case isTrue hstopped =>
    unfold driveStopped
    split
    case isTrue hchild =>
      split
      case isTrue hterm =>
        rw [if_pos ⟨hchild, hterm⟩, event_kinds]
        cases hpid : (w.entry app.name).pid <;> rfl
      case isFalse hterm =>
        rw [if_neg fun h => hterm h.2, noted_none, List.append_nil]
        rfl
    case isFalse hchild =>
      rw [if_neg fun h => hchild h.1, noted_none, List.append_nil]
      rfl
  case isFalse hrunning =>
    split
    case isTrue hchild =>
      have hnot : ¬ Startable env app (w.entry app.name) := fun h => by
        simp [h.2.1] at hchild
      rw [if_neg hnot, noted_none, List.append_nil]
      rfl
    case isFalse hchild =>
      split
      case isTrue hpolicy =>
        have hnot : ¬ Startable env app (w.entry app.name) := fun h => h.2.2.1 hpolicy
        rw [if_neg hnot, noted_none, List.append_nil]
        rfl
      case isFalse hpolicy =>
        split
        case isTrue hbackoff =>
          have hnot : ¬ Startable env app (w.entry app.name) := fun h =>
            absurd h.2.2.2 (not_le.2 hbackoff)
          rw [if_neg hnot, noted_none, List.append_nil]
          rfl
        case isFalse hbackoff =>
          have hstart : Startable env app (w.entry app.name) :=
            ⟨hrunning, by simpa using hchild, hpolicy, not_lt.1 hbackoff⟩
          rw [if_pos hstart]
          exact driveSpawn_kinds app _

/-! ## The sweeps -/

/-- Before the first sweep has come to an app, it finds the entry and the child of the
start. -/
theorem exitKind_reapSweep (hheld : w.Held) {names : List String} (hnodup : names.Nodup)
    {name : String} (hname : name ∉ names) :
    (names.foldl (reap paths env) w).exitKind env name = w.exitKind env name := by
  obtain ⟨hlookup, hprocesses⟩ := @reapSweep_spec paths env w hheld.sole names hnodup
  have hentry := hlookup name
  rw [if_neg hname] at hentry
  unfold exitKind
  rw [hentry]
  cases hm : w.procs.lookup name with
  | none => rfl
  | some m =>
      have hsame : (names.foldl (reap paths env) w).tryWait env name m.child =
          w.tryWait env name m.child := tryWait_of_others hheld.sole hname hprocesses hm
      simp only [Option.bind_some, hsame]

theorem reapSweep_kinds (hheld : w.Held) {names : List String} (hnodup : names.Nodup) :
    (names.foldl (reap paths env) w).kinds =
      w.kinds ++ names.flatMap fun name => noted env name (w.exitKind env name) := by
  induction names using List.reverseRecOn with
  | nil => simp
  | append_singleton names last ih =>
      obtain ⟨hnames, -, hlast⟩ := List.nodup_append.1 hnodup
      have hfresh : last ∉ names := fun hmem => hlast last hmem last (by simp) rfl
      rw [List.foldl_append, List.foldl_cons, List.foldl_nil, reap_kinds, ih hnames,
        exitKind_reapSweep hheld hnames hfresh]
      simp

theorem dropSweep_kinds (names : List String) :
    (names.foldl (dropRemoved paths env apps) w).kinds = w.kinds := by
  induction names generalizing w with
  | nil => rfl
  | cons name names ih => rw [List.foldl_cons, ih, dropRemoved_kinds]

theorem driveSweep_kinds (hnodup : (apps.map (·.name)).Nodup) :
    (apps.foldl (drive paths env) w).kinds = w.kinds ++ apps.flatMap fun app =>
      let w' := (apps.takeWhile (·.name ≠ app.name)).foldl (drive paths env) w
      noted env app.name
        (driveKind env app (w'.launchResult paths env app) (w'.entry app.name)) := by
  induction apps using List.reverseRecOn with
  | nil => simp
  | append_singleton apps last ih =>
      rw [List.map_append] at hnodup
      obtain ⟨happs, -, hlast⟩ := List.nodup_append.1 hnodup
      have hfresh : ∀ app ∈ apps, app.name ≠ last.name := fun app happ =>
        hlast app.name (List.mem_map_of_mem happ) last.name (by simp)
      have hall : (apps ++ [last]).takeWhile (·.name ≠ last.name) = apps := by
        rw [List.takeWhile_append_of_pos (by simpa using hfresh)]
        simp
      have hearlier : ∀ app ∈ apps, (apps ++ [last]).takeWhile (·.name ≠ app.name) =
          apps.takeWhile (·.name ≠ app.name) := by
        intro app happ
        obtain ⟨after, hsplit, -, -⟩ := eq_append_of_mem happs happ
        have hlength := congrArg List.length hsplit
        rw [List.length_append, List.length_cons] at hlength
        rw [List.takeWhile_append, if_neg (by omega)]
      rw [List.foldl_append, List.foldl_cons, List.foldl_nil, drive_kinds, ih happs,
        List.flatMap_append, List.flatMap_singleton, List.append_assoc]
      simp only [hall]
      congr 2
      refine List.flatMap_congr fun app happ => ?_
      rw [hearlier app happ]

/-- The apps and kinds of the events of a section. -/
def logged (paths : Paths) (env : Env) (w : World) (apps : List AppRow) :
    List (String × String) :=
  ((env.order w.procs.keys).flatMap fun name => noted env name (w.exitKind env name)) ++
    apps.flatMap fun app => noted env app.name (driveKind env app
      ((w.reached paths env apps app.name).launchResult paths env app)
      (w.afterReap env app.name))

theorem lockedSection_kinds (hheld : w.Held) (hnodup : (apps.map (·.name)).Nodup) :
    (w.lockedSection paths env apps).kinds = w.kinds ++ w.logged paths env apps := by
  have hreap := @reapSweep_kinds paths env w hheld _ (nodup_order_keys env w)
  rw [lockedSection_eq_foldl, driveSweep_kinds hnodup, swept, dropSweep_kinds, reapedAll, hreap,
    List.append_assoc]
  congr 2
  refine List.flatMap_congr fun app happ => ?_
  rw [← @reached_entry paths env w apps hheld.sole hnodup app happ]
  rfl

/-! ## Stops and starts -/

/-- The section that begins in `w` logs a stop of the app: it sees the exit of a child that
was asked to stop, or asks a child to. -/
def LogsStop (env : Env) (w : World) (name : String) : Prop :=
  env.eventErr name = false ∧ ∃ m ∈ w.procs.lookup name,
    if (w.tryWait env name m.child).isSome then
      m.restartRequested = false ∧ m.termDeadline.isSome
    else m.child.isSome ∧ m.termDeadline.isNone

instance (env : Env) (w : World) (name : String) : Decidable (LogsStop env w name) :=
  inferInstanceAs (Decidable (_ ∧ ∃ m ∈ w.procs.lookup name, _))

/-- The section that begins in `w` starts the app and logs that. -/
def LogsStart (paths : Paths) (env : Env) (w : World) (apps : List AppRow) (app : AppRow) : Prop :=
  env.eventErr app.name = false ∧ w.Due env app ∧ w.spawnOk paths env apps app = true

theorem mem_noted {name name' kind : String} {kind' : Option String} :
    (name, kind) ∈ noted env name' kind' ↔
      name' = name ∧ env.eventErr name = false ∧ kind' = some kind := by
  unfold noted
  split
  case isTrue herr =>
    constructor
    · simp
    · rintro ⟨rfl, hok, -⟩
      rw [herr] at hok
      cases hok
  case isFalse herr =>
    simp only [List.mem_map, Option.mem_toList, Prod.mk.injEq]
    constructor
    · rintro ⟨_, hkind, rfl, rfl⟩
      exact ⟨rfl, by simpa using herr, hkind⟩
    · rintro ⟨rfl, -, hkind⟩
      exact ⟨kind, hkind, rfl, rfl⟩

theorem mem_logged {name kind : String} :
    (name, kind) ∈ w.logged paths env apps ↔ env.eventErr name = false ∧
      (w.exitKind env name = some kind ∨ ∃ app ∈ apps, app.name = name ∧
        driveKind env app ((w.reached paths env apps name).launchResult paths env app)
          (w.afterReap env name) = some kind) := by
  unfold logged
  simp only [List.mem_append, List.mem_flatMap, mem_noted]
  constructor
  · rintro (⟨_, -, rfl, hok, hkind⟩ | ⟨app, happ, rfl, hok, hkind⟩)
    · exact ⟨hok, Or.inl hkind⟩
    · exact ⟨hok, Or.inr ⟨app, happ, rfl, hkind⟩⟩
  · rintro ⟨hok, hkind | ⟨app, happ, rfl, hkind⟩⟩
    · refine Or.inl ⟨name, ?_, rfl, hok, hkind⟩
      obtain ⟨m, hm, -⟩ := Option.bind_eq_some_iff.1 hkind
      rw [mem_order_keys, hm]
      rfl
    · exact Or.inr ⟨app, happ, rfl, hok, hkind⟩

theorem mem_logged_of_mem {app : AppRow} (hnodup : (apps.map (·.name)).Nodup) (happ : app ∈ apps)
    {kind : String} : (app.name, kind) ∈ w.logged paths env apps ↔
      env.eventErr app.name = false ∧ (w.exitKind env app.name = some kind ∨
        driveKind env app ((w.reached paths env apps app.name).launchResult paths env app)
          (w.afterReap env app.name) = some kind) := by
  rw [mem_logged]
  refine and_congr_right fun _ => or_congr_right ⟨?_, fun h => ⟨app, happ, rfl, h⟩⟩
  rintro ⟨row, hrow, hname, h⟩
  rwa [eq_of_name_eq hnodup happ hrow hname] at h

/-- A section logs a stop of an app that is to be stopped in two phases only. -/
theorem mem_logged_stop {app : AppRow} (hnodup : (apps.map (·.name)).Nodup) (happ : app ∈ apps)
    (hstopped : app.desiredStatus = "stopped") :
    (app.name, "stop") ∈ w.logged paths env apps ↔ LogsStop env w app.name := by
  rw [mem_logged_of_mem hnodup happ, driveKind, if_pos hstopped]
  refine and_congr_right fun _ => ?_
  cases hm : w.procs.lookup app.name with
  | none => simp [exitKind, afterReap, hm]
  | some m =>
      simp only [exitKind, afterReap, hm, Option.bind_some, Option.mem_some_iff,
        exists_eq_left']
      by_cases hwait : (w.tryWait env app.name m.child).isSome = true
      · simp only [if_pos hwait, Managed.reaped_child]
        cases m.restartRequested <;> cases m.termDeadline <;> simp
      · simp only [if_neg hwait]
        simp

theorem exitKind_ne_start (name : String) : w.exitKind env name ≠ some "start" := by
  intro h
  obtain ⟨m, -, hkind⟩ := Option.bind_eq_some_iff.1 h
  split at hkind
  · split at hkind
    · cases hkind
    · split at hkind <;> simp at hkind
  · cases hkind

/-- A section logs a start of the apps that it starts. -/
theorem mem_logged_start {app : AppRow} (hnodup : (apps.map (·.name)).Nodup) (happ : app ∈ apps) :
    (app.name, "start") ∈ w.logged paths env apps ↔ LogsStart paths env w apps app := by
  rw [mem_logged_of_mem hnodup happ]
  refine and_congr_right fun _ => ?_
  rw [or_iff_right (exitKind_ne_start app.name)]
  unfold driveKind Due spawnOk
  split
  case isTrue hstopped =>
    constructor
    · intro h
      split at h <;> simp at h
    · exact fun h => absurd hstopped h.1.1
  case isFalse =>
    split
    case isTrue hstart =>
      cases ((w.reached paths env apps app.name).launchResult paths env app).isOk <;> simp [hstart]
    case isFalse hstart => simp [hstart]

end World

end Supervisor

end Nockd
