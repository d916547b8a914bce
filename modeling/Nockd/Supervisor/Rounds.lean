import Mathlib.Data.List.Induction
import Nockd.Supervisor.Tracking

/-!
# The rounds of a section

A locked section is three loops, and every round of a loop concerns one app. `rounds` lists
them in their order, so that a result can speak of a moment inside a section.
What a whole section makes of one entry is `driven` applied to the entry as the
first sweep leaves it: no app's rounds touch the entry of another.
-/

namespace Nockd

namespace Supervisor

open Config Registry

inductive Round where
  | reap (name : String)
  | drop (name : String)
  | drive (app : AppRow)
deriving DecidableEq, Repr

namespace Round

/-- The app that the round concerns. -/
def app : Round → String
  | .reap name => name
  | .drop name => name
  | .drive app => app.name

def apply (paths : Paths) (env : Env) (apps : List AppRow) (w : World) : Round → World
  | .reap name => w.reap paths env name
  | .drop name => w.dropRemoved paths env apps name
  | .drive app => w.drive paths env app

/-- A round of the third sweep is about a row of the snapshot. -/
def Listed (apps : List AppRow) : Round → Prop
  | .drive app => app ∈ apps
  | _ => True

end Round

namespace World

variable (paths : Paths) (env : Env)

/-- The world after the first sweep. -/
def reapedAll (w : World) : World := (env.order w.procs.keys).foldl (reap paths env) w

/-- The world after the first two sweeps. -/
def swept (w : World) (apps : List AppRow) : World :=
  (env.order (w.reapedAll paths env).procs.keys).foldl (dropRemoved paths env apps)
    (w.reapedAll paths env)

/-- The world in which the third sweep comes to the app. -/
def reached (w : World) (apps : List AppRow) (name : String) : World :=
  (apps.takeWhile (·.name ≠ name)).foldl (drive paths env) (w.swept paths env apps)

def rounds (w : World) (apps : List AppRow) : List Round :=
  (env.order w.procs.keys).map .reap ++
    (env.order (w.reapedAll paths env).procs.keys).map .drop ++ apps.map .drive

/-- What the host answers to a spawn of the app. -/
def launchResult (w : World) (app : AppRow) : Except String Pid :=
  (w.host.spawn paths w.daemon app (w.endpointUrl env app) (env.launch app.name)).2

/-- What the third sweep makes of an app's entry, given the outcome of a spawn. -/
def driven (app : AppRow) (result : Except String Pid) (m : Managed) : Managed :=
  if app.desiredStatus = "stopped" then
    if m.child.isSome then
      if m.termDeadline.isNone then m.terminating env.now else m
    else m.idle
  else if m.child.isSome then
    { m with state := if m.termDeadline.isSome then .stopping else .running }
  else if app.restartPolicy = "never" ∧ 0 < m.restarts then { m with state := .crashed }
  else if env.now < m.backoffUntil then { m with state := .backoff }
  else match result with
    | .ok pid => m.spawned env.now pid
    | .error _ => m.spawnFailed env.now

variable {paths env} {w : World} {apps : List AppRow}

theorem lockedSection_eq_foldl :
    w.lockedSection paths env apps = apps.foldl (drive paths env) (w.swept paths env apps) :=
  rfl

theorem lockedSection_eq_rounds :
    w.lockedSection paths env apps =
      (w.rounds paths env apps).foldl (Round.apply paths env apps) w := by
  unfold rounds
  rw [List.foldl_append, List.foldl_append, List.foldl_map, List.foldl_map, List.foldl_map]
  rfl

/-- What every round keeps, the section keeps up to each of its moments. -/
theorem rounds_keep {P : World → Prop} (hw : P w)
    (hround : ∀ w' r, r ∈ w.rounds paths env apps → P w' → P (r.apply paths env apps w'))
    {done rest : List Round} (hsplit : w.rounds paths env apps = done ++ rest) :
    P (done.foldl (Round.apply paths env apps) w) := by
  induction done using List.reverseRecOn generalizing rest with
  | nil => exact hw
  | append_singleton done r ih =>
      rw [List.append_assoc] at hsplit
      rw [List.foldl_append]
      refine hround _ r ?_ (ih hsplit)
      rw [hsplit]
      simp

theorem listed_of_mem_rounds {r : Round} (hr : r ∈ w.rounds paths env apps) :
    r.Listed apps := by
  unfold rounds at hr
  rcases List.mem_append.1 hr with hr | hr
  · rcases List.mem_append.1 hr with hr | hr <;> obtain ⟨name, -, rfl⟩ := List.mem_map.1 hr <;>
      trivial
  · obtain ⟨app, happ, rfl⟩ := List.mem_map.1 hr
    exact happ

theorem round_moves {r : Round} (hr : r.Listed apps) :
    Moves paths env apps w w (r.apply paths env apps w) := by
  cases r with
  | reap name => exact reap_moves (Or.inl rfl)
  | drop name => exact dropRemoved_moves id
  | drive app => exact drive_moves hr fun _ hstart => Untouched.due (Or.inl rfl) hstart

/-! ## One round and the entries -/

theorem reap_lookup_ne {name other : String} (hne : other ≠ name) :
    (w.reap paths env name).procs.lookup other = w.procs.lookup other := by
  unfold reap
  cases hm : w.procs.lookup name with
  | none => rfl
  | some m =>
      simp only
      split
      · rw [reapEvent_procs, setEntry_procs, AList.lookup_insert_ne hne]
        rfl
      · split
        · cases hpid : m.pid <;> rfl
        · rfl

theorem reap_lookup (name : String) :
    (w.reap paths env name).procs.lookup name =
      (w.procs.lookup name).map fun m =>
        if (w.tryWait env name m.child).isSome then m.reaped env.now else m := by
  unfold reap
  cases hm : w.procs.lookup name with
  | none => exact hm
  | some m =>
      simp only
      split
      case h_1 child status hchild hstatus =>
        rw [reapEvent_procs, setEntry_procs, AList.lookup_insert, Option.map_some, hstatus]
        rfl
      case h_2 hnone =>
        have hsame : w.tryWait env name m.child = none := by
          cases hstatus : w.tryWait env name m.child with
          | none => rfl
          | some status =>
              obtain ⟨child, hchild, -⟩ := tryWait_eq_some hstatus
              exact (hnone child status hchild hstatus).elim
        rw [Option.map_some, hsame]
        split
        · cases hpid : m.pid <;> exact hm
        · exact hm

theorem dropRemoved_lookup_ne {name other : String} (hne : other ≠ name) :
    (w.dropRemoved paths env apps name).procs.lookup other = w.procs.lookup other := by
  unfold dropRemoved
  split
  · rfl
  · cases hm : w.procs.lookup name with
    | none => rfl
    | some m => cases hpid : m.pid <;> simp [hpid, AList.lookup_erase_ne hne]

theorem Round.lookup_ne {r : Round} {name : String} (hne : name ≠ r.app) :
    (r.apply paths env apps w).procs.lookup name = w.procs.lookup name := by
  cases r with
  | reap name => exact reap_lookup_ne hne
  | drop name => exact dropRemoved_lookup_ne hne
  | drive app => exact drive_lookup_ne hne

theorem drive_lookup (app : AppRow) :
    (w.drive paths env app).procs.lookup app.name =
      some (driven env app (w.launchResult paths env app) (w.entry app.name)) := by
  have hentry : (w.procs.lookup app.name).getD {} = w.entry app.name := rfl
  unfold drive driven
  simp only [hentry]
  split
  · unfold driveStopped
    split
    · split
      · cases (w.entry app.name).pid <;> simp
      · simp
    · simp
  · split
    · simp
    · split
      · simp
      · split
        · simp
        · unfold driveSpawn launchResult
          simp only
          split
          case h_1 host pid hspawn => simp [hspawn, writePidfile_procs]
          case h_2 host e hspawn => simp [hspawn]

/-! ## The first two sweeps -/

/-- A round of the first sweep collects at most the child of its own app. -/
theorem reap_processes {name : String} {pid : Pid} (hheld : ¬ w.HeldBy pid name) :
    (w.reap paths env name).host.processes pid = w.host.processes pid := by
  unfold reap
  cases hm : w.procs.lookup name with
  | none => rfl
  | some m =>
      simp only
      split
      case h_1 child status hchild hstatus =>
        have hne : pid ≠ child := by
          rintro rfl
          exact hheld ⟨m, hm, hchild⟩
        rw [reapEvent_processes]
        exact Function.update_of_ne hne _ _
      case h_2 =>
        split
        · cases hpid : m.pid <;> rfl
        · rfl

/-- No other entry holds this child, so nobody has collected it. -/
theorem tryWait_of_others {w' : World} (hsole : w.SoleHolders) {names : List String} {name : String}
    (hname : name ∉ names) (hprocesses : ∀ pid, (∀ other ∈ names, ¬ w.HeldBy pid other) →
      w'.host.processes pid = w.host.processes pid)
    {m : Managed} (hm : w.procs.lookup name = some m) :
    w'.tryWait env name m.child = w.tryWait env name m.child := by
  unfold tryWait
  cases hchild : m.child with
  | none => rfl
  | some child =>
      have hkeep := hprocesses child fun other hother hby =>
        hname (hsole child _ _ ⟨m, hm, hchild⟩ hby ▸ hother)
      simp only [Option.bind_some, hkeep]

/-- A sweep over some names reaps their entries, and leaves the children of the
others alone. -/
theorem reapSweep_spec (hsole : w.SoleHolders) {names : List String} (hnodup : names.Nodup) :
    (∀ name, (names.foldl (reap paths env) w).procs.lookup name =
        if name ∈ names then (w.procs.lookup name).map fun _ => w.afterReap env name
        else w.procs.lookup name) ∧
      ∀ pid, (∀ name ∈ names, ¬ w.HeldBy pid name) →
        (names.foldl (reap paths env) w).host.processes pid = w.host.processes pid := by
  induction names using List.reverseRecOn with
  | nil => exact ⟨fun name => by simp, fun _ _ => rfl⟩
  | append_singleton names last ih =>
      obtain ⟨hnames, -, hlast⟩ := List.nodup_append.1 hnodup
      obtain ⟨hlookup, hprocesses⟩ := ih hnames
      have hfresh : last ∉ names := fun hmem => hlast last hmem last (by simp) rfl
      have hentry := hlookup last
      rw [if_neg hfresh] at hentry
      rw [List.foldl_append]
      constructor
      · intro name
        by_cases hname : name = last
        · subst hname
          rw [List.foldl_cons, List.foldl_nil, reap_lookup, hentry]
          cases hm : w.procs.lookup name with
          | none => simp
          | some m =>
              have hsame : (names.foldl (reap paths env) w).tryWait env name m.child =
                  w.tryWait env name m.child := tryWait_of_others hsole hfresh hprocesses hm
              simp only [Option.map_some, hsame, List.mem_append, List.mem_singleton, or_true,
                if_true, afterReap, hm]
        · rw [List.foldl_cons, List.foldl_nil, reap_lookup_ne hname, hlookup]
          simp [hname]
      · intro pid hpid
        have hother : ¬ (names.foldl (reap paths env) w).HeldBy pid last := by
          rintro ⟨m, hm, hchild⟩
          rw [hentry] at hm
          exact hpid last (by simp) ⟨m, hm, hchild⟩
        rw [List.foldl_cons, List.foldl_nil, reap_processes hother]
        exact hprocesses pid fun name hname => hpid name (by simp [hname])

theorem reapedAll_lookup (hsole : w.SoleHolders) (name : String) :
    (w.reapedAll paths env).procs.lookup name =
      (w.procs.lookup name).map fun _ => w.afterReap env name := by
  unfold reapedAll
  rw [(reapSweep_spec hsole (nodup_order_keys env w)).1 name]
  split
  · rfl
  case isFalse hname =>
    rw [mem_order_keys, Bool.not_eq_true, Option.isSome_eq_false_iff, Option.isNone_iff_eq_none]
      at hname
    rw [hname]
    rfl

/-- An app of the snapshot comes to the third sweep with its entry reaped. -/
theorem swept_entry (hsole : w.SoleHolders) {name : String} (hname : name ∈ apps.map (·.name)) :
    (w.swept paths env apps).entry name = w.afterReap env name := by
  have hkeep (names : List String) (w' : World) :
      (names.foldl (dropRemoved paths env apps) w').procs.lookup name = w'.procs.lookup name := by
    induction names generalizing w' with
    | nil => rfl
    | cons other names ih => rw [List.foldl_cons, ih, dropRemoved_lookup hname]
  unfold entry swept
  rw [hkeep, reapedAll_lookup hsole]
  cases hm : w.procs.lookup name with
  | none => simp only [afterReap, hm, Option.map_none, Option.getD_none]
  | some m => rfl

/-! ## The third sweep -/

theorem drives_lookup_ne {name : String} {rest : List AppRow}
    (hrest : name ∉ rest.map (·.name)) :
    (rest.foldl (drive paths env) w).procs.lookup name = w.procs.lookup name := by
  induction rest generalizing w with
  | nil => rfl
  | cons app rest ih =>
      simp only [List.map_cons, List.mem_cons, not_or] at hrest
      rw [List.foldl_cons, ih hrest.2, drive_lookup_ne hrest.1]

/-- A row of the snapshot splits it into the rows driven before and after it. -/
theorem eq_append_of_mem {app : AppRow} (hnodup : (apps.map (·.name)).Nodup)
    (happ : app ∈ apps) :
    ∃ after, apps = apps.takeWhile (·.name ≠ app.name) ++ app :: after ∧
      app.name ∉ (apps.takeWhile (·.name ≠ app.name)).map (·.name) ∧
      app.name ∉ after.map (·.name) := by
  induction apps with
  | nil => cases happ
  | cons row apps ih =>
      rw [List.map_cons, List.nodup_cons] at hnodup
      by_cases hname : row.name = app.name
      · have hrow : app = row := by
          rcases List.mem_cons.1 happ with h | h
          · exact h
          · exact absurd (List.mem_map_of_mem h) (hname ▸ hnodup.1)
        subst hrow
        exact ⟨apps, by simp, by simp, hnodup.1⟩
      · have hmem : app ∈ apps := by
          rcases List.mem_cons.1 happ with h | h
          · exact absurd (congrArg AppRow.name h.symm) hname
          · exact h
        obtain ⟨after, hsplit, hbefore, hafter⟩ := ih hnodup.2 hmem
        refine ⟨after, ?_, ?_, hafter⟩
        · rw [List.takeWhile_cons_of_pos (by simpa using hname), List.cons_append, ← hsplit]
        · rw [List.takeWhile_cons_of_pos (by simpa using hname), List.map_cons, List.mem_cons,
            not_or]
          exact ⟨Ne.symm hname, hbefore⟩

theorem reached_entry (hsole : w.SoleHolders) (hnodup : (apps.map (·.name)).Nodup) {app : AppRow}
    (happ : app ∈ apps) :
    (w.reached paths env apps app.name).entry app.name = w.afterReap env app.name := by
  obtain ⟨after, -, hbefore, -⟩ := eq_append_of_mem hnodup happ
  rw [← swept_entry hsole (List.mem_map_of_mem happ)]
  unfold entry reached
  rw [drives_lookup_ne hbefore]

/-- What a section makes of an app's entry. -/
theorem lockedSection_lookup (hsole : w.SoleHolders) (hnodup : (apps.map (·.name)).Nodup)
    {app : AppRow} (happ : app ∈ apps) :
    (w.lockedSection paths env apps).procs.lookup app.name =
      some (driven env app ((w.reached paths env apps app.name).launchResult paths env app)
        (w.afterReap env app.name)) := by
  obtain ⟨after, hsplit, -, hafter⟩ := eq_append_of_mem hnodup happ
  have hdriven (w' : World) : (apps.foldl (drive paths env) w').procs.lookup app.name =
      (((apps.takeWhile (·.name ≠ app.name)).foldl (drive paths env) w').drive paths env
        app).procs.lookup app.name := by
    conv_lhs => rw [hsplit]
    rw [List.foldl_append, List.foldl_cons, drives_lookup_ne hafter]
  rw [lockedSection_eq_foldl, hdriven, ← reached_entry hsole hnodup happ]
  exact drive_lookup app

/-- An app that the snapshot does not name has no entry afterwards. -/
theorem lockedSection_lookup_of_not_mem {name : String} (hname : name ∉ apps.map (·.name)) :
    (w.lockedSection paths env apps).procs.lookup name = none := by
  rw [lockedSection_eq_foldl, drives_lookup_ne hname]
  have hkeep (names : List String) (w' : World) :
      (names.foldl (dropRemoved paths env apps) w').procs.lookup name =
        if name ∈ names then none else w'.procs.lookup name := by
    induction names generalizing w' with
    | nil => simp
    | cons other names ih =>
        rw [List.foldl_cons, ih]
        by_cases hother : name = other
        · subst hother
          have hdrop : (w'.dropRemoved paths env apps name).procs.lookup name = none := by
            unfold dropRemoved
            rw [if_neg hname]
            cases hm : w'.procs.lookup name with
            | none => exact hm
            | some m => cases hpid : m.pid <;> simp [hpid]
          simp [hdrop]
        · rw [dropRemoved_lookup_ne hother]
          simp [hother]
  unfold swept
  rw [hkeep]
  split
  · rfl
  case isFalse h =>
    rwa [mem_order_keys, Bool.not_eq_true, Option.isSome_eq_false_iff,
      Option.isNone_iff_eq_none] at h

/-! ## The processes that the third sweep starts -/

/-- A spawn fails and starts nothing, or it starts the app under a free pid. -/
theorem spawn_cases (h : Host) (daemon : ℕ) (app : AppRow) (endpointUrl : Option String)
    (outcome : LaunchOutcome) :
    (∃ e, (h.spawn paths daemon app endpointUrl outcome).2 = .error e ∧
        (h.spawn paths daemon app endpointUrl outcome).1.processes = h.processes) ∨
      ∃ pid launch, (h.spawn paths daemon app endpointUrl outcome).2 = .ok pid ∧
        h.processes pid = none ∧ launch.app = app.name ∧ launch.row = app ∧
        (h.spawn paths daemon app endpointUrl outcome).1.processes =
          Function.update h.processes pid (some { launch := some launch }) := by
  obtain ⟨h', hsame, ⟨e, hspawn⟩ | ⟨pid, bin, -, hfree, hspawn⟩⟩ :=
    Host.spawn_spec (P := fun h' => h'.processes = h.processes) paths daemon app endpointUrl
      outcome (fun _ _ _ h => h) (fun _ _ h => h) (fun _ _ h => h) rfl
  · rw [hspawn]
    exact Or.inl ⟨e, rfl, hsame⟩
  · rw [hspawn]
    refine Or.inr ⟨pid, h'.launchOf paths daemon app endpointUrl bin, rfl, ?_, rfl, rfl, ?_⟩
    · rw [← hsame]
      exact hfree.2.2
    · rw [Host.apply_spawn_processes, hsame]

theorem driveStopped_processes (app : AppRow) (m : Managed) :
    (w.driveStopped env app m).host.processes = w.host.processes := by
  unfold driveStopped
  split
  · split
    · rw [event_processes]
      cases hpid : m.pid <;> rfl
    · rfl
  · rfl

theorem driveSpawn_processes (app : AppRow) (m : Managed) :
    (w.driveSpawn paths env app m).host.processes =
      (w.host.spawn paths w.daemon app (w.endpointUrl env app)
        (env.launch app.name)).1.processes := by
  unfold driveSpawn
  simp only
  split
  case h_1 host pid hspawn => rw [event_processes, writePidfile_processes, hspawn]; rfl
  case h_2 host e hspawn => rw [event_processes, hspawn]; rfl

/-- Driving an app leaves the processes alone, unless it starts the app. -/
theorem drive_processes (app : AppRow) :
    (w.drive paths env app).host.processes = w.host.processes ∨
      (w.drive paths env app).host.processes =
        (w.host.spawn paths w.daemon app (w.endpointUrl env app)
          (env.launch app.name)).1.processes := by
  unfold drive
  simp only
  split
  · exact Or.inl (driveStopped_processes _ _)
  · split
    · exact Or.inl rfl
    · split
      · exact Or.inl rfl
      · split
        · exact Or.inl rfl
        · exact Or.inr (driveSpawn_processes _ _)

/-- A process that is there stays as it is. -/
theorem drive_processes_keep {app : AppRow} {pid : Pid} {p : Process}
    (hp : w.host.processes pid = some p) :
    (w.drive paths env app).host.processes pid = some p := by
  rcases drive_processes app with hsame | hspawn
  · rw [hsame, hp]
  · rcases spawn_cases w.host w.daemon app (w.endpointUrl env app)
        (env.launch app.name) with ⟨-, -, hkeep⟩ | ⟨q, launch, -, hfree, -, -, hupdate⟩
    · rw [hspawn, hkeep, hp]
    · have hne : pid ≠ q := by
        rintro rfl
        rw [hfree] at hp
        cases hp
      rw [hspawn, hupdate, Function.update_of_ne hne, hp]

theorem drives_processes_keep {rest : List AppRow} {pid : Pid} {p : Process}
    (hp : w.host.processes pid = some p) :
    (rest.foldl (drive paths env) w).host.processes pid = some p := by
  induction rest generalizing w with
  | nil => exact hp
  | cons app rest ih => exact ih (drive_processes_keep hp)

theorem drive_of_startable {app : AppRow} (hstart : Startable env app (w.entry app.name)) :
    w.drive paths env app = w.driveSpawn paths env app (w.entry app.name) := by
  obtain ⟨hrunning, hchild, hpolicy, hbackoff⟩ := hstart
  have hentry : (w.procs.lookup app.name).getD {} = w.entry app.name := rfl
  unfold drive
  simp only [hentry, if_neg hrunning, hchild, Option.isSome_none, Bool.false_eq_true, if_false,
    if_neg hpolicy, if_neg (not_lt.2 hbackoff)]

theorem drive_started {app : AppRow} {pid : Pid}
    (hstart : Startable env app (w.entry app.name))
    (hresult : w.launchResult paths env app = .ok pid) :
    ∃ launch, launch.app = app.name ∧ launch.row = app ∧
      (w.drive paths env app).host.Runs pid launch := by
  have hdrive : (w.drive paths env app).host.processes = (w.host.spawn paths w.daemon app
      (w.endpointUrl env app) (env.launch app.name)).1.processes := by
    rw [drive_of_startable hstart]
    exact driveSpawn_processes _ _
  unfold launchResult at hresult
  rcases spawn_cases w.host w.daemon app (w.endpointUrl env app)
      (env.launch app.name) with ⟨e, herror, -⟩ | ⟨q, launch, hok, -, happ, hrow, hupdate⟩
  · rw [herror] at hresult
    cases hresult
  · rw [hok] at hresult
    cases hresult
    refine ⟨launch, happ, hrow, ?_⟩
    unfold Host.Runs
    rw [hdrive, hupdate, Function.update_self]

/-- An app that is due, and whose spawn the host lets succeed, runs after the
section. -/
theorem lockedSection_started (hheld : w.Held) (hnodup : (apps.map (·.name)).Nodup)
    {app : AppRow} (happ : app ∈ apps) (hdue : w.Due env app) {pid : Pid}
    (hresult : (w.reached paths env apps app.name).launchResult paths env app = .ok pid) :
    ∃ launch, launch.app = app.name ∧ launch.row = app ∧
      (w.lockedSection paths env apps).host.Runs pid launch := by
  have hstart : Startable env app ((w.reached paths env apps app.name).entry app.name) := by
    rw [reached_entry hheld.sole hnodup happ]
    exact hdue
  obtain ⟨launch, hname, hrow, hruns⟩ := drive_started hstart hresult
  refine ⟨launch, hname, hrow, ?_⟩
  obtain ⟨after, hsplit, -, -⟩ := eq_append_of_mem hnodup happ
  have hsection : w.lockedSection paths env apps =
      after.foldl (drive paths env) ((w.reached paths env apps app.name).drive paths env app) := by
    rw [lockedSection_eq_foldl]
    unfold reached
    generalize w.swept paths env apps = w'
    conv_lhs => rw [hsplit]
    rw [List.foldl_append]
    rfl
  rw [hsection]
  exact drives_processes_keep hruns

end World

end Supervisor

end Nockd
