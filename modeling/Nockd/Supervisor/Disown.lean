import Nockd.Config.Layout
import Nockd.Supervisor.Pidfile
import Nockd.Supervisor.Rounds

/-!
# What an earlier daemon left

The supervisor never reads by whom a process was started. `disown` takes what other daemons
of the root started for processes that are not ours, and a section cannot tell the
difference. What it writes into a pidfile is the pid of what it starts, so the pidfiles come
to name no other process, unless a write is cut short.
-/

namespace Nockd

namespace Supervisor

open Config Registry

/-- The process as this daemon knows it: an instance only if it started it. -/
def Process.disown (daemon : ℕ) (p : Process) : Process :=
  { p with launch := p.launch.filter fun l => l.daemon = daemon }

def Host.disown (daemon : ℕ) (h : Host) : Host :=
  { h with processes := fun pid => (h.processes pid).map (Process.disown daemon) }

def World.disown (w : World) : World := { w with host := w.host.disown w.daemon }

variable {paths : Paths} {env : Env} {apps : List AppRow} {daemon : ℕ} {h : Host} {w : World}

namespace Host

@[simp] theorem disown_disk : (h.disown daemon).disk = h.disk := rfl

@[simp] theorem disown_registry : (h.disown daemon).registry = h.registry := rfl

@[simp] theorem disown_log : (h.disown daemon).log = h.log := rfl

theorem disown_update (pid : Pid) (p : Option Process) :
    (fun q => (Function.update h.processes pid p q).map (Process.disown daemon)) =
      Function.update (h.disown daemon).processes pid (p.map (Process.disown daemon)) := by
  funext q
  by_cases hq : q = pid
  · subst hq
    simp
  · simp [Function.update_of_ne hq, disown]

theorem disown_apply {e : Effect}
    (he : ∀ pid launch, e = .spawn pid launch → launch.daemon = daemon) :
    (h.apply e).disown daemon = (h.disown daemon).apply e := by
  cases e with
  | wait pid =>
      exact congrArg (fun p => { h.apply (.wait pid) with processes := p }) (disown_update pid none)
  | spawn pid launch =>
      have hlaunch : (some { launch := some launch : Process }).map (Process.disown daemon) =
          some { launch := some launch } := by
        simp [Process.disown, he pid launch rfl]
      refine (congrArg (fun p => { h.apply (.spawn pid launch) with processes := p })
        (disown_update pid _)).trans ?_
      rw [hlaunch]
      rfl
  | _ => rfl

theorem freePid_disown (pid : Pid) : (h.disown daemon).FreePid pid ↔ h.FreePid pid := by
  unfold FreePid disown
  simp

/-- What runs in the disowned host was started by the daemon. -/
theorem runs_disown {pid : Pid} {launch : Launch} :
    (h.disown daemon).Runs pid launch ↔ h.Runs pid launch ∧ launch.daemon = daemon := by
  have hprocess : (h.disown daemon).processes pid =
      (h.processes pid).map (Process.disown daemon) := rfl
  unfold Runs
  rw [hprocess]
  constructor
  · intro hruns
    obtain ⟨⟨l, exit⟩, hp, hdisown⟩ := Option.map_eq_some_iff.1 hruns
    obtain ⟨hl, rfl⟩ := Process.mk.inj hdisown
    obtain ⟨hlaunch, hdaemon⟩ := Option.filter_eq_some_iff.1 hl
    change l = some launch at hlaunch
    subst hlaunch
    exact ⟨hp, of_decide_eq_true hdaemon⟩
  · rintro ⟨hp, hdaemon⟩
    rw [hp]
    simp [Process.disown, hdaemon]

end Host

namespace World

@[simp] theorem disown_procs : w.disown.procs = w.procs := rfl

@[simp] theorem disown_daemon : w.disown.daemon = w.daemon := rfl

@[simp] theorem disown_host : w.disown.host = w.host.disown w.daemon := rfl

theorem disown_setEntry (name : String) (m : Managed) :
    (w.setEntry name m).disown = w.disown.setEntry name m := rfl

theorem disown_emit {e : Effect}
    (he : ∀ pid launch, e = .spawn pid launch → launch.daemon = w.daemon) :
    (w.emit e).disown = w.disown.emit e :=
  congrArg (fun h => { w with host := h }) (Host.disown_apply he)

theorem disown_event (name kind detail : String) :
    (w.event env name kind detail).disown = w.disown.event env name kind detail := by
  unfold event
  split
  · rfl
  · exact disown_emit (by simp)

theorem exited_disown (pid : Pid) :
    (w.disown.host.processes pid).bind (·.exit) = (w.host.processes pid).bind (·.exit) := by
  have hprocess : w.disown.host.processes pid =
      (w.host.processes pid).map (Process.disown w.daemon) := rfl
  rw [hprocess]
  cases w.host.processes pid <;> rfl

@[simp] theorem tryWait_disown (name : String) (child : Option Pid) :
    w.disown.tryWait env name child = w.tryWait env name child := by
  unfold tryWait
  simp only [exited_disown]

theorem liveNames_disown : w.disown.liveNames = w.liveNames := by
  have hlive (pid : Pid) : ((w.disown.host.processes pid).any fun p => p.exit.isNone) =
      (w.host.processes pid).any fun p => p.exit.isNone := by
    have hprocess : w.disown.host.processes pid =
        (w.host.processes pid).map (Process.disown w.daemon) := rfl
    rw [hprocess]
    cases w.host.processes pid <;> rfl
  unfold liveNames
  simp only [disown_procs, hlive]

theorem due_disown {app : AppRow} : w.disown.Due env app ↔ w.Due env app := by
  unfold Due afterReap
  simp only [disown_procs, tryWait_disown]

theorem foldl_disown {γ : Type} {f : World → γ → World}
    (hf : ∀ w x, (f w x).disown = f w.disown x) (xs : List γ) (w : World) :
    (xs.foldl f w).disown = xs.foldl f w.disown := by
  induction xs generalizing w with
  | nil => rfl
  | cons x xs ih => exact (ih (f w x)).trans (congrArg (fun w => xs.foldl f w) (hf w x))

/-! ## The rounds of a section -/

theorem disown_reap (name : String) :
    (w.reap paths env name).disown = w.disown.reap paths env name := by
  unfold reap
  rw [disown_procs]
  cases hm : w.procs.lookup name with
  | none => rfl
  | some m =>
      simp only [tryWait_disown]
      split
      case h_1 child status hchild hstatus =>
        have hreaped : (((w.emit (.wait child)).emit
            (.remove (resolve (paths.pidFile name)))).setEntry name (m.reaped env.now)).disown =
              ((w.disown.emit (.wait child)).emit
                (.remove (resolve (paths.pidFile name)))).setEntry name (m.reaped env.now) := by
          rw [disown_setEntry, disown_emit (by simp), disown_emit (by simp)]
        unfold reapEvent
        split
        · exact hreaped
        · split <;> rw [disown_event, hreaped]
      case h_2 =>
        split
        · cases hpid : m.pid with
          | none => rfl
          | some pid => exact disown_emit (by simp)
        · rfl

theorem disown_dropRemoved (name : String) :
    (w.dropRemoved paths env apps name).disown = w.disown.dropRemoved paths env apps name := by
  unfold dropRemoved
  split
  · rfl
  · rw [disown_procs]
    cases hm : w.procs.lookup name with
    | none => rfl
    | some m =>
        cases hpid : m.pid with
        | none =>
            simp only [hpid]
            exact disown_emit (by simp)
        | some pid =>
            simp only [hpid]
            rw [disown_emit (by simp), disown_emit (by simp)]
            rfl

theorem disown_createDirs (dirs : List File) :
    (h.disown daemon).createDirs dirs = (h.createDirs dirs).disown daemon := by
  unfold Host.createDirs
  induction dirs generalizing h with
  | nil => rfl
  | cons dir dirs ih =>
      simp only [List.foldl_cons]
      rw [← ih, Host.disown_apply (by simp)]

theorem disown_met (app : AppRow) (outcome : LaunchOutcome) :
    (h.disown daemon).met paths app outcome = h.met paths app outcome := by
  unfold Host.met Host.obstacle Host.freeDirs
  simp only [disown_createDirs, Host.disown_disk]

theorem disown_spawn (app : AppRow) (url : Option String) (outcome : LaunchOutcome) :
    ((h.disown daemon).spawn paths daemon app url outcome) =
      ((h.spawn paths daemon app url outcome).1.disown daemon,
        (h.spawn paths daemon app url outcome).2) := by
  have hfree : (h.disown daemon).freeDirs paths app.name = h.freeDirs paths app.name := rfl
  have hstage (h : Host) : (h.disown daemon).stageJam paths app.artifactHash app.name =
      (h.stageJam paths app.artifactHash app.name).disown daemon := by
    unfold Host.stageJam
    rw [Host.disown_disk]
    split <;> rfl
  have hcut (h : Host) (left : Option ℕ) :
      (h.disown daemon).stageJamCut paths app.artifactHash app.name left =
        (h.stageJamCut paths app.artifactHash app.name left).disown daemon := by
    unfold Host.stageJamCut
    rw [Host.disown_disk]
    split <;> rfl
  have hlog (h : Host) : (h.disown daemon).openLog paths app.name =
      (h.openLog paths app.name).disown daemon := by
    unfold Host.openLog
    rw [Host.disown_disk]
    split <;> rfl
  have hexec (h : Host) (pid : Pid) : (h.disown daemon).exec paths daemon app url pid =
      ((h.exec paths daemon app url pid).1.disown daemon,
        (h.exec paths daemon app url pid).2) := by
    unfold Host.exec
    rw [Host.disown_disk]
    cases h.disk (resolve (paths.binPath app.artifactHash)) with
    | none => rfl
    | some bin =>
        simp only [Host.freePid_disown]
        split
        · refine Prod.ext ?_ rfl
          exact (Host.disown_apply fun _ _ heq => by cases heq; rfl).symm
        · rfl
  unfold Host.spawn
  simp only [disown_met, hfree, disown_createDirs, hstage, hlog]
  cases h.met paths app outcome with
  | stageFailed left => exact Prod.ext (hcut _ left) rfl
  | started pid => exact hexec _ pid
  | _ => rfl

theorem disown_writePidfile (name : String) (pid : Pid) :
    (w.writePidfile paths env name pid).disown = w.disown.writePidfile paths env name pid := by
  unfold writePidfile
  cases env.pidfileWrite name with
  | notOpened => rfl
  | _ => exact disown_emit (by simp)

theorem disown_driveSpawn (app : AppRow) (m : Managed) :
    (w.driveSpawn paths env app m).disown = w.disown.driveSpawn paths env app m := by
  have hurl : w.disown.endpointUrl env app = w.endpointUrl env app := rfl
  unfold driveSpawn
  simp only [hurl, disown_host, disown_daemon, disown_spawn]
  cases hresult : w.host.spawn paths w.daemon app (w.endpointUrl env app)
      (env.launch app.name) with
  | mk host result =>
      cases result with
      | ok pid =>
          simp only
          rw [disown_event, disown_writePidfile]
          rfl
      | error e =>
          simp only
          rw [disown_event]
          rfl

theorem disown_driveStopped (app : AppRow) (m : Managed) :
    (w.driveStopped env app m).disown = w.disown.driveStopped env app m := by
  unfold driveStopped
  by_cases hchild : m.child.isSome = true
  · by_cases hterm : m.termDeadline.isNone = true
    · simp only [if_pos hchild, if_pos hterm, disown_event, disown_setEntry]
      cases m.pid with
      | none => rfl
      | some pid => simp only [disown_emit (w := w) (e := .signal env.now pid .term) (by simp)]
    · simp only [if_pos hchild, if_neg hterm]
      rfl
  · simp only [if_neg hchild]
    rfl

theorem disown_drive (app : AppRow) :
    (w.drive paths env app).disown = w.disown.drive paths env app := by
  unfold drive
  simp only [disown_procs, apply_ite disown, disown_driveStopped, disown_setEntry,
    disown_driveSpawn]
  rfl

/-- A section treats what an earlier daemon left like any process that is not ours. -/
theorem disown_lockedSection (apps : List AppRow) :
    (w.lockedSection paths env apps).disown = w.disown.lockedSection paths env apps := by
  have hreaped : ((env.order w.procs.keys).foldl (reap paths env) w).disown =
      (env.order w.disown.procs.keys).foldl (reap paths env) w.disown :=
    foldl_disown (fun w name => disown_reap (w := w) name) _ w
  unfold lockedSection
  simp only
  rw [foldl_disown (fun w app => disown_drive (w := w) app),
    foldl_disown (fun w name => disown_dropRemoved (w := w) name), hreaped]
  rw [← hreaped]
  rfl

/-! ## What the pidfiles name -/

/-- What the pidfile of the app names. -/
def filed (paths : Paths) (h : Host) (name : String) : Option Pid :=
  ((h.disk (resolve (paths.pidFile name))).map (·.bytes)).bind readPid

/-- What the pidfile of the app names after a write that is cut short. -/
def cutPid (env : Env) (name : String) : Option Pid :=
  match env.pidfileWrite name, env.launch name with
  | .short n, .started pid => readPid ((pidText pid env.now).take n)
  | _, _ => none

theorem spawn_pidFile (app : AppRow) (url : Option String) (outcome : LaunchOutcome)
    (name : String) :
    (h.spawn paths daemon app url outcome).1.disk (resolve (paths.pidFile name)) =
      h.disk (resolve (paths.pidFile name)) := by
  obtain ⟨h', hsame, ⟨e, hspawn⟩ | ⟨pid, bin, -, -, hspawn⟩⟩ :=
    Host.spawn_spec (P := fun h' => h'.disk (resolve (paths.pidFile name)) =
        h.disk (resolve (paths.pidFile name))) paths daemon app url outcome
      (fun _ _ _ h => h)
      (fun _ _ h => (Disk.set_of_ne _ _ (paths.pidFile_ne_stagedJam name app.name)).trans h)
      (fun _ _ h => (Disk.set_of_ne _ _ (paths.pidFile_ne_logFile name app.name)).trans h) rfl
  · rw [hspawn]
    exact hsame
  · rw [hspawn]
    exact hsame

/-- A spawn that succeeds has the pid that the host gave out. -/
theorem started_of_spawn {app : AppRow} {url : Option String} {outcome : LaunchOutcome}
    {pid : Pid} (hok : (h.spawn paths daemon app url outcome).2 = .ok pid) :
    outcome = .started pid ∧ h.FreePid pid := by
  obtain ⟨h', hsame, ⟨e, hspawn⟩ | ⟨q, bin, hstarted, hfree, hspawn⟩⟩ :=
    Host.spawn_spec (P := fun h' => h'.processes = h.processes) paths daemon app url outcome
      (fun _ _ _ h => h) (fun _ _ h => h) (fun _ _ h => h) rfl
  · rw [hspawn] at hok
    cases hok
  · rw [hspawn] at hok
    cases hok
    unfold Host.FreePid at hfree ⊢
    exact ⟨hstarted, hsame ▸ hfree⟩

@[simp] theorem filed_event (name kind detail other : String) :
    filed paths (w.event env name kind detail).host other = filed paths w.host other := by
  unfold event
  split <;> rfl

/-- A pidfile that is removed names nothing, and the others are as before. -/
theorem filed_remove (name other : String) :
    filed paths (h.apply (.remove (resolve (paths.pidFile name)))) other = filed paths h other ∨
      filed paths (h.apply (.remove (resolve (paths.pidFile name)))) other = none := by
  unfold filed
  by_cases hfile : resolve (paths.pidFile other) = resolve (paths.pidFile name)
  · right
    rw [hfile]
    exact congrArg (fun node => (node.map (·.bytes)).bind readPid) (Disk.set_self _ _ _)
  · left
    exact congrArg (fun node => (node.map (·.bytes)).bind readPid) (Disk.set_of_ne _ _ hfile)

theorem reap_filed (name other : String) :
    filed paths (w.reap paths env name).host other = filed paths w.host other ∨
      filed paths (w.reap paths env name).host other = none := by
  unfold reap
  cases hm : w.procs.lookup name with
  | none => exact Or.inl rfl
  | some m =>
      simp only
      split
      case h_1 child status hchild hstatus =>
        have hremoved : filed paths (((w.emit (.wait child)).emit
            (.remove (resolve (paths.pidFile name)))).setEntry name (m.reaped env.now)).host other =
              filed paths w.host other ∨ filed paths (((w.emit (.wait child)).emit
                (.remove (resolve (paths.pidFile name)))).setEntry name (m.reaped env.now)).host
                  other = none := filed_remove name other
        unfold reapEvent
        split
        · exact hremoved
        · split <;> rw [filed_event] <;> exact hremoved
      case h_2 =>
        split
        · cases m.pid <;> exact Or.inl rfl
        · exact Or.inl rfl

theorem dropRemoved_filed (name other : String) :
    filed paths (w.dropRemoved paths env apps name).host other = filed paths w.host other ∨
      filed paths (w.dropRemoved paths env apps name).host other = none := by
  unfold dropRemoved
  split
  · exact Or.inl rfl
  · cases hm : w.procs.lookup name with
    | none => exact Or.inl rfl
    | some m =>
        cases hpid : m.pid with
        | none =>
            simp only [hpid]
            exact filed_remove name other
        | some pid =>
            simp only [hpid]
            exact filed_remove name other

/-- The pidfile of what is started names it, unless its write is cut short. -/
theorem writePidfile_filed {name other : String} {pid : Pid} (hpid : pid < 2 ^ 31)
    (hlaunch : env.launch name = .started pid) :
    filed paths (w.writePidfile paths env name pid).host other = filed paths w.host other ∨
      resolve (paths.pidFile other) = resolve (paths.pidFile name) ∧
        (filed paths (w.writePidfile paths env name pid).host other = some pid ∨
          filed paths (w.writePidfile paths env name pid).host other = cutPid env name) := by
  have hwrite (node : FileNode) :
      filed paths (w.host.apply (.write (resolve (paths.pidFile name)) node)) other =
          filed paths w.host other ∨
        resolve (paths.pidFile other) = resolve (paths.pidFile name) ∧
          filed paths (w.host.apply (.write (resolve (paths.pidFile name)) node)) other =
            readPid node.bytes := by
    unfold filed
    by_cases hfile : resolve (paths.pidFile other) = resolve (paths.pidFile name)
    · refine Or.inr ⟨hfile, ?_⟩
      rw [hfile]
      exact congrArg (fun node => (node.map (·.bytes)).bind readPid) (Disk.set_self _ _ _)
    · left
      exact congrArg (fun node => (node.map (·.bytes)).bind readPid) (Disk.set_of_ne _ _ hfile)
  unfold writePidfile
  cases houtcome : env.pidfileWrite name with
  | notOpened => exact Or.inl rfl
  | done =>
      refine (hwrite (w.host.disk.written _ (pidText pid env.now))).imp id fun h => ⟨h.1, Or.inl ?_⟩
      exact h.2.trans (readPid_pidText (hpid.trans (by decide)) env.now)
  | short n =>
      refine (hwrite (w.host.disk.written _ ((pidText pid env.now).take n))).imp id
        fun h => ⟨h.1, Or.inr (h.2.trans ?_)⟩
      simp only [cutPid, houtcome, hlaunch]
      rfl

theorem driveSpawn_filed (app : AppRow) (m : Managed) (other : String) :
    filed paths (w.driveSpawn paths env app m).host other = filed paths w.host other ∨
      resolve (paths.pidFile other) = resolve (paths.pidFile app.name) ∧
        ((∃ pid, w.host.processes pid = none ∧
            filed paths (w.driveSpawn paths env app m).host other = some pid) ∨
          filed paths (w.driveSpawn paths env app m).host other = cutPid env app.name) := by
  have hsame : filed paths (w.host.spawn paths w.daemon app (w.endpointUrl env app)
      (env.launch app.name)).1 other = filed paths w.host other := by
    unfold filed
    rw [spawn_pidFile]
  unfold driveSpawn
  simp only
  split
  case h_1 host pid hspawn =>
    obtain ⟨hlaunch, hfree⟩ := started_of_spawn (congrArg Prod.snd hspawn)
    rw [hspawn] at hsame
    rw [filed_event]
    refine (writePidfile_filed hfree.2.1 hlaunch).imp (fun h => h.trans hsame)
      fun h => ⟨h.1, h.2.imp (fun h => ?_) id⟩
    exact ⟨pid, hfree.2.2, h⟩
  case h_2 host e hspawn =>
    rw [filed_event]
    rw [hspawn] at hsame
    exact Or.inl hsame

/-- A round writes the pid of what it starts, if its write is not cut short. -/
theorem drive_filed (app : AppRow) (other : String) :
    filed paths (w.drive paths env app).host other = filed paths w.host other ∨
      resolve (paths.pidFile other) = resolve (paths.pidFile app.name) ∧
        ((∃ pid, w.host.processes pid = none ∧
            filed paths (w.drive paths env app).host other = some pid) ∨
          filed paths (w.drive paths env app).host other = cutPid env app.name) := by
  unfold drive
  simp only
  split
  · left
    unfold driveStopped
    split
    · split
      · rw [filed_event]
        cases ((w.procs.lookup app.name).getD {}).pid <;> rfl
      · rfl
    · rfl
  · split
    · exact Or.inl rfl
    · split
      · exact Or.inl rfl
      · split
        · exact Or.inl rfl
        · exact driveSpawn_filed app _ other

theorem round_filed {r : Round} (hlisted : r.Listed apps) (other : String) :
    filed paths (r.apply paths env apps w).host other = filed paths w.host other ∨
      filed paths (r.apply paths env apps w).host other = none ∨
      ∃ app ∈ apps, resolve (paths.pidFile other) = resolve (paths.pidFile app.name) ∧
        ((∃ pid, w.host.processes pid = none ∧
            filed paths (r.apply paths env apps w).host other = some pid) ∨
          filed paths (r.apply paths env apps w).host other = cutPid env app.name) := by
  cases r with
  | reap name => exact (reap_filed name other).imp id Or.inl
  | drop name => exact (dropRemoved_filed name other).imp id Or.inl
  | drive app => exact (drive_filed app other).imp id fun h => Or.inr ⟨app, hlisted, h⟩

/-- What another daemon started runs on, if it runs at all. -/
theorem ran_of_moves {w' : World} (hmoves : Moves paths env apps w w w') :
    w'.daemon = w.daemon ∧ ∀ pid launch, w'.host.Runs pid launch → launch.daemon ≠ w.daemon →
      w.host.Runs pid launch := by
  refine hmoves.keep (P := fun w' => w'.daemon = w.daemon ∧ ∀ pid launch,
    w'.host.Runs pid launch → launch.daemon ≠ w.daemon → w.host.Runs pid launch) ?_
    ⟨rfl, fun _ _ hruns _ => hruns⟩
  rintro w₁ w₂ hmove ⟨hdaemon, hran⟩
  refine ⟨hmove.daemon.trans hdaemon, fun pid launch hruns hother => ?_⟩
  rcases hmove.runs hruns with hran₁ | ⟨hstarted, -⟩
  · exact hran pid launch hran₁ hother
  · exact absurd (hstarted.trans hdaemon) hother

/-- The number is not that of a running process which another daemon started for an app with
this pidfile. -/
def NotLeft (paths : Paths) (w : World) (name : String) (pid : Pid) : Prop :=
  ∀ p ∈ w.host.processes pid, p.exit = none → ∀ launch ∈ p.launch, launch.daemon ≠ w.daemon →
    resolve (paths.pidFile launch.app) ≠ resolve (paths.pidFile name)

instance (paths : Paths) (w : World) (name : String) (pid : Pid) :
    Decidable (NotLeft paths w name pid) :=
  inferInstanceAs (Decidable (∀ p ∈ w.host.processes pid, _ → ∀ launch ∈ p.launch, _ → _))

/-- No pidfile names what another daemon started. -/
def Unfiled (paths : Paths) (w : World) : Prop :=
  ∀ pid launch, w.host.Runs pid launch → launch.daemon ≠ w.daemon →
    filed paths w.host launch.app ≠ some pid

/-- A section leaves it so, if no pidfile is cut short to such a number. -/
theorem Unfiled.section (h : Unfiled paths w)
    (hcut : ∀ app ∈ apps, ∀ pid ∈ cutPid env app.name, NotLeft paths w app.name pid) :
    Unfiled paths (w.lockedSection paths env apps) := by
  rw [lockedSection_eq_rounds]
  refine (rounds_keep (P := fun w' => w'.daemon = w.daemon ∧ (∀ pid launch,
    w'.host.Runs pid launch → launch.daemon ≠ w.daemon → w.host.Runs pid launch) ∧
      Unfiled paths w') ⟨rfl, fun _ _ hruns _ => hruns, h⟩ ?_ (List.append_nil _).symm).2.2
  rintro w' r hr ⟨hdaemon, hran, hunfiled⟩
  have hlisted := listed_of_mem_rounds hr
  have hmoves : Moves paths env apps w' w' (r.apply paths env apps w') := round_moves hlisted
  obtain ⟨hdaemon', hran'⟩ := ran_of_moves hmoves
  refine ⟨hdaemon'.trans hdaemon, fun pid launch hruns hother => ?_,
    fun pid launch hruns hother => ?_⟩
  · exact hran pid launch (hran' pid launch hruns (hdaemon ▸ hother)) hother
  · rw [hdaemon'] at hother
    have hbefore := hran' pid launch hruns hother
    have hkept := hunfiled pid launch hbefore hother
    have hfiled := @round_filed paths env apps w' r hlisted launch.app
    rcases hfiled with hsame | hnone | ⟨app, happ, hfile, ⟨q, hfree, hpid⟩ | hpid⟩
    · rwa [hsame]
    · simp [hnone]
    · rw [hpid]
      rintro ⟨⟩
      unfold Host.Runs at hbefore
      rw [hfree] at hbefore
      cases hbefore
    · rw [hpid]
      intro hnamed
      have hother' : launch.daemon ≠ w.daemon := hdaemon ▸ hother
      exact hcut app happ pid hnamed _ (hran pid launch hbefore hother') rfl launch rfl hother'
        hfile

end World

end Supervisor

end Nockd
