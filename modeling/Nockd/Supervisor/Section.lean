import Mathlib.Logic.Relation
import Nockd.Supervisor.Reconcile

/-!
# What a locked section can do

`Move` lists the elementary moves of a section with what the code has checked
before each of them. A section is a sequence of moves, so an invariant of the
supervisor is proved once for each kind of move. A spawn is a single move with its entry
and its pidfile; every other move has at most one effect.

`Due` is the question that decides a spawn, asked of the world before the
section: no child is left once exits are seen, the app is not to be stopped,
its policy allows a start and its backoff is over.
-/

namespace Nockd

namespace Supervisor

open Config Registry Relation

namespace World

/-- The entry of an app, or a fresh one (`or_default`). -/
def entry (w : World) (name : String) : Managed := (w.procs.lookup name).getD {}

/-- The entry as the first sweep leaves it. -/
def afterReap (env : Env) (w : World) (name : String) : Managed :=
  match w.procs.lookup name with
  | none => {}
  | some m => if (w.tryWait env name m.child).isSome then m.reaped env.now else m

/-- The conditions under which the third sweep spawns. -/
def Startable (env : Env) (app : AppRow) (m : Managed) : Prop :=
  app.desiredStatus ≠ "stopped" ∧ m.child = none ∧
    ¬(app.restartPolicy = "never" ∧ 0 < m.restarts) ∧ m.backoffUntil ≤ env.now

instance (env : Env) (app : AppRow) (m : Managed) : Decidable (Startable env app m) :=
  inferInstanceAs (Decidable (_ ∧ _ ∧ _ ∧ _))

/-- A section that begins in `w` with this row spawns the app. -/
def Due (env : Env) (w : World) (app : AppRow) : Prop :=
  Startable env app (w.afterReap env app.name)

instance (env : Env) (w : World) (app : AppRow) : Decidable (w.Due env app) :=
  inferInstanceAs (Decidable (Startable _ _ _))

/-- One move of the section that began in `w₀` with the snapshot `apps`. -/
inductive Move (paths : Paths) (env : Env) (apps : List AppRow) (w₀ : World) :
    World → World → Prop where
  | signal (w : World) (name : String) (m : Managed) (pid : Pid) (sig : Signal)
      (hm : w.procs.lookup name = some m) (hpid : m.pid = some pid) :
      Move paths env apps w₀ w (w.emit (.signal env.now pid sig))
  | event (w : World) (name kind detail : String) :
      Move paths env apps w₀ w (w.emit (.event env.now name kind detail))
  | wait (w : World) (name : String) (m : Managed) (child : Pid) (status : ExitStatus)
      (hm : w.procs.lookup name = some m) (hchild : m.child = some child)
      (hexit : (w.host.processes child).bind (·.exit) = some status) :
      Move paths env apps w₀ w ((w.emit (.wait child)).setEntry name (m.reaped env.now))
  | drop (w : World) (name : String) (m : Managed) (hm : w.procs.lookup name = some m)
      (hname : name ∉ apps.map (·.name)) :
      Move paths env apps w₀ w { w with procs := w.procs.erase name }
  | unlink (w : World) (name : String) (m : Managed) (hm : w₀.procs.lookup name = some m)
      (hwhy : name ∉ apps.map (·.name) ∨ m.child.isSome = true)
      (hidle : ∀ m, w.procs.lookup name = some m → m.child = none) :
      Move paths env apps w₀ w (w.emit (.remove (resolve (paths.pidFile name))))
  | update (w : World) (app : AppRow) (m : Managed) (happ : app ∈ apps)
      (hchild : m.child = (w.entry app.name).child) (hpid : m.pid = (w.entry app.name).pid)
      (hterm : m.child.isSome = true → m.termDeadline = none →
        (w.entry app.name).termDeadline = none) :
      Move paths env apps w₀ w (w.setEntry app.name m)
  | createDir (w : World) (app : AppRow) (dir : File) (happ : app ∈ apps)
      (hdir : dir ∈ paths.stateDirs app.name) :
      Move paths env apps w₀ w (w.emit (.createDir dir))
  | stage (w : World) (app : AppRow) (jam node : FileNode) (happ : app ∈ apps)
      (hjam : w.host.disk (resolve (paths.jamPath app.artifactHash)) = some jam) :
      Move paths env apps w₀ w (w.emit (.write (resolve (paths.stagedJam app.name)) node))
  | openLog (w : World) (app : AppRow) (node : FileNode) (happ : app ∈ apps)
      (hnone : w.host.disk (resolve (paths.logFile app.name)) = none) :
      Move paths env apps w₀ w (w.emit (.write (resolve (paths.logFile app.name)) node))
  | spawn (w : World) (app : AppRow) (pid : Pid) (bin : FileNode) (url : Option String)
      (happ : app ∈ apps) (hdue : (apps.map (·.name)).Nodup → w₀.Due env app)
      (hidle : (w.entry app.name).child = none) (hfree : w.host.FreePid pid)
      (hbin : w.host.disk (resolve (paths.binPath app.artifactHash)) = some bin)
      (hjam : ∀ jam, w.host.disk (resolve (paths.jamPath app.artifactHash)) = some jam →
        w.host.disk (resolve (paths.stagedJam app.name)) = some jam ∨
          resolve (paths.logFile app.name) = resolve (paths.jamPath app.artifactHash)) :
      Move paths env apps w₀ w
        (((w.emit (.spawn pid (w.host.launchOf paths w.daemon app url bin))).setEntry
          app.name ((w.entry app.name).spawned env.now pid)).writePidfile paths env
          app.name pid)

abbrev Moves (paths : Paths) (env : Env) (apps : List AppRow) (w₀ : World) :
    World → World → Prop :=
  ReflTransGen (Move paths env apps w₀)

variable {paths : Paths} {env : Env} {apps : List AppRow} {w₀ w : World}

theorem event_moves (name kind detail : String) :
    Moves paths env apps w₀ w (w.event env name kind detail) := by
  unfold event
  split
  · exact .refl
  · exact .single (.event w name kind detail)

theorem tryWait_eq_some {name : String} {child : Option Pid} {status : ExitStatus}
    (h : w.tryWait env name child = some status) :
    ∃ pid, child = some pid ∧ (w.host.processes pid).bind (·.exit) = some status := by
  unfold tryWait at h
  split at h
  · cases h
  · exact Option.bind_eq_some_iff.1 h

/-! ## The first two sweeps -/

theorem reapEvent_moves (name : String) (m : Managed) (status : ExitStatus) :
    Moves paths env apps w₀ w (w.reapEvent env name m status) := by
  unfold reapEvent
  split
  · exact .refl
  · split <;> exact event_moves _ _ _

/-- Before the third sweep reaches it, an app's entry is the one of the start,
or that one with its exit seen. -/
def Untouched (env : Env) (w₀ w : World) (name : String) : Prop :=
  w.procs.lookup name = w₀.procs.lookup name ∨
    ∃ m, w₀.procs.lookup name = some m ∧ (w₀.tryWait env name m.child).isSome = true ∧
      w.procs.lookup name = some (m.reaped env.now)

/-- An entry that still holds its child is the one of the start. -/
theorem Untouched.lookup {name : String} {m : Managed} {child : Pid}
    (h : Untouched env w₀ w name) (hm : w.procs.lookup name = some m)
    (hchild : m.child = some child) : w₀.procs.lookup name = some m := by
  rcases h with hsame | ⟨m', -, -, hreaped⟩
  · rw [← hsame, hm]
  · rw [hm] at hreaped
    cases hreaped
    rw [Managed.reaped_child] at hchild
    cases hchild

/-- Either the exit of the child is seen or at most a signal is sent. -/
theorem reap_moves {name : String} (h : Untouched env w₀ w name) :
    Moves paths env apps w₀ w (w.reap paths env name) := by
  unfold reap
  cases hm : w.procs.lookup name with
  | none => exact .refl
  | some m =>
      simp only
      split
      case h_1 child status hchild hstatus =>
        obtain ⟨pid, hpid, hexit⟩ := tryWait_eq_some hstatus
        rw [hchild] at hpid
        cases hpid
        have hunlink := @Move.unlink paths env apps w₀
          ((w.emit (.wait child)).setEntry name (m.reaped env.now)) name m
        refine .trans (.head (.wait w name m child status hm hchild hexit)
          (.single (hunlink (h.lookup hm hchild) (Or.inr (by simp [hchild])) ?_)))
          (reapEvent_moves name m status)
        intro m' hm'
        rw [setEntry_procs, AList.lookup_insert] at hm'
        rw [← Option.some.inj hm', Managed.reaped_child]
      case h_2 =>
        split
        · cases hpid : m.pid with
          | none => exact .refl
          | some pid => exact .single (.signal w name m pid .kill hm hpid)
        · exact .refl

theorem dropRemoved_moves {name : String}
    (hkeys : (w.procs.lookup name).isSome = true → (w₀.procs.lookup name).isSome = true) :
    Moves paths env apps w₀ w (w.dropRemoved paths env apps name) := by
  unfold dropRemoved
  split
  · exact .refl
  · rename_i hname
    cases hm : w.procs.lookup name with
    | none => exact .refl
    | some m =>
        obtain ⟨m₀, hm₀⟩ := Option.isSome_iff_exists.1 (hkeys (by rw [hm]; rfl))
        have hunlink (w' : World) (hgone : w'.procs.lookup name = none) :
            Moves paths env apps w₀ w' (w'.emit (.remove (resolve (paths.pidFile name)))) := by
          refine .single (.unlink w' name m₀ hm₀ (Or.inl hname) fun m' hm' => ?_)
          rw [hgone] at hm'
          cases hm'
        cases hpid : m.pid with
        | none =>
            simp only [hpid]
            exact .head (.drop w name m hm hname) (hunlink _ (AList.lookup_erase _ _))
        | some pid =>
            simp only [hpid]
            refine .head (.signal w name m pid .kill hm hpid) ?_
            exact .head (.drop _ name m hm hname) (hunlink _ (AList.lookup_erase _ _))

/-! ## The third sweep -/

theorem createDirs_moves {app : AppRow} (happ : app ∈ apps) {dirs : List File}
    (hdirs : ∀ dir ∈ dirs, dir ∈ paths.stateDirs app.name) :
    Moves paths env apps w₀ w { w with host := w.host.createDirs dirs } := by
  unfold Host.createDirs
  induction dirs generalizing w with
  | nil => exact .refl
  | cons dir dirs ih =>
      rw [List.forall_mem_cons] at hdirs
      exact .head (.createDir w app dir happ hdirs.1) (ih hdirs.2)

theorem stageJam_moves (w₀ w : World) {app : AppRow} (happ : app ∈ apps) :
    Moves paths env apps w₀ w
      { w with host := w.host.stageJam paths app.artifactHash app.name } := by
  unfold Host.stageJam
  cases hjam : w.host.disk (resolve (paths.jamPath app.artifactHash)) with
  | none => exact .refl
  | some jam => exact .single (.stage w app jam jam happ hjam)

theorem stageJamCut_moves {app : AppRow} (happ : app ∈ apps) (left : Option ℕ) :
    Moves paths env apps w₀ w
      { w with host := w.host.stageJamCut paths app.artifactHash app.name left } := by
  unfold Host.stageJamCut
  cases hjam : w.host.disk (resolve (paths.jamPath app.artifactHash)) with
  | none => exact .refl
  | some jam =>
      cases left with
      | none => exact .refl
      | some n => exact .single (.stage w app jam _ happ hjam)

theorem openLog_moves {app : AppRow} (happ : app ∈ apps) :
    Moves paths env apps w₀ w { w with host := w.host.openLog paths app.name } := by
  unfold Host.openLog
  cases hlog : w.host.disk (resolve (paths.logFile app.name)) with
  | none => exact .single (.openLog w app _ happ hlog)
  | some node => exact .refl

/-- The working directory holds the artifact's kernel when the binary is
executed. -/
theorem staged_of_jam (app : AppRow) {jam : FileNode}
    (hjam : ((w.host.stageJam paths app.artifactHash app.name).openLog paths app.name).disk
      (resolve (paths.jamPath app.artifactHash)) = some jam) :
    ((w.host.stageJam paths app.artifactHash app.name).openLog paths app.name).disk
        (resolve (paths.stagedJam app.name)) = some jam ∨
      resolve (paths.logFile app.name) = resolve (paths.jamPath app.artifactHash) := by
  by_cases hlog : resolve (paths.logFile app.name) = resolve (paths.jamPath app.artifactHash)
  · exact Or.inr hlog
  left
  have hopen (h : Host) (file : File) (node : FileNode) (hfile : h.disk file = some node) :
      (h.openLog paths app.name).disk file = some node := by
    unfold Host.openLog
    cases hnone : h.disk (resolve (paths.logFile app.name)) with
    | some _ => exact hfile
    | none =>
        have hne : file ≠ resolve (paths.logFile app.name) := by
          rintro rfl
          rw [hnone] at hfile
          cases hfile
        exact (Disk.set_of_ne _ _ hne).trans hfile
  have hback (h : Host) : (h.openLog paths app.name).disk
      (resolve (paths.jamPath app.artifactHash)) =
        h.disk (resolve (paths.jamPath app.artifactHash)) := by
    unfold Host.openLog
    cases h.disk (resolve (paths.logFile app.name)) with
    | some _ => rfl
    | none => exact Disk.set_of_ne _ _ (Ne.symm hlog)
  rw [hback] at hjam
  apply hopen
  unfold Host.stageJam at hjam ⊢
  cases hold : w.host.disk (resolve (paths.jamPath app.artifactHash)) with
  | none => simp [hold] at hjam
  | some old =>
      rw [hold] at hjam
      have hset (file : File) : (w.host.apply
          (.write (resolve (paths.stagedJam app.name)) old)).disk file =
            w.host.disk.set (resolve (paths.stagedJam app.name)) (some old) file := rfl
      rw [hset] at hjam ⊢
      by_cases hsame : resolve (paths.jamPath app.artifactHash) =
          resolve (paths.stagedJam app.name)
      · rw [hsame] at hjam
        exact hjam
      · rw [Disk.set_of_ne _ _ hsame, hold] at hjam
        rw [Disk.set_self]
        exact hjam

theorem driveSpawn_moves {app : AppRow} (happ : app ∈ apps)
    (hdue : (apps.map (·.name)).Nodup → w₀.Due env app)
    (hidle : (w.entry app.name).child = none) :
    Moves paths env apps w₀ w (w.driveSpawn paths env app (w.entry app.name)) := by
  have hmade : Moves paths env apps w₀ w
      { w with host := w.host.createDirs (w.host.freeDirs paths app.name) } :=
    createDirs_moves happ fun dir => Host.mem_freeDirs
  have hstaged := hmade.trans (stageJam_moves w₀ _ happ)
  have hlogged := hstaged.trans (openLog_moves happ)
  have hfail (host : Host) (hmoves : Moves paths env apps w₀ w { w with host }) (e : String) :
      Moves paths env apps w₀ w
        (({ w with host }.setEntry app.name
          ((w.entry app.name).spawnFailed env.now)).event env app.name "error" e) := by
    refine (hmoves.trans (.single (.update _ app _ happ ?_ ?_ ?_))).trans (event_moves _ _ _)
    · rfl
    · rfl
    · exact fun hchild => by simp [Managed.spawnFailed, hidle] at hchild
  unfold driveSpawn Host.spawn
  simp only
  cases w.host.met paths app (env.launch app.name) with
  | stateDirFailed n =>
      exact hfail _ (createDirs_moves happ fun dir hmem =>
        Host.mem_freeDirs (List.mem_of_mem_take hmem)) _
  | stageFailed left => exact hfail _ (hmade.trans (stageJamCut_moves happ left)) _
  | logFailed => exact hfail _ hstaged _
  | cloneFailed => exact hfail _ hlogged _
  | execFailed => exact hfail _ hlogged _
  | started pid =>
      simp only
      rcases Host.exec_cases paths
          (((w.host.createDirs (w.host.freeDirs paths app.name)).stageJam paths app.artifactHash
            app.name).openLog paths app.name) w.daemon app
          (w.endpointUrl env app) pid with ⟨e, hexec⟩ | ⟨bin, hbin, -, hfree, hexec⟩
      · rw [hexec]
        exact hfail _ hlogged _
      · rw [hexec]
        exact (hlogged.trans (.single (.spawn _ app pid bin _ happ hdue hidle hfree hbin
          fun jam hjam => staged_of_jam app hjam))).trans (event_moves _ _ _)

theorem driveStopped_moves {app : AppRow} (happ : app ∈ apps) :
    Moves paths env apps w₀ w (w.driveStopped env app (w.entry app.name)) := by
  unfold driveStopped
  split
  case isTrue hchild =>
    split
    case isTrue hterm =>
      have hstop (w' : World) (hprocs : w'.procs = w.procs) :
          Move paths env apps w₀ w'
            (w'.setEntry app.name ((w.entry app.name).terminating env.now)) := by
        have hentry : w'.entry app.name = w.entry app.name := by
          unfold entry
          rw [hprocs]
        refine .update _ app _ happ ?_ ?_ (fun _ hnone => by cases hnone)
        · rw [hentry]
          rfl
        · rw [hentry]
          rfl
      cases hpid : (w.entry app.name).pid with
      | none => exact .trans (.single (hstop w rfl)) (event_moves _ _ _)
      | some pid =>
          cases hm : w.procs.lookup app.name with
          | none => simp [entry, hm] at hpid
          | some m =>
              have hsame : w.entry app.name = m := by simp [entry, hm]
              rw [hsame] at hpid
              exact .trans (.head (.signal w app.name m pid .term hm hpid)
                (.single (hstop _ rfl))) (event_moves _ _ _)
    case isFalse =>
      exact .single (.update w app _ happ rfl rfl fun _ h => h)
  case isFalse hchild =>
    exact .single (.update w app _ happ rfl rfl fun h => absurd h hchild)

theorem drive_moves {app : AppRow} (happ : app ∈ apps)
    (hdue : (apps.map (·.name)).Nodup → Startable env app (w.entry app.name) →
      w₀.Due env app) :
    Moves paths env apps w₀ w (w.drive paths env app) := by
  have hentry : (w.procs.lookup app.name).getD {} = w.entry app.name := rfl
  unfold drive
  rw [hentry]
  simp only
  split
  case isTrue => exact driveStopped_moves happ
  case isFalse hrunning =>
    split
    case isTrue => exact .single (.update w app _ happ rfl rfl fun _ h => h)
    case isFalse hchild =>
      have hidle : (w.entry app.name).child = none := by simpa using hchild
      split
      case isTrue => exact .single (.update w app _ happ rfl rfl fun _ h => h)
      case isFalse hpolicy =>
        split
        case isTrue => exact .single (.update w app _ happ rfl rfl fun _ h => h)
        case isFalse hbackoff =>
          refine driveSpawn_moves happ (fun hnodup => hdue hnodup ?_) hidle
          exact ⟨hrunning, hidle, hpolicy, not_lt.1 hbackoff⟩

/-! ## The whole section -/

theorem Untouched.keys {name : String} (h : Untouched env w₀ w name)
    (hsome : (w.procs.lookup name).isSome = true) : (w₀.procs.lookup name).isSome = true := by
  rcases h with hsame | ⟨m, hm, -, -⟩
  · rwa [← hsame]
  · rw [hm]
    rfl

theorem Untouched.due {app : AppRow} (h : Untouched env w₀ w app.name)
    (hstart : Startable env app (w.entry app.name)) : w₀.Due env app := by
  unfold Due afterReap
  rcases h with hsame | ⟨m, hm, hexit, hreaped⟩
  · unfold entry at hstart
    rw [hsame] at hstart
    cases hm : w₀.procs.lookup app.name with
    | none =>
        rw [hm] at hstart
        exact hstart
    | some m =>
        rw [hm] at hstart
        have hnone : w₀.tryWait env app.name m.child = none := by
          have hchild : m.child = none := hstart.2.1
          simp [tryWait, hchild]
        simp only [hnone, Option.isSome_none, Bool.false_eq_true, if_false]
        exact hstart
  · unfold entry at hstart
    rw [hreaped] at hstart
    simp only [hm, hexit, if_true]
    exact hstart

@[simp] theorem event_procs (name kind detail : String) :
    (w.event env name kind detail).procs = w.procs := by
  unfold event
  split <;> rfl

theorem event_processes (name kind detail : String) :
    (w.event env name kind detail).host.processes = w.host.processes := by
  unfold event
  split <;> rfl

theorem reapEvent_procs (name : String) (m : Managed) (status : ExitStatus) :
    (w.reapEvent env name m status).procs = w.procs := by
  unfold reapEvent
  split
  · rfl
  · split <;> exact event_procs _ _ _

theorem reapEvent_processes (name : String) (m : Managed) (status : ExitStatus) :
    (w.reapEvent env name m status).host.processes = w.host.processes := by
  unfold reapEvent
  split
  · rfl
  · split <;> exact event_processes _ _ _

/-- Processes are only collected during the first sweep. -/
def Collecting (w₀ w : World) : Prop :=
  ∀ pid p, w.host.processes pid = some p → w₀.host.processes pid = some p

theorem tryWait_of_collecting (hcollect : Collecting w₀ w) {name : String}
    {child : Option Pid} {status : ExitStatus}
    (h : w.tryWait env name child = some status) :
    w₀.tryWait env name child = some status := by
  unfold tryWait at h ⊢
  split at h
  · cases h
  · rename_i herr
    rw [if_neg herr]
    obtain ⟨pid, rfl, hexit⟩ := Option.bind_eq_some_iff.1 h
    obtain ⟨p, hp, hstatus⟩ := Option.bind_eq_some_iff.1 hexit
    rw [Option.bind_some, hcollect pid p hp]
    exact hstatus

theorem reap_untouched (paths : Paths) (hcollect : Collecting w₀ w)
    (hall : ∀ name, Untouched env w₀ w name) (name : String) :
    Collecting w₀ (w.reap paths env name) ∧
      ∀ other, Untouched env w₀ (w.reap paths env name) other := by
  unfold reap
  cases hm : w.procs.lookup name with
  | none => exact ⟨hcollect, hall⟩
  | some m =>
      simp only
      split
      case h_1 child status hchild hstatus =>
        constructor
        · intro pid p hp
          rw [reapEvent_processes] at hp
          simp only [setEntry_host, emit_host, Host.apply_remove_processes,
            Host.apply_wait_processes] at hp
          by_cases hpid : pid = child
          · simp [hpid] at hp
          · rw [Function.update_of_ne hpid] at hp
            exact hcollect pid p hp
        · intro other
          unfold Untouched
          rw [reapEvent_procs]
          simp only [setEntry_procs, emit_procs]
          by_cases hother : other = name
          · subst hother
            right
            refine ⟨m, (hall other).lookup hm hchild, ?_, AList.lookup_insert _⟩
            rw [tryWait_of_collecting hcollect hstatus]
            rfl
          · rw [AList.lookup_insert_ne hother]
            exact hall other
      case h_2 =>
        split
        · cases m.pid with
          | none => exact ⟨hcollect, hall⟩
          | some pid => exact ⟨hcollect, hall⟩
        · exact ⟨hcollect, hall⟩

/-- Dropping adds no entry. -/
theorem dropRemoved_keys (name other : String)
    (h : ((w.dropRemoved paths env apps other).procs.lookup name).isSome = true) :
    (w.procs.lookup name).isSome = true := by
  have herase (h : ((w.procs.erase other).lookup name).isSome = true) :
      (w.procs.lookup name).isSome = true := by
    by_cases hother : name = other
    · rw [hother, AList.lookup_erase] at h
      cases h
    · rwa [AList.lookup_erase_ne hother] at h
  unfold dropRemoved at h
  split at h
  · exact h
  · cases hm : w.procs.lookup other with
    | none => simpa only [hm] using h
    | some m =>
        rw [hm] at h
        cases hpid : m.pid with
        | none => exact herase (by simpa only [hpid, emit_procs] using h)
        | some pid => exact herase (by simpa only [hpid, emit_procs] using h)

theorem dropRemoved_lookup {name : String} (hname : name ∈ apps.map (·.name))
    (other : String) :
    (w.dropRemoved paths env apps other).procs.lookup name = w.procs.lookup name := by
  unfold dropRemoved
  split
  · rfl
  · rename_i hother
    have hne : name ≠ other := by
      rintro rfl
      exact hother hname
    cases hm : w.procs.lookup other with
    | none => rfl
    | some m =>
        cases hpid : m.pid with
        | none =>
            simp only [hpid, emit_procs]
            exact AList.lookup_erase_ne hne
        | some pid =>
            simp only [hpid, emit_procs]
            exact AList.lookup_erase_ne hne

/-- Driving an app leaves the entries of the others alone. -/
theorem drive_lookup_ne {app : AppRow} {name : String} (hne : name ≠ app.name) :
    (w.drive paths env app).procs.lookup name = w.procs.lookup name := by
  have hwrite (w' : World) (pid : Pid) :
      (w'.writePidfile paths env app.name pid).procs = w'.procs := by
    unfold writePidfile
    cases env.pidfileWrite app.name <;> rfl
  unfold drive
  simp only
  split
  · unfold driveStopped
    split
    · split
      · cases h : ((w.procs.lookup app.name).getD {}).pid <;>
          simp [AList.lookup_insert_ne hne]
      · simp [AList.lookup_insert_ne hne]
    · simp [AList.lookup_insert_ne hne]
  · split
    · simp [AList.lookup_insert_ne hne]
    · split
      · simp [AList.lookup_insert_ne hne]
      · split
        · simp [AList.lookup_insert_ne hne]
        · unfold driveSpawn
          simp only
          split <;> simp [hwrite, AList.lookup_insert_ne hne]

theorem drive_foldl_moves {rest : List AppRow} (hrest : ∀ app ∈ rest, app ∈ apps)
    (huntouched : (apps.map (·.name)).Nodup → (rest.map (·.name)).Nodup ∧
      ∀ app ∈ rest, Untouched env w₀ w app.name) :
    Moves paths env apps w₀ w (rest.foldl (drive paths env) w) := by
  induction rest generalizing w with
  | nil => exact .refl
  | cons app rest ih =>
      refine .trans (drive_moves (hrest app List.mem_cons_self) fun hnodup hstart => ?_)
        (ih (fun a ha => hrest a (List.mem_cons_of_mem _ ha)) fun hnodup => ?_)
      · exact ((huntouched hnodup).2 app List.mem_cons_self).due hstart
      · obtain ⟨hnames, hall⟩ := huntouched hnodup
        rw [List.map_cons, List.nodup_cons] at hnames
        refine ⟨hnames.2, fun a ha => ?_⟩
        have hne : a.name ≠ app.name := by
          intro h
          exact hnames.1 (h ▸ List.mem_map_of_mem ha)
        unfold Untouched
        rw [drive_lookup_ne hne]
        exact hall a (List.mem_cons_of_mem _ ha)

/-- A locked section is a sequence of moves. -/
theorem lockedSection_moves (w : World) (apps : List AppRow) :
    Moves paths env apps w w (w.lockedSection paths env apps) := by
  have hreap (names : List String) (w' : World)
      (hmoves : Moves paths env apps w w w') (hcollect : Collecting w w')
      (hall : ∀ name, Untouched env w w' name) :
      Moves paths env apps w w (names.foldl (reap paths env) w') ∧
        ∀ name, Untouched env w (names.foldl (reap paths env) w') name := by
    induction names generalizing w' with
    | nil => exact ⟨hmoves, hall⟩
    | cons name names ih =>
        obtain ⟨hcollect', hall'⟩ := reap_untouched paths hcollect hall name
        exact ih _ (hmoves.trans (reap_moves (hall name))) hcollect' hall'
  have hdrop (names : List String) (w' : World)
      (hmoves : Moves paths env apps w w w')
      (hkeys : ∀ name, (w'.procs.lookup name).isSome = true →
        (w.procs.lookup name).isSome = true)
      (hall : ∀ name ∈ apps.map (·.name), Untouched env w w' name) :
      Moves paths env apps w w (names.foldl (dropRemoved paths env apps) w') ∧
        ∀ name ∈ apps.map (·.name),
          Untouched env w (names.foldl (dropRemoved paths env apps) w') name := by
    induction names generalizing w' with
    | nil => exact ⟨hmoves, hall⟩
    | cons name names ih =>
        refine ih _ (hmoves.trans (dropRemoved_moves (hkeys name)))
          (fun other h => hkeys other (dropRemoved_keys other name h)) fun other hother => ?_
        unfold Untouched
        rw [dropRemoved_lookup hother]
        exact hall other hother
  unfold lockedSection
  obtain ⟨hreaped, hall⟩ := hreap (env.order w.procs.keys) w .refl (fun _ _ h => h)
    fun _ => Or.inl rfl
  obtain ⟨hdropped, hall'⟩ := hdrop (env.order
    ((env.order w.procs.keys).foldl (reap paths env) w).procs.keys) _ hreaped
    (fun name => (hall name).keys) fun name _ => hall name
  exact hdropped.trans (drive_foldl_moves (fun _ h => h) fun hnodup =>
    ⟨hnodup, fun app happ => hall' app.name (List.mem_map_of_mem happ)⟩)

/-! ## What a section leaves alone -/

/-- What every move keeps, a section keeps. -/
theorem Moves.keep {P : World → Prop} {w' : World} (h : Moves paths env apps w₀ w w')
    (hmove : ∀ w₁ w₂, Move paths env apps w₀ w₁ w₂ → P w₁ → P w₂) (hw : P w) : P w' := by
  induction h with
  | refl => exact hw
  | tail _ hlast ih => exact hmove _ _ hlast ih

/-- The write of a pidfile happens or not, whole or in part. -/
theorem writePidfile_keep {P : Host → Prop} {name : String} {pid : Pid} (h : P w.host)
    (hwrite : ∀ node, P (w.host.apply (.write (resolve (paths.pidFile name)) node))) :
    P (w.writePidfile paths env name pid).host := by
  unfold writePidfile
  cases env.pidfileWrite name with
  | done => exact hwrite _
  | notOpened => exact h
  | short n => exact hwrite _

theorem Move.quiet {w' : World} (h : Move paths env apps w₀ w w') :
    w'.host.registry.quiet = w.host.registry.quiet := by
  cases h with
  | spawn app pid bin url =>
      exact writePidfile_keep (P := fun h => h.registry.quiet = w.host.registry.quiet) (by simp)
        fun node => by simp
  | _ => simp

theorem lockedSection_quiet (w : World) (apps : List AppRow) :
    (w.lockedSection paths env apps).host.registry.quiet = w.host.registry.quiet :=
  (lockedSection_moves w apps).keep (P := fun w' => w'.host.registry.quiet = _)
    (fun _ _ hmove h => hmove.quiet.trans h) rfl

end World

end Supervisor

end Nockd
