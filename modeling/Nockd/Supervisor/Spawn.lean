import Nockd.Supervisor.Host

/-!
# Spawning one instance

`stageJam` copies the artifact's kernel into the app's state directory, if the
artifact has one. `spawn` makes the directory, stages the kernel, opens the log, substitutes
the placeholders of the arguments and executes the stored binary. What the host
answers is given by a `LaunchOutcome`, unless a file or a directory is in the way before that;
a started process gets a free pid.
-/

namespace Nockd

namespace Supervisor

open Config Registry

/-- What happens to a spawn on the host. -/
inductive LaunchOutcome where
  | started (pid : Pid)
  /-- So many of the directories are made, or there already. -/
  | stateDirFailed (made : ℕ)
  /-- The copy of the kernel fails; one cut short leaves that many bytes. -/
  | stageFailed (left : Option ℕ)
  | logFailed
  | cloneFailed
  | execFailed
deriving DecidableEq, Repr

/-- How far the spawn comes. -/
def LaunchOutcome.reaches : LaunchOutcome → ℕ
  | .stateDirFailed _ => 0
  | .stageFailed _ => 1
  | .logFailed => 2
  | _ => 3

/-- Replace the matches of `pat` from left to right; the number counts the
characters of the last match that are still to be skipped. -/
def replaceFrom (pat rep : List Char) : ℕ → List Char → List Char
  | _, [] => []
  | n + 1, _ :: cs => replaceFrom pat rep n cs
  | 0, c :: cs =>
    if pat.isPrefixOf (c :: cs) then rep ++ replaceFrom pat rep (pat.length - 1) cs
    else c :: replaceFrom pat rep 0 cs

/-- `str::replace` for a non-empty pattern. -/
def replace (s pat rep : List Char) : List Char := replaceFrom pat rep 0 s

def substitute (endpointUrl : Option String) (portStr : Option (List Char))
    (a : List Char) : List Char :=
  let a := match endpointUrl with
    | some url => replace a "\x7bendpoint\x7d".toList url.toList
    | none => a
  match portStr with
  | some p => replace a "\x7bport\x7d".toList p
  | none => a

/-- The command of an app: its arguments and the variables added to the
environment. -/
def command (paths : Paths) (app : AppRow) (endpointUrl : Option String) : Command :=
  let portStr := app.port.map fun p => Nat.toDigits 10 p.toNat
  { program := paths.binPath app.artifactHash
    currentDir := paths.stateDir app.name
    args := app.args.map fun a => substitute endpointUrl portStr a.toList
    env := (endpointUrl.map fun url => ("NOCKD_ENDPOINT_URL", url.toList)).toList ++
      (portStr.map fun p => ("NOCKD_APP_PORT", p)).toList }

namespace Host

/-- `create_dir_all`, which leaves a directory that is there as it is. -/
def createDirs (h : Host) (dirs : List File) : Host :=
  dirs.foldl (fun h dir => h.apply (.createDir dir)) h

/-- The directories of the app that can be made, from the top to the first file in the way. -/
def freeDirs (paths : Paths) (h : Host) (app : String) : List File :=
  (paths.stateDirs app).takeWhile fun dir => (h.disk dir).isNone

theorem mem_freeDirs {paths : Paths} {h : Host} {app : String} {dir : File}
    (hdir : dir ∈ h.freeDirs paths app) : dir ∈ paths.stateDirs app :=
  (List.takeWhile_sublist _).mem hdir

/-- `Store::stage_jam` in a state directory that is there: a no-op for an artifact without a
kernel. -/
def stageJam (paths : Paths) (h : Host) (artifactHash app : String) : Host :=
  match h.disk (resolve (paths.jamPath artifactHash)) with
  | some jam => h.apply (.write (resolve (paths.stagedJam app)) jam)
  | none => h

/-- A staging that fails, with the copy cut short after `left` bytes. -/
def stageJamCut (paths : Paths) (h : Host) (artifactHash app : String)
    (left : Option ℕ) : Host :=
  match h.disk (resolve (paths.jamPath artifactHash)), left with
  | some jam, some n =>
    h.apply (.write (resolve (paths.stagedJam app)) { jam with bytes := jam.bytes.take n })
  | _, _ => h

/-- Open the log for appending, creating it when it is missing. -/
def openLog (paths : Paths) (h : Host) (app : String) : Host :=
  match h.disk (resolve (paths.logFile app)) with
  | some _ => h
  | none => h.apply (.write (resolve (paths.logFile app)) { bytes := [], mode := 0o644 })

/-- Some executable bit is set. -/
def executable (mode : ℕ) : Bool := mode &&& 0o111 != 0

/-- The host hands out positive pids that no process has. -/
def FreePid (h : Host) (pid : Pid) : Prop :=
  0 < pid ∧ pid < 2 ^ 31 ∧ h.processes pid = none

instance (h : Host) (pid : Pid) : Decidable (h.FreePid pid) :=
  inferInstanceAs (Decidable (_ ∧ _ ∧ _))

/-- The instance that executing the file `bin` for this row starts. -/
def launchOf (paths : Paths) (h : Host) (daemon : ℕ) (app : AppRow)
    (endpointUrl : Option String) (bin : FileNode) : Launch :=
  { app := app.name, row := app, command := command paths app endpointUrl
    daemon, executed := bin.bytes
    outJam := (h.disk (resolve (paths.stagedJam app.name))).map (·.bytes) }

/-- Execute the stored binary, which must be an executable file. -/
def exec (paths : Paths) (h : Host) (daemon : ℕ) (app : AppRow)
    (endpointUrl : Option String) (pid : Pid) : Host × Except String Pid :=
  let failed := "spawning " ++ String.ofList (paths.binPath app.artifactHash)
  match h.disk (resolve (paths.binPath app.artifactHash)) with
  | none => (h, .error failed)
  | some bin =>
    if executable bin.mode ∧ h.FreePid pid then
      (h.apply (.spawn pid (h.launchOf paths daemon app endpointUrl bin)), .ok pid)
    else (h, .error failed)

/-- Either the host is left alone or the stored binary runs under a free pid. -/
theorem exec_cases (paths : Paths) (h : Host) (daemon : ℕ) (app : AppRow)
    (endpointUrl : Option String) (pid : Pid) :
    (∃ e, h.exec paths daemon app endpointUrl pid = (h, .error e)) ∨
      ∃ bin, h.disk (resolve (paths.binPath app.artifactHash)) = some bin ∧
        executable bin.mode ∧ h.FreePid pid ∧
        h.exec paths daemon app endpointUrl pid =
          (h.apply (.spawn pid (h.launchOf paths daemon app endpointUrl bin)), .ok pid) := by
  unfold exec
  cases h.disk (resolve (paths.binPath app.artifactHash)) with
  | none => exact Or.inl ⟨_, rfl⟩
  | some bin =>
      by_cases hrun : executable bin.mode ∧ h.FreePid pid
      · exact Or.inr ⟨bin, rfl, hrun.1, hrun.2, by simp only [if_pos hrun]⟩
      · refine Or.inl ⟨"spawning " ++ String.ofList (paths.binPath app.artifactHash), ?_⟩
        simp only [if_neg hrun]

/-- What is in the way of a spawn: a file where a directory is to be made, or a directory where
a file is to be read or written. -/
def obstacle (paths : Paths) (h : Host) (app : AppRow) : Option LaunchOutcome :=
  let free := h.freeDirs paths app.name
  let disk := (h.createDirs free).disk
  let jam := resolve (paths.jamPath app.artifactHash)
  if free.length < (paths.stateDirs app.name).length then some (.stateDirFailed free.length)
  else if disk.dirs jam ∨ (disk jam).isSome ∧ disk.dirs (resolve (paths.stagedJam app.name)) then
    some (.stageFailed none)
  else if disk.dirs (resolve (paths.logFile app.name)) then some .logFailed
  else none

/-- What the spawn comes to: what is in the way of it, if the host's answer comes later. -/
def met (paths : Paths) (h : Host) (app : AppRow) (outcome : LaunchOutcome) : LaunchOutcome :=
  ((h.obstacle paths app).filter (·.reaches < outcome.reaches)).getD outcome

theorem obstacle_ne_started {paths : Paths} {h : Host} {app : AppRow} {pid : Pid} :
    h.obstacle paths app ≠ some (.started pid) := by
  unfold obstacle
  simp only
  split
  · simp
  · split
    · simp
    · split <;> simp

/-- Nothing is in the way of a spawn that comes to an end. -/
theorem met_eq_started {paths : Paths} {h : Host} {app : AppRow} {outcome : LaunchOutcome}
    {pid : Pid} (hmet : h.met paths app outcome = .started pid) : outcome = .started pid := by
  unfold met at hmet
  cases hfound : (h.obstacle paths app).filter (·.reaches < outcome.reaches) with
  | none => rwa [hfound] at hmet
  | some o =>
      rw [hfound, Option.getD_some] at hmet
      exact absurd (hmet ▸ (Option.filter_eq_some_iff.1 hfound).1) obstacle_ne_started

/-- `Supervisor::spawn`. -/
def spawn (paths : Paths) (h : Host) (daemon : ℕ) (app : AppRow)
    (endpointUrl : Option String) (outcome : LaunchOutcome) : Host × Except String Pid :=
  let free := h.freeDirs paths app.name
  let made := h.createDirs free
  let staged := made.stageJam paths app.artifactHash app.name
  let logged := staged.openLog paths app.name
  match h.met paths app outcome with
  | .stateDirFailed n =>
    (h.createDirs (free.take n),
      .error ("creating state dir " ++ String.ofList (paths.stateDir app.name)))
  | .stageFailed left =>
    (made.stageJamCut paths app.artifactHash app.name left,
      .error "staging out.jam into state dir")
  | .logFailed =>
    (staged, .error ("opening log " ++ String.ofList (paths.logFile app.name)))
  | .cloneFailed => (logged, .error "cloning log handle")
  | .execFailed =>
    (logged, .error ("spawning " ++ String.ofList (paths.binPath app.artifactHash)))
  | .started pid => logged.exec paths daemon app endpointUrl pid

theorem createDirs_keep {P : Host → Prop} {dirs : List File} {h : Host}
    (hdir : ∀ h, ∀ dir ∈ dirs, P h → P (h.apply (.createDir dir))) (hP : P h) :
    P (h.createDirs dirs) := by
  unfold createDirs
  induction dirs generalizing h with
  | nil => exact hP
  | cons dir dirs ih =>
      exact ih (fun h d hd => hdir h d (List.mem_cons_of_mem _ hd))
        (hdir h dir List.mem_cons_self hP)

/-- What the directories and the writes of the kernel and of the log keep, a spawn keeps until it
fails or until the stored binary is executed. -/
theorem spawn_spec {P : Host → Prop} (paths : Paths) {h : Host} (daemon : ℕ) (app : AppRow)
    (endpointUrl : Option String) (outcome : LaunchOutcome)
    (hdir : ∀ h, ∀ dir ∈ paths.stateDirs app.name, P h → P (h.apply (.createDir dir)))
    (hstage : ∀ h node, P h → P (h.apply (.write (resolve (paths.stagedJam app.name)) node)))
    (hlog : ∀ h node, P h → P (h.apply (.write (resolve (paths.logFile app.name)) node)))
    (hP : P h) :
    ∃ h', P h' ∧ ((∃ e, h.spawn paths daemon app endpointUrl outcome = (h', .error e)) ∨
      ∃ pid bin, outcome = .started pid ∧ h'.FreePid pid ∧
        h.spawn paths daemon app endpointUrl outcome =
          (h'.apply (.spawn pid (h'.launchOf paths daemon app endpointUrl bin)), .ok pid)) := by
  have hmade {dirs : List File} (hdirs : ∀ dir ∈ dirs, dir ∈ paths.stateDirs app.name) :
      P (h.createDirs dirs) := createDirs_keep (fun h' dir hmem => hdir h' dir (hdirs dir hmem)) hP
  have hstaged {h' : Host} (hP : P h') : P (h'.stageJam paths app.artifactHash app.name) := by
    unfold stageJam
    split
    · exact hstage _ _ hP
    · exact hP
  have hcut {h' : Host} (hP : P h') (left : Option ℕ) :
      P (h'.stageJamCut paths app.artifactHash app.name left) := by
    unfold stageJamCut
    split
    · exact hstage _ _ hP
    · exact hP
  have hlogged {h' : Host} (hP : P h') : P (h'.openLog paths app.name) := by
    unfold openLog
    split
    · exact hP
    · exact hlog _ _ hP
  have hfree : P (h.createDirs (h.freeDirs paths app.name)) := hmade fun dir => mem_freeDirs
  unfold spawn
  simp only
  cases hmet : h.met paths app outcome with
  | stateDirFailed n =>
      exact ⟨_, hmade fun dir hmem => mem_freeDirs (List.mem_of_mem_take hmem), Or.inl ⟨_, rfl⟩⟩
  | stageFailed left => exact ⟨_, hcut hfree left, Or.inl ⟨_, rfl⟩⟩
  | logFailed => exact ⟨_, hstaged hfree, Or.inl ⟨_, rfl⟩⟩
  | cloneFailed => exact ⟨_, hlogged (hstaged hfree), Or.inl ⟨_, rfl⟩⟩
  | execFailed => exact ⟨_, hlogged (hstaged hfree), Or.inl ⟨_, rfl⟩⟩
  | started pid =>
      refine ⟨_, hlogged (hstaged hfree), ?_⟩
      rcases exec_cases paths _ daemon app endpointUrl pid with
        hfailed | ⟨bin, -, -, hpid, hexec⟩
      · exact Or.inl hfailed
      · exact Or.inr ⟨pid, bin, met_eq_started hmet, hpid, hexec⟩

end Host

end Supervisor

end Nockd
