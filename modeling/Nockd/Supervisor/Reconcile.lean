import Nockd.Supervisor.Spawn

/-!
# One reconcile pass

The locked section of a pass makes three sweeps: it reaps exited children and
escalates stalled terminations, it drops the apps that its snapshot does not
name, and it drives every app of the snapshot towards its desired status. The
snapshot is the list of rows that `list_apps` returned before the lock was
taken. What the section does not decide itself is its environment `Env`.
-/

namespace Nockd

namespace Supervisor

open Config Registry

/-- The outcome of a file write: done, not opened, or cut short. -/
inductive WriteOutcome where
  | done
  | notOpened
  | short (n : ℕ)
deriving DecidableEq, Repr

theorem id_perm (names : List String) : (id names).Perm names := List.Perm.refl names

/-- What the outside answers during one atomic step. -/
structure Env where
  now : ℤ := 0
  /-- The iteration order of the process map. -/
  order : List String → List String := id
  order_perm : ∀ names, (order names).Perm names := by exact id_perm
  /-- `try_wait` fails for this app. -/
  tryWaitErr : String → Bool := fun _ => false
  /-- Registry reads and event inserts inside the section fail for this app. -/
  endpointErr : String → Bool := fun _ => false
  eventErr : String → Bool := fun _ => false
  launch : String → LaunchOutcome := fun _ => .execFailed
  pidfileWrite : String → WriteOutcome := fun _ => .done
  /-- A read fails where its caller takes that for nothing found. -/
  queryErr : Bool := false
  /-- The readable files of the machine. -/
  files : List Char → Option Bytes := fun _ => none
  /-- `kill(pid, 0)` of a process that is not one of ours succeeds. -/
  alive : Pid → Bool := fun _ => false
  probe : String → HealthState := fun _ => .unknown
  statusLine : String → Option String := fun _ => none
  sample : Pid → Option (UInt32 × UInt64) := fun _ => none
  /-- The grace period of a wait is over. -/
  timedOut : Bool := false

/-- A host with a running daemon: its process map, its shutdown flag, the
children that `stop_all` has taken out of the map and which daemon of the root
it is. -/
structure World where
  host : Host := {}
  procs : Table Managed := ∅
  shuttingDown : Bool := false
  taken : List Pid := []
  daemon : ℕ := 0

namespace World

def emit (w : World) (e : Effect) : World := { w with host := w.host.apply e }

def setEntry (w : World) (name : String) (m : Managed) : World :=
  { w with procs := w.procs.insert name m }

/-- `let _ = registry.add_event(..)`. -/
def event (w : World) (env : Env) (name kind detail : String) : World :=
  if env.eventErr name then w else w.emit (.event env.now name kind detail)

@[simp] theorem emit_procs (w : World) (e : Effect) : (w.emit e).procs = w.procs := rfl

@[simp] theorem emit_host (w : World) (e : Effect) : (w.emit e).host = w.host.apply e := rfl

@[simp] theorem emit_daemon (w : World) (e : Effect) : (w.emit e).daemon = w.daemon := rfl

@[simp] theorem emit_taken (w : World) (e : Effect) : (w.emit e).taken = w.taken := rfl

@[simp] theorem emit_shuttingDown (w : World) (e : Effect) :
    (w.emit e).shuttingDown = w.shuttingDown := rfl

@[simp] theorem setEntry_host (w : World) (name : String) (m : Managed) :
    (w.setEntry name m).host = w.host := rfl

@[simp] theorem setEntry_procs (w : World) (name : String) (m : Managed) :
    (w.setEntry name m).procs = w.procs.insert name m := rfl

@[simp] theorem setEntry_taken (w : World) (name : String) (m : Managed) :
    (w.setEntry name m).taken = w.taken := rfl

@[simp] theorem setEntry_daemon (w : World) (name : String) (m : Managed) :
    (w.setEntry name m).daemon = w.daemon := rfl

@[simp] theorem setEntry_shuttingDown (w : World) (name : String) (m : Managed) :
    (w.setEntry name m).shuttingDown = w.shuttingDown := rfl

/-! ## Reaping -/

/-- `try_wait` on the child of an entry; an error counts as no exit seen. -/
def tryWait (w : World) (env : Env) (name : String) (child : Option Pid) :
    Option ExitStatus :=
  if env.tryWaitErr name then none
  else child.bind fun pid => (w.host.processes pid).bind (·.exit)

/-- What is written to the log of events when an exit has been seen. -/
def reapEvent (w : World) (env : Env) (name : String) (m : Managed)
    (status : ExitStatus) : World :=
  if m.restartRequested then w
  else if m.termDeadline.isSome then w.event env name "stop" "stopped"
  else w.event env name "crash" ("exit code " ++ toString status.codeOr)

/-- Reap one tracked app, or escalate a termination that has timed out. -/
def reap (paths : Paths) (env : Env) (w : World) (name : String) : World :=
  match w.procs.lookup name with
  | none => w
  | some m =>
    match m.child, w.tryWait env name m.child with
    | some child, some status =>
      let w := w.emit (.wait child)
      let w := w.emit (.remove (resolve (paths.pidFile name)))
      let w := w.setEntry name (m.reaped env.now)
      w.reapEvent env name m status
    | _, _ =>
      if m.termDeadline.any (· ≤ env.now) then
        match m.pid with
        | some pid => w.emit (.signal env.now pid .kill)
        | none => w
      else w

/-! ## Dropping apps that the snapshot does not name -/

def dropRemoved (paths : Paths) (env : Env) (apps : List AppRow) (w : World)
    (name : String) : World :=
  if name ∈ apps.map (·.name) then w
  else
    match w.procs.lookup name with
    | none => w
    | some m =>
      let w := { w with procs := w.procs.erase name }
      let w := match m.pid with
        | some pid => w.emit (.signal env.now pid .kill)
        | none => w
      w.emit (.remove (resolve (paths.pidFile name)))

/-! ## Driving an app to its desired status -/

/-- The contents of a pidfile. -/
def pidText (pid : Pid) (startedAt : ℤ) : Bytes :=
  asBytes (toString pid ++ " " ++ toString startedAt)

/-- Record the pid for a later daemon; a failure is ignored. -/
def writePidfile (paths : Paths) (env : Env) (w : World) (name : String) (pid : Pid) : World :=
  let file := resolve (paths.pidFile name)
  let text := pidText pid env.now
  match env.pidfileWrite name with
  | .done => w.emit (.write file (w.host.disk.written file text))
  | .notOpened => w
  | .short n => w.emit (.write file (w.host.disk.written file (text.take n)))

/-- The URL of the app's named endpoint, if it can be resolved. -/
def endpointUrl (w : World) (env : Env) (app : AppRow) : Option String :=
  app.endpoint.bind fun name =>
    if env.endpointErr app.name then none
    else (w.host.registry.getEndpoint name).map (·.url)

/-- The branch for `desired_status == "stopped"`. -/
def driveStopped (env : Env) (w : World) (app : AppRow) (entry : Managed) : World :=
  if entry.child.isSome then
    if entry.termDeadline.isNone then
      let w := match entry.pid with
        | some pid => w.emit (.signal env.now pid .term)
        | none => w
      (w.setEntry app.name (entry.terminating env.now)).event env app.name "stop"
        "SIGTERM sent"
    else w.setEntry app.name entry
  else w.setEntry app.name entry.idle

/-- Spawn the app and record the result. -/
def driveSpawn (paths : Paths) (env : Env) (w : World) (app : AppRow)
    (entry : Managed) : World :=
  let url := w.endpointUrl env app
  match w.host.spawn paths w.daemon app url (env.launch app.name) with
  | (host, .ok pid) =>
    let w := { w with host }.setEntry app.name (entry.spawned env.now pid)
    let w := w.writePidfile paths env app.name pid
    w.event env app.name "start" "instance started"
  | (host, .error e) =>
    let w := { w with host }.setEntry app.name (entry.spawnFailed env.now)
    w.event env app.name "error" ("spawn failed: " ++ e)

/-- Drive one app of the snapshot towards its target. -/
def drive (paths : Paths) (env : Env) (w : World) (app : AppRow) : World :=
  let entry := (w.procs.lookup app.name).getD {}
  if app.desiredStatus = "stopped" then w.driveStopped env app entry
  else if entry.child.isSome then
    w.setEntry app.name
      { entry with state := if entry.termDeadline.isSome then .stopping else .running }
  else if app.restartPolicy = "never" ∧ 0 < entry.restarts then
    w.setEntry app.name { entry with state := .crashed }
  else if env.now < entry.backoffUntil then
    w.setEntry app.name { entry with state := .backoff }
  else w.driveSpawn paths env app entry

/-! ## The section, and the calls around it -/

/-- What a pass does under the lock, on the snapshot `apps`. -/
def lockedSection (paths : Paths) (env : Env) (w : World) (apps : List AppRow) : World :=
  let w := (env.order w.procs.keys).foldl (reap paths env) w
  let w := (env.order w.procs.keys).foldl (dropRemoved paths env apps) w
  apps.foldl (drive paths env) w

theorem mem_order_keys (env : Env) (w : World) (name : String) :
    name ∈ env.order w.procs.keys ↔ (w.procs.lookup name).isSome = true := by
  rw [(env.order_perm w.procs.keys).mem_iff, AList.lookup_isSome, AList.mem_keys]

theorem nodup_order_keys (env : Env) (w : World) : (env.order w.procs.keys).Nodup :=
  (env.order_perm w.procs.keys).nodup_iff.2 w.procs.keys_nodup

/-- SIGTERM now, SIGKILL after the grace period, then a fresh start. -/
def requestRestart (env : Env) (w : World) (name : String) : World :=
  match w.procs.lookup name with
  | none => w
  | some m =>
    match m.pid with
    | some pid =>
      (w.emit (.signal env.now pid .term)).setEntry name (m.restarting env.now)
    | none => w.setEntry name { m with backoffUntil := 0 }

end World

end Supervisor

end Nockd
