import Nockd.Crates
import Nockd.Interleaving.Program
import Nockd.Store.Put
import Nockd.Supervisor.Reconcile

/-!
# The atomic calls of the daemon

Handlers and background loops are programs over `Call`. One call is one atomic step:
a registry method under the connection lock, a supervisor method under the lock
of the process map, an operation of the store, or a question to the machine.
`perform` says what a call that succeeds does and answers; a registry call or
a put may also fail, and then leaves the world as it was. A put that stops
half-way is the subject of the store's own modules.
-/

namespace Nockd

namespace Api

open Config Registry Store Supervisor

/-- What `Supervisor::status` reports of an entry. -/
structure RuntimeStatus where
  state : RunState
  pid : Option Pid
  startedAt : ℤ
  restarts : UInt32
  health : HealthState
  statusLine : Option String
  cpuPct : Option UInt32
  rssBytes : Option UInt64
deriving DecidableEq, Repr

inductive Call where
  | put (jam : Option Bytes) (bin : Bytes) (targetTriple : String)
  | write (s : Statement)
  | getApp (name : String)
  | listApps
  | previousArtifact (name current : String)
  | trustedBuilders
  | files
  | status (name : String)
  | isRunning (name : String)
  | setHealth (name : String) (health : HealthState)
  | setStatusLine (name : String) (line : Option String)
  | setResources (name : String) (cpuPct : Option UInt32) (rssBytes : Option UInt64)
  | requestRestart (name : String)
  | isShuttingDown
  /-- The part of `reconcile` under the lock, on the rows of `list_apps`. -/
  | lockedSection (apps : List AppRow)
  | probe (addr : String)
  | runStatusCmd (app cmd : String)
  | sample (pids : List Pid)
  | setShuttingDown
  | takeChildren
  | signal (pid : Pid) (sig : Signal)
  | waitTimeout (pid : Pid)
  | waitExit (pid : Pid)
  | removePidfiles
  | readPidfile (name : String)
  | removePidfile (name : String)
  | pidAlive (pid : Pid)
  | sleep
deriving DecidableEq

/-- What a call answers. -/
@[reducible] def Call.Reply : Call → Type
  | .put _ _ _ => ArtifactRecord
  | .getApp _ => Option AppRow
  | .listApps => List AppRow
  | .previousArtifact _ _ => Option String
  | .trustedBuilders => String → Bool
  | .files => List Char → Option Bytes
  | .status _ => Option RuntimeStatus
  | .isRunning _ => Bool
  | .isShuttingDown => Bool
  | .probe _ => HealthState
  | .runStatusCmd _ _ => Option String
  | .sample _ => Pid → Option (UInt32 × UInt64)
  | .takeChildren => List (Pid × Pid)
  | .waitTimeout _ => Bool
  | .readPidfile _ => Option Bytes
  | .pidAlive _ => Bool
  | _ => Unit

/-- The call returns a `Result` that can be an error. -/
def Call.fallible : Call → Bool
  | .put _ _ _ => true
  | .write _ => true
  | .getApp _ => true
  | .listApps => true
  | .previousArtifact _ _ => true
  | _ => false

theorem Call.section_cases (op : Call) :
    (∃ apps, op = .lockedSection apps) ∨ ∀ apps, op ≠ .lockedSection apps := by
  cases op <;> simp

/-- The statement that a call issues. -/
def Call.statement : Call → Option Statement
  | .write s => some s
  | _ => none

def statusOf (m : Managed) : RuntimeStatus :=
  { state := m.state, pid := m.pid, startedAt := m.startedAt, restarts := m.restarts
    health := m.health, statusLine := m.statusLine, cpuPct := m.cpuPct
    rssBytes := m.rssBytes }

end Api

namespace Supervisor.World

open Api Config Registry Store Supervisor

def mapRegistry (w : World) (f : Registry → Registry) : World :=
  { w with host := { w.host with registry := f w.host.registry } }

def mapDisk (w : World) (f : Disk → Disk) : World :=
  { w with host := { w.host with disk := f w.host.disk } }

/-- Update the entry of a tracked app. -/
def modifyEntry (w : World) (name : String) (f : Managed → Managed) : World :=
  { w with procs := Table.modify w.procs name f }

/-- Take the child handles out of the map. -/
def takeChildren (env : Env) (w : World) : World × List (Pid × Pid) :=
  let names := env.order w.procs.keys
  let children : List (Pid × Pid) := names.filterMap fun name => do
    let m ← w.procs.lookup name
    pure (← m.pid, ← m.child)
  let emptied := names.foldl
    (fun procs name => Table.modify procs name fun m =>
      if m.pid.isSome then { m with child := none } else m) w.procs
  let w := { w with procs := emptied, taken := children.map Prod.snd }
  (w.emit .takeChildren, children)

/-- The process is known to be over. -/
def exited (w : World) (pid : Pid) : Bool :=
  ((w.host.processes pid).bind (·.exit)).isSome

/-- Collect the exit of a child that was taken out of the map. -/
def collectTaken (w : World) (pid : Pid) : World :=
  { w with taken := w.taken.filter (· ≠ pid) }.emit (.wait pid)

/-- Wait for a child within the grace period; `false` is a timeout. -/
def waitTimeout (w : World) (pid : Pid) : World × Bool :=
  if w.exited pid then (w.collectTaken pid, true) else (w, false)

/-- `kill(pid as pid_t, 0) == 0`: a process of ours is found until its exit has
been collected; of other processes and groups the machine decides. -/
def pidAlive (env : Env) (w : World) (pid : Pid) : Bool :=
  if 0 < pid ∧ pid < 2 ^ 31 then
    match w.host.processes pid with
    | some { launch := some _, .. } => true
    | some { launch := none, .. } => env.alive pid
    | none => false
  else env.alive pid

end Supervisor.World

namespace Api

open Config Registry Store Supervisor

variable (paths : Paths) (crates : Crates)

/-- A waiting call answers only when its wait is over, and a put has stored nothing while a
directory is in the place of a file that it writes. -/
def enabled (env : Env) (w : World) : Call → Bool
  | .put jam bin targetTriple =>
      let hash := (computeHashes crates.blake3 jam bin targetTriple).artifactHash
      has paths hash w.host.disk || writable paths hash jam w.host.disk
  | .waitTimeout pid => w.exited pid || env.timedOut
  | .waitExit pid => w.exited pid
  | _ => true

/-- What a call that succeeds does, and what it answers. -/
def perform (env : Env) (w : World) : (c : Call) → World × c.Reply
  | .put jam bin targetTriple =>
      let record := computeHashes crates.blake3 jam bin targetTriple
      (w.mapDisk (putAll paths record.artifactHash jam bin), record)
  | .write s => (w.mapRegistry fun r => s.exec env.now r, ())
  | .getApp name => (w, if env.queryErr then none else w.host.registry.getApp name)
  | .listApps => (w, w.host.registry.listApps)
  | .previousArtifact name current =>
      (w, if env.queryErr then none else w.host.registry.previousArtifact name current)
  | .trustedBuilders =>
      (w, fun pubkey => !env.queryErr && w.host.registry.isTrustedBuilder pubkey)
  | .files => (w, env.files)
  | .status name => (w, (w.procs.lookup name).map statusOf)
  | .isRunning name => (w, (w.procs.lookup name).any fun m => m.state = .running)
  | .setHealth name health => (w.modifyEntry name fun m => { m with health }, ())
  | .setStatusLine name line => (w.modifyEntry name fun m => { m with statusLine := line }, ())
  | .setResources name cpuPct rssBytes =>
      (w.modifyEntry name fun m => { m with cpuPct, rssBytes }, ())
  | .requestRestart name => (w.requestRestart env name, ())
  | .isShuttingDown => (w, w.shuttingDown)
  | .lockedSection apps => (w.lockedSection paths env apps, ())
  | .probe addr => (w, env.probe addr)
  | .runStatusCmd app _ => (w, env.statusLine app)
  | .sample _ => (w, env.sample)
  | .setShuttingDown => ({ w with shuttingDown := true }, ())
  | .takeChildren => w.takeChildren env
  | .signal pid sig => (w.emit (.signal env.now pid sig), ())
  | .waitTimeout pid => w.waitTimeout pid
  | .waitExit pid => (w.collectTaken pid, ())
  | .removePidfiles =>
      ((env.order w.procs.keys).foldl
        (fun w name => w.emit (.remove (resolve (paths.pidFile name)))) w, ())
  | .readPidfile name =>
      (w, if env.queryErr then none
        else (w.host.disk (resolve (paths.pidFile name))).map (·.bytes))
  | .removePidfile name => (w.emit (.remove (resolve (paths.pidFile name))), ())
  | .pidAlive pid => (w, w.pidAlive env pid)
  | .sleep => (w, ())

end Api

end Nockd
