import Mathlib.Algebra.Order.Ring.Int
import Mathlib.Algebra.Order.Ring.Nat
import Nockd.Registry.Tables

/-!
# The supervisor's entry for one app
-/

namespace Nockd

namespace Supervisor

inductive RunState where
  | running
  | stopping
  | stopped
  | crashed
  | backoff
deriving DecidableEq, Repr

inductive HealthState where
  | serving
  | notServing
  | unreachable
  | unknown
deriving DecidableEq, Repr

abbrev Pid := ℕ

/-- A tracked app. A child handle is the pid it was spawned with. -/
structure Managed where
  child : Option Pid := none
  pid : Option Pid := none
  startedAt : ℤ := 0
  restarts : UInt32 := 0
  backoffUntil : ℤ := 0
  state : RunState := .stopped
  health : HealthState := .unknown
  statusLine : Option String := none
  /-- The bits of the `f32` sample. -/
  cpuPct : Option UInt32 := none
  rssBytes : Option UInt64 := none
  /-- SIGTERM has been sent, and SIGKILL follows past this time. -/
  termDeadline : Option ℤ := none
  restartRequested : Bool := false
deriving DecidableEq, Repr

def maxBackoffSecs : ℤ := 60

/-- Seconds between SIGTERM and SIGKILL. -/
def graceSecs : ℤ := 10

def backoffSecs (restarts : UInt32) : ℤ :=
  let shift := min restarts.toNat 6
  min (2 ^ shift) maxBackoffSecs

namespace Managed

/-- The entry after its child's exit was seen at time `now`: an asked-for
restart, an intended stop or a crash. -/
def reaped (now : ℤ) (m : Managed) : Managed :=
  if m.restartRequested then
    { m with
      child := none, pid := none, restartRequested := false, termDeadline := none
      backoffUntil := 0, state := .backoff }
  else if m.termDeadline.isSome then
    { m with
      child := none, pid := none, termDeadline := none, state := .stopped
      health := .unknown, statusLine := none }
  else
    { m with
      child := none, pid := none, restarts := m.restarts + 1
      backoffUntil := now + backoffSecs (m.restarts + 1), state := .backoff }

@[simp] theorem reaped_child (now : ℤ) (m : Managed) : (m.reaped now).child = none := by
  unfold reaped
  split
  · rfl
  · split <;> rfl

@[simp] theorem reaped_pid (now : ℤ) (m : Managed) : (m.reaped now).pid = none := by
  unfold reaped
  split
  · rfl
  · split <;> rfl

/-- The entry after SIGTERM was sent for a stop at time `now`. -/
def terminating (now : ℤ) (m : Managed) : Managed :=
  { m with termDeadline := some (now + graceSecs), state := .stopping }

/-- The entry of an app that is to be stopped and has no child. -/
def idle (m : Managed) : Managed :=
  { m with state := .stopped, termDeadline := none, health := .unknown, statusLine := none }

/-- The entry after SIGTERM was sent for a restart at time `now`. -/
def restarting (now : ℤ) (m : Managed) : Managed :=
  { m with
    restartRequested := true, termDeadline := some (now + graceSecs), backoffUntil := 0 }

/-- The entry after a spawn at time `now`. -/
def spawned (now : ℤ) (pid : Pid) (m : Managed) : Managed :=
  { m with
    pid := some pid, child := some pid, startedAt := now, state := .running
    health := .unknown, termDeadline := none, restartRequested := false }

/-- The entry after a failed spawn at time `now`. -/
def spawnFailed (now : ℤ) (m : Managed) : Managed :=
  { m with
    restarts := m.restarts + 1
    backoffUntil := now + backoffSecs (m.restarts + 1), state := .backoff }

end Managed

end Supervisor

end Nockd
