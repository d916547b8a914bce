import Nockd.Api.Call

/-!
# The app as the dashboard gets it

A row of the registry, what the supervisor knows of the app, and the artifact that a rollback
would go to. The three are asked for in turn.
-/

namespace Nockd

namespace Api

open Registry Supervisor

structure AppV1 where
  name : String
  status : String
  desiredStatus : String
  artifactHash : String
  kernelHash : Option String
  prevArtifact : Option String
  endpointName : Option String
  restartPolicy : String
  restartCount : UInt32
  uptimeS : Option ℤ
  stateSizeBytes : Option UInt64
  cpuPct : Option UInt32
  rssBytes : Option UInt64
  template : Option String
  health : String
  chainAttach : Option String
  verified : String
  statusLabel : Option String
  statusLine : Option String
  port : Option UInt16
  manifestPath : Option String
  hasIcon : Bool
  pid : Option Pid
  createdAt : ℤ
  updatedAt : ℤ

/-- `derive_status` -/
def deriveStatus (row : AppRow) (rt : Option RuntimeStatus) : String :=
  match rt.map RuntimeStatus.state with
  | some .crashed | some .backoff => "crashing"
  | some .stopped | some .stopping | none =>
    if row.desiredStatus = "stopped" then "stopped" else "running"
  | some .running =>
    match rt.map RuntimeStatus.health with
    | some .notServing | some .unreachable => "degraded"
    | _ => "running"

/-- `{:?}`, in lower case -/
def healthText : HealthState → String
  | .serving => "serving"
  | .notServing => "notserving"
  | .unreachable => "unreachable"
  | .unknown => "unknown"

/-- `to_app_v1` -/
def toAppV1 (now : ℤ) (row : AppRow) (rt : Option RuntimeStatus) (prevArtifact : Option String) :
    AppV1 where
  name := row.name
  status := deriveStatus row rt
  desiredStatus := row.desiredStatus
  artifactHash := row.artifactHash
  kernelHash := if row.kernelHash = "" then none else some row.kernelHash
  prevArtifact
  endpointName := row.endpoint
  restartPolicy := row.restartPolicy
  restartCount := (rt.map (·.restarts)).getD 0
  uptimeS := rt.bind fun r =>
    if r.state = .running ∧ 0 < r.startedAt then some (now - r.startedAt) else none
  stateSizeBytes := none
  cpuPct := rt.bind (·.cpuPct)
  rssBytes := rt.bind (·.rssBytes)
  template := none
  health := (rt.map fun r => healthText r.health).getD "unknown"
  chainAttach := none
  verified := row.verifiedStatus.getD "unverified"
  statusLabel := row.statusLabel
  statusLine := rt.bind (·.statusLine)
  port := row.port
  manifestPath := row.manifestPath
  hasIcon := row.icon.isSome
  pid := rt.bind (·.pid)
  createdAt := row.createdAt
  updatedAt := row.updatedAt

structure EndpointV1 where
  name : String
  url : String
  kind : String
  reachable : Bool
  lagMs : Option UInt64
  height : Option UInt64
  behind : Option UInt64
  attachedApps : List String

end Api

end Nockd
