import Nockd.Api.Call
import Nockd.Attest.Assess
import Nockd.Config.Icon

/-!
# The request handlers and the background loops

Each handler is the program of its calls, in the order of the source; a failed
`Result` ends it with the error of its `?`. `Request.handler` is the program that a
request starts, and a tick of a background loop counts as a request.
-/

namespace Nockd

namespace Api

open Config Interleaving Registry Store Supervisor

structure ApiError where
  status : ℕ
  message : String
deriving DecidableEq, Repr

namespace ApiError

def notFound (name : String) : ApiError := ⟨404, "no such app: " ++ name⟩

def badRequest (message : String) : ApiError := ⟨400, message⟩

def conflict (message : String) : ApiError := ⟨409, message⟩

/-- The conversion of any other error. -/
def internal (message : String) : ApiError := ⟨500, message⟩

end ApiError

/-- The body of a deploy. -/
structure DeployRequest where
  name : String
  targetTriple : String
  binB64 : String
  jamB64 : Option String := none
  endpoint : Option String := none
  restart : String := defaultRestart
  args : List String := []
  adminAddr : Option String := none
  statusCmd : Option String := none
  statusLabel : Option String := none
  port : Option UInt16 := none
  manifestPath : Option String := none
  icon : Option String := none
  provenance : Option String := none
  attestation : Option String := none
deriving DecidableEq, Repr

/-- The body of an answer. -/
inductive Response where
  | deployed (name artifactHash kernelHash : String)
  | ok
  | fleet (changed total : ℕ)
deriving DecidableEq, Repr

abbrev Proc (α : Type) := Program Call Call.Reply String ApiError α

abbrev Thread := Proc Response

/-- Issue a call, giving up with a server error when it fails. -/
abbrev must (op : Call) : Proc op.Reply := Program.attempt ApiError.internal op

/-! ## Reconciling -/

/-- `Daemon::reconcile`: an error is only logged. -/
def reconcile : Proc Unit := do
  if ← must .isShuttingDown then
    pure ()
  else
    match ← Program.outcome .listApps with
    | .ok apps => must (.lockedSection apps)
    | .error _ => pure ()

/-! ## Deploying -/

variable (paths : Paths) (crates : Crates)

/-- The decoded kernel and binary of a request. -/
def decodeBundle (req : DeployRequest) : Except String (Option Bytes × Bytes) :=
  match crates.base64Decode req.binB64 with
  | .error e => .error ("bad bin_b64: " ++ e)
  | .ok bin =>
    match req.jamB64 with
    | none => .ok (none, bin)
    | some j =>
      match crates.base64Decode j with
      | .error e => .error ("bad jam_b64: " ++ e)
      | .ok jam => .ok (some jam, bin)

/-- The verification status of a deploy and the builder it names. -/
def verification (attestation : Option String) (record : ArtifactRecord)
    (isTrusted : String → Bool) : String × Option String :=
  match attestation with
  | some json =>
    match crates.parseAttestation json with
    | some att => Attest.assess crates att record.artifactHash record.kernelHash isTrusted
    | none => ("drift", none)
  | none => ("unverified", none)

/-- The first characters of a hash, for the event log. -/
def shortHash (hash : String) : String := String.ofList (hash.toList.take 16)

/-- The row a deploy asks for. -/
def upsertOf (req : DeployRequest) (artifactHash : String) : AppUpsert :=
  { name := req.name, artifactHash, endpoint := req.endpoint
    restartPolicy := req.restart, args := req.args
    statePath := String.ofList (paths.stateDir req.name)
    adminAddr := req.adminAddr, statusCmd := req.statusCmd
    statusLabel := req.statusLabel, port := req.port
    manifestPath := req.manifestPath, icon := req.icon }

/-- `validate_icon` on an optional icon. -/
def checkIcon (icon : Option String) : Except String Unit :=
  match icon with
  | some icon => validateIcon crates icon
  | none => .ok ()

/-- The second half of `deploy`, once the artifact is recorded. -/
def deployApp (req : DeployRequest) (record : ArtifactRecord) : Thread :=
  match checkIcon crates req.icon with
  | .error m => .throw (.badRequest m)
  | .ok _ => do
    must (.write (.upsertApp (upsertOf paths req record.artifactHash)))
    must (.write (.recordDeploy req.name record.artifactHash))
    must (.write (.addEvent req.name "deploy" ("artifact " ++ shortHash record.artifactHash)))
    must (.requestRestart req.name)
    reconcile
    pure (.deployed req.name record.artifactHash record.kernelHash)

def deploy (req : DeployRequest) : Thread :=
  match decodeBundle crates req with
  | .error e => .throw (.internal e)
  | .ok (jam, bin) => do
    let record ← must (.put jam bin req.targetTriple)
    must (.write (.putArtifact record req.provenance))
    let isTrusted ← must .trustedBuilders
    let (verified, builder) := verification crates req.attestation record isTrusted
    must (.write (.setArtifactVerification record.artifactHash verified builder))
    deployApp paths crates req record

/-! ## Handlers of one app -/

/-- The app of a request, or the 404. -/
def appOr404 (name : String) : Proc AppRow := do
  match ← must (.getApp name) with
  | some app => pure app
  | none => .throw (.notFound name)

def restart (name : String) : Thread := do
  let _ ← appOr404 name
  must (.write (.setDesired name "running"))
  must (.requestRestart name)
  must (.write (.addEvent name "restart" "restart requested"))
  reconcile
  pure .ok

/-- `DeployManifest::load`. -/
def loadManifest (files : List Char → Option Bytes) (path : String) :
    Except String DeploySection :=
  match (files path.toList).bind fun b => String.fromUTF8? ⟨b.toArray⟩ with
  | none => .error ("reading manifest " ++ path)
  | some text =>
    match crates.parseManifest text with
    | none => .error ("parsing manifest " ++ path)
    | some deploy => .ok deploy

/-- The icon of a manifest, resolved relative to the manifest's directory. -/
def manifestIcon (files : List Char → Option Bytes) (manifestPath : String)
    (icon : Option String) : Except String (Option String) :=
  match icon with
  | none => .ok none
  | some i => (resolveIcon crates files ((parent manifestPath.toList).getD ['.']) i).map some

def configOf (manifest : DeploySection) (icon : Option String) : AppConfig :=
  { endpoint := manifest.endpoint, restartPolicy := manifest.restart
    args := manifest.args, adminAddr := manifest.healthAddr
    statusCmd := manifest.status.cmd, statusLabel := manifest.status.label
    port := manifest.port, icon }

def reload (name : String) : Thread := do
  let app ← appOr404 name
  match app.manifestPath with
  | none => .throw (.badRequest ("this app was not deployed from a manifest, so there's " ++
      "nothing to reload — redeploy with \x60nockd deploy -f nockd.toml\x60 to enable Reload"))
  | some manifestPath => do
    match loadManifest crates (← must .files) manifestPath with
    | .error e => .throw (.badRequest ("could not read manifest " ++ manifestPath ++ ": " ++
        e ++ " (is it still on this machine?)"))
    | .ok manifest => do
      match manifestIcon crates (← must .files) manifestPath manifest.icon with
      | .error e => .throw (.badRequest ("could not resolve icon: " ++ e))
      | .ok icon => do
        must (.write (.updateAppConfig name (configOf manifest icon)))
        must (.write (.setDesired name "running"))
        must (.requestRestart name)
        must (.write (.addEvent name "reload" "manifest re-read; config re-applied"))
        reconcile
        pure .ok

def rollback (name : String) : Thread := do
  let app ← appOr404 name
  match ← must (.previousArtifact name app.artifactHash) with
  | none => .throw (.conflict
      "no previous artifact to roll back to — only one has been deployed")
  | some prev => do
    must (.write (.setAppArtifact name prev))
    must (.write (.recordDeploy name prev))
    must (.write (.setDesired name "running"))
    must (.requestRestart name)
    must (.write
      (.addEvent name "rollback" ("rolled back to artifact " ++ shortHash prev)))
    reconcile
    pure .ok

/-- `stop` and `start`: set the desired status of one app. -/
def setStatus (name status : String) : Thread := do
  let _ ← appOr404 name
  must (.write (.setDesired name status))
  reconcile
  pure .ok

def stop (name : String) : Thread := setStatus name "stopped"

def start (name : String) : Thread := setStatus name "running"

/-! ## Handlers of the fleet, trust and endpoints -/

/-- Set every app's desired status. -/
def fleetSet (status : String) : Thread := do
  let apps ← must .listApps
  let changed := apps.filter fun a => a.desiredStatus ≠ status
  Program.forEach changed fun a => must (.write (.setDesired a.name status))
  reconcile
  pure (.fleet changed.length apps.length)

def down : Thread := fleetSet "stopped"

def up : Thread := fleetSet "running"

/-- The handlers of trust and endpoints issue one statement. -/
def writeOnly (s : Statement) : Thread := do
  must (.write s)
  pure .ok

/-! ## Background loops, one tick each -/

def reconcileTick : Thread := do
  reconcile
  pure .ok

/-- Probe the apps that have an admin address. -/
def healthTick : Thread := do
  match ← Program.outcome .listApps with
  | .error _ => pure .ok
  | .ok apps => do
    Program.forEach apps fun app =>
      match app.adminAddr with
      | none => .pure ()
      | some addr => do
        let health ← must (.probe addr)
        must (.setHealth app.name health)
    pure .ok

/-- Run the status commands of the running apps. -/
def statusTick : Thread := do
  match ← Program.outcome .listApps with
  | .error _ => pure .ok
  | .ok apps => do
    Program.forEach apps fun app =>
      match app.statusCmd with
      | none => .pure ()
      | some cmd => do
        if ← must (.isRunning app.name) then
          let line ← must (.runStatusCmd app.name cmd)
          must (.setStatusLine app.name line)
        else
          pure ()
    pure .ok

/-- The pids that the entries of the apps report. -/
def livePids : List AppRow → Proc (List (String × Pid))
  | [] => .pure []
  | app :: apps => do
    let status ← must (.status app.name)
    let rest ← livePids apps
    pure ((status.bind fun s => s.pid.map fun pid => (app.name, pid)).toList ++ rest)

/-- Sample the resources of the running apps. -/
def sampleTick : Thread := do
  match ← Program.outcome .listApps with
  | .error _ => pure .ok
  | .ok apps => do
    let live ← livePids apps
    let samples ← must (.sample (live.map Prod.snd))
    Program.forEach live fun (name, pid) =>
      match samples pid with
      | some (cpu, rss) => must (.setResources name (some cpu) (some rss))
      | none => must (.setResources name none none)
    pure .ok

/-! ## Requests -/

/-- The requests that change something, and the ticks of the background loops. -/
inductive Request where
  | deploy (req : DeployRequest)
  | restart (name : String)
  | reload (name : String)
  | rollback (name : String)
  | stop (name : String)
  | start (name : String)
  | down
  | up
  | trustAdd (pubkey : String)
  | trustRemove (pubkey : String)
  | addEndpoint (name url kind : String)
  | removeEndpoint (name : String)
  | reconcileTick
  | healthTick
  | statusTick
  | sampleTick
deriving DecidableEq, Repr

def Request.handler : Request → Thread
  | .deploy req => Api.deploy paths crates req
  | .restart name => Api.restart name
  | .reload name => Api.reload crates name
  | .rollback name => Api.rollback name
  | .stop name => Api.stop name
  | .start name => Api.start name
  | .down => Api.down
  | .up => Api.up
  | .trustAdd pubkey => writeOnly (.addTrustedBuilder pubkey)
  | .trustRemove pubkey => writeOnly (.removeTrustedBuilder pubkey)
  | .addEndpoint name url kind => writeOnly (.addEndpoint name url kind)
  | .removeEndpoint name => writeOnly (.removeEndpoint name)
  | .reconcileTick => Api.reconcileTick
  | .healthTick => Api.healthTick
  | .statusTick => Api.statusTick
  | .sampleTick => Api.sampleTick

/-! ## Shutting down -/

/-- The part of `stop_all` that works on the children it has taken: SIGTERM to
each, then wait for each, with SIGKILL after the grace period. -/
def terminateAll (children : List (Pid × Pid)) : Proc Unit := do
  Program.forEach children fun c => must (.signal c.1 .term)
  Program.forEach children fun c => do
    if ← must (.waitTimeout c.2) then
      pure ()
    else
      must (.signal c.2 .kill)
      must (.waitExit c.2)
  must .removePidfiles

def stopChildren : Proc Unit := do
  let children ← must .takeChildren
  terminateAll children

def stopAll : Proc Unit := do
  must .setShuttingDown
  stopChildren

end Api

end Nockd
