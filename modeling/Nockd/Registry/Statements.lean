import Mathlib.Data.List.Sort
import Nockd.Registry.Tables

/-!
# The registry statements

One definition for each method of `Registry` that the handlers and the
supervisor call. Every method holds the connection lock for its whole body, so
it is one atomic step. A statement that fails writes nothing; whether it fails
is decided where it is called.
-/

namespace Nockd

namespace Registry

open Store

/-! ## Artifacts -/

/-- `INSERT OR REPLACE`: an old row of the hash is deleted first, so the
columns that are not named are NULL again. -/
def putArtifact (r : Registry) (now : ℤ) (rec : ArtifactRecord)
    (provenance : Option String) : Registry :=
  let row : ArtifactRow :=
    { kernelHash := rec.kernelHash, targetTriple := rec.targetTriple
      createdAt := now, provenance, verifiedStatus := none, builder := none }
  { r with artifact := r.artifact.insert rec.artifactHash row }

/-- Record a verification result, unless it would replace `verified`. -/
def setArtifactVerification (r : Registry) (hash status : String)
    (builder : Option String) : Registry :=
  { r with artifact := Table.modify r.artifact hash fun row =>
      if ¬(row.verifiedStatus.getD "" = "verified" ∧ status ≠ "verified") then
        { row with verifiedStatus := some status, builder }
      else row }

/-! ## Apps -/

/-- The arguments of `upsert_app`. -/
structure AppUpsert where
  name : String
  artifactHash : String
  endpoint : Option String
  restartPolicy : String
  args : List String
  statePath : String
  adminAddr : Option String
  statusCmd : Option String
  statusLabel : Option String
  port : Option UInt16
  manifestPath : Option String
  icon : Option String
deriving DecidableEq, Repr

/-- Insert or update an app, setting its desired status to "running". -/
def upsertApp (r : Registry) (now : ℤ) (u : AppUpsert) : Registry :=
  let createdAt := match r.app.lookup u.name with
    | some row => row.createdAt
    | none => now
  let row : AppRecord :=
    { artifactHash := u.artifactHash, endpoint := u.endpoint
      restartPolicy := u.restartPolicy, args := u.args, statePath := u.statePath
      desiredStatus := "running", adminAddr := u.adminAddr
      statusCmd := u.statusCmd, statusLabel := u.statusLabel, port := u.port
      manifestPath := u.manifestPath, icon := u.icon, createdAt, updatedAt := now }
  { r with app := r.app.insert u.name row }

/-- The declarative columns that `update_app_config` writes. -/
structure AppConfig where
  endpoint : Option String
  restartPolicy : String
  args : List String
  adminAddr : Option String
  statusCmd : Option String
  statusLabel : Option String
  port : Option UInt16
  icon : Option String
deriving DecidableEq, Repr

/-- Re-apply declarative config to an app without touching its artifact. -/
def updateAppConfig (r : Registry) (now : ℤ) (name : String) (c : AppConfig) : Registry :=
  { r with app := Table.modify r.app name fun row =>
      { row with
        endpoint := c.endpoint, restartPolicy := c.restartPolicy, args := c.args
        adminAddr := c.adminAddr, statusCmd := c.statusCmd
        statusLabel := c.statusLabel, port := c.port, icon := c.icon
        updatedAt := now } }

/-- Point an app at a different artifact without touching its config. -/
def setAppArtifact (r : Registry) (now : ℤ) (name artifactHash : String) : Registry :=
  { r with app := Table.modify r.app name fun row =>
      { row with artifactHash, updatedAt := now } }

def setDesired (r : Registry) (now : ℤ) (name status : String) : Registry :=
  { r with app := Table.modify r.app name fun row =>
      { row with desiredStatus := status, updatedAt := now } }

/-- The join of an app with its artifact row. -/
def mapAppRow (r : Registry) (name : String) (row : AppRecord) : AppRow :=
  let artifact := r.artifact.lookup row.artifactHash
  { name, artifactHash := row.artifactHash
    kernelHash := (artifact.map (·.kernelHash)).getD ""
    endpoint := row.endpoint, restartPolicy := row.restartPolicy, args := row.args
    statePath := row.statePath, desiredStatus := row.desiredStatus
    adminAddr := row.adminAddr, statusCmd := row.statusCmd
    statusLabel := row.statusLabel, port := row.port
    manifestPath := row.manifestPath, icon := row.icon
    verifiedStatus := artifact.bind (·.verifiedStatus)
    createdAt := row.createdAt, updatedAt := row.updatedAt }

def getApp (r : Registry) (name : String) : Option AppRow :=
  (r.app.lookup name).map (r.mapAppRow name)

/-- All apps, ordered by name. -/
def listApps (r : Registry) : List AppRow :=
  (r.app.keys.insertionSort (· ≤ ·)).filterMap r.getApp

/-! ## Deploy history -/

def recordDeploy (r : Registry) (now : ℤ) (name artifactHash : String) : Registry :=
  { r with
    deployHistory := r.deployHistory ++
      [{ id := r.historySeq + 1, appName := name, artifactHash, deployedAt := now }]
    historySeq := r.historySeq + 1 }

/-- The newest artifact of the app in its history that differs from `current`. -/
def previousArtifact (r : Registry) (name current : String) : Option String :=
  (r.deployHistory.reverse.find? fun h =>
    h.appName = name ∧ h.artifactHash ≠ current).map (·.artifactHash)

/-! ## Trust, events and endpoints -/

def addTrustedBuilder (r : Registry) (now : ℤ) (pubkey : String) : Registry :=
  match r.trustedBuilder.lookup pubkey with
  | some _ => r
  | none => { r with trustedBuilder := r.trustedBuilder.insert pubkey now }

def removeTrustedBuilder (r : Registry) (pubkey : String) : Registry :=
  { r with trustedBuilder := r.trustedBuilder.erase pubkey }

def isTrustedBuilder (r : Registry) (pubkey : String) : Bool :=
  (r.trustedBuilder.lookup pubkey).isSome

def addEvent (r : Registry) (now : ℤ) (appName kind detail : String) : Registry :=
  { r with
    event := r.event ++ [{ id := r.eventSeq + 1, ts := now, appName, kind, detail }]
    eventSeq := r.eventSeq + 1 }

def addEndpoint (r : Registry) (now : ℤ) (name url kind : String) : Registry :=
  let createdAt := match r.endpoint.lookup name with
    | some row => row.createdAt
    | none => now
  { r with endpoint := r.endpoint.insert name { url, kind, createdAt } }

def removeEndpoint (r : Registry) (name : String) : Registry :=
  { r with endpoint := r.endpoint.erase name }

def getEndpoint (r : Registry) (name : String) : Option EndpointRow :=
  r.endpoint.lookup name

/-! ## Writing statements as data -/

/-- The writing statements that a handler can issue. -/
inductive Statement where
  | putArtifact (rec : ArtifactRecord) (provenance : Option String)
  | setArtifactVerification (hash status : String) (builder : Option String)
  | upsertApp (u : AppUpsert)
  | updateAppConfig (name : String) (c : AppConfig)
  | setAppArtifact (name artifactHash : String)
  | setDesired (name status : String)
  | recordDeploy (name artifactHash : String)
  | addEvent (appName kind detail : String)
  | addTrustedBuilder (pubkey : String)
  | removeTrustedBuilder (pubkey : String)
  | addEndpoint (name url kind : String)
  | removeEndpoint (name : String)
deriving DecidableEq, Repr

/-- What a statement leaves when it succeeds at time `now`. -/
def Statement.exec (now : ℤ) (r : Registry) : Statement → Registry
  | .putArtifact rec provenance => r.putArtifact now rec provenance
  | .setArtifactVerification hash status builder =>
      r.setArtifactVerification hash status builder
  | .upsertApp u => r.upsertApp now u
  | .updateAppConfig name c => r.updateAppConfig now name c
  | .setAppArtifact name artifactHash => r.setAppArtifact now name artifactHash
  | .setDesired name status => r.setDesired now name status
  | .recordDeploy name artifactHash => r.recordDeploy now name artifactHash
  | .addEvent appName kind detail => r.addEvent now appName kind detail
  | .addTrustedBuilder pubkey => r.addTrustedBuilder now pubkey
  | .removeTrustedBuilder pubkey => r.removeTrustedBuilder pubkey
  | .addEndpoint name url kind => r.addEndpoint now name url kind
  | .removeEndpoint name => r.removeEndpoint name

/-- No statement reads the events. -/
theorem Statement.exec_quiet (now : ℤ) {r r' : Registry} (h : r.quiet = r'.quiet)
    (s : Statement) : (s.exec now r).quiet = (s.exec now r').quiet := by
  have hself (r : Registry) : (s.exec now r).quiet = (s.exec now r.quiet).quiet := by
    cases s with
    | addTrustedBuilder pubkey =>
        cases hkey : r.trustedBuilder.lookup pubkey <;>
          simp [Statement.exec, Registry.addTrustedBuilder, quiet, hkey]
    | _ => rfl
  rw [hself r, h, ← hself r']

/-! ## What the readers return -/

theorem mem_listApps {r : Registry} {row : AppRow} :
    row ∈ r.listApps ↔ r.getApp row.name = some row := by
  unfold listApps
  rw [List.mem_filterMap]
  constructor
  · rintro ⟨name, -, hname⟩
    obtain ⟨record, -, rfl⟩ := Option.map_eq_some_iff.1 hname
    exact hname
  · intro h
    refine ⟨row.name, ?_, h⟩
    rw [List.mem_insertionSort, ← AList.mem_keys, ← AList.lookup_isSome]
    obtain ⟨record, hrecord, -⟩ := Option.map_eq_some_iff.1 h
    rw [hrecord]
    rfl

/-- A snapshot names exactly the registered apps. -/
theorem name_mem_listApps {r : Registry} {name : String} :
    name ∈ r.listApps.map (·.name) ↔ name ∈ r.app.keys := by
  rw [List.mem_map, ← AList.mem_keys, ← AList.lookup_isSome]
  constructor
  · rintro ⟨row, hrow, rfl⟩
    obtain ⟨record, hrecord, -⟩ := Option.map_eq_some_iff.1 (mem_listApps.1 hrow)
    rw [hrecord]
    rfl
  · intro hsome
    obtain ⟨record, hrecord⟩ := Option.isSome_iff_exists.1 hsome
    have hrow : r.getApp name = some (r.mapAppRow name record) :=
      congrArg (Option.map (r.mapAppRow name)) hrecord
    exact ⟨r.mapAppRow name record, mem_listApps.2 hrow, rfl⟩

/-- A snapshot names every app once. -/
theorem nodup_listApps (r : Registry) : (r.listApps.map (·.name)).Nodup := by
  have hkeys : (r.app.keys.insertionSort (· ≤ ·)).Nodup :=
    (List.perm_insertionSort _ _).nodup_iff.2 r.app.keys_nodup
  have hsub : (r.listApps.map (·.name)).Sublist (r.app.keys.insertionSort (· ≤ ·)) := by
    unfold listApps
    generalize r.app.keys.insertionSort (· ≤ ·) = names
    induction names with
    | nil => exact List.Sublist.slnil
    | cons name names ih =>
        cases h : r.getApp name with
        | none =>
            rw [List.filterMap_cons_none h]
            exact ih.cons _
        | some row =>
            obtain ⟨record, -, hrow⟩ := Option.map_eq_some_iff.1 h
            rw [List.filterMap_cons_some h, List.map_cons, ← hrow]
            exact ih.cons_cons _
  exact hsub.nodup hkeys

end Registry

end Nockd
