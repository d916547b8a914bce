import Nockd.Data.Json
import Nockd.Data.Sheet
import Nockd.Registry.Events

/-!
# The database behind the registry

The registry is a SQLite file. Opening it creates the tables that are missing and adds the
columns that an older file does not have. A statement names its table and its columns, and
fails if one of them is not there.
-/

namespace Nockd

namespace Sql

open Registry Store

inductive Value where
  | null
  | int (n : ℤ)
  | text (s : String)
deriving DecidableEq

abbrev Row := String → Value

/-- The tables by their names, and the last id of each that counts its rows
(`sqlite_sequence`). -/
structure Database where
  sheets : String → Option (Sheet String Value)
  sequence : String → ℕ

/-- A file without tables. -/
def Database.fresh : Database where
  sheets _ := none
  sequence _ := 0

/-! ## `Registry::open` -/

/-- `CREATE TABLE IF NOT EXISTS`, with the columns of each. -/
def schema : List (String × List String) :=
  [("artifact", ["hash", "kernel_hash", "target_triple", "created_at", "provenance",
      "verified_status", "builder"]),
    ("trusted_builder", ["pubkey", "added_at"]),
    ("app", ["name", "artifact_hash", "endpoint", "restart_policy", "args", "state_path",
      "desired_status", "admin_addr", "status_cmd", "status_label", "port", "manifest_path",
      "icon", "created_at", "updated_at"]),
    ("event", ["id", "ts", "app_name", "kind", "detail"]),
    ("endpoint", ["name", "url", "kind", "created_at"]),
    ("deploy_history", ["id", "app_name", "artifact_hash", "deployed_at"])]

/-- `ALTER TABLE .. ADD COLUMN`, for the columns that older files do not have. -/
def alters : List (String × String) :=
  [("app", "admin_addr"), ("app", "status_cmd"), ("app", "status_label"), ("app", "port"),
    ("app", "manifest_path"), ("app", "icon"), ("artifact", "verified_status"),
    ("artifact", "builder")]

def Database.create (db : Database) (table : String × List String) : Database :=
  match db.sheets table.1 with
  | some _ => db
  | none => { db with sheets := Function.update db.sheets table.1 (some { columns := table.2 }) }

def Database.alter (db : Database) (column : String × String) : Option Database :=
  (db.sheets column.1).bind fun t => (t.addColumn .null column.2).map fun t =>
    { db with sheets := Function.update db.sheets column.1 (some t) }

/-- An error of an `ALTER` is ignored, whatever it is; `fails` says which of them go wrong for
other reasons than the column being there. -/
def Database.tolerate (fails : String × String → Bool) (db : Database)
    (column : String × String) : Database :=
  if fails column then db else (db.alter column).getD db

def Database.opened (db : Database) (fails : String × String → Bool) : Database :=
  alters.foldl (Database.tolerate fails) (schema.foldl Database.create db)

/-! ## Statements -/

def opt (s : Option String) : Value := (s.map .text).getD .null

def port (p : Option UInt16) : Value := (p.map fun n => .int n.toNat).getD .null

/-- A row with these cells, and nothing in the others. -/
def rowOf (cells : List (String × Value)) : Row := Sheet.write (fun _ => .null) cells

/-- A statement on a table, if its columns are there. -/
def Database.on (db : Database) (table : String) (columns : List String)
    (f : Sheet String Value → Sheet String Value) : Option Database :=
  (db.sheets table).bind fun t =>
    if ∀ c ∈ columns, c ∈ t.columns then
      some { db with sheets := Function.update db.sheets table (some (f t)) }
    else none

/-- `INSERT` into a table that counts its rows. -/
def Database.insertCounted (db : Database) (table : String) (cells : List (String × Value)) :
    Option Database :=
  let id := db.sequence table + 1
  (db.on table (cells.map Prod.fst)
    (·.append (rowOf (("id", .int id) :: cells)))).map fun db =>
      { db with sequence := Function.update db.sequence table id }

/-- `UPDATE .. SET .. WHERE key = ..` -/
def Database.updateCells (db : Database) (table key : String) (v : String)
    (cells : List (String × Value)) : Option Database :=
  db.on table (key :: cells.map Prod.fst) (·.update key (.text v) (Sheet.write · cells))

variable (json : JsonText)

/-- `serde_json::to_string(args)` -/
def argsJson (args : List String) : String := json.print (.arr (args.map .str))

/-- The columns that both an insert and an update of an app write. -/
def upsertCells (now : ℤ) (u : AppUpsert) : List (String × Value) :=
  [("artifact_hash", .text u.artifactHash), ("endpoint", opt u.endpoint),
    ("restart_policy", .text u.restartPolicy), ("args", .text (argsJson json u.args)),
    ("state_path", .text u.statePath), ("desired_status", .text "running"),
    ("admin_addr", opt u.adminAddr), ("status_cmd", opt u.statusCmd),
    ("status_label", opt u.statusLabel), ("port", port u.port),
    ("manifest_path", opt u.manifestPath), ("icon", opt u.icon), ("updated_at", .int now)]

def configCells (now : ℤ) (c : AppConfig) : List (String × Value) :=
  [("endpoint", opt c.endpoint), ("restart_policy", .text c.restartPolicy),
    ("args", .text (argsJson json c.args)), ("admin_addr", opt c.adminAddr),
    ("status_cmd", opt c.statusCmd), ("status_label", opt c.statusLabel), ("port", port c.port),
    ("icon", opt c.icon), ("updated_at", .int now)]

/-- `NOT (COALESCE(verified_status,'')='verified' AND ?2 != 'verified')` -/
def overwrites (row : Row) (status : String) : Bool :=
  let current := if row "verified_status" = .null then .text "" else row "verified_status"
  !(current = .text "verified" && status ≠ "verified")

/-- The SQL of a writing statement. -/
def Database.exec (db : Database) (now : ℤ) : Statement → Option Database
  | .putArtifact rec provenance =>
    let cells := [("hash", .text rec.artifactHash), ("kernel_hash", .text rec.kernelHash),
      ("target_triple", .text rec.targetTriple), ("created_at", .int now),
      ("provenance", opt provenance)]
    db.on "artifact" (cells.map Prod.fst) (·.replace "hash" (rowOf cells))
  | .setArtifactVerification hash status builder =>
    db.on "artifact" ["hash", "verified_status", "builder"] (·.update "hash" (.text hash)
      fun row => if overwrites row status then
        Sheet.write row [("verified_status", .text status), ("builder", opt builder)] else row)
  | .upsertApp u =>
    let cells := upsertCells json now u
    db.on "app" ("name" :: "created_at" :: cells.map Prod.fst) (·.upsert "name"
      (rowOf (("name", .text u.name) :: ("created_at", .int now) :: cells)) (Sheet.write · cells))
  | .updateAppConfig name c => db.updateCells "app" "name" name (configCells json now c)
  | .setAppArtifact name artifactHash =>
    db.updateCells "app" "name" name
      [("artifact_hash", .text artifactHash), ("updated_at", .int now)]
  | .setDesired name status =>
    db.updateCells "app" "name" name [("desired_status", .text status), ("updated_at", .int now)]
  | .recordDeploy name artifactHash =>
    db.insertCounted "deploy_history" [("app_name", .text name),
      ("artifact_hash", .text artifactHash), ("deployed_at", .int now)]
  | .addEvent appName kind detail =>
    db.insertCounted "event" [("ts", .int now), ("app_name", .text appName),
      ("kind", .text kind), ("detail", .text detail)]
  | .addTrustedBuilder pubkey =>
    db.on "trusted_builder" ["pubkey", "added_at"] (·.upsert "pubkey"
      (rowOf [("pubkey", .text pubkey), ("added_at", .int now)]) id)
  | .removeTrustedBuilder pubkey =>
    db.on "trusted_builder" ["pubkey"] (·.delete "pubkey" (.text pubkey))
  | .addEndpoint name url kind =>
    let cells := [("url", .text url), ("kind", .text kind)]
    db.on "endpoint" ("name" :: "created_at" :: cells.map Prod.fst) (·.upsert "name"
      (rowOf (("name", .text name) :: ("created_at", .int now) :: cells)) (Sheet.write · cells))
  | .removeEndpoint name => db.on "endpoint" ["name"] (·.delete "name" (.text name))

/-! ## Queries -/

def Value.asText : Value → Option String
  | .text s => some s
  | _ => none

def Value.asInt : Value → Option ℤ
  | .int n => some n
  | _ => none

/-- A column that may be NULL. -/
def Value.asOption {α : Type} (read : Value → Option α) : Value → Option (Option α)
  | .null => some none
  | v => (read v).map some

def Value.asPort : Value → Option UInt16
  | .int n => if 0 ≤ n ∧ n < 2 ^ 16 then some (UInt16.ofNat n.toNat) else none
  | _ => none

/-- `serde_json::from_str(..).unwrap_or_default()` -/
def argsOf (s : String) : List String := ((json.parse s).bind (Json.asList Json.asString)).getD []

/-- `map_app_row`, on a row of `app LEFT JOIN artifact`. -/
def mapAppRow (a : Row) (ar : Option Row) : Option AppRow := do
  let column (name : String) : Value := (ar.map (· name)).getD .null
  return {
    args := argsOf json (← (a "args").asText)
    name := ← (a "name").asText
    artifactHash := ← (a "artifact_hash").asText
    kernelHash := (← (column "kernel_hash").asOption Value.asText).getD ""
    endpoint := ← (a "endpoint").asOption Value.asText
    restartPolicy := ← (a "restart_policy").asText
    statePath := ← (a "state_path").asText
    desiredStatus := ← (a "desired_status").asText
    createdAt := ← (a "created_at").asInt
    updatedAt := ← (a "updated_at").asInt
    adminAddr := ← (a "admin_addr").asOption Value.asText
    statusCmd := ← (a "status_cmd").asOption Value.asText
    statusLabel := ← (a "status_label").asOption Value.asText
    verifiedStatus := ← (column "verified_status").asOption Value.asText
    port := ← (a "port").asOption Value.asPort
    manifestPath := ← (a "manifest_path").asOption Value.asText
    icon := ← (a "icon").asOption Value.asText }

/-- A table whose columns are there. -/
def Database.select (db : Database) (table : String) (columns : List String) :
    Option (Sheet String Value) :=
  (db.sheets table).filter fun t => ∀ c ∈ columns, c ∈ t.columns

def appColumns : List String :=
  ["name", "artifact_hash", "endpoint", "restart_policy", "args", "state_path", "desired_status",
    "created_at", "updated_at", "admin_addr", "status_cmd", "status_label", "port",
    "manifest_path", "icon"]

def artifactColumns : List String := ["hash", "kernel_hash", "verified_status"]

/-- `get_app`; a row that cannot be read is none. -/
def Database.getApp (db : Database) (name : String) : Option (Option AppRow) := do
  let app ← db.select "app" appColumns
  let artifact ← db.select "artifact" artifactColumns
  return (app.lookup "name" (.text name)).bind fun a =>
    mapAppRow json a (artifact.lookup "hash" (a "artifact_hash"))

/-- `ORDER BY a.name` -/
def nameOf (a : Row) : String := ((a "name").asText).getD ""

/-- `list_apps`; a row that cannot be read is an error. -/
def Database.listApps (db : Database) : Option (List AppRow) := do
  let app ← db.select "app" appColumns
  let artifact ← db.select "artifact" artifactColumns
  (app.rows.insertionSort fun a b => nameOf a ≤ nameOf b).mapM fun a =>
    mapAppRow json a (artifact.lookup "hash" (a "artifact_hash"))

/-- `previous_artifact`, none also if the query fails; the rows are in the order of their ids. -/
def Database.previousArtifact (db : Database) (name current : String) : Option String :=
  (db.select "deploy_history" ["id", "app_name", "artifact_hash"]).bind fun history =>
    (history.rows.reverse.find? fun h => h "app_name" = .text name ∧
      h "artifact_hash" ≠ .null ∧ h "artifact_hash" ≠ .text current).bind fun h =>
        (h "artifact_hash").asText

def mapEventRow (row : Row) : Option EventRow := do
  return {
    id := (← (row "id").asInt).toNat
    ts := ← (row "ts").asInt
    appName := ← (row "app_name").asText
    kind := ← (row "kind").asText
    detail := ← (row "detail").asText }

def eventColumns : List String := ["id", "ts", "app_name", "kind", "detail"]

/-- `ORDER BY id` -/
def idOf (row : Row) : ℤ := ((row "id").asInt).getD 0

def Database.listEvents (db : Database) (limit : ℤ) : Option (List EventRow) := do
  let event ← db.select "event" eventColumns
  (limited limit (event.rows.insertionSort fun a b => idOf b ≤ idOf a)).mapM mapEventRow

def Database.eventsSince (db : Database) (after limit : ℤ) : Option (List EventRow) := do
  let event ← db.select "event" eventColumns
  (limited limit ((event.rows.filter fun a => after < idOf a).insertionSort
    fun a b => idOf a ≤ idOf b)).mapM mapEventRow

def mapEndpointRow (row : Row) : Option EndpointRow := do
  return {
    url := ← (row "url").asText
    kind := ← (row "kind").asText
    createdAt := ← (row "created_at").asInt }

/-- `get_endpoint`; a row that cannot be read is none. -/
def Database.getEndpoint (db : Database) (name : String) : Option (Option EndpointRow) := do
  let endpoint ← db.select "endpoint" ["name", "url", "kind", "created_at"]
  return (endpoint.lookup "name" (.text name)).bind mapEndpointRow

def Database.isTrustedBuilder (db : Database) (pubkey : String) : Bool :=
  ((db.select "trusted_builder" ["pubkey"]).bind (·.lookup "pubkey" (.text pubkey))).isSome

end Sql

end Nockd
