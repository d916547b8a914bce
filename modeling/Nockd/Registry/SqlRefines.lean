import Nockd.Data.Related
import Nockd.Registry.History
import Nockd.Registry.Upgrade

/-!
# The statements on the database

A database holds a registry if its tables have all columns of the schema, and the cells of their
rows are the fields. Executed on such a database the SQL of a statement succeeds and leaves one that
holds what the statement makes of the registry, and the queries return what the registry
has.
-/

namespace Nockd

namespace Sql

open Registry Sheet Store

/-! ## Rows and tables -/

/-- The cells of an app. -/
structure AppCells (json : JsonText) (row : Row) (record : AppRecord) : Prop where
  artifactHash : row "artifact_hash" = .text record.artifactHash
  endpoint : row "endpoint" = opt record.endpoint
  restartPolicy : row "restart_policy" = .text record.restartPolicy
  args : ∃ s, row "args" = .text s ∧ argsOf json s = record.args
  statePath : row "state_path" = .text record.statePath
  desiredStatus : row "desired_status" = .text record.desiredStatus
  adminAddr : row "admin_addr" = opt record.adminAddr
  statusCmd : row "status_cmd" = opt record.statusCmd
  statusLabel : row "status_label" = opt record.statusLabel
  port : row "port" = Sql.port record.port
  manifestPath : row "manifest_path" = opt record.manifestPath
  icon : row "icon" = opt record.icon
  createdAt : row "created_at" = .int record.createdAt
  updatedAt : row "updated_at" = .int record.updatedAt

structure ArtifactCells (row : Row) (artifact : ArtifactRow) : Prop where
  kernelHash : row "kernel_hash" = .text artifact.kernelHash
  targetTriple : row "target_triple" = .text artifact.targetTriple
  createdAt : row "created_at" = .int artifact.createdAt
  provenance : row "provenance" = opt artifact.provenance
  verifiedStatus : row "verified_status" = opt artifact.verifiedStatus
  builder : row "builder" = opt artifact.builder

/-- The cells of a trusted builder. -/
def BuilderCells (row : Row) (addedAt : ℤ) : Prop := row "added_at" = .int addedAt

structure EndpointCells (row : Row) (endpoint : EndpointRow) : Prop where
  url : row "url" = .text endpoint.url
  kind : row "kind" = .text endpoint.kind
  createdAt : row "created_at" = .int endpoint.createdAt

structure HistoryCells (row : Row) (entry : HistoryRow) : Prop where
  id : row "id" = .int entry.id
  appName : row "app_name" = .text entry.appName
  artifactHash : row "artifact_hash" = .text entry.artifactHash
  deployedAt : row "deployed_at" = .int entry.deployedAt

structure EventCells (row : Row) (event : EventRow) : Prop where
  id : row "id" = .int event.id
  ts : row "ts" = .int event.ts
  appName : row "app_name" = .text event.appName
  kind : row "kind" = .text event.kind
  detail : row "detail" = .text event.detail

/-- The rows of a sheet are those of a keyed table. -/
structure Represents {V : Type} (key : String) (cells : Row → V → Prop)
    (t : Sheet String Value) (m : Table V) : Prop where
  keyed : t.Keyed key
  texts : ∀ row ∈ t.rows, ∃ k, row key = .text k
  rows : ∀ k, Option.Rel cells (t.lookup key (.text k)) (m.lookup k)

namespace Represents

variable {V : Type} {key k : String} {cells : Row → V → Prop} {t : Sheet String Value}
  {m : Table V} {row : Row} {v : V} {f : Row → Row} {g : V → V}

theorem congr (h : Represents key cells t m) {m' : Table V} (heq : ∀ k, m'.lookup k = m.lookup k) :
    Represents key cells t m' :=
  ⟨h.keyed, h.texts, fun k => heq k ▸ h.rows k⟩

theorem empty (key : String) (cells : Row → V → Prop) (columns : List String) :
    Represents key cells { columns } (∅ : Table V) :=
  ⟨List.Pairwise.nil, nofun, fun _ => .none⟩

theorem text_inj {k k' : String} : (Value.text k = .text k') ↔ k = k' := by simp

theorem update (h : Represents key cells t m) (hf : ∀ row, f row key = row key)
    (hcells : ∀ row v, cells row v → cells (f row) (g v)) (k : String) :
    Represents key cells (t.update key (.text k) f) (Table.modify m k g) := by
  refine ⟨h.keyed.update hf _, fun row hrow => ?_, fun k' => ?_⟩
  · obtain ⟨old, hold, rfl⟩ := List.mem_map.1 hrow
    obtain ⟨k', hk'⟩ := h.texts old hold
    refine ⟨k', ?_⟩
    split
    · rw [hf, hk']
    · exact hk'
  · rw [lookup_update hf]
    by_cases hk : k' = k
    · subst hk
      rw [if_pos rfl, Table.lookup_modify]
      exact Related.map (h.rows k') hcells
    · rw [if_neg (text_inj.not.2 hk), Table.lookup_modify_ne _ _ hk]
      exact h.rows k'

theorem delete (h : Represents key cells t m) (k : String) :
    Represents key cells (t.delete key (.text k)) (m.erase k) := by
  refine ⟨h.keyed.delete _, fun row hrow => h.texts row (List.mem_filter.1 hrow).1, fun k' => ?_⟩
  rw [lookup_delete]
  by_cases hk : k' = k
  · subst hk
    rw [if_pos rfl, AList.lookup_erase]
    exact .none
  · rw [if_neg (text_inj.not.2 hk), AList.lookup_erase_ne hk]
    exact h.rows k'

theorem replace (h : Represents key cells t m) (hrow : row key = .text k) (hcells : cells row v) :
    Represents key cells (t.replace key row) (m.insert k v) := by
  refine ⟨h.keyed.replace row, fun other hother => ?_, fun k' => ?_⟩
  · rcases List.mem_append.1 hother with hother | hother
    · exact h.texts other (List.mem_filter.1 hother).1
    · exact ⟨k, List.mem_singleton.1 hother ▸ hrow⟩
  · rw [lookup_replace, hrow]
    by_cases hk : k' = k
    · subst hk
      rw [if_pos rfl, AList.lookup_insert]
      exact .some hcells
    · rw [if_neg (text_inj.not.2 hk), AList.lookup_insert_ne hk]
      exact h.rows k'

theorem upsert (h : Represents key cells t m) (hf : ∀ row, f row key = row key)
    (hrow : row key = .text k) (hcells : cells row v)
    (hupdate : ∀ row v, cells row v → cells (f row) (g v)) :
    Represents key cells (t.upsert key row f) (m.insert k (((m.lookup k).map g).getD v)) := by
  refine ⟨h.keyed.upsert hf row, fun other hother => ?_, fun k' => ?_⟩
  · unfold Sheet.upsert at hother
    split at hother
    · obtain ⟨old, hold, rfl⟩ := List.mem_map.1 hother
      obtain ⟨k', hk'⟩ := h.texts old hold
      refine ⟨k', ?_⟩
      split
      · rw [hf, hk']
      · exact hk'
    · rcases List.mem_append.1 hother with hother | hother
      · exact h.texts other hother
      · exact ⟨k, List.mem_singleton.1 hother ▸ hrow⟩
  · rw [lookup_upsert hf, hrow]
    by_cases hk : k' = k
    · subst hk
      rw [if_pos rfl, AList.lookup_insert]
      exact .some (Related.getD (Related.map (h.rows k') hupdate) hcells)
    · rw [if_neg (text_inj.not.2 hk), AList.lookup_insert_ne hk]
      exact h.rows k'

end Represents

/-! ## Databases -/

def columnsOf (table : String) : List String := (schema.lookup table).getD []

/-- The table is there, with all its columns, and its sheet is as given. -/
def Database.Table (db : Database) (table : String) (P : Sheet String Value → Prop) : Prop :=
  ∃ t, db.sheets table = some t ∧ (∀ c ∈ columnsOf table, c ∈ t.columns) ∧ P t

/-- The database holds the registry. -/
structure Holds (json : JsonText) (db : Database) (r : Registry) : Prop where
  artifact : db.Table "artifact" (Represents "hash" ArtifactCells · r.artifact)
  trustedBuilder : db.Table "trusted_builder"
    (Represents "pubkey" BuilderCells · r.trustedBuilder)
  app : db.Table "app" (Represents "name" (AppCells json) · r.app)
  event : db.Table "event" fun t => List.Forall₂ EventCells t.rows r.event
  endpoint : db.Table "endpoint" (Represents "name" EndpointCells · r.endpoint)
  deployHistory : db.Table "deploy_history" fun t =>
    List.Forall₂ HistoryCells t.rows r.deployHistory
  eventSeq : db.sequence "event" = r.eventSeq
  historySeq : db.sequence "deploy_history" = r.historySeq

variable {json : JsonText} {db db' : Database} {r : Registry} {table : String}
  {P Q : Sheet String Value → Prop} {f : Sheet String Value → Sheet String Value}

theorem Database.Table.congr (h : db.Table table P) (heq : db'.sheets table = db.sheets table) :
    db'.Table table P := by
  obtain ⟨t, hsheet, h⟩ := h
  exact ⟨t, heq.trans hsheet, h⟩

/-- What a statement on one table does. -/
structure On (db db' : Database) (table : String) (Q : Sheet String Value → Prop) : Prop where
  own : db'.Table table Q
  others : ∀ other, other ≠ table → db'.sheets other = db.sheets other

theorem on_table (h : db.Table table P) {columns : List String}
    (hcolumns : columns.all (columnsOf table).contains) (hkept : ∀ t, (f t).columns = t.columns)
    (hf : ∀ t, P t → Q (f t)) :
    ∃ db', db.on table columns f = some db' ∧ On db db' table Q ∧ db'.sequence = db.sequence := by
  obtain ⟨t, hsheet, hall, ht⟩ := h
  have hthere : ∀ c ∈ columns, c ∈ t.columns := fun c hc =>
    hall c (by simpa using List.all_eq_true.1 hcolumns c hc)
  refine ⟨{ db with sheets := Function.update db.sheets table (some (f t)) }, ?_, ⟨?_, ?_⟩, rfl⟩
  · unfold Database.on
    rw [hsheet, Option.bind_some, if_pos hthere]
  · refine ⟨f t, Function.update_self _ _ _, ?_, hf t ht⟩
    rw [hkept]
    exact hall
  · exact fun other hother => Function.update_of_ne hother _ _

theorem insert_table (h : db.Table table P) (cells : List (String × Value))
    (hcolumns : (cells.map Prod.fst).all (columnsOf table).contains)
    (hf : ∀ t, P t → Q (t.append (rowOf (("id", .int (db.sequence table + 1 : ℕ)) :: cells)))) :
    ∃ db', db.insertCounted table cells = some db' ∧ On db db' table Q ∧
      db'.sequence = Function.update db.sequence table (db.sequence table + 1) := by
  let row := rowOf (("id", .int (db.sequence table + 1 : ℕ)) :: cells)
  obtain ⟨db', hon, ⟨htable, hothers⟩, hsequence⟩ :=
    on_table (f := fun t => t.append row) (Q := Q) h hcolumns (fun _ => rfl) hf
  refine ⟨{ db' with sequence := Function.update db'.sequence table (db.sequence table + 1) },
    ?_, ⟨htable, hothers⟩, ?_⟩
  · exact congrArg (Option.map _) hon
  · rw [hsequence]

namespace Holds

variable {columns : List String}

theorem on_artifact (h : Holds json db r) {m : Nockd.Table ArtifactRow}
    (hcolumns : columns.all (columnsOf "artifact").contains)
    (hkept : ∀ t, (f t).columns = t.columns)
    (hf : ∀ t, Represents "hash" ArtifactCells t r.artifact →
      Represents "hash" ArtifactCells (f t) m) :
    ∃ db', db.on "artifact" columns f = some db' ∧ Holds json db' { r with artifact := m } := by
  obtain ⟨db', heq, hon, hsequence⟩ :=
    on_table (Q := (Represents "hash" ArtifactCells · m)) h.artifact hcolumns hkept hf
  refine ⟨db', heq, hon.own, ?_, ?_, ?_, ?_, ?_, hsequence ▸ h.eventSeq, hsequence ▸ h.historySeq⟩
  · exact h.trustedBuilder.congr (hon.others _ (by decide))
  · exact h.app.congr (hon.others _ (by decide))
  · exact h.event.congr (hon.others _ (by decide))
  · exact h.endpoint.congr (hon.others _ (by decide))
  · exact h.deployHistory.congr (hon.others _ (by decide))

theorem on_builder (h : Holds json db r) {m : Nockd.Table ℤ}
    (hcolumns : columns.all (columnsOf "trusted_builder").contains)
    (hkept : ∀ t, (f t).columns = t.columns)
    (hf : ∀ t, Represents "pubkey" BuilderCells t r.trustedBuilder →
      Represents "pubkey" BuilderCells (f t) m) :
    ∃ db', db.on "trusted_builder" columns f = some db' ∧
      Holds json db' { r with trustedBuilder := m } := by
  obtain ⟨db', heq, hon, hsequence⟩ :=
    on_table (Q := (Represents "pubkey" BuilderCells · m)) h.trustedBuilder hcolumns hkept hf
  refine ⟨db', heq, ?_, hon.own, ?_, ?_, ?_, ?_, hsequence ▸ h.eventSeq, hsequence ▸ h.historySeq⟩
  · exact h.artifact.congr (hon.others _ (by decide))
  · exact h.app.congr (hon.others _ (by decide))
  · exact h.event.congr (hon.others _ (by decide))
  · exact h.endpoint.congr (hon.others _ (by decide))
  · exact h.deployHistory.congr (hon.others _ (by decide))

theorem on_app (h : Holds json db r) {m : Nockd.Table AppRecord}
    (hcolumns : columns.all (columnsOf "app").contains)
    (hkept : ∀ t, (f t).columns = t.columns)
    (hf : ∀ t, Represents "name" (AppCells json) t r.app →
      Represents "name" (AppCells json) (f t) m) :
    ∃ db', db.on "app" columns f = some db' ∧ Holds json db' { r with app := m } := by
  obtain ⟨db', heq, hon, hsequence⟩ :=
    on_table (Q := (Represents "name" (AppCells json) · m)) h.app hcolumns hkept hf
  refine ⟨db', heq, ?_, ?_, hon.own, ?_, ?_, ?_, hsequence ▸ h.eventSeq, hsequence ▸ h.historySeq⟩
  · exact h.artifact.congr (hon.others _ (by decide))
  · exact h.trustedBuilder.congr (hon.others _ (by decide))
  · exact h.event.congr (hon.others _ (by decide))
  · exact h.endpoint.congr (hon.others _ (by decide))
  · exact h.deployHistory.congr (hon.others _ (by decide))

theorem on_endpoint (h : Holds json db r) {m : Nockd.Table EndpointRow}
    (hcolumns : columns.all (columnsOf "endpoint").contains)
    (hkept : ∀ t, (f t).columns = t.columns)
    (hf : ∀ t, Represents "name" EndpointCells t r.endpoint →
      Represents "name" EndpointCells (f t) m) :
    ∃ db', db.on "endpoint" columns f = some db' ∧ Holds json db' { r with endpoint := m } := by
  obtain ⟨db', heq, hon, hsequence⟩ :=
    on_table (Q := (Represents "name" EndpointCells · m)) h.endpoint hcolumns hkept hf
  refine ⟨db', heq, ?_, ?_, ?_, ?_, hon.own, ?_, hsequence ▸ h.eventSeq, hsequence ▸ h.historySeq⟩
  · exact h.artifact.congr (hon.others _ (by decide))
  · exact h.trustedBuilder.congr (hon.others _ (by decide))
  · exact h.app.congr (hon.others _ (by decide))
  · exact h.event.congr (hon.others _ (by decide))
  · exact h.deployHistory.congr (hon.others _ (by decide))

theorem on_history (h : Holds json db r) (name artifactHash : String) (now : ℤ) :
    ∃ db', db.insertCounted "deploy_history" [("app_name", .text name),
        ("artifact_hash", .text artifactHash), ("deployed_at", .int now)] = some db' ∧
      Holds json db' (r.recordDeploy now name artifactHash) := by
  let entry : HistoryRow :=
    { id := r.historySeq + 1, appName := name, artifactHash, deployedAt := now }
  obtain ⟨db', heq, hon, hsequence⟩ := insert_table h.deployHistory
    (Q := fun t => List.Forall₂ HistoryCells t.rows (r.deployHistory ++ [entry]))
    [("app_name", .text name), ("artifact_hash", .text artifactHash), ("deployed_at", .int now)] rfl
    fun t ht => Related.append_one ht ⟨h.historySeq ▸ rfl, rfl, rfl, rfl⟩
  refine ⟨db', heq, ?_, ?_, ?_, ?_, ?_, hon.own, ?_, ?_⟩
  · exact h.artifact.congr (hon.others _ (by decide))
  · exact h.trustedBuilder.congr (hon.others _ (by decide))
  · exact h.app.congr (hon.others _ (by decide))
  · exact h.event.congr (hon.others _ (by decide))
  · exact h.endpoint.congr (hon.others _ (by decide))
  · rw [hsequence, Function.update_of_ne (by decide)]
    exact h.eventSeq
  · rw [hsequence, Function.update_self, h.historySeq]
    rfl

theorem on_event (h : Holds json db r) (appName kind detail : String) (now : ℤ) :
    ∃ db', db.insertCounted "event" [("ts", .int now), ("app_name", .text appName),
        ("kind", .text kind), ("detail", .text detail)] = some db' ∧
      Holds json db' (r.addEvent now appName kind detail) := by
  let event : EventRow := { id := r.eventSeq + 1, ts := now, appName, kind, detail }
  obtain ⟨db', heq, hon, hsequence⟩ := insert_table h.event
    (Q := fun t => List.Forall₂ EventCells t.rows (r.event ++ [event]))
    [("ts", .int now), ("app_name", .text appName), ("kind", .text kind),
      ("detail", .text detail)] rfl
    fun t ht => Related.append_one ht ⟨h.eventSeq ▸ rfl, rfl, rfl, rfl, rfl⟩
  refine ⟨db', heq, ?_, ?_, ?_, hon.own, ?_, ?_, ?_, ?_⟩
  · exact h.artifact.congr (hon.others _ (by decide))
  · exact h.trustedBuilder.congr (hon.others _ (by decide))
  · exact h.app.congr (hon.others _ (by decide))
  · exact h.endpoint.congr (hon.others _ (by decide))
  · exact h.deployHistory.congr (hon.others _ (by decide))
  · rw [hsequence, Function.update_self, h.eventSeq]
    rfl
  · rw [hsequence, Function.update_of_ne (by decide)]
    exact h.historySeq

end Holds

/-! ## The cells that statements write -/

/-- The arguments in a statement come back from their JSON text. -/
def Kept (json : JsonText) : Statement → Prop
  | .upsertApp u => json.Keeps (.arr (u.args.map .str))
  | .updateAppConfig _ c => json.Keeps (.arr (c.args.map .str))
  | _ => True

theorem argsOf_argsJson {args : List String} (h : json.Keeps (.arr (args.map .str))) :
    argsOf json (argsJson json args) = args := by
  have hparse : json.parse (argsJson json args) = some (.arr (args.map .str)) := h
  have hread : Json.asList Json.asString (.arr (args.map .str)) = some args :=
    Json.asList_arr (fun s => (rfl : Json.asString (.str s) = some s)) args
  unfold argsOf
  rw [hparse, Option.bind_some, hread, Option.getD_some]

theorem appCells_insert {u : AppUpsert} (hargs : json.Keeps (.arr (u.args.map .str))) (now : ℤ) :
    AppCells json
      (rowOf (("name", .text u.name) :: ("created_at", .int now) :: upsertCells json now u))
      { artifactHash := u.artifactHash, endpoint := u.endpoint, restartPolicy := u.restartPolicy
        args := u.args, statePath := u.statePath, desiredStatus := "running"
        adminAddr := u.adminAddr, statusCmd := u.statusCmd, statusLabel := u.statusLabel
        port := u.port, manifestPath := u.manifestPath, icon := u.icon
        createdAt := now, updatedAt := now } where
  artifactHash := rfl
  endpoint := rfl
  restartPolicy := rfl
  args := ⟨argsJson json u.args, rfl, argsOf_argsJson hargs⟩
  statePath := rfl
  desiredStatus := rfl
  adminAddr := rfl
  statusCmd := rfl
  statusLabel := rfl
  port := rfl
  manifestPath := rfl
  icon := rfl
  createdAt := rfl
  updatedAt := rfl

theorem appCells_upsert {u : AppUpsert} (hargs : json.Keeps (.arr (u.args.map .str))) (now : ℤ)
    {row : Row} {record : AppRecord} (h : AppCells json row record) :
    AppCells json (write row (upsertCells json now u))
      { artifactHash := u.artifactHash, endpoint := u.endpoint, restartPolicy := u.restartPolicy
        args := u.args, statePath := u.statePath, desiredStatus := "running"
        adminAddr := u.adminAddr, statusCmd := u.statusCmd, statusLabel := u.statusLabel
        port := u.port, manifestPath := u.manifestPath, icon := u.icon
        createdAt := record.createdAt, updatedAt := now } where
  artifactHash := rfl
  endpoint := rfl
  restartPolicy := rfl
  args := ⟨argsJson json u.args, rfl, argsOf_argsJson hargs⟩
  statePath := rfl
  desiredStatus := rfl
  adminAddr := rfl
  statusCmd := rfl
  statusLabel := rfl
  port := rfl
  manifestPath := rfl
  icon := rfl
  createdAt := h.createdAt
  updatedAt := rfl

theorem appCells_config {c : AppConfig} (hargs : json.Keeps (.arr (c.args.map .str))) (now : ℤ)
    {row : Row} {record : AppRecord} (h : AppCells json row record) :
    AppCells json (write row (configCells json now c))
      { record with
        endpoint := c.endpoint, restartPolicy := c.restartPolicy, args := c.args
        adminAddr := c.adminAddr, statusCmd := c.statusCmd
        statusLabel := c.statusLabel, port := c.port, icon := c.icon
        updatedAt := now } where
  artifactHash := h.artifactHash
  endpoint := rfl
  restartPolicy := rfl
  args := ⟨argsJson json c.args, rfl, argsOf_argsJson hargs⟩
  statePath := h.statePath
  desiredStatus := h.desiredStatus
  adminAddr := rfl
  statusCmd := rfl
  statusLabel := rfl
  port := rfl
  manifestPath := h.manifestPath
  icon := rfl
  createdAt := h.createdAt
  updatedAt := rfl

theorem appCells_artifact {row : Row} {record : AppRecord} (h : AppCells json row record)
    (now : ℤ) (artifactHash : String) :
    AppCells json (write row [("artifact_hash", .text artifactHash), ("updated_at", .int now)])
      { record with artifactHash, updatedAt := now } :=
  { h with artifactHash := rfl, updatedAt := rfl }

theorem appCells_desired {row : Row} {record : AppRecord} (h : AppCells json row record)
    (now : ℤ) (status : String) :
    AppCells json (write row [("desired_status", .text status), ("updated_at", .int now)])
      { record with desiredStatus := status, updatedAt := now } :=
  { h with desiredStatus := rfl, updatedAt := rfl }

theorem overwrites_iff {row : Row} {artifact : ArtifactRow} (h : ArtifactCells row artifact)
    (status : String) : overwrites row status ↔
      ¬(artifact.verifiedStatus.getD "" = "verified" ∧ status ≠ "verified") := by
  unfold overwrites
  rw [h.verifiedStatus]
  cases artifact.verifiedStatus <;> simp [opt, imp_iff_not_or]

theorem artifactCells_verification {row : Row} {artifact : ArtifactRow}
    (h : ArtifactCells row artifact) (status : String) (builder : Option String) :
    ArtifactCells
      (if overwrites row status then
        write row [("verified_status", .text status), ("builder", opt builder)] else row)
      (if ¬(artifact.verifiedStatus.getD "" = "verified" ∧ status ≠ "verified") then
        { artifact with verifiedStatus := some status, builder }
      else artifact) := by
  by_cases hover : overwrites row status
  · rw [if_pos hover, if_pos ((overwrites_iff h status).1 hover)]
    exact { h with verifiedStatus := rfl, builder := rfl }
  · rw [if_neg hover, if_neg (hover ∘ (overwrites_iff h status).2)]
    exact h

/-! ## Statements -/

theorem columns_upsert (t : Sheet String Value) (key : String) (row : Row) (f : Row → Row) :
    (t.upsert key row f).columns = t.columns := by
  unfold Sheet.upsert
  split <;> rfl

theorem addTrustedBuilder_eq (r : Registry) (now : ℤ) (pubkey : String) :
    r.addTrustedBuilder now pubkey = { r with
      trustedBuilder := (r.trustedBuilder.lookup pubkey).elim
        (r.trustedBuilder.insert pubkey now) fun _ => r.trustedBuilder } := by
  unfold addTrustedBuilder
  cases r.trustedBuilder.lookup pubkey <;> rfl

theorem exec_holds (h : Holds json db r) {st : Statement} (hst : Kept json st) (now : ℤ) :
    ∃ db', db.exec json now st = some db' ∧ Holds json db' (st.exec now r) := by
  cases st with
  | putArtifact rec provenance =>
      exact h.on_artifact rfl (fun _ => rfl) fun t ht =>
        ht.replace rfl ⟨rfl, rfl, rfl, rfl, rfl, rfl⟩
  | setArtifactVerification hash status builder =>
      refine h.on_artifact rfl (fun _ => rfl) fun t ht => ht.update (fun row => ?_)
        (fun _ _ hcells => artifactCells_verification hcells status builder) hash
      split <;> rfl
  | upsertApp u =>
      have hname : rowOf (("name", .text u.name) :: ("created_at", .int now) ::
          upsertCells json now u) "name" = .text u.name := rfl
      refine h.on_app rfl (fun _ => columns_upsert _ _ _ _) fun t ht =>
        (ht.upsert (f := (write · (upsertCells json now u))) (fun _ => rfl) hname
          (appCells_insert hst now)
          fun _ _ hcells => appCells_upsert hst now hcells).congr fun k => ?_
      cases r.app.lookup u.name <;> rfl
  | updateAppConfig name c =>
      exact h.on_app rfl (fun _ => rfl) fun t ht =>
        ht.update (f := (write · (configCells json now c))) (fun _ => rfl)
          (fun _ _ hcells => appCells_config hst now hcells) name
  | setAppArtifact name artifactHash =>
      exact h.on_app rfl (fun _ => rfl) fun t ht =>
        ht.update (f := (write · [("artifact_hash", .text artifactHash), ("updated_at", .int now)]))
          (fun _ => rfl) (fun _ _ hcells => appCells_artifact hcells now artifactHash) name
  | setDesired name status =>
      exact h.on_app rfl (fun _ => rfl) fun t ht =>
        ht.update (f := (write · [("desired_status", .text status), ("updated_at", .int now)]))
          (fun _ => rfl) (fun _ _ hcells => appCells_desired hcells now status) name
  | recordDeploy name artifactHash => exact h.on_history name artifactHash now
  | addEvent appName kind detail => exact h.on_event appName kind detail now
  | addTrustedBuilder pubkey =>
      have hkey : rowOf [("pubkey", .text pubkey), ("added_at", .int now)] "pubkey" =
          .text pubkey := rfl
      rw [Statement.exec, addTrustedBuilder_eq]
      refine h.on_builder rfl (fun _ => columns_upsert _ _ _ _) fun t ht =>
        (ht.upsert (f := id) (g := id) (v := now) (fun _ => rfl) hkey rfl
          fun _ _ hcells => hcells).congr fun k => ?_
      by_cases hk : k = pubkey
      · subst hk
        rw [AList.lookup_insert]
        cases hold : r.trustedBuilder.lookup k with
        | none => exact AList.lookup_insert _
        | some addedAt => exact hold
      · rw [AList.lookup_insert_ne hk]
        cases r.trustedBuilder.lookup pubkey with
        | none => exact AList.lookup_insert_ne hk
        | some addedAt => rfl
  | removeTrustedBuilder pubkey =>
      exact h.on_builder rfl (fun _ => rfl) fun t ht => ht.delete pubkey
  | addEndpoint name url kind =>
      let cells : List (String × Value) := [("url", .text url), ("kind", .text kind)]
      have hname : rowOf (("name", .text name) :: ("created_at", .int now) :: cells) "name" =
          .text name := rfl
      have hold (row : Row) (v : EndpointRow) (h : EndpointCells row v) :
          EndpointCells (write row cells) { url, kind, createdAt := v.createdAt } :=
        ⟨rfl, rfl, h.createdAt⟩
      refine h.on_endpoint rfl (fun _ => columns_upsert _ _ _ _) fun t ht =>
        (ht.upsert (f := (write · cells)) (v := { url, kind, createdAt := now })
          (g := fun row => { url, kind, createdAt := row.createdAt }) (fun _ => rfl) hname
          ⟨rfl, rfl, rfl⟩ hold).congr fun k => ?_
      cases r.endpoint.lookup name <;> rfl
  | removeEndpoint name =>
      exact h.on_endpoint rfl (fun _ => rfl) fun t ht => ht.delete name

/-! ## Opening -/

theorem Database.Table.opened (h : db.Table table P) (fails : String × String → Bool) :
    (db.opened fails).Table table P := by
  have hadded : ∀ a ∈ alters, a.2 ∈ columnsOf a.1 := by decide
  obtain ⟨t, hsheet, hall, ht⟩ := h
  refine ⟨t, ?_, hall, ht⟩
  rw [sheets_opened, hsheet, Option.some_or, Option.map_some]
  exact congrArg some (addColumns_of_subset fun c hc => hall c (hadded _ (mem_added.1 hc).1))

/-- The registry stays as it was. -/
theorem Holds.opened (h : Holds json db r) (fails : String × String → Bool) :
    Holds json (db.opened fails) r where
  artifact := h.artifact.opened fails
  trustedBuilder := h.trustedBuilder.opened fails
  app := h.app.opened fails
  event := h.event.opened fails
  endpoint := h.endpoint.opened fails
  deployHistory := h.deployHistory.opened fails
  eventSeq := (congrFun (sequence_opened db fails) _).trans h.eventSeq
  historySeq := (congrFun (sequence_opened db fails) _).trans h.historySeq

theorem table_fresh (fails : String × String → Bool) {e : String × List String} (he : e ∈ schema)
    (hP : P { columns := e.2 }) : (Database.fresh.opened fails).Table e.1 P := by
  have hlookup : ∀ e ∈ schema, schema.lookup e.1 = some e.2 := by decide
  have hadded : ∀ a ∈ alters, a.2 ∈ columnsOf a.1 := by decide
  have hcolumns : columnsOf e.1 = e.2 := congrArg (Option.getD · []) (hlookup e he)
  have hnone : Database.fresh.sheets e.1 = none := rfl
  refine ⟨{ columns := e.2 }, ?_, fun c hc => hcolumns ▸ hc, hP⟩
  rw [sheets_opened, hnone, hlookup e he, Option.none_or, Option.map_some, Option.map_some]
  exact congrArg some
    (addColumns_of_subset fun c hc => hcolumns ▸ hadded _ (mem_added.1 hc).1)

theorem holds_fresh (json : JsonText) (fails : String × String → Bool) :
    Holds json (Database.fresh.opened fails) {} where
  artifact := table_fresh fails (e := schema[0]) (by decide) (.empty _ _ _)
  trustedBuilder := table_fresh fails (e := schema[1]) (by decide) (.empty _ _ _)
  app := table_fresh fails (e := schema[2]) (by decide) (.empty _ _ _)
  event := table_fresh fails (e := schema[3]) (by decide) .nil
  endpoint := table_fresh fails (e := schema[4]) (by decide) (.empty _ _ _)
  deployHistory := table_fresh fails (e := schema[5]) (by decide) .nil
  eventSeq := congrFun (sequence_opened _ fails) _
  historySeq := congrFun (sequence_opened _ fails) _

end Sql

end Nockd
