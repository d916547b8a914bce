import Nockd.Crates.Plain
import Nockd.Registry.SqlRefines

/-!
# The queries on the database

Whatever was written into a file, by however many daemons in turn, its queries return what
the registry has after the same statements.
-/

namespace Nockd

namespace Sql

open Registry Sheet Store

variable {json : JsonText} {db : Database} {r : Registry} {table : String}
  {P : Sheet String Value → Prop}

/-! ## Queries -/

@[simp] theorem asOption_opt (s : Option String) : (opt s).asOption Value.asText = some s := by
  cases s <;> rfl

@[simp] theorem asOption_port (p : Option UInt16) :
    (Sql.port p).asOption Value.asPort = some p := by
  cases p with
  | none => rfl
  | some n =>
      have hrange : (0 : ℤ) ≤ n.toNat ∧ (n.toNat : ℤ) < 2 ^ 16 :=
        ⟨Int.natCast_nonneg _, by exact_mod_cast n.toNat_lt⟩
      have hread : Value.asPort (.int n.toNat) = some n := by
        rw [Value.asPort, if_pos hrange, Int.toNat_natCast, UInt16.ofNat_toNat]
      simp [Sql.port, Value.asOption, hread]

theorem kernelHash_eq {a : Option Row} {b : Option ArtifactRow}
    (h : Option.Rel ArtifactCells a b) :
    Value.asOption Value.asText ((a.map fun row : Row => row "kernel_hash").getD .null) =
      some (b.map (·.kernelHash)) := by
  cases h with
  | some hcells =>
      rw [Option.map_some, Option.getD_some, hcells.kernelHash]
      rfl
  | none => rfl

theorem verifiedStatus_eq {a : Option Row} {b : Option ArtifactRow}
    (h : Option.Rel ArtifactCells a b) :
    Value.asOption Value.asText ((a.map fun row : Row => row "verified_status").getD .null) =
      some (b.bind (·.verifiedStatus)) := by
  cases h with
  | some hcells =>
      rw [Option.map_some, Option.getD_some, hcells.verifiedStatus, asOption_opt]
      rfl
  | none => rfl

theorem select_table (h : db.Table table P) (columns : List String)
    (hcolumns : columns.all (columnsOf table).contains) :
    ∃ t, db.select table columns = some t ∧ P t := by
  obtain ⟨t, hsheet, hall, ht⟩ := h
  have hthere : ∀ c ∈ columns, c ∈ t.columns := fun c hc =>
    hall c (by simpa using List.all_eq_true.1 hcolumns c hc)
  refine ⟨t, ?_, ht⟩
  unfold Database.select
  rw [hsheet, Option.filter_some, if_pos (decide_eq_true hthere)]

theorem mapAppRow_eq {row : Row} {record : AppRecord} {name : String} {artifact : Option Row}
    (hname : row "name" = .text name) (h : AppCells json row record)
    (hartifact : Option.Rel ArtifactCells artifact (r.artifact.lookup record.artifactHash)) :
    mapAppRow json row artifact = some (r.mapAppRow name record) := by
  obtain ⟨text, htext, hargs⟩ := h.args
  simp [mapAppRow, kernelHash_eq hartifact, verifiedStatus_eq hartifact, hname, htext, hargs,
    h.artifactHash, h.endpoint, h.restartPolicy, h.statePath, h.desiredStatus, h.createdAt,
    h.updatedAt, h.adminAddr, h.statusCmd, h.statusLabel, h.port, h.manifestPath, h.icon,
    Value.asText, Value.asInt, Registry.mapAppRow]

theorem getApp_eq (h : Holds json db r) (name : String) :
    db.getApp json name = some (r.getApp name) := by
  obtain ⟨app, happ, hrows⟩ := select_table h.app appColumns rfl
  obtain ⟨artifact, hartifact, hhashes⟩ := select_table h.artifact artifactColumns rfl
  have hread := Related.bind_eq_map (g := r.mapAppRow name)
    (f := fun a => mapAppRow json a (artifact.lookup "hash" (a "artifact_hash")))
    (hrows.rows name) fun row hrow record hcells =>
      mapAppRow_eq (lookup_key hrow) hcells (hcells.artifactHash ▸ hhashes.rows _)
  unfold Database.getApp
  rw [happ, hartifact]
  exact congrArg some hread

theorem getEndpoint_eq (h : Holds json db r) (name : String) :
    db.getEndpoint name = some (r.getEndpoint name) := by
  obtain ⟨t, hselect, hrows⟩ :=
    select_table h.endpoint ["name", "url", "kind", "created_at"] rfl
  have hread := Related.bind_eq_map (f := mapEndpointRow) (g := id) (hrows.rows name)
      fun row _ v hcells => by
    simp [mapEndpointRow, hcells.url, hcells.kind, hcells.createdAt, Value.asText, Value.asInt]
  unfold Database.getEndpoint
  rw [hselect]
  exact congrArg some (hread.trans (congrFun Option.map_id _))

theorem isTrustedBuilder_eq (h : Holds json db r) (pubkey : String) :
    db.isTrustedBuilder pubkey = r.isTrustedBuilder pubkey := by
  obtain ⟨t, hselect, hrows⟩ := select_table h.trustedBuilder ["pubkey"] rfl
  unfold Database.isTrustedBuilder Registry.isTrustedBuilder
  rw [hselect, Option.bind_some]
  exact Related.isSome_eq (hrows.rows pubkey)

theorem previousArtifact_eq (h : Holds json db r) (name current : String) :
    db.previousArtifact name current = r.previousArtifact name current := by
  obtain ⟨t, hselect, hrows⟩ :=
    select_table h.deployHistory ["id", "app_name", "artifact_hash"] rfl
  have hrel := Related.find? (p := fun row => row "app_name" = .text name ∧
      row "artifact_hash" ≠ .null ∧ row "artifact_hash" ≠ .text current)
    (q := fun h => h.appName = name ∧ h.artifactHash ≠ current)
    (List.forall₂_reverse_iff.2 hrows) fun row entry hcells => by
      rw [hcells.appName, hcells.artifactHash]
      simp
  unfold Database.previousArtifact Registry.previousArtifact
  rw [hselect, Option.bind_some]
  exact Related.bind_eq_map hrel fun row _ entry hcells => by rw [hcells.artifactHash]; rfl

/-! ## Ordered rows -/

theorem rel_limited {α β : Type} {R : α → β → Prop} {xs : List α} {ys : List β}
    (limit : ℤ) (h : List.Forall₂ R xs ys) :
    List.Forall₂ R (limited limit xs) (limited limit ys) := by
  unfold limited
  split
  · exact h
  · exact List.forall₂_take _ h

theorem mapEventRow_eq {row : Row} {event : EventRow} (h : EventCells row event) :
    mapEventRow row = some event := by
  simp [mapEventRow, h.id, h.ts, h.appName, h.kind, h.detail, Value.asText, Value.asInt]

theorem idOf_eq {row : Row} {event : EventRow} (h : EventCells row event) :
    idOf row = event.id := by
  unfold idOf
  rw [h.id]
  rfl

theorem listEvents_eq (h : Holds json db r) (limit : ℤ) :
    db.listEvents limit = some (r.listEvents limit) := by
  obtain ⟨t, hselect, hrows⟩ := select_table h.event eventColumns rfl
  have hsorted := Related.insertionSort (p := fun a b => idOf b ≤ idOf a)
    (q := fun e e' => e'.id ≤ e.id)
    (fun a e a' e' hcells hcells' => by rw [idOf_eq hcells, idOf_eq hcells', Int.ofNat_le]) hrows
  unfold Database.listEvents Registry.listEvents
  rw [hselect]
  exact Related.mapM_eq (rel_limited limit hsorted) fun _ _ => mapEventRow_eq

theorem eventsSince_eq (h : Holds json db r) (after limit : ℤ) :
    db.eventsSince after limit = some (r.eventsSince after limit) := by
  obtain ⟨t, hselect, hrows⟩ := select_table h.event eventColumns rfl
  have hfilter := List.rel_filter (p := fun a => after < idOf a) (q := fun e => after < e.id)
    (fun a e hcells => by beta_reduce; rw [idOf_eq hcells]) hrows
  have hsorted := Related.insertionSort (p := fun a b => idOf a ≤ idOf b)
    (q := fun e e' => e.id ≤ e'.id)
    (fun a e a' e' hcells hcells' => by rw [idOf_eq hcells, idOf_eq hcells', Int.ofNat_le]) hfilter
  unfold Database.eventsSince Registry.eventsSince
  rw [hselect]
  exact Related.mapM_eq (rel_limited limit hsorted) fun _ _ => mapEventRow_eq

/-! ## The list of apps -/

theorem nameOf_spec {cells : Row → AppRecord → Prop} {t : Sheet String Value}
    {m : Nockd.Table AppRecord} (h : Represents "name" cells t m) {row : Row}
    (hrow : row ∈ t.rows) :
    row "name" = .text (nameOf row) := by
  obtain ⟨k, hk⟩ := h.texts row hrow
  unfold nameOf
  rw [hk]
  rfl

/-- The names in the rows, in order, are the keys in order. -/
theorem names_sorted {cells : Row → AppRecord → Prop} {t : Sheet String Value}
    {m : Nockd.Table AppRecord} (h : Represents "name" cells t m) :
    (t.rows.insertionSort fun a b => nameOf a ≤ nameOf b).map nameOf =
      m.keys.insertionSort (· ≤ ·) := by
  have hname : ∀ row ∈ t.rows, row "name" = .text (nameOf row) := fun _ => nameOf_spec h
  have hnodup : (t.rows.map nameOf).Nodup := by
    refine List.pairwise_map.2 (h.keyed.imp_of_mem fun ha hb hne heq => hne ?_)
    rw [hname _ ha, hname _ hb, heq]
  have hmem (k : String) : k ∈ t.rows.map nameOf ↔ k ∈ m.keys := by
    rw [← AList.mem_keys, ← AList.lookup_isSome, ← Related.isSome_eq (h.rows k),
      Option.isSome_iff_ne_none, Ne, lookup_eq_none, List.mem_map]
    push Not
    constructor
    · rintro ⟨row, hrow, rfl⟩
      exact ⟨row, hrow, hname row hrow⟩
    · rintro ⟨row, hrow, hk⟩
      exact ⟨row, hrow, Value.text.inj ((hname row hrow).symm.trans hk)⟩
  have hperm : (t.rows.map nameOf).Perm m.keys :=
    (List.perm_ext_iff_of_nodup hnodup m.keys_nodup).2 hmem
  have hsorted : ((t.rows.insertionSort fun a b => nameOf a ≤ nameOf b).map nameOf).Pairwise
      (· ≤ ·) := List.pairwise_map.2 (List.pairwise_insertionSort _ _)
  refine List.Perm.eq_of_pairwise (fun _ _ _ _ hle hle' => le_antisymm hle hle')
    hsorted (List.pairwise_insertionSort _ _) ?_
  exact ((List.perm_insertionSort _ _).map nameOf).trans
    (hperm.trans (List.perm_insertionSort _ _).symm)

theorem listApps_eq (h : Holds json db r) : db.listApps json = some r.listApps := by
  obtain ⟨app, happ, hrows⟩ := select_table h.app appColumns rfl
  obtain ⟨artifact, hartifact, hhashes⟩ := select_table h.artifact artifactColumns rfl
  unfold Database.listApps Registry.listApps
  rw [happ, hartifact, ← names_sorted hrows]
  refine Related.mapM_eq_filterMap fun row hrow => ?_
  have hmem : row ∈ app.rows := (List.mem_insertionSort _).1 hrow
  have hname := nameOf_spec hrows hmem
  have hrel := hrows.rows (nameOf row)
  rw [← hname, hrows.keyed.lookup_of_mem hmem] at hrel
  obtain ⟨record, hrecord, hcells⟩ := Related.eq_some hrel
  have hread := mapAppRow_eq hname hcells (hcells.artifactHash ▸ hhashes.rows record.artifactHash)
  rw [hread]
  exact ⟨(congrArg (Option.map _) hrecord).symm, rfl⟩

/-! ## Runs -/

/-- What happens to the file: a daemon opens it, or issues a statement. -/
inductive Use where
  | opens (fails : String × String → Bool)
  | writes (now : ℤ) (st : Statement)

def Use.exec (json : JsonText) (db : Database) : Use → Option Database
  | opens fails => some (db.opened fails)
  | writes now st => db.exec json now st

def Use.effect (r : Registry) : Use → Registry
  | opens _ => r
  | writes now st => st.exec now r

def Use.Kept (json : JsonText) : Use → Prop
  | opens _ => True
  | writes _ st => Sql.Kept json st

theorem use_holds (h : Holds json db r) {u : Use} (hu : u.Kept json) :
    ∃ db', u.exec json db = some db' ∧ Holds json db' (u.effect r) := by
  cases u with
  | opens fails => exact ⟨_, rfl, h.opened fails⟩
  | writes now st => exact exec_holds h hu now

theorem uses_hold (h : Holds json db r) {uses : List Use} (huses : ∀ u ∈ uses, u.Kept json) :
    ∃ db', uses.foldlM (Use.exec json) db = some db' ∧
      Holds json db' (uses.foldl Use.effect r) := by
  induction uses generalizing db r with
  | nil => exact ⟨db, rfl, h⟩
  | cons u uses ih =>
      obtain ⟨db', hexec, hdb'⟩ := use_holds h (huses u List.mem_cons_self)
      obtain ⟨db'', hrest, hdb''⟩ := ih hdb' fun u' hu' => huses u' (List.mem_cons_of_mem u hu')
      refine ⟨db'', ?_, hdb''⟩
      rw [List.foldlM_cons, hexec]
      exact hrest

/-- The queries return what the registry has. -/
structure Reads (json : JsonText) (db : Database) (r : Registry) : Prop where
  getApp : ∀ name, db.getApp json name = some (r.getApp name)
  listApps : db.listApps json = some r.listApps
  previousArtifact : ∀ name current,
    db.previousArtifact name current = r.previousArtifact name current
  isTrustedBuilder : ∀ pubkey, db.isTrustedBuilder pubkey = r.isTrustedBuilder pubkey
  listEvents : ∀ limit, db.listEvents limit = some (r.listEvents limit)
  eventsSince : ∀ after limit, db.eventsSince after limit = some (r.eventsSince after limit)
  getEndpoint : ∀ name, db.getEndpoint name = some (r.getEndpoint name)

theorem Holds.reads (h : Holds json db r) : Reads json db r where
  getApp := getApp_eq h
  listApps := listApps_eq h
  previousArtifact := previousArtifact_eq h
  isTrustedBuilder := isTrustedBuilder_eq h
  listEvents := listEvents_eq h
  eventsSince := eventsSince_eq h
  getEndpoint := getEndpoint_eq h

/-- In a new file no statement fails, in whatever order they are issued and however often the file
is opened in between, and the queries return what the registry has after the same
statements. -/
theorem uses_read (fails : String × String → Bool) {uses : List Use}
    (huses : ∀ u ∈ uses, u.Kept json) :
    ∃ db, uses.foldlM (Use.exec json) (Database.fresh.opened fails) = some db ∧
      Reads json db (uses.foldl Use.effect {}) := by
  obtain ⟨db, hexec, hdb⟩ := uses_hold (holds_fresh json fails) huses
  exact ⟨db, hexec, hdb.reads⟩

/-- An app with one argument, which is verified and then disabled by a later daemon. -/
def verboseApp : AppUpsert :=
  { name := "pebble", artifactHash := "aa", endpoint := none, restartPolicy := "always"
    args := ["--verbose"], statePath := "pebble", adminAddr := none, statusCmd := none
    statusLabel := none, port := some 8080, manifestPath := none, icon := none }

def verboseUses : List Use :=
  [.writes 1 (.putArtifact ⟨"aa", "bb", "x86_64-linux"⟩ none),
    .writes 2 (.upsertApp verboseApp), .opens fun _ => false,
    .writes 3 (.setArtifactVerification "aa" "verified" (some "cc")),
    .writes 4 (.setDesired "pebble" "stopped")]

theorem uses_read_verbose :
    ∃ db, verboseUses.foldlM (Use.exec (Crates.plainText [.arr [.str "--verbose"]]))
        (Database.fresh.opened fun _ => false) = some db ∧
      Reads (Crates.plainText [.arr [.str "--verbose"]]) db (verboseUses.foldl Use.effect {}) := by
  refine uses_read (fun _ => false) fun u hu => ?_
  have hargs : (Crates.plainText [.arr [.str "--verbose"]]).Keeps (.arr [.str "--verbose"]) :=
    Crates.plainText_keeps List.mem_cons_self fun k hk _ => List.mem_singleton.1 hk
  simp only [verboseUses, List.mem_cons, List.not_mem_nil, or_false] at hu
  rcases hu with rfl | rfl | rfl | rfl | rfl
  · trivial
  · exact hargs
  · trivial
  · trivial
  · trivial

end Sql

end Nockd
