import Nockd.Api.Delivery
import Nockd.Api.Icons
import Nockd.Api.Rollback
import Nockd.Api.Success

/-!
# A deploy from a manifest, and later reloads

`nockd deploy -f` reads the manifest on the client and sends what it says as a request. A reload
reads the manifest again on the daemon's machine. As long as manifest and icon are the
same files there, it writes the configuration that the deploy has stored.
-/

namespace Nockd

namespace Registry

def AppUpsert.config (u : AppUpsert) : AppConfig :=
  { endpoint := u.endpoint, restartPolicy := u.restartPolicy, args := u.args
    adminAddr := u.adminAddr, statusCmd := u.statusCmd, statusLabel := u.statusLabel
    port := u.port, icon := u.icon }

def AppRecord.config (row : AppRecord) : AppConfig :=
  { endpoint := row.endpoint, restartPolicy := row.restartPolicy, args := row.args
    adminAddr := row.adminAddr, statusCmd := row.statusCmd, statusLabel := row.statusLabel
    port := row.port, icon := row.icon }

/-- The declarative columns of a row, as they are read back. -/
def AppRow.config (row : AppRow) : AppConfig :=
  { endpoint := row.endpoint, restartPolicy := row.restartPolicy, args := row.args
    adminAddr := row.adminAddr, statusCmd := row.statusCmd, statusLabel := row.statusLabel
    port := row.port, icon := row.icon }

end Registry

namespace Api

open Config Interleaving Registry Store Supervisor

/-! ## The client -/

/-- `BuiltArtifact`. -/
structure BuiltArtifact where
  name : String
  bin : String
  jam : String
  provenance : String
deriving DecidableEq, Repr

/-- The machine that `nockd deploy` runs on. -/
structure Client where
  files : List Char → Option Bytes
  /-- `std::fs::canonicalize`, as text. -/
  canonicalize : String → Option String
  /-- `buildkit::build_project`. -/
  buildProject : String → Option String → Except String BuiltArtifact
  /-- `NOCKD_DEFAULT_TARGET`. -/
  defaultTarget : String

namespace Client

/-- The path that is recorded for the manifest. -/
def manifestPath (client : Client) (manifest : String) : String :=
  (client.canonicalize manifest).getD manifest

def read (client : Client) (what path : String) : Except String Bytes :=
  match client.files path.toList with
  | some bytes => .ok bytes
  | none => .error ("reading " ++ what ++ " " ++ path)

def readOption (client : Client) (what : String) : Option String → Except String (Option Bytes)
  | some path => (client.read what path).map some
  | none => .ok none

/-- The paths of binary and kernel and the provenance, after a build if there is a project. -/
def artifact (client : Client) (d : DeploySection) :
    Except String (String × Option String × Option String) :=
  match d.project with
  | some project =>
    (client.buildProject project d.binTarget).map fun built =>
      (built.bin, some built.jam, some built.provenance)
  | none =>
    match d.bin with
    | some bin => .ok (bin, d.jam, none)
    | none => .error "--bin required when not using --project"

/-- What `nockd deploy -f` collects. -/
def deployManifest (crates : Crates) (client : Client) (manifest : String) :
    Except String Upload := do
  let path := client.manifestPath manifest
  let d ← loadManifest crates client.files manifest
  let icon ← manifestIcon crates client.files path d.icon
  let (bin, jam, provenance) ← client.artifact d
  let binBytes ← client.read "binary" bin
  let jamBytes ← client.readOption "kernel" jam
  pure {
    name := d.app
    target := d.target.getD client.defaultTarget
    binBytes, jamBytes
    endpoint := d.endpoint
    restart := d.restart
    args := d.args
    healthAddr := d.healthAddr
    statusCmd := d.status.cmd
    statusLabel := d.status.label
    port := d.port
    manifestPath := some path
    icon, provenance }

end Client

variable {paths : Paths} {crates : Crates} {json : JsonText} {client : Client}
  {manifest : String} {u : Upload} {o : Oracle} {w : World} {x : Response}

theorem bind_eq_ok {ε α β : Type} {a : Except ε α} {f : α → Except ε β} {b : β}
    (h : a >>= f = .ok b) : ∃ x, a = .ok x ∧ f x = .ok b := by
  cases a with
  | error e => cases h
  | ok x => exact ⟨x, rfl, h⟩

/-- The configuration that is sent is the one that the manifest says. -/
theorem deployManifest_ok (h : client.deployManifest crates manifest = .ok u) :
    ∃ d icon, loadManifest crates client.files manifest = .ok d ∧
      manifestIcon crates client.files (client.manifestPath manifest) d.icon = .ok icon ∧
      u.manifestPath = some (client.manifestPath manifest) ∧
      ∀ attestation hash, (upsertOf paths (uploadRequest crates u attestation) hash).config =
        configOf d icon := by
  unfold Client.deployManifest at h
  obtain ⟨d, hload, h⟩ := bind_eq_ok h
  obtain ⟨icon, hicon, h⟩ := bind_eq_ok h
  obtain ⟨⟨bin, jam, provenance⟩, -, h⟩ := bind_eq_ok h
  obtain ⟨binBytes, -, h⟩ := bind_eq_ok h
  obtain ⟨jamBytes, -, h⟩ := bind_eq_ok h
  cases h
  exact ⟨d, icon, hload, hicon, rfl, fun _ _ => rfl⟩

/-! ## What the two requests leave in the row -/

/-- The row after a reload. -/
def reloaded (c : AppConfig) (now : ℤ) (row : AppRecord) : AppRecord :=
  { row with
    endpoint := c.endpoint, restartPolicy := c.restartPolicy, args := c.args
    adminAddr := c.adminAddr, statusCmd := c.statusCmd, statusLabel := c.statusLabel
    port := c.port, icon := c.icon, desiredStatus := "running", updatedAt := now }

/-- A reload that succeeds applies the manifest that it has found. -/
theorem lookup_reload {name : String} (h : (serve paths crates o w (.reload name)).2 = .ok x) :
    ∃ app path manifest icon now, w.host.registry.getApp name = some app ∧
      app.manifestPath = some path ∧
      loadManifest crates (o.env 1).files path = .ok manifest ∧
      manifestIcon crates (o.env 2).files path manifest.icon = .ok icon ∧
      (serve paths crates o w (.reload name)).1.world.host.registry.app.lookup name =
        (w.host.registry.app.lookup name).map (reloaded (configOf manifest icon) now) := by
  obtain ⟨app, path, manifest, icon, happ, hpath, hload, hicon, hissued⟩ := serve_reload_ok h
  have hquiet := @serve_registry paths crates o w (.reload name)
  unfold Alone.issued at hissued
  generalize (serve paths crates o w (.reload name)).1.done = done at hissued hquiet
  simp only [reloadStatements, List.map_eq_cons_iff, List.map_eq_nil_iff] at hissued
  obtain ⟨⟨t₁, _⟩, _, rfl, rfl, ⟨t₂, _⟩, _, rfl, rfl, ⟨t₃, _⟩, _, rfl, rfl, rfl⟩ := hissued
  refine ⟨app, path, manifest, icon, t₂, happ, hpath, hload, hicon, ?_⟩
  rw [congr_of_quiet (·.app.lookup name) (fun _ => rfl) hquiet]
  simp only [execAll, List.foldl_cons, List.foldl_nil, Statement.exec, Registry.addEvent,
    Registry.setDesired, updateAppConfig, Table.lookup_modify, Option.map_map]
  rfl

/-- A deploy that succeeds stores the configuration of its request. -/
theorem getApp_deploy {req : DeployRequest} (h : (serve paths crates o w (.deploy req)).2 = .ok x) :
    ∃ hash stored, (serve paths crates o w (.deploy req)).1.world.host.registry.getApp req.name =
        some stored ∧
      stored.config = (upsertOf paths req hash).config ∧
      stored.manifestPath = req.manifestPath := by
  obtain ⟨jam, bin, isTrusted, -, -, hissued⟩ := serve_deploy_ok h
  have hquiet := @serve_registry paths crates o w (.deploy req)
  unfold Alone.issued at hissued
  generalize (serve paths crates o w (.deploy req)).1.done = done at hissued hquiet
  simp only [deployStatements, List.map_eq_cons_iff, List.map_eq_nil_iff] at hissued
  obtain ⟨⟨t₁, _⟩, _, rfl, rfl, ⟨t₂, _⟩, _, rfl, rfl, ⟨t₃, _⟩, _, rfl, rfl, ⟨t₄, _⟩, _, rfl, rfl,
    ⟨t₅, _⟩, _, rfl, rfl, rfl⟩ := hissued
  have hlookup := congr_of_quiet (·.app.lookup req.name) (fun _ => rfl) hquiet
  simp only [execAll, List.foldl_cons, List.foldl_nil, Statement.exec] at hlookup
  have hself : ∀ (r : Registry) (t : ℤ) (v : AppUpsert), ∃ row,
      (r.upsertApp t v).app.lookup v.name = some row ∧ row.config = v.config ∧
        row.manifestPath = v.manifestPath :=
    fun r t v => ⟨_, AList.lookup_insert _, rfl, rfl⟩
  obtain ⟨row, hrow, hconfig, hpath⟩ := hself
    ((w.host.registry.putArtifact t₁ _ req.provenance).setArtifactVerification _ _ _) t₃
    (upsertOf paths req (computeHashes crates.blake3 jam bin req.targetTriple).artifactHash)
  let r := (serve paths crates o w (.deploy req)).1.world.host.registry
  exact ⟨_, r.mapAppRow req.name row,
    congrArg (Option.map (r.mapAppRow req.name)) (hlookup.trans hrow), hconfig, hpath⟩

/-! ## The same files -/

/-- The file that an icon setting of the manifest names. -/
def iconFile (manifestPath icon : String) : List Char :=
  join ((parent manifestPath.toList).getD ['.']) (trim icon.toList)

/-- The daemon finds the manifest and the icon file it names as the client has found them. -/
structure Unchanged (crates : Crates) (client : Client) (manifest : String) (o : Oracle) :
    Prop where
  text : (o.env 1).files (client.manifestPath manifest).toList = client.files manifest.toList
  image : ∀ d, loadManifest crates client.files manifest = .ok d →
    ∀ icon ∈ d.icon, inlineIcon icon = false →
      (o.env 2).files (iconFile (client.manifestPath manifest) icon) =
        client.files (iconFile (client.manifestPath manifest) icon)

/-- No registry call fails. -/
structure Oracle.Smooth (o : Oracle) : Prop where
  fails : ∀ n op, o.fails n op = none
  queryErr : ∀ n, (o.env n).queryErr = false

theorem Oracle.Smooth.eq_served (h : o.Smooth) (r : Request) :
    o = Served.oracle { request := r, env := o.env } := by
  obtain ⟨env, fails⟩ := o
  have henv : env = fun n => { env n with queryErr := false } := by
    funext n
    rw [← h.queryErr n]
  have hfails : fails = fun _ _ => none := by
    funext n op
    exact h.fails n op
  rw [Served.oracle, Oracle.mk.injEq]
  exact ⟨henv, hfails⟩

theorem loadManifest_congr {files files' : List Char → Option Bytes} {path path' : String}
    {d : DeploySection} (hfiles : files' path'.toList = files path.toList)
    (h : loadManifest crates files path = .ok d) : loadManifest crates files' path' = .ok d := by
  unfold loadManifest at h ⊢
  rw [hfiles]
  cases htext : (files path.toList).bind fun b => String.fromUTF8? ⟨b.toArray⟩ with
  | none => simp [htext] at h
  | some text =>
      simp only [htext] at h ⊢
      cases hparse : crates.parseManifest text with
      | none => simp [hparse] at h
      | some d' =>
          simp only [hparse] at h ⊢
          exact h

theorem resolveIcon_congr {files files' : List Char → Option Bytes} {dir : List Char}
    {icon : String} (h : inlineIcon icon = false →
      files' (join dir (trim icon.toList)) = files (join dir (trim icon.toList))) :
    resolveIcon crates files' dir icon = resolveIcon crates files dir icon := by
  unfold resolveIcon
  unfold inlineIcon at h
  cases hinline : "data:".toList.isPrefixOf (trim icon.toList) with
  | true => simp only [hinline, if_true]
  | false => simp only [hinline, Bool.false_eq_true, if_false, h hinline]

/-- The daemon reads what the client has read. -/
theorem Unchanged.reads (h : Unchanged crates client manifest o) {d : DeploySection}
    (hload : loadManifest crates client.files manifest = .ok d) :
    loadManifest crates (o.env 1).files (client.manifestPath manifest) = .ok d ∧
      manifestIcon crates (o.env 2).files (client.manifestPath manifest) d.icon =
        manifestIcon crates client.files (client.manifestPath manifest) d.icon := by
  refine ⟨loadManifest_congr h.text hload, ?_⟩
  cases hicon : d.icon with
  | none => rfl
  | some icon =>
      exact congrArg (Except.map some) (resolveIcon_congr (h.image d hload icon hicon))

/-- A reload that finds the app, its manifest and its icon succeeds. -/
theorem serve_reload_smooth (hsmooth : o.Smooth) {name path : String} {app : AppRow}
    {d : DeploySection} {icon : Option String} (happ : w.host.registry.getApp name = some app)
    (hpath : app.manifestPath = some path)
    (hload : loadManifest crates (o.env 1).files path = .ok d)
    (hicon : manifestIcon crates (o.env 2).files path d.icon = .ok icon) :
    (serve paths crates o w (.reload name)).2 = .ok .ok := by
  rw [hsmooth.eq_served (.reload name)]
  unfold serve Request.handler reload
  rw [exec_appOr404]
  simp only [happ, hpath]
  rw [exec_must .files]
  have hfiles (s : Alone) (n : ℕ) (hn : s.calls = n) :
      (perform paths crates ((Served.oracle { request := .reload name, env := o.env }).env s.calls)
        s.world .files).2 = (o.env n).files := by
    rw [hn]
    rfl
  rw [hfiles _ 1 (answer_calls _ _ _)]
  simp only [hload]
  rw [exec_must .files, hfiles _ 2 (by rw [answer_calls, answer_calls])]
  simp only [hicon]
  rw [exec_must (.write _), exec_must (.write _), exec_must (.requestRestart _),
    exec_must (.write _)]
  exact (exec_tail _ _).1

theorem receive_sent {req req' : DeployRequest} (hkeeps : json.Keeps req.toJson)
    (h : receive json (json.print req.toJson) = .ok req') : req' = req := by
  unfold receive at h
  rw [hkeeps] at h
  split at h
  case isTrue => cases h
  case isFalse =>
    simp only [DeployRequest.ofJson?_toJson, Except.ok.injEq] at h
    exact h.symm

/-! ## Reload agrees with deploy -/

/-- A reload of the app brings back the configuration of the deploy, and keeps the rest. -/
theorem getApp_reload {d : DeploySection} {icon : Option String} {name : String} {row : AppRow}
    (hload : loadManifest crates client.files manifest = .ok d)
    (hicon : manifestIcon crates client.files (client.manifestPath manifest) d.icon = .ok icon)
    (hrow : w.host.registry.getApp name = some row)
    (hpath : row.manifestPath = some (client.manifestPath manifest))
    (hsame : Unchanged crates client manifest o)
    (h : (serve paths crates o w (.reload name)).2 = .ok x) :
    ∃ now row', (serve paths crates o w (.reload name)).1.world.host.registry.app.lookup name =
        (w.host.registry.app.lookup name).map (reloaded (configOf d icon) now) ∧
      (serve paths crates o w (.reload name)).1.world.host.registry.getApp name = some row' ∧
      row'.config = configOf d icon ∧ row'.artifactHash = row.artifactHash ∧
      row'.statePath = row.statePath ∧ row'.manifestPath = row.manifestPath ∧
      row'.createdAt = row.createdAt := by
  obtain ⟨app, path, d', icon', now, happ, hfound, hload', hicon', hlookup⟩ := lookup_reload h
  obtain ⟨hread, himage⟩ := hsame.reads hload
  rw [hrow, Option.some.injEq] at happ
  subst happ
  rw [hpath, Option.some.injEq] at hfound
  subst hfound
  rw [hread, Except.ok.injEq] at hload'
  subst hload'
  rw [himage, hicon, Except.ok.injEq] at hicon'
  subst hicon'
  obtain ⟨record, hrecord, rfl⟩ := Option.map_eq_some_iff.1 hrow
  rw [hrecord] at hlookup
  let r := (serve paths crates o w (.reload name)).1.world.host.registry
  refine ⟨now, r.mapAppRow name (reloaded (configOf d icon) now record), ?_,
    congrArg (Option.map (r.mapAppRow name)) hlookup, rfl, rfl, rfl, rfl, rfl⟩
  rw [hrecord]
  exact hlookup

/-- What `nockd deploy -f` has stored, every later reload with the same files stores again. -/
theorem reload_agrees {attestation : Option String} {req : DeployRequest}
    (hupload : client.deployManifest crates manifest = .ok u)
    (hkeeps : json.Keeps (uploadRequest crates u attestation).toJson)
    (hreceived : receive json (json.print (uploadRequest crates u attestation).toJson) = .ok req)
    (hdeploy : (serve paths crates o w (.deploy req)).2 = .ok x) :
    ∃ stored, (serve paths crates o w (.deploy req)).1.world.host.registry.getApp u.name =
        some stored ∧
      ∀ (w₁ : World) (row : AppRow), w₁.host.registry.getApp u.name = some row →
        row.manifestPath = stored.manifestPath →
        ∀ o₁, Unchanged crates client manifest o₁ →
          let served := serve paths crates o₁ w₁ (.reload u.name)
          (o₁.Smooth → served.2 = .ok .ok) ∧
          ∀ y, served.2 = .ok y →
            ∃ row₁, served.1.world.host.registry.getApp u.name = some row₁ ∧
              row₁.config = stored.config ∧ row₁.artifactHash = row.artifactHash ∧
              row₁.statePath = row.statePath ∧ row₁.manifestPath = row.manifestPath ∧
              row₁.createdAt = row.createdAt ∧
              ∀ o₂, Unchanged crates client manifest o₂ →
                let again := serve paths crates o₂ served.1.world (.reload u.name)
                (o₂.Smooth → again.2 = .ok .ok) ∧
                ∀ z, again.2 = .ok z → ∃ now,
                  again.1.world.host.registry.app.lookup u.name =
                    (served.1.world.host.registry.app.lookup u.name).map fun record =>
                      { record with updatedAt := now } := by
  obtain ⟨d, icon, hload, hicon, hmanifest, hconfig⟩ := @deployManifest_ok paths _ _ _ _ hupload
  obtain rfl := receive_sent hkeeps hreceived
  obtain ⟨hash, stored, hstored, hconfigured, hpath⟩ := getApp_deploy hdeploy
  have hpath : stored.manifestPath = some (client.manifestPath manifest) :=
    hpath.trans hmanifest
  refine ⟨stored, hstored, fun w₁ row hrow hsamePath o₁ hsame₁ => ⟨fun hsmooth => ?_, ?_⟩⟩
  · obtain ⟨hread, himage⟩ := hsame₁.reads hload
    exact serve_reload_smooth hsmooth hrow (hsamePath.trans hpath) hread (himage.trans hicon)
  intro y hreload
  obtain ⟨now₁, row₁, hlookup₁, hrow₁, hconfig₁, hhash, hstate, hkept, hcreated⟩ :=
    getApp_reload hload hicon hrow (hsamePath.trans hpath) hsame₁ hreload
  refine ⟨row₁, hrow₁, hconfig₁.trans ((hconfigured.trans (hconfig attestation hash)).symm), hhash,
    hstate, hkept, hcreated, fun o₂ hsame₂ => ⟨fun hsmooth => ?_, fun z hagain => ?_⟩⟩
  · obtain ⟨hread, himage⟩ := hsame₂.reads hload
    exact serve_reload_smooth hsmooth hrow₁ (hkept.trans (hsamePath.trans hpath)) hread
      (himage.trans hicon)
  · obtain ⟨now₂, row₂, hlookup₂, -⟩ := getApp_reload hload hicon hrow₁
      (hkept.trans (hsamePath.trans hpath)) hsame₂ hagain
    refine ⟨now₂, ?_⟩
    rw [hlookup₂, hlookup₁, Option.map_map, Option.map_map]
    rfl

section Iconed

def iconedText : String :=
  "[deploy]\napp = \"a\"\nbin = \"/b\"\nicon = \"i.png\"\nport = 80\nargs = [\"-v\"]\n"

def iconedSection : DeploySection :=
  { app := "a", bin := some "/b", icon := some "i.png", port := some 80, args := ["-v"] }

/-- Crates that know this manifest. -/
def iconedCrates : Crates :=
  { Crates.plainCrates [] [] with
    parseManifest := fun text => if text = iconedText then some iconedSection else none }

/-- The manifest, and a binary and an icon that are empty. -/
def iconedFiles (path : List Char) : Option Bytes :=
  if path = "nockd.toml".toList ∨ path = "/m/nockd.toml".toList then some (asBytes iconedText)
  else if path = "/b".toList ∨ path = "/m/i.png".toList then some []
  else none

def iconedClient : Client where
  files := iconedFiles
  canonicalize _ := some "/m/nockd.toml"
  buildProject _ _ := .error "no such project"
  defaultTarget := "t"

def iconedUpload : Upload where
  name := "a"
  target := "t"
  binBytes := []
  args := ["-v"]
  port := some 80
  manifestPath := some "/m/nockd.toml"
  icon := some "data:image/png;base64,"

def iconedRequest : DeployRequest := uploadRequest iconedCrates iconedUpload none

def iconedJson : JsonText := Crates.plainText [iconedRequest.toJson]

def iconedOracle : Oracle where
  env _ := { files := iconedFiles }

def iconedServed : Alone × Except ApiError Response :=
  serve (Paths.ofRoot "/r") iconedCrates iconedOracle {} (.deploy iconedRequest)

/-- After the deploy the columns have been overwritten. -/
def iconedLater : World :=
  iconedServed.1.world.mapRegistry fun r => r.updateAppConfig 5 "a"
    { endpoint := some "e", restartPolicy := "never", args := [], adminAddr := none
      statusCmd := none, statusLabel := none, port := none, icon := none }

theorem iconed_unchanged : Unchanged iconedCrates iconedClient "nockd.toml" iconedOracle where
  text := by decide +kernel
  image _ _ _ _ _ := rfl

theorem reload_agrees_iconed :
    ∃ stored row₁,
      iconedServed.1.world.host.registry.getApp "a" = some stored ∧
      (serve (Paths.ofRoot "/r") iconedCrates iconedOracle iconedLater
        (.reload "a")).1.world.host.registry.getApp "a" = some row₁ ∧
      row₁.config = stored.config := by
  have hupload : iconedClient.deployManifest iconedCrates "nockd.toml" = .ok iconedUpload := by
    decide +kernel
  have hkeeps : iconedJson.Keeps iconedRequest.toJson :=
    Crates.plainText_keeps List.mem_cons_self fun k hk _ => List.mem_singleton.1 hk
  have hreceived : receive iconedJson (iconedJson.print iconedRequest.toJson) =
      .ok iconedRequest :=
    receive_print hkeeps (by decide +kernel)
  have hdeploy : ∃ x, iconedServed.2 = .ok x := by
    have hsome : iconedServed.2.toOption.isSome = true := by decide +kernel
    cases hserved : iconedServed.2 with
    | error e =>
        rw [hserved] at hsome
        cases hsome
    | ok x => exact ⟨x, rfl⟩
  obtain ⟨x, hdeploy⟩ := hdeploy
  obtain ⟨stored, hstored, hreload⟩ :=
    reload_agrees hupload hkeeps hreceived hdeploy
  have hlater : (iconedLater.host.registry.getApp "a").map (·.manifestPath) =
      (iconedServed.1.world.host.registry.getApp "a").map (·.manifestPath) := by
    decide +kernel
  have hstored : iconedServed.1.world.host.registry.getApp "a" = some stored := hstored
  rw [hstored] at hlater
  obtain ⟨row, hrow, hpath⟩ := Option.map_eq_some_iff.1 hlater
  obtain ⟨hok, hrows⟩ := hreload iconedLater row hrow hpath iconedOracle iconed_unchanged
  obtain ⟨row₁, hrow₁, hconfig, -⟩ := hrows .ok (hok ⟨fun _ _ => rfl, fun _ => rfl⟩)
  exact ⟨stored, row₁, hstored, hrow₁, hconfig⟩

end Iconed

end Api

end Nockd
