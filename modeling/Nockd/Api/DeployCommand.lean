import Nockd.Api.ManifestDeploy
import Nockd.Config.IconFiles

/-!
# The deploy command

`nockd deploy` takes all of its configuration from a manifest, if it is given one, and from
its flags if not. It resolves the icon, builds and reads the bundle and signs it; the
request is the last thing that it makes. A deploy that fails before has sent nothing.
-/

namespace Nockd

namespace Api

open Config Store

/-- The arguments of `nockd deploy`. -/
structure DeployArgs where
  name : Option String := none
  manifest : Option String := none
  project : Option String := none
  binTarget : Option String := none
  bin : Option String := none
  jam : Option String := none
  endpoint : Option String := none
  webPort : Option UInt16 := none
  icon : Option String := none
  healthAddr : Option String := none
  statusCmd : Option String := none
  statusLabel : Option String := none
  restart : String := defaultRestart
  target : String
  attestation : Option String := none
  noAttest : Bool := false
  args : List String := []
deriving DecidableEq, Repr

/-- What a deploy goes by, wherever it comes from. -/
structure DeployConfig where
  name : Option String
  project : Option String
  binTarget : Option String
  bin : Option String
  jam : Option String
  endpoint : Option String
  port : Option UInt16
  icon : Option String
  healthAddr : Option String
  statusCmd : Option String
  statusLabel : Option String
  restart : String
  target : String
  args : List String
deriving DecidableEq, Repr

/-- A client with its builder key and its clock. -/
structure Workstation extends Client where
  /-- The path of the builder key, if `Paths::resolve` finds a root. -/
  builderKey : Except String String
  now : Int64

namespace Workstation

variable (crates : Crates) (json : JsonText) (m : Workstation)

def manifestConfig (d : DeploySection) : DeployConfig :=
  { name := some d.app, project := d.project, binTarget := d.binTarget, bin := d.bin
    jam := d.jam, endpoint := d.endpoint, port := d.port, icon := d.icon
    healthAddr := d.healthAddr, statusCmd := d.status.cmd, statusLabel := d.status.label
    restart := d.restart, target := d.target.getD m.defaultTarget, args := d.args }

/-- A manifest supplies all config; otherwise the flags do. -/
def config (args : DeployArgs) : Except String DeployConfig :=
  match args.manifest with
  | some manifest => (loadManifest crates m.files manifest).map m.manifestConfig
  | none => .ok
    { name := args.name, project := args.project, binTarget := args.binTarget, bin := args.bin
      jam := args.jam, endpoint := args.endpoint, port := args.webPort, icon := args.icon
      healthAddr := args.healthAddr, statusCmd := args.statusCmd
      statusLabel := args.statusLabel, restart := args.restart, target := args.target
      args := args.args }

/-- The directory of the manifest, or the current one. -/
def iconDir (args : DeployArgs) : List Char :=
  ((args.manifest.map m.manifestPath).bind fun path => parent path.toList).getD ['.']

def icon (args : DeployArgs) (c : DeployConfig) : Except String (Option String) :=
  match c.icon with
  | some spec => (resolveIcon crates m.files (m.iconDir args) spec).map some
  | none => .ok none

/-- The name, the paths of binary and kernel, and the provenance. -/
def bundle (c : DeployConfig) :
    Except String (String × String × Option String × Option String) :=
  match c.project with
  | some project =>
    (m.buildProject project c.binTarget).map fun built =>
      ((c.name.or c.binTarget).getD built.name, built.bin, some built.jam,
        some built.provenance)
  | none =>
    match c.name with
    | none => .error "app name required (or pass --project <dir>)"
    | some name =>
      match c.bin with
      | none => .error "--bin required when not using --project"
      | some bin => .ok (name, bin, c.jam, none)

/-- What the command uploads. -/
def collect (args : DeployArgs) : Except String Upload := do
  let c ← m.config crates args
  let icon ← m.icon crates args c
  let (name, bin, jam, provenance) ← m.bundle c
  let binBytes ← m.read "binary" bin
  let jamBytes ← m.readOption "kernel" jam
  pure {
    name
    target := c.target
    binBytes, jamBytes
    endpoint := c.endpoint
    restart := c.restart
    args := c.args
    healthAddr := c.healthAddr
    statusCmd := c.statusCmd
    statusLabel := c.statusLabel
    port := c.port
    manifestPath := args.manifest.map m.manifestPath
    icon, provenance }

/-- The text of an attestation file, if one is given. -/
def external (args : DeployArgs) : Except String (Option String) :=
  match args.attestation with
  | none => .ok none
  | some path =>
    match (m.files path.toList).bind fun b => String.fromUTF8? ⟨b.toArray⟩ with
    | some text => .ok (some text)
    | none => .error ("reading attestation " ++ path)

/-- The builder key is looked for only if the command is to sign. -/
def keyFile (args : DeployArgs) : Except String (Option Bytes) :=
  if args.attestation.isSome || args.noAttest then .ok none
  else m.builderKey.map fun path => m.files path.toList

/-- The request that the command makes in the end. -/
def deploy (args : DeployArgs) : Except String DeployRequest := do
  let u ← m.collect crates args
  let external ← m.external args
  let keyFile ← m.keyFile args
  let provenance := (u.provenance.bind json.parse).getD (.obj [])
  pure (clientRequest crates json m.now external args.noAttest keyFile u provenance.toValue)

/-- The bodies that the command posts. -/
def posts (args : DeployArgs) : List String :=
  match m.deploy crates json args with
  | .ok req => [json.print req.toJson]
  | .error _ => []

end Workstation

variable {crates : Crates} {json : JsonText} {m : Workstation} {args : DeployArgs}
  {c : DeployConfig} {u : Upload} {req : DeployRequest}

theorem config_manifest {manifest : String} (h : args.manifest = some manifest) :
    m.config crates args = (loadManifest crates m.files manifest).map m.manifestConfig := by
  unfold Workstation.config
  rw [h]

theorem icon_manifest {manifest : String} (h : args.manifest = some manifest)
    (d : DeploySection) : m.icon crates args (m.manifestConfig d) =
      manifestIcon crates m.files (m.manifestPath manifest) d.icon := by
  unfold Workstation.icon Workstation.iconDir
  rw [h]
  unfold Workstation.manifestConfig manifestIcon
  cases d.icon <;> rfl

theorem bundle_manifest (d : DeploySection) :
    m.bundle (m.manifestConfig d) = (m.artifact d).map fun x => (d.app, x) := by
  unfold Workstation.bundle Client.artifact Workstation.manifestConfig
  cases d.project with
  | some project =>
      dsimp only
      cases m.buildProject project d.binTarget <;> rfl
  | none =>
      dsimp only
      cases d.bin <;> rfl

/-- With a manifest the command collects what the manifest says, whatever the flags are. -/
theorem collect_manifest {manifest : String} (h : args.manifest = some manifest) :
    m.collect crates args = m.deployManifest crates manifest := by
  unfold Workstation.collect Client.deployManifest
  rw [config_manifest h]
  cases loadManifest crates m.files manifest with
  | error e => rfl
  | ok d =>
      change (m.icon crates args (m.manifestConfig d) >>= _) = (manifestIcon crates _ _ _ >>= _)
      rw [icon_manifest h]
      cases manifestIcon crates m.files (m.manifestPath manifest) d.icon with
      | error e => rfl
      | ok icon =>
          change (m.bundle (m.manifestConfig d) >>= _) = (m.artifact d >>= _)
          rw [bundle_manifest, h]
          cases m.artifact d <;> rfl

theorem collect_ok (h : m.collect crates args = .ok u) :
    ∃ c, m.config crates args = .ok c ∧ m.icon crates args c = .ok u.icon := by
  unfold Workstation.collect at h
  obtain ⟨c, hconfig, h⟩ := bind_eq_ok h
  obtain ⟨icon, hicon, h⟩ := bind_eq_ok h
  obtain ⟨⟨name, bin, jam, provenance⟩, -, h⟩ := bind_eq_ok h
  obtain ⟨binBytes, -, h⟩ := bind_eq_ok h
  obtain ⟨jamBytes, -, h⟩ := bind_eq_ok h
  cases h
  exact ⟨c, hconfig, hicon⟩

/-- The request carries the icon that the configuration names. -/
theorem deploy_icon (h : m.deploy crates json args = .ok req)
    (hconfig : m.config crates args = .ok c) : m.icon crates args c = .ok req.icon := by
  unfold Workstation.deploy at h
  obtain ⟨u, hcollect, h⟩ := bind_eq_ok h
  obtain ⟨external, -, h⟩ := bind_eq_ok h
  obtain ⟨keyFile, -, h⟩ := bind_eq_ok h
  cases h
  obtain ⟨c', hconfig', hicon⟩ := collect_ok hcollect
  rw [hconfig, Except.ok.injEq] at hconfig'
  subst hconfig'
  exact hicon

/-- If the icon cannot be resolved, the command fails with that error. -/
theorem deploy_refused {e : String} (hconfig : m.config crates args = .ok c)
    (hicon : m.icon crates args c = .error e) : m.deploy crates json args = .error e := by
  unfold Workstation.deploy Workstation.collect
  rw [hconfig]
  change ((m.icon crates args c >>= _) >>= _) = _
  rw [hicon]
  rfl

/-- A command that fails has posted nothing. -/
theorem posts_eq_nil {e : String} (h : m.deploy crates json args = .error e) :
    m.posts crates json args = [] := by
  unfold Workstation.posts
  rw [h]

end Api

end Nockd
