import Nockd.Api.Success
import Nockd.Plane.Plane

/-!
# The registry keeps the control plane

The plane is read off the tables: an app from its row and the entries of the one deploy history
that are its own, an artifact from its row. Served one after another, requests move
it as the plane says and get the plane's answers.
-/

namespace Nockd

namespace Registry

open Api Config Plane Store

/-- The declared columns of a row. -/
def AppRecord.setup (row : AppRecord) : Setup where
  endpoint := row.endpoint
  restartPolicy := row.restartPolicy
  args := row.args
  statePath := row.statePath
  adminAddr := row.adminAddr
  statusCmd := row.statusCmd
  statusLabel := row.statusLabel
  port := row.port
  manifestPath := row.manifestPath
  icon := row.icon

/-- The app of a row with this trail. -/
def appOf (trail : List String) (row : AppRecord) : App where
  setup := row.setup
  wanted := row.desiredStatus
  current := row.artifactHash
  earlier := trail.tail

def buildOf (row : ArtifactRow) : Build where
  kernelHash := row.kernelHash
  targetTriple := row.targetTriple
  provenance := row.provenance
  verdict := row.verifiedStatus
  builder := row.builder

def plane (r : Registry) : Plane where
  apps name := (r.app.lookup name).map (appOf (r.trail name))
  builds hash := (r.artifact.lookup hash).map buildOf
  trusted := {pubkey | r.isTrustedBuilder pubkey = true}
  endpoints name := (r.endpoint.lookup name).map fun row => (row.url, row.kind)

variable {r r' : Registry} {name : String}

theorem plane_of_quiet (h : r'.quiet = r.quiet) : r'.plane = r.plane :=
  congr_of_quiet plane (fun _ => rfl) h

/-- The trail of a tracked app begins where the app is. -/
theorem Tracked.trail_eq (h : r.Tracked name) :
    r.trail name = (r.plane.apps name).elim [] App.trail := by
  unfold Tracked artifactOf at h
  simp only [plane]
  cases hrow : r.app.lookup name with
  | none =>
      rw [hrow, Option.map_none, eq_comm, List.head?_eq_none_iff] at h
      rw [h]
      rfl
  | some row =>
      rw [hrow, Option.map_some, eq_comm] at h
      obtain ⟨rest, hrest⟩ := List.head?_eq_some_iff.1 h
      rw [hrest]
      rfl

theorem plane_empty : ({} : Registry).plane = Plane.empty :=
  congrArg (fun trusted => Plane.mk _ _ trusted _)
    (Set.eq_empty_of_forall_notMem fun _ h => by cases h)

/-! ## What the statements do to the plane -/

theorem plane_stock (r : Registry) (now : ℤ) (record : ArtifactRecord)
    (provenance : Option String) (status : String) (builder : Option String) :
    ((r.putArtifact now record provenance).setArtifactVerification record.artifactHash status
        builder).plane =
      r.plane.stock record.artifactHash
        { kernelHash := record.kernelHash, targetTriple := record.targetTriple, provenance
          verdict := some status, builder } := by
  unfold Registry.plane Plane.stock
  refine congrArg (fun builds => Plane.mk _ builds _ _) (funext fun hash => ?_)
  rw [artifact_after_deploy]
  by_cases hhash : hash = record.artifactHash
  · subst hhash
    rw [if_pos rfl, Function.update_self]
    rfl
  · rw [if_neg hhash, Function.update_of_ne hhash]

/-- A statement that modifies a row without its artifact, and leaves the history. -/
theorem plane_modify {f : AppRecord → AppRecord} {g : App → App}
    (hfg : ∀ trail row, appOf trail (f row) = g (appOf trail row)) (r : Registry) (name : String) :
    ({ r with app := Table.modify r.app name f } : Registry).plane =
      { r.plane with
        apps := Function.update r.plane.apps name ((r.plane.apps name).map g) } := by
  unfold Registry.plane
  refine congrArg (fun apps => Plane.mk apps _ _ _) (funext fun other => ?_)
  by_cases hother : other = name
  · subst hother
    rw [Function.update_self, Table.lookup_modify, Option.map_map, Option.map_map]
    exact congrArg (fun h => Option.map h _) (funext (hfg _))
  · rw [Function.update_of_ne hother, Table.lookup_modify_ne _ _ hother]
    rfl

theorem plane_setDesired (r : Registry) (now : ℤ) (name status : String) :
    (r.setDesired now name status).plane = r.plane.setWanted name status :=
  plane_modify (fun _ _ => rfl) r name

theorem plane_recordDeploy_ne (r : Registry) (now : ℤ) {app other : String} (hash : String)
    (hne : other ≠ app) : (r.recordDeploy now app hash).trail other = r.trail other := by
  rw [trail_recordDeploy, if_neg (Ne.symm hne)]

/-- The row of an app is replaced, and its history has one more entry. -/
theorem plane_put {r r' : Registry} {name : String} {row : AppRecord} {trail : List String}
    (hrow : r'.app.lookup name = some row) (htrail : r'.trail name = trail)
    (hothers : ∀ other, other ≠ name → r'.app.lookup other = r.app.lookup other ∧
      r'.trail other = r.trail other)
    (hartifact : r'.artifact = r.artifact) (htrust : r'.trustedBuilder = r.trustedBuilder)
    (hendpoint : r'.endpoint = r.endpoint) :
    r'.plane = r.plane.put name (appOf trail row) := by
  unfold Registry.plane Plane.put isTrustedBuilder
  rw [hartifact, htrust, hendpoint]
  refine congrArg (fun apps => Plane.mk apps _ _ _) (funext fun other => ?_)
  by_cases hother : other = name
  · subst hother
    rw [Function.update_self, hrow, htrail]
    rfl
  · obtain ⟨hsame, hhistory⟩ := hothers other hother
    rw [Function.update_of_ne hother, hsame, hhistory]

theorem plane_deploy (h : ∀ name, r.Tracked name) (paths : Paths) (t₁ t₂ : ℤ) (req : DeployRequest)
    (hash : String) :
    (execAll [(t₁, .upsertApp (upsertOf paths req hash)), (t₂, .recordDeploy req.name hash)]
      r).plane = r.plane.deploy req.name (setupOf paths req) hash := by
  let r' := (r.upsertApp t₁ (upsertOf paths req hash)).recordDeploy t₂ req.name hash
  have htrail : r'.trail req.name = hash :: r.trail req.name :=
    (trail_recordDeploy _ _ _ _ _).trans (if_pos rfl)
  have hothers : ∀ other, other ≠ req.name → r'.app.lookup other = r.app.lookup other ∧
      r'.trail other = r.trail other := fun other hne =>
    ⟨AList.lookup_insert_ne hne, plane_recordDeploy_ne _ _ _ hne⟩
  have hput : r'.plane = r.plane.put req.name (appOf (hash :: r.trail req.name) _) :=
    plane_put (AList.lookup_insert _) htrail hothers rfl rfl rfl
  refine hput.trans ?_
  unfold Plane.deploy
  rw [← (h req.name).trail_eq]
  rfl

theorem plane_rollback (h : ∀ name, r.Tracked name) {row : AppRecord}
    (hrow : r.app.lookup name = some row) (t₁ t₂ t₃ : ℤ) (prev : String) :
    (execAll [(t₁, .setAppArtifact name prev), (t₂, .recordDeploy name prev),
        (t₃, .setDesired name "running")] r).plane =
      r.plane.put name ((appOf (r.trail name) row).moveTo prev) := by
  let r' := ((r.setAppArtifact t₁ name prev).recordDeploy t₂ name prev).setDesired t₃ name "running"
  have hlookup : r'.app.lookup name =
      some { row with artifactHash := prev, desiredStatus := "running", updatedAt := t₃ } := by
    change (Table.modify (Table.modify r.app name _) name _).lookup name = _
    rw [Table.lookup_modify, Table.lookup_modify, hrow]
    rfl
  have htrail : r'.trail name = prev :: r.trail name :=
    (trail_recordDeploy _ t₂ name prev name).trans (if_pos rfl)
  have hothers : ∀ other, other ≠ name → r'.app.lookup other = r.app.lookup other ∧
      r'.trail other = r.trail other := by
    refine fun other hne =>
      ⟨?_, plane_recordDeploy_ne (r.setAppArtifact t₁ name prev) t₂ prev hne⟩
    change (Table.modify (Table.modify r.app name _) name _).lookup other = _
    rw [Table.lookup_modify_ne _ _ hne, Table.lookup_modify_ne _ _ hne]
  have hput : r'.plane = r.plane.put name (appOf (prev :: r.trail name) _) :=
    plane_put hlookup htrail hothers rfl rfl rfl
  have happ : r.plane.apps name = some (appOf (r.trail name) row) := congrArg (Option.map _) hrow
  have heq : (appOf (r.trail name) row).trail = r.trail name := by
    rw [(h name).trail_eq, happ]
    rfl
  refine hput.trans ?_
  unfold App.moveTo
  rw [heq]
  rfl

theorem plane_reload (t₁ t₂ : ℤ) (c : AppConfig) {row : AppRecord}
    (hrow : r.app.lookup name = some row) :
    ((r.updateAppConfig t₁ name c).setDesired t₂ name "running").plane =
      r.plane.put name ((appOf (r.trail name) row).declare c) := by
  have hlookup : (((r.updateAppConfig t₁ name c).setDesired t₂ name "running").app.lookup name).map
      (appOf (r.trail name)) = some ((appOf (r.trail name) row).declare c) := by
    unfold setDesired updateAppConfig
    rw [Table.lookup_modify, Table.lookup_modify, hrow]
    rfl
  obtain ⟨row', hrow', happ⟩ := Option.map_eq_some_iff.1 hlookup
  rw [← happ]
  refine plane_put hrow' rfl (fun other hne => ⟨?_, rfl⟩) rfl rfl rfl
  unfold setDesired updateAppConfig
  rw [Table.lookup_modify_ne _ _ hne, Table.lookup_modify_ne _ _ hne]

theorem plane_trust (r : Registry) (now : ℤ) (pubkey : String) :
    (r.addTrustedBuilder now pubkey).plane = r.plane.trust pubkey := by
  have hset : {key | (r.addTrustedBuilder now pubkey).isTrustedBuilder key = true} =
      insert pubkey {key | r.isTrustedBuilder key = true} := by
    ext key
    simp only [Set.mem_ofPred_eq, Set.mem_insert_iff, isTrustedBuilder, addTrustedBuilder]
    cases hlookup : r.trustedBuilder.lookup pubkey with
    | some t =>
        refine ⟨Or.inr, fun h => h.elim (fun heq => ?_) id⟩
        rw [heq, hlookup]
        rfl
    | none =>
        by_cases hkey : key = pubkey
        · subst hkey
          simp
        · simp [AList.lookup_insert_ne hkey, hkey]
  have happ : (r.addTrustedBuilder now pubkey).plane =
      { r.plane with
        trusted := {key | (r.addTrustedBuilder now pubkey).isTrustedBuilder key = true} } := by
    unfold addTrustedBuilder
    split <;> rfl
  rw [happ, hset]
  rfl

theorem plane_distrust (r : Registry) (pubkey : String) :
    (r.removeTrustedBuilder pubkey).plane = r.plane.distrust pubkey := by
  refine congrArg (fun trusted => Plane.mk r.plane.apps r.plane.builds trusted r.plane.endpoints)
    (Set.ext fun key => ?_)
  simp only [Set.mem_ofPred_eq, Set.mem_sdiff, Set.mem_singleton_iff, isTrustedBuilder]
  by_cases hkey : key = pubkey
  · subst hkey
    simp [removeTrustedBuilder]
  · simp [removeTrustedBuilder, AList.lookup_erase_ne hkey, hkey, Registry.plane,
      isTrustedBuilder]

theorem plane_attach (r : Registry) (now : ℤ) (name url kind : String) :
    (r.addEndpoint now name url kind).plane = r.plane.attach name url kind := by
  refine congrArg (Plane.mk r.plane.apps r.plane.builds r.plane.trusted) (funext fun other => ?_)
  by_cases hother : other = name
  · subst hother
    rw [Function.update_self]
    simp [addEndpoint]
  · rw [Function.update_of_ne hother]
    simp [addEndpoint, AList.lookup_insert_ne hother, Registry.plane]

theorem plane_detach (r : Registry) (name : String) :
    (r.removeEndpoint name).plane = r.plane.detach name := by
  refine congrArg (Plane.mk r.plane.apps r.plane.builds r.plane.trusted) (funext fun other => ?_)
  by_cases hother : other = name
  · subst hother
    rw [Function.update_self]
    simp [removeEndpoint]
  · rw [Function.update_of_ne hother]
    simp [removeEndpoint, AList.lookup_erase_ne hother, Registry.plane]

end Registry

namespace Plane

open Api Config Interleaving Registry Store Supervisor

variable {paths : Paths} {crates : Crates} {x : Served} {w : World} {name : String}

/-- What a program makes of the plane, and its answer. -/
def outcome (paths : Paths) (crates : Crates) (x : Served) (s : Alone) (p : Thread) :
    Plane × Except ApiError Response :=
  let served := p.exec (x.oracle.answer paths crates) s
  (served.1.world.host.registry.plane, served.2)

theorem apps_plane (r : Registry) (name : String) :
    r.plane.apps name = (r.app.lookup name).map (appOf (r.trail name)) := rfl

/-- A request about an app is refused if the app is not there, and goes on with its row if it
is. -/
theorem outcome_appOr404 {s : Alone} {f : AppRow → Thread}
    {g : App → Plane × Except ApiError Response}
    (hfound : ∀ s' row, s'.world = s.world → s'.calls = s.calls + 1 →
      s.world.host.registry.app.lookup name = some row →
        outcome paths crates x s' (f (s.world.host.registry.mapAppRow name row)) =
          g (appOf (s.world.host.registry.trail name) row)) :
    outcome paths crates x s (appOr404 name >>= f) = s.world.host.registry.plane.onApp name g := by
  have hworld : (x.oracle.answer paths crates s (.getApp name)).1.world = s.world := answer_world
  unfold outcome onApp
  rw [apps_plane, exec_appOr404]
  cases hrow : s.world.host.registry.app.lookup name with
  | none =>
      have hnone : s.world.host.registry.getApp name = none := by
        rw [getApp, hrow]
        rfl
      rw [hnone]
      simp only [hworld, Option.map_none]
  | some row =>
      have hsome : s.world.host.registry.getApp name =
          some (s.world.host.registry.mapAppRow name row) := by
        rw [getApp, hrow]
        rfl
      rw [hsome]
      exact hfound _ row hworld (answer_calls _ _ _) hrow

variable {s : Alone} {out : Plane × Except ApiError Response}

theorem outcome_write {st : Statement} {f : Unit → Thread}
    (h : ∀ s', s'.world.host.registry = st.exec (x.env s.calls).now s.world.host.registry →
      outcome paths crates x s' (f ()) = out) :
    outcome paths crates x s (must (.write st) >>= f) = out := by
  unfold outcome at h ⊢
  rw [exec_must (.write st)]
  refine h _ ?_
  rw [answer_world]
  rfl

theorem outcome_requestRestart {name : String} {f : Unit → Thread}
    (h : ∀ s', s'.world.host.registry.quiet = s.world.host.registry.quiet →
      outcome paths crates x s' (f ()) = out) :
    outcome paths crates x s (must (.requestRestart name) >>= f) = out := by
  unfold outcome at h ⊢
  rw [exec_must (.requestRestart name)]
  exact h _ (answer_quiet s _ rfl)

/-- A manifest and the icon it names are read from the files of two moments. -/
theorem outcome_files {f : (List Char → Option Bytes) → Thread}
    (h : ∀ s', s'.world = s.world → s'.calls = s.calls + 1 →
      outcome paths crates x s' (f (x.env s.calls).files) = out) :
    outcome paths crates x s (must .files >>= f) = out := by
  unfold outcome at h ⊢
  rw [exec_must .files]
  exact h _ answer_world (answer_calls _ _ _)

theorem outcome_previousArtifact {name current : String} {f : Option String → Thread}
    (h : ∀ s', s'.world.host.registry = s.world.host.registry →
      outcome paths crates x s'
        (f (s.world.host.registry.previousArtifact name current)) = out) :
    outcome paths crates x s (must (.previousArtifact name current) >>= f) = out := by
  unfold outcome at h ⊢
  rw [exec_must (.previousArtifact _ _), perform_previousArtifact]
  exact h _ (congrArg (·.host.registry) answer_world)

theorem outcome_listApps {f : List AppRow → Thread}
    (h : ∀ s', s'.world.host.registry = s.world.host.registry →
      outcome paths crates x s' (f s.world.host.registry.listApps) = out) :
    outcome paths crates x s (must .listApps >>= f) = out := by
  unfold outcome at h ⊢
  rw [exec_must .listApps]
  exact h _ (congrArg (·.host.registry) answer_world)

/-- What a request does after its statements leaves the plane. -/
theorem outcome_tail (r : Response) :
    outcome paths crates x s (reconcile >>= fun _ => pure r) =
      (s.world.host.registry.plane, .ok r) := by
  have htail := @exec_tail crates paths x s r
  exact Prod.ext (plane_of_quiet htail.2) htail.1

/-! ## Requests about one app -/

theorem outcome_restart (s : Alone) (name : String) :
    outcome paths crates x s (restart name) =
      s.world.host.registry.plane.onApp name fun _ =>
        (s.world.host.registry.plane.setWanted name "running", .ok .ok) := by
  refine outcome_appOr404 fun s₀ row hworld _ _ => ?_
  refine outcome_write fun s₁ h₁ => outcome_requestRestart fun s₂ h₂ =>
    outcome_write fun s₃ h₃ => ?_
  have hplane : s₃.world.host.registry.plane =
      s.world.host.registry.plane.setWanted name "running" := by
    rw [h₃, ← plane_setDesired, ← hworld]
    exact (plane_of_quiet h₂).trans (congrArg plane h₁)
  rw [outcome_tail, hplane]

theorem outcome_setStatus (s : Alone) (name status : String) :
    outcome paths crates x s (setStatus name status) =
      s.world.host.registry.plane.onApp name fun _ =>
        (s.world.host.registry.plane.setWanted name status, .ok .ok) := by
  refine outcome_appOr404 fun s₀ row hworld _ _ => outcome_write fun s₁ h₁ => ?_
  have hplane : s₁.world.host.registry.plane =
      s.world.host.registry.plane.setWanted name status := by
    rw [h₁, ← hworld]
    exact plane_setDesired _ _ _ _
  rw [outcome_tail, hplane]

theorem outcome_reload (s : Alone) (hcalls : s.calls = 0) (name : String) :
    outcome paths crates x s (reload crates name) =
      s.world.host.registry.plane.onApp name fun a =>
        s.world.host.registry.plane.serveReload crates x name a := by
  refine outcome_appOr404 fun s₀ row hworld hcalls₀ hrow => ?_
  have hplane : s₀.world.host.registry.plane = s.world.host.registry.plane :=
    congrArg (·.host.registry.plane) hworld
  have hpath : (appOf (s.world.host.registry.trail name) row).setup.manifestPath =
      row.manifestPath := rfl
  unfold serveReload
  have hfrom : (s.world.host.registry.mapAppRow name row).manifestPath = row.manifestPath := rfl
  rw [hpath, hfrom]
  cases row.manifestPath with
  | none => exact congrArg (·, _) hplane
  | some path =>
      unfold declared
      refine outcome_files fun s₁ hworld₁ hcalls₁ => ?_
      have hfirst : s₀.calls = 1 := by rw [hcalls₀, hcalls]
      have hsecond : s₁.calls = 2 := by rw [hcalls₁, hfirst]
      rw [hfirst]
      cases hload : loadManifest crates (x.env 1).files path with
      | error e =>
          simp only [hload]
          exact congrArg (·, _) ((congrArg (·.host.registry.plane) hworld₁).trans hplane)
      | ok manifest =>
          simp only [hload]
          refine outcome_files fun s₂ hworld₂ _ => ?_
          rw [hsecond]
          have hregistry : s₂.world.host.registry = s.world.host.registry :=
            congrArg (·.host.registry) (hworld₂.trans (hworld₁.trans hworld))
          cases manifestIcon crates (x.env 2).files path manifest.icon with
          | error e =>
              simp only
              exact congrArg (·, _) (congrArg plane hregistry)
          | ok icon =>
              simp only
              refine outcome_write fun s₃ h₃ => outcome_write fun s₄ h₄ =>
                outcome_requestRestart fun s₅ h₅ => outcome_write fun s₆ h₆ => ?_
              have hput : s₆.world.host.registry.plane =
                  s.world.host.registry.plane.put name
                    ((appOf (s.world.host.registry.trail name) row).declare
                      (configOf manifest icon)) := by
                rw [← plane_reload _ _ _ hrow, h₆]
                refine (plane_of_quiet h₅).trans (congrArg plane ?_)
                rw [h₄, h₃, hregistry]
                rfl
              rw [outcome_tail, hput]

theorem outcome_rollback (h : ∀ name, s.world.host.registry.Tracked name) (name : String) :
    outcome paths crates x s (rollback name) =
      s.world.host.registry.plane.onApp name fun a =>
        match a.goBack with
        | none => (s.world.host.registry.plane, .error noPrevious)
        | some b => (s.world.host.registry.plane.put name b, .ok .ok) := by
  refine outcome_appOr404 fun s₀ row hworld _ hrow => ?_
  have hregistry : s₀.world.host.registry = s.world.host.registry :=
    congrArg (·.host.registry) hworld
  have htrail : s.world.host.registry.trail name =
      row.artifactHash :: (s.world.host.registry.trail name).tail := by
    have happ : s.world.host.registry.plane.apps name =
        some (appOf (s.world.host.registry.trail name) row) := congrArg (Option.map _) hrow
    have htracked := (h name).trail_eq
    rw [happ] at htracked
    exact htracked
  have hprevious : s.world.host.registry.previousArtifact name row.artifactHash =
      Trail.before row.artifactHash (s.world.host.registry.trail name).tail := by
    rw [previousArtifact_eq, htrail, Trail.before_cons_self]
    rfl
  refine outcome_previousArtifact fun s₁ h₁ => ?_
  have hcurrent : (s.world.host.registry.mapAppRow name row).artifactHash = row.artifactHash := rfl
  rw [hregistry, hcurrent, hprevious]
  unfold App.goBack
  have hearlier : Trail.before (appOf (s.world.host.registry.trail name) row).current
      (appOf (s.world.host.registry.trail name) row).earlier =
        Trail.before row.artifactHash (s.world.host.registry.trail name).tail := rfl
  rw [hearlier]
  cases Trail.before row.artifactHash (s.world.host.registry.trail name).tail with
  | none => exact congrArg (·, _) (congrArg plane (h₁.trans hregistry))
  | some prev =>
      refine outcome_write fun s₂ h₂ => outcome_write fun s₃ h₃ => outcome_write fun s₄ h₄ =>
        outcome_requestRestart fun s₅ h₅ => outcome_write fun s₆ h₆ => ?_
      have hput : s₆.world.host.registry.plane =
          s.world.host.registry.plane.put name
            ((appOf (s.world.host.registry.trail name) row).moveTo prev) := by
        rw [← plane_rollback h hrow, h₆]
        refine (plane_of_quiet h₅).trans (congrArg plane ?_)
        rw [h₄, h₃, h₂, h₁, hregistry]
        rfl
      rw [outcome_tail, hput]
      rfl

/-! ## Deploys -/

open Classical in
theorem outcome_deploy (h : ∀ name, w.host.registry.Tracked name) (req : DeployRequest) :
    outcome paths crates x { world := w } (Api.deploy paths crates req) =
      w.host.registry.plane.serveDeploy paths crates req := by
  unfold serveDeploy
  cases hbundle : decodeBundle crates req with
  | error e =>
      unfold outcome Api.deploy
      simp only [hbundle]
      rfl
  | ok bundle =>
      obtain ⟨jam, bin⟩ := bundle
      let record := computeHashes crates.blake3 jam bin req.targetTriple
      have htrusted : (fun key => decide (key ∈ w.host.registry.plane.trusted)) =
          w.host.registry.isTrustedBuilder := by
        funext key
        exact Bool.eq_iff_iff.2 decide_eq_true_iff
      obtain ⟨s, now, hserve, hregistry⟩ := serve_deploy_eq paths x w hbundle
      have hstock : s.world.host.registry.plane =
          w.host.registry.plane.stock record.artifactHash _ :=
        (congrArg plane hregistry).trans (plane_stock _ _ _ _ _ _)
      have htracked (name : String) : s.world.host.registry.Tracked name := by
        rw [hregistry]
        exact h name
      unfold Api.serve Request.handler at hserve
      unfold outcome
      rw [hserve]
      simp only
      rw [htrusted, ← hstock]
      cases hicon : checkIcon crates req.icon with
      | error m =>
          unfold deployApp
          rw [hicon]
          rfl
      | ok u =>
          obtain ⟨hok, t₁, t₂, hquiet⟩ := @exec_deployApp crates paths x s req record hicon
          exact Prod.ext ((plane_of_quiet hquiet).trans (plane_deploy htracked _ _ _ _ _)) hok

/-! ## Requests for the fleet -/

/-- The desired status of some apps is set, one after another. -/
theorem outcome_setEach {status : String} (apps : List AppRow) {f : Unit → Thread}
    (h : ∀ s', s'.world.host.registry.plane =
      (apps.map (·.name)).foldl (fun P name => P.setWanted name status)
        s.world.host.registry.plane → outcome paths crates x s' (f ()) = out) :
    outcome paths crates x s
      (Program.forEach apps (fun a => must (.write (.setDesired a.name status))) >>= f) = out := by
  induction apps generalizing s with
  | nil => exact h s rfl
  | cons a apps ih =>
      rw [Program.forEach, Program.bind_assoc]
      refine outcome_write fun s₁ h₁ => ih fun s₂ h₂ => h s₂ (h₂.trans ?_)
      rw [List.map_cons, List.foldl_cons, h₁]
      exact congrArg (List.foldl _ · _) (plane_setDesired _ _ _ _)

theorem mem_changed {r : Registry} {status name : String} :
    name ∈ (r.listApps.filter fun a => a.desiredStatus ≠ status).map (·.name) ↔
      ∃ a ∈ r.plane.apps name, a.wanted ≠ status := by
  rw [List.mem_map]
  constructor
  · rintro ⟨row, hmem, rfl⟩
    obtain ⟨hrow, hstatus⟩ := List.mem_filter.1 hmem
    obtain ⟨record, hrecord, hmap⟩ := Option.map_eq_some_iff.1 (mem_listApps.1 hrow)
    refine ⟨appOf (r.trail row.name) record, congrArg (Option.map _) hrecord, ?_⟩
    rw [← hmap] at hstatus
    exact of_decide_eq_true hstatus
  · rintro ⟨a, happ, hstatus⟩
    obtain ⟨record, hrecord, rfl⟩ := Option.map_eq_some_iff.1 happ
    have hrow : r.getApp name = some (r.mapAppRow name record) :=
      congrArg (Option.map (r.mapAppRow name)) hrecord
    exact ⟨r.mapAppRow name record, List.mem_filter.2 ⟨mem_listApps.2 hrow,
      decide_eq_true hstatus⟩, rfl⟩

theorem mem_names {r : Registry} {name : String} :
    name ∈ r.listApps.map (·.name) ↔ (r.plane.apps name).isSome = true := by
  rw [name_mem_listApps, apps_plane, Option.isSome_map, ← AList.mem_keys, AList.lookup_isSome]

theorem outcome_fleetSet (s : Alone) (status : String) :
    outcome paths crates x s (fleetSet status) =
      s.world.host.registry.plane.serveFleet status := by
  let r := s.world.host.registry
  let changed := r.listApps.filter fun a => a.desiredStatus ≠ status
  have hnames : (r.listApps.map (·.name)).Nodup := nodup_listApps r
  have hchanged : (changed.map (·.name)).Nodup :=
    (List.filter_sublist.map _).nodup hnames
  have hcount : {name | ∃ a ∈ r.plane.apps name, a.wanted ≠ status}.ncard = changed.length :=
    (ncard_names hchanged fun _ => mem_changed).trans (List.length_map _)
  have hall : {name | (r.plane.apps name).isSome = true}.ncard = r.listApps.length :=
    (ncard_names hnames fun _ => mem_names).trans (List.length_map _)
  unfold serveFleet
  rw [hcount, hall]
  refine outcome_listApps fun s₁ h₁ => outcome_setEach changed fun s₂ h₂ => ?_
  rw [outcome_tail, h₂, h₁, foldl_setWanted_eq_setAll fun _ => mem_changed]

/-! ## Background -/

variable (paths crates x) in
/-- The program returns, and leaves the registry but for its events. -/
def Idle {α : Type} (p : Proc α) : Prop :=
  ∀ s, ∃ s' a, p.exec (x.oracle.answer paths crates) s = (s', .ok a) ∧
    s'.world.host.registry.quiet = s.world.host.registry.quiet

theorem idle_pure {α : Type} (a : α) : Idle paths crates x (pure a) :=
  fun s => ⟨s, a, rfl, rfl⟩

theorem Idle.bind {α β : Type} {p : Proc α} {f : α → Proc β} (h : Idle paths crates x p)
    (hf : ∀ a, Idle paths crates x (f a)) : Idle paths crates x (p >>= f) := by
  intro s
  obtain ⟨s₁, a, hrun, hquiet⟩ := h s
  obtain ⟨s₂, b, hrun', hquiet'⟩ := hf a s₁
  refine ⟨s₂, b, ?_, hquiet'.trans hquiet⟩
  rw [Program.exec_bind, hrun]
  exact hrun'

theorem idle_must {op : Call} (h : op.statement = none) : Idle paths crates x (must op) := by
  intro s
  have hrun : (must op).exec (x.oracle.answer paths crates) s =
      ((x.oracle.answer paths crates s op).1,
        .ok (perform paths crates (x.oracle.env s.calls) s.world op).2) := by
    unfold must Program.attempt
    rw [Program.exec_call, answer_reply]
    rfl
  exact ⟨_, _, hrun, answer_quiet s op h⟩

theorem Idle.forEach {γ : Type} {f : γ → Proc Unit} (h : ∀ c, Idle paths crates x (f c)) :
    ∀ cs : List γ, Idle paths crates x (Program.forEach cs f)
  | [] => idle_pure ()
  | c :: cs => (h c).bind fun _ => Idle.forEach h cs

theorem idle_outcome {op : Call} (h : op.statement = none) :
    Idle paths crates x (Program.outcome op) :=
  fun s => ⟨_, _, rfl, answer_quiet s op h⟩

/-- A program goes on after an idle part. -/
theorem Idle.outcome {α : Type} {p : Proc α} {f : α → Thread} (h : Idle paths crates x p)
    (hf : ∀ s' a, s'.world.host.registry.plane = s.world.host.registry.plane →
      outcome paths crates x s' (f a) = out) :
    outcome paths crates x s (p >>= f) = out := by
  obtain ⟨s', a, hrun, hquiet⟩ := h s
  unfold Plane.outcome at hf ⊢
  rw [Program.exec_bind, hrun]
  exact hf s' a (plane_of_quiet hquiet)

/-- A tick works on the apps that it reads, if it can read them. -/
theorem outcome_tick {f : Except String Call.listApps.Reply → Thread}
    (herror : ∀ m, f (.error m) = pure .ok)
    (hok : ∀ s' apps, s'.world.host.registry.plane = s.world.host.registry.plane →
      outcome paths crates x s' (f (.ok apps)) = (s.world.host.registry.plane, .ok .ok)) :
    outcome paths crates x s (Program.outcome .listApps >>= f) =
      (s.world.host.registry.plane, .ok .ok) := by
  refine (idle_outcome rfl).outcome fun s' apps h => ?_
  cases apps with
  | error m =>
      rw [herror]
      exact congrArg (·, _) h
  | ok apps => exact hok s' apps h

theorem outcome_healthTick (s : Alone) :
    outcome paths crates x s healthTick = (s.world.host.registry.plane, .ok .ok) := by
  refine outcome_tick (fun _ => rfl) fun s₁ apps h₁ => ?_
  refine (Idle.forEach (fun app => ?_) apps).outcome fun s₂ _ h₂ => congrArg (·, _) (h₂.trans h₁)
  cases app.adminAddr with
  | none => exact idle_pure ()
  | some addr => exact (idle_must rfl).bind fun health => idle_must rfl

theorem outcome_statusTick (s : Alone) :
    outcome paths crates x s statusTick = (s.world.host.registry.plane, .ok .ok) := by
  refine outcome_tick (fun _ => rfl) fun s₁ apps h₁ => ?_
  refine (Idle.forEach (fun app => ?_) apps).outcome fun s₂ _ h₂ => congrArg (·, _) (h₂.trans h₁)
  cases app.statusCmd with
  | none => exact idle_pure ()
  | some cmd =>
      refine (idle_must rfl).bind fun running => ?_
      cases running with
      | true => exact (idle_must rfl).bind fun line => idle_must rfl
      | false => exact idle_pure ()

theorem idle_livePids : ∀ apps, Idle paths crates x (livePids apps)
  | [] => idle_pure _
  | _ :: apps => (idle_must rfl).bind fun _ => (idle_livePids apps).bind fun _ => idle_pure _

theorem outcome_sampleTick (s : Alone) :
    outcome paths crates x s sampleTick = (s.world.host.registry.plane, .ok .ok) := by
  refine outcome_tick (fun _ => rfl) fun s₁ apps h₁ => ?_
  refine (idle_livePids apps).outcome fun s₂ live h₂ => ?_
  refine (idle_must rfl).outcome fun s₃ samples h₃ => ?_
  refine (Idle.forEach (fun c => ?_) live).outcome fun s₄ _ h₄ =>
    congrArg (·, _) (h₄.trans (h₃.trans (h₂.trans h₁)))
  obtain ⟨name, pid⟩ := c
  simp only
  cases samples pid with
  | none => exact idle_must rfl
  | some sample => exact idle_must rfl

theorem outcome_writeOnly (s : Alone) {st : Statement} {P : Plane}
    (h : ∀ now, (st.exec now s.world.host.registry).plane = P) :
    outcome paths crates x s (writeOnly st) = (P, .ok .ok) :=
  outcome_write fun _ h₁ => congrArg (·, _) ((congrArg plane h₁).trans (h _))

/-! ## Requests one after another -/

/-- A request moves the plane as the plane says, and gets its answer. -/
theorem outcome_handler (h : ∀ name, w.host.registry.Tracked name) :
    outcome paths crates x { world := w } (x.request.handler paths crates) =
      w.host.registry.plane.serve paths crates x := by
  unfold Plane.serve
  cases x.request with
  | deploy req => exact outcome_deploy h req
  | restart name => exact outcome_restart _ name
  | reload name => exact outcome_reload _ rfl name
  | rollback name => exact outcome_rollback h name
  | stop name => exact outcome_setStatus _ name "stopped"
  | start name => exact outcome_setStatus _ name "running"
  | down => exact outcome_fleetSet _ "stopped"
  | up => exact outcome_fleetSet _ "running"
  | trustAdd pubkey => exact outcome_writeOnly _ fun now => plane_trust _ now pubkey
  | trustRemove pubkey => exact outcome_writeOnly _ fun _ => plane_distrust _ pubkey
  | addEndpoint name url kind =>
      exact outcome_writeOnly _ fun now => plane_attach _ now name url kind
  | removeEndpoint name => exact outcome_writeOnly _ fun _ => plane_detach _ name
  | reconcileTick => exact outcome_tail _
  | healthTick => exact outcome_healthTick _
  | statusTick => exact outcome_statusTick _
  | sampleTick => exact outcome_sampleTick _

end Plane

namespace Api

open Config Interleaving Plane Registry Store Supervisor

/-- Serve requests one after another, and keep their answers. -/
def answerAll (paths : Paths) (crates : Crates) (w : World) (xs : List Served) :
    World × List (Served × Except ApiError Response) :=
  respond (fun w x =>
    let served := serve paths crates x.oracle w x.request
    (served.1.world, served.2)) w xs

/-- Served one after another, requests do to the registry what they do to the plane it keeps,
and they get the answers of the plane. -/
theorem answerAll_refines (paths : Paths) (crates : Crates) {w : World}
    (h : ∀ name, w.host.registry.Tracked name) (xs : List Served) :
    let served := answerAll paths crates w xs
    (served.1.host.registry.plane, served.2) = w.host.registry.plane.serveAll paths crates xs := by
  have hkeeps (w : World) (x : Served) (htracked : ∀ name, w.host.registry.Tracked name)
      (name : String) :
      (serve paths crates x.oracle w x.request).1.world.host.registry.Tracked name :=
    (trail_serve paths crates x x.request (htracked name)).2
  have hstep (w : World) (x : Served) (htracked : ∀ name, w.host.registry.Tracked name) :
      outcome paths crates x { world := w } (x.request.handler paths crates) =
        w.host.registry.plane.serve paths crates x := outcome_handler htracked
  exact respond_refines (f := fun w : World => w.host.registry.plane) hkeeps hstep h xs

theorem answerAll_refines_twoBuilds :
    let served := answerAll (Paths.ofRoot "/r") (Crates.plainCrates [] []) {} twoBuilds
    (served.1.host.registry.plane, served.2) =
      Plane.empty.serveAll (Paths.ofRoot "/r") (Crates.plainCrates [] []) twoBuilds := by
  rw [← plane_empty]
  exact answerAll_refines (w := {}) _ _ (fun _ => rfl) twoBuilds

end Api

end Nockd
