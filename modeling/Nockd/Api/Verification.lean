import Mathlib.Data.List.Induction
import Nockd.Api.Alone
import Nockd.Api.Discipline
import Nockd.Crates.Plain

/-!
# When a verified artifact stays verified

`put_artifact` replaces the whole row of its hash, so the guard of
`set_artifact_verification` always finds the status empty after it: what a deploy of
the hash leaves is the outcome of its own attestation, or no status at all when
recording the outcome fails. A verified row therefore stays verified exactly as
long as every later deploy of the hash that writes the row is itself verified.
-/

namespace Nockd

namespace Api

open Attest Config Interleaving Registry Store Supervisor

/-- The row of `hash` is verified, and its builder is recorded. -/
def Verified (r : Registry) (hash : String) : Prop :=
  ∃ row builder, r.artifact.lookup hash = some row ∧
    row.verifiedStatus = some "verified" ∧ row.builder = some builder

/-- A request, and the environments of its calls. -/
structure Served where
  request : Request
  env : ℕ → Env := fun _ => {}

/-- No registry call fails while the request is served. -/
def Served.oracle (x : Served) : Oracle where
  env n := { x.env n with queryErr := false }

variable (paths : Paths) (crates : Crates)

/-- Serve requests one after another. -/
def serveAll (w : World) (xs : List Served) : World :=
  xs.foldl (fun w x => (serve paths crates x.oracle w x.request).1.world) w

/-- A request, and all that the outside decides while it is served, failing calls included. -/
structure Handled where
  request : Request
  oracle : Oracle := {}

/-- Serve requests one after another, any of which may fail. -/
def handleAll (w : World) (xs : List Handled) : World :=
  xs.foldl (fun w x => (serve paths crates x.oracle w x.request).1.world) w

/-- A deploy of `hash` that comes to write the artifact's row brings an attestation that
verifies now, and records that. -/
def Attested (r : Registry) (hash : String) : Handled → Prop
  | ⟨.deploy req, o⟩ => ∀ jam bin, decodeBundle crates req = .ok (jam, bin) →
      let record := computeHashes crates.blake3 jam bin req.targetTriple
      let v := verification crates req.attestation record (o.trusts r)
      record.artifactHash = hash →
        o.fails 0 (.put jam bin req.targetTriple) = none →
        o.fails 1 (.write (.putArtifact record req.provenance)) = none →
          v.1 = "verified" ∧
            o.fails 3 (.write (.setArtifactVerification record.artifactHash v.1 v.2)) = none
  | _ => True

/-- The call writes no row of the artifact table. -/
def Call.keepsArtifacts : Call → Bool
  | .write (.putArtifact _ _) => false
  | .write (.setArtifactVerification _ _ _) => false
  | _ => true

variable {paths crates}

theorem perform_artifact {env : Env} {w : World} {op : Call}
    (h : op.keepsArtifacts = true) :
    (perform paths crates env w op).1.host.registry.artifact = w.host.registry.artifact := by
  cases hop : op.statement with
  | none =>
      exact congr_of_quiet (·.artifact) (fun _ => rfl) (perform_quiet paths crates env w hop)
  | some st =>
      cases op with
      | write s =>
          cases s with
          | putArtifact record provenance => cases h
          | setArtifactVerification hash status builder => cases h
          | addTrustedBuilder pubkey =>
              simp only [perform, World.mapRegistry, Statement.exec, addTrustedBuilder]
              split <;> rfl
          | _ => rfl
      | _ => cases hop

theorem answer_artifact {o : Oracle} {s : Alone} {op : Call}
    (h : op.keepsArtifacts = true) :
    (o.answer paths crates s op).1.world.host.registry.artifact =
      s.world.host.registry.artifact := by
  cases hr : (o.answer paths crates s op).2 with
  | ok r => rw [(answer_ok hr).2.1, perform_artifact h]
  | error m => rw [(answer_error hr).2.2.1]

/-- A program without such a write leaves the artifact table alone. -/
theorem exec_artifact {α : Type} {o : Oracle} {s : Alone} {p : Proc α}
    (h : p.Only fun op => op.keepsArtifacts = true) :
    (p.exec (o.answer paths crates) s).1.world.host.registry.artifact =
      s.world.host.registry.artifact :=
  h.exec (I := fun s' : Alone => s'.world.host.registry.artifact = _)
    (fun _ _ hop hs => (answer_artifact hop).trans hs) rfl

theorem keepsArtifacts_of_uses {op : Call} (h : Fact.deploying ∉ op.uses) :
    op.keepsArtifacts = true := by
  cases op with
  | write s => cases s <;> first | rfl | exact absurd (by simp [Call.uses]) h
  | _ => rfl

theorem exec_artifact_of_obeys {o : Oracle} {s : Alone} {known : Set Fact} {p : Thread}
    (h : Obeys known p) (hknown : .deploying ∉ known) :
    (p.exec (o.answer paths crates) s).1.world.host.registry.artifact =
      s.world.host.registry.artifact :=
  exec_artifact ((never_uses h hknown (by simp) (by simp)).mono fun _ =>
    keepsArtifacts_of_uses)

/-- Requests that are no deploys leave the artifact table alone. -/
theorem serve_artifact {o : Oracle} {w : World} {r : Request} (h : ∀ req, r ≠ .deploy req) :
    (serve paths crates o w r).1.world.host.registry.artifact =
      w.host.registry.artifact := by
  refine exec_artifact_of_obeys (handler_obeys r) ?_
  cases r with
  | deploy req => exact absurd rfl (h req)
  | _ => simp [Request.facts]

/-! ## Deploys -/

/-- A served request is refused no call. -/
theorem answer_reply {x : Served} {s : Alone} {op : Call} :
    (x.oracle.answer paths crates s op).2 =
      .ok (perform paths crates (x.oracle.env s.calls) s.world op).2 := by
  cases hr : (x.oracle.answer paths crates s op).2 with
  | ok r => rw [(answer_ok hr).1]
  | error m => exact absurd (answer_error hr).2.1 (by simp [Served.oracle])

theorem exec_must {α : Type} {x : Served} {s : Alone} (op : Call) {f : op.Reply → Proc α} :
    (must op >>= f).exec (x.oracle.answer paths crates) s =
      (f (perform paths crates (x.oracle.env s.calls) s.world op).2).exec
        (x.oracle.answer paths crates) (x.oracle.answer paths crates s op).1 :=
  Program.exec_attempt_ok f answer_reply

theorem answer_world {x : Served} {s : Alone} {op : Call} :
    (x.oracle.answer paths crates s op).1.world =
      (perform paths crates (x.oracle.env s.calls) s.world op).1 := by
  cases hr : (x.oracle.answer paths crates s op).2 with
  | ok r => exact (answer_ok hr).2.1
  | error m => exact absurd (answer_error hr).2.1 (by simp [Served.oracle])

/-- A deploy first writes the row of its hash, with the outcome of its own attestation. -/
theorem serve_deploy_eq (paths : Paths) (x : Served) (w : World) {req : DeployRequest}
    {jam : Option Bytes} {bin : Bytes} (hbundle : decodeBundle crates req = .ok (jam, bin)) :
    let record := computeHashes crates.blake3 jam bin req.targetTriple
    let v := verification crates req.attestation record w.host.registry.isTrustedBuilder
    ∃ s now, serve paths crates x.oracle w (.deploy req) =
        (deployApp paths crates req record).exec (x.oracle.answer paths crates) s ∧
      s.world.host.registry =
        (w.host.registry.putArtifact now record req.provenance).setArtifactVerification
          record.artifactHash v.1 v.2 := by
  intro record v
  unfold serve Request.handler deploy
  simp only [hbundle]
  rw [exec_must (.put _ _ _), exec_must (.write _), exec_must .trustedBuilders,
    exec_must (.write _)]
  refine ⟨_, (x.env 1).now, rfl, ?_⟩
  rw [answer_world, answer_world, answer_world, answer_world]
  rfl

/-- What a deploy leaves in the artifact table: the row of its hash, with the
outcome of its own attestation. -/
theorem serve_deploy_artifact (paths : Paths) (x : Served) (w : World) {req : DeployRequest}
    {jam : Option Bytes} {bin : Bytes} (hbundle : decodeBundle crates req = .ok (jam, bin)) :
    let record := computeHashes crates.blake3 jam bin req.targetTriple
    let v := verification crates req.attestation record w.host.registry.isTrustedBuilder
    ∃ now, (serve paths crates x.oracle w (.deploy req)).1.world.host.registry.artifact =
      ((w.host.registry.putArtifact now record req.provenance).setArtifactVerification
        record.artifactHash v.1 v.2).artifact := by
  intro record v
  obtain ⟨s, now, hserve, hregistry⟩ := serve_deploy_eq paths x w hbundle
  rw [hserve, exec_artifact_of_obeys (obeys_deployApp req _) (by simp), hregistry]
  exact ⟨now, rfl⟩

theorem artifact_after_deploy (r : Registry) (now : ℤ) (record : ArtifactRecord)
    (provenance : Option String) (status : String) (builder : Option String)
    (hash : String) :
    ((r.putArtifact now record provenance).setArtifactVerification record.artifactHash status
        builder).artifact.lookup hash =
      if hash = record.artifactHash then
        some { kernelHash := record.kernelHash, targetTriple := record.targetTriple
               createdAt := now, provenance, verifiedStatus := some status, builder }
      else r.artifact.lookup hash := by
  unfold setArtifactVerification putArtifact
  split
  case isTrue h =>
    rw [h, Table.lookup_modify, AList.lookup_insert]
    simp
  case isFalse h =>
    rw [Table.lookup_modify_ne _ _ h, AList.lookup_insert_ne h]

theorem verification_builder {attestation : Option String} {record : ArtifactRecord}
    {isTrusted : String → Bool}
    (h : (verification crates attestation record isTrusted).1 = "verified") :
    ∃ builder, (verification crates attestation record isTrusted).2 = some builder := by
  unfold verification at h ⊢
  cases attestation with
  | none => simp at h
  | some json =>
      cases hatt : crates.parseAttestation json with
      | none => simp [hatt] at h
      | some att =>
          simp only [hatt] at h ⊢
          exact ⟨_, assess_builder_of_verified h⟩

/-- What a deploy does to the artifact table: nothing before its row is written; then the row
stands, with the outcome of its own attestation unless recording that fails. -/
theorem deploy_artifact_cases (paths : Paths) (o : Oracle) (w : World) {req : DeployRequest}
    {jam : Option Bytes} {bin : Bytes} (hbundle : decodeBundle crates req = .ok (jam, bin)) :
    let record := computeHashes crates.blake3 jam bin req.targetTriple
    let v := verification crates req.attestation record (o.trusts w.host.registry)
    let artifact := (serve paths crates o w (.deploy req)).1.world.host.registry.artifact
    ((o.fails 0 (.put jam bin req.targetTriple) ≠ none ∨
        o.fails 1 (.write (.putArtifact record req.provenance)) ≠ none) ∧
      artifact = w.host.registry.artifact) ∨
    (o.fails 0 (.put jam bin req.targetTriple) = none ∧
      o.fails 1 (.write (.putArtifact record req.provenance)) = none ∧ ∃ now,
      (o.fails 3 (.write (.setArtifactVerification record.artifactHash v.1 v.2)) ≠ none ∧
        artifact = (w.host.registry.putArtifact now record req.provenance).artifact) ∨
      (o.fails 3 (.write (.setArtifactVerification record.artifactHash v.1 v.2)) = none ∧
        artifact = ((w.host.registry.putArtifact now record
          req.provenance).setArtifactVerification record.artifactHash v.1 v.2).artifact)) := by
  intro record v artifact
  have hartifact : artifact =
      (serve paths crates o w (.deploy req)).1.world.host.registry.artifact := rfl
  unfold serve Request.handler deploy at hartifact
  simp only [hbundle] at hartifact
  rcases exec_must_cases paths crates o _ (.put _ _ _) _ with
      ⟨m, -, hm, hput⟩ | ⟨hput₀, hput⟩
  · rw [hput] at hartifact
    exact Or.inl ⟨Or.inl (Option.ne_none_iff_exists'.2 ⟨m, hm⟩), hartifact⟩
  rw [hput] at hartifact
  rcases exec_must_cases paths crates o _ (.write _) _ with
      ⟨m, -, hm, hrow⟩ | ⟨hrow₀, hrow⟩
  · rw [hrow] at hartifact
    exact Or.inl ⟨Or.inr (Option.ne_none_iff_exists'.2 ⟨m, hm⟩), hartifact⟩
  rw [hrow] at hartifact
  refine Or.inr ⟨hput₀ rfl, hrow₀ rfl, (o.env 1).now, ?_⟩
  rcases exec_must_cases paths crates o _ .trustedBuilders _ with
      ⟨m, hfallible, -⟩ | ⟨-, htrust⟩
  · cases hfallible
  rw [htrust] at hartifact
  rcases exec_must_cases paths crates o _ (.write _) _ with
      ⟨m, -, hm, hset⟩ | ⟨hset₀, hset⟩
  · rw [hset] at hartifact
    exact Or.inl ⟨Option.ne_none_iff_exists'.2 ⟨m, hm⟩, hartifact⟩
  · rw [hset, exec_artifact_of_obeys (obeys_deployApp req _) (by simp)] at hartifact
    exact Or.inr ⟨hset₀ rfl, hartifact⟩

theorem attested_deploy_iff {r : Registry} {hash : String} {req : DeployRequest} {o : Oracle}
    {jam : Option Bytes} {bin : Bytes} (hbundle : decodeBundle crates req = .ok (jam, bin)) :
    let record := computeHashes crates.blake3 jam bin req.targetTriple
    let v := verification crates req.attestation record (o.trusts r)
    Attested crates r hash ⟨.deploy req, o⟩ ↔
      (record.artifactHash = hash →
        o.fails 0 (.put jam bin req.targetTriple) = none →
        o.fails 1 (.write (.putArtifact record req.provenance)) = none →
          v.1 = "verified" ∧
            o.fails 3 (.write (.setArtifactVerification record.artifactHash v.1 v.2)) = none) := by
  refine ⟨fun h => h jam bin hbundle, fun h jam' bin' hok => ?_⟩
  rw [hbundle] at hok
  cases hok
  exact h

/-- A request keeps a verified row verified exactly if it does not write the row, or its own
attestation verifies and that is recorded. -/
theorem verified_serve_iff {x : Handled} {w : World} {hash : String}
    (h : Verified w.host.registry hash) :
    Verified (serve paths crates x.oracle w x.request).1.world.host.registry hash ↔
      Attested crates w.host.registry hash x := by
  obtain ⟨request, o⟩ := x
  unfold Verified at h ⊢
  by_cases hdeploy : ∃ req, request = .deploy req
  · obtain ⟨req, rfl⟩ := hdeploy
    cases hbundle : decodeBundle crates req with
    | error e =>
        have hsame : serve paths crates o w (.deploy req) =
            ({ world := w }, .error (.internal e)) := by
          unfold serve Request.handler deploy
          simp only [hbundle]
          rfl
        rw [hsame]
        refine ⟨fun _ jam bin hok => ?_, fun _ => h⟩
        rw [hbundle] at hok
        cases hok
    | ok bundle =>
        obtain ⟨jam, bin⟩ := bundle
        refine Iff.trans ?_ (attested_deploy_iff hbundle).symm
        set record := computeHashes crates.blake3 jam bin req.targetTriple
        by_cases hhash : record.artifactHash = hash
        · rcases deploy_artifact_cases paths o w hbundle with
              ⟨hstop, hsame⟩ | ⟨hput, hrow, now, ⟨hfails, hartifact⟩ | ⟨hset, hartifact⟩⟩
          · rw [hsame]
            exact ⟨fun _ _ hput hrow => (hstop.elim (· hput) (· hrow)).elim, fun _ => h⟩
          · rw [hartifact]
            refine ⟨?_, fun hall => absurd (hall hhash hput hrow).2 hfails⟩
            rintro ⟨row, builder, hlookup, hstatus, -⟩
            rw [← hhash, putArtifact, AList.lookup_insert] at hlookup
            cases hlookup
            cases hstatus
          · rw [hartifact, artifact_after_deploy, if_pos hhash.symm]
            constructor
            · rintro ⟨row, builder, hlookup, hstatus, -⟩ - - -
              cases hlookup
              exact ⟨Option.some.inj hstatus, hset⟩
            · intro hall
              have hstatus := (hall hhash hput hrow).1
              obtain ⟨builder, hbuilder⟩ := verification_builder hstatus
              exact ⟨_, builder, rfl, congrArg some hstatus, hbuilder⟩
        · refine ⟨fun _ heq => absurd heq hhash, fun _ => ?_⟩
          have hother : (serve paths crates o w (.deploy req)).1.world.host.registry.artifact.lookup
              hash = w.host.registry.artifact.lookup hash := by
            rcases deploy_artifact_cases paths o w hbundle with
                ⟨-, hsame⟩ | ⟨-, -, now, ⟨-, hartifact⟩ | ⟨-, hartifact⟩⟩
            · rw [hsame]
            · rw [hartifact, putArtifact, AList.lookup_insert_ne (Ne.symm hhash)]
            · rw [hartifact, artifact_after_deploy, if_neg (Ne.symm hhash)]
          rw [hother]
          exact h
  · have hother : ∀ req, request ≠ .deploy req := fun req hreq => hdeploy ⟨req, hreq⟩
    rw [serve_artifact hother]
    refine ⟨fun _ => ?_, fun _ => h⟩
    cases request with
    | deploy req => exact absurd rfl (hother req)
    | _ => trivial

/-! ## Runs of requests -/

theorem serveAll_append (w : World) (xs ys : List Served) :
    serveAll paths crates w (xs ++ ys) =
      serveAll paths crates (serveAll paths crates w xs) ys :=
  List.foldl_append

theorem handleAll_append (w : World) (xs ys : List Handled) :
    handleAll paths crates w (xs ++ ys) =
      handleAll paths crates (handleAll paths crates w xs) ys :=
  List.foldl_append

/-- Once verified, the row of a hash stays verified in a run of requests exactly if every later
deploy of the hash that comes to write the row brings an attestation that verifies, and
records that. -/
theorem verified_sticky_iff {w : World} {hash : String}
    (hverified : Verified w.host.registry hash) (xs : List Handled) :
    (∀ pre, pre <+: xs → Verified (handleAll paths crates w pre).host.registry hash) ↔
      ∀ pre x, pre ++ [x] <+: xs →
        Attested crates (handleAll paths crates w pre).host.registry hash x := by
  have hstep (pre : List Handled) (x : Handled)
      (hpre : Verified (handleAll paths crates w pre).host.registry hash) :
      Verified (handleAll paths crates w (pre ++ [x])).host.registry hash ↔
        Attested crates (handleAll paths crates w pre).host.registry hash x := by
    rw [handleAll_append]
    exact verified_serve_iff hpre
  constructor
  · intro hall pre x hx
    exact (hstep pre x (hall pre ((List.prefix_append pre [x]).trans hx))).1 (hall _ hx)
  · intro hall pre
    induction pre using List.reverseRecOn with
    | nil => exact fun _ => hverified
    | append_singleton pre x ih =>
        intro hx
        have hpre := ih ((List.prefix_append pre [x]).trans hx)
        exact (hstep pre x hpre).2 (hall pre x hx)

section Redeploy

/-- A builder's key, and the bundle it attests. -/
def redeployKey : Bytes := List.replicate 32 0x6b

def redeployCrates : Crates :=
  let unsigned := Crates.plainCrates [] []
  let record := computeHashes unsigned.blake3 none [0x61] "t"
  let att := create unsigned 0 redeployKey record.artifactHash record.kernelHash "t" ()
  Crates.plainCrates [(redeployKey, Crates.plainToVec att.payload)] [("att", att)]

def redeployRequest (attestation : Option String) : Handled where
  request := .deploy { name := "a", targetTriple := "t", binB64 := "a", attestation }

/-- The builder is trusted and the bundle deployed with its attestation. -/
def redeployWorld : World :=
  handleAll (Paths.ofRoot "/r") redeployCrates {}
    [{ request := .trustAdd (pubkeyHex redeployCrates redeployKey) },
      redeployRequest (some "att")]

def redeployHash : String := (computeHashes redeployCrates.blake3 none [0x61] "t").artifactHash

theorem redeploy_verified : Verified redeployWorld.host.registry redeployHash := by
  have hrow : (redeployWorld.host.registry.artifact.lookup redeployHash).map
      (fun row => (row.verifiedStatus, row.builder)) =
        some (some "verified", some (pubkeyHex redeployCrates redeployKey)) := by
    decide +kernel
  obtain ⟨row, hlookup, hval⟩ := Option.map_eq_some_iff.1 hrow
  obtain ⟨hstatus, hbuilder⟩ := Prod.mk.inj hval
  exact ⟨row, _, hlookup, hstatus, hbuilder⟩

/-- A second deploy of the same bytes without an attestation resets the row. -/
theorem verified_not_sticky :
    ¬ ∀ (paths : Paths) (crates : Crates) (w : World) (hash : String) (xs : List Handled),
      Verified w.host.registry hash → ∀ pre, pre <+: xs →
        Verified (handleAll paths crates w pre).host.registry hash := by
  intro h
  obtain ⟨row, builder, hrow, hstatus, -⟩ := h (Paths.ofRoot "/r") redeployCrates redeployWorld
    redeployHash [redeployRequest none] redeploy_verified _ List.prefix_rfl
  have hreset : ((handleAll (Paths.ofRoot "/r") redeployCrates redeployWorld
      [redeployRequest none]).host.registry.artifact.lookup redeployHash).map
        (·.verifiedStatus) = some (some "unverified") := by
    decide +kernel
  rw [hrow, Option.map_some, hstatus] at hreset
  exact absurd hreset (by decide)

theorem verified_sticky_iff_redeploy :
    let xs := [redeployRequest (some "att")]
    let run := handleAll (Paths.ofRoot "/r") redeployCrates redeployWorld
    (∀ pre, pre <+: xs → Verified (run pre).host.registry redeployHash) ↔
      ∀ pre x, pre ++ [x] <+: xs →
        Attested redeployCrates (run pre).host.registry redeployHash x :=
  verified_sticky_iff redeploy_verified _

end Redeploy

end Api

end Nockd
