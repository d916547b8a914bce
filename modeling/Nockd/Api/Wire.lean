import Nockd.Api.Handlers
import Nockd.Data.Json

/-!
# Documents on the wire

How an attestation and the body of a deploy are written as JSON documents, and read
again. `withJson` are the crates in which payloads and attestations are the text of such
documents.
-/

namespace Nockd

/-! ## Attestations -/

namespace Attest

open Json (ofInt toValue members required asString asInt64)

def AttestationPayload.fields : List String :=
  ["schema", "artifact_hash", "kernel_hash", "target_triple", "provenance", "builder",
    "signed_at"]

def AttestationPayload.toJson (p : AttestationPayload Json.Value) : Json :=
  .obj [("schema", .str p.schema), ("artifact_hash", .str p.artifactHash),
    ("kernel_hash", .str p.kernelHash), ("target_triple", .str p.targetTriple),
    ("provenance", p.provenance.json), ("builder", .str p.builder),
    ("signed_at", ofInt p.signedAt)]

def AttestationPayload.ofJson? (j : Json) : Option (AttestationPayload Json.Value) := do
  let xs ← members fields j
  pure {
    schema := ← required xs "schema" asString
    artifactHash := ← required xs "artifact_hash" asString
    kernelHash := ← required xs "kernel_hash" asString
    targetTriple := ← required xs "target_triple" asString
    provenance := ← required xs "provenance" fun j => some j.toValue
    builder := ← required xs "builder" asString
    signedAt := (← required xs "signed_at" asInt64).toInt }

def Attestation.fields : List String := ["payload", "signature"]

def Attestation.toJson (att : Attestation Json.Value) : Json :=
  .obj [("payload", att.payload.toJson), ("signature", .str att.signature)]

def Attestation.ofJson? (j : Json) : Option (Attestation Json.Value) := do
  let xs ← members fields j
  pure {
    payload := ← required xs "payload" AttestationPayload.ofJson?
    signature := ← required xs "signature" asString }

/-- A payload is read as it was written, with its provenance. -/
theorem AttestationPayload.ofJson?_toJson {p : AttestationPayload Json.Value} {now : Int64}
    (hnow : p.signedAt = now.toInt) : ofJson? p.toJson = some p := by
  have hmembers : members fields p.toJson = some _ := Json.members_obj rfl (by decide)
  have hread := Json.asInt64_ofInt now
  rw [← hnow] at hread
  unfold ofJson?
  rw [hmembers]
  simp [required, List.lookup_cons, asString, Json.toValue_json, hread, ← hnow]

theorem Attestation.ofJson?_toJson {att : Attestation Json.Value} {now : Int64}
    (hnow : att.payload.signedAt = now.toInt) : ofJson? att.toJson = some att := by
  have hmembers : members fields att.toJson = some _ := Json.members_obj rfl (by decide)
  unfold ofJson?
  rw [hmembers]
  simp [required, List.lookup_cons, asString, AttestationPayload.ofJson?_toJson hnow]

end Attest

/-! ## The body of a deploy -/

namespace Api

open Attest Config
open Json (ofInt ofOption members required withDefault asString asUInt16 asList asOption)

def DeployRequest.fields : List String :=
  ["name", "target_triple", "bin_b64", "jam_b64", "endpoint", "restart", "args",
    "admin_addr", "status_cmd", "status_label", "port", "manifest_path", "icon",
    "provenance", "attestation"]

def DeployRequest.toMembers (req : DeployRequest) : List (String × Json) :=
  [("name", .str req.name), ("target_triple", .str req.targetTriple),
    ("bin_b64", .str req.binB64), ("jam_b64", ofOption .str req.jamB64),
    ("endpoint", ofOption .str req.endpoint), ("restart", .str req.restart),
    ("args", .arr (req.args.map .str)), ("admin_addr", ofOption .str req.adminAddr),
    ("status_cmd", ofOption .str req.statusCmd),
    ("status_label", ofOption .str req.statusLabel),
    ("port", ofOption (fun n => ofInt n.toNat) req.port),
    ("manifest_path", ofOption .str req.manifestPath), ("icon", ofOption .str req.icon),
    ("provenance", ofOption .str req.provenance),
    ("attestation", ofOption .str req.attestation)]

def DeployRequest.toJson (req : DeployRequest) : Json := .obj req.toMembers

def DeployRequest.ofMembers? (xs : List (String × Json)) : Option DeployRequest := do
  pure {
    name := ← required xs "name" asString
    targetTriple := ← required xs "target_triple" asString
    binB64 := ← required xs "bin_b64" asString
    jamB64 := ← withDefault xs "jam_b64" none (asOption asString)
    endpoint := ← withDefault xs "endpoint" none (asOption asString)
    restart := ← withDefault xs "restart" defaultRestart asString
    args := ← withDefault xs "args" [] (asList asString)
    adminAddr := ← withDefault xs "admin_addr" none (asOption asString)
    statusCmd := ← withDefault xs "status_cmd" none (asOption asString)
    statusLabel := ← withDefault xs "status_label" none (asOption asString)
    port := ← withDefault xs "port" none (asOption asUInt16)
    manifestPath := ← withDefault xs "manifest_path" none (asOption asString)
    icon := ← withDefault xs "icon" none (asOption asString)
    provenance := ← withDefault xs "provenance" none (asOption asString)
    attestation := ← withDefault xs "attestation" none (asOption asString) }

def DeployRequest.ofJson? (j : Json) : Option DeployRequest :=
  (members fields j).bind ofMembers?

/-- Members that say what a request says are read as that request. -/
theorem DeployRequest.ofMembers?_eq {req : DeployRequest} {xs : List (String × Json)}
    (h : ∀ x ∈ req.toMembers, xs.lookup x.1 = some x.2) : ofMembers? xs = some req := by
  have hstr (s : String) : asString (.str s) = some s := rfl
  have hstring (s : Option String) : asOption asString (ofOption .str s) = some s :=
    Json.asOption_ofOption hstr (fun _ => by simp) s
  have hport : asOption asUInt16 (ofOption (fun n => ofInt n.toNat) req.port) =
      some req.port :=
    Json.asOption_ofOption Json.asUInt16_ofInt (fun _ => by simp [ofInt]) req.port
  have hargs : asList asString (.arr (req.args.map .str)) = some req.args :=
    Json.asList_arr hstr req.args
  simp only [toMembers, List.forall_mem_cons] at h
  simp [ofMembers?, required, withDefault, h, hstr, hstring, hport, hargs]

theorem DeployRequest.ofJson?_toJson (req : DeployRequest) :
    ofJson? req.toJson = some req := by
  have hkeys : req.toMembers.map Prod.fst = fields := rfl
  have hnodup : fields.Nodup := by decide
  rw [ofJson?, toJson, Json.members_obj hkeys hnodup, Option.bind_some]
  exact ofMembers?_eq fun x hx => Json.lookup_of_mem (hkeys ▸ hnodup) hx

end Api

/-! ## Text -/

/-- The crates with payloads and attestations as such text. -/
def Crates.withJson (crates : Crates) (json : JsonText) : Crates where
  Value := Json.Value
  blake3 := crates.blake3
  base64Decode := crates.base64Decode
  base64Encode := crates.base64Encode
  hexDecode := crates.hexDecode
  hexEncode := crates.hexEncode
  verifyingKey := crates.verifyingKey
  validKey := crates.validKey
  sign := crates.sign
  verify := crates.verify
  toVec payload := asBytes (json.print payload.toJson)
  parseAttestation text := (json.parse text).bind Attest.Attestation.ofJson?
  parseManifest := crates.parseManifest

theorem Crates.Reliable.withJson {crates : Crates} {json : JsonText} (h : crates.Reliable) :
    (crates.withJson json).Reliable where
  base64 := h.base64
  hex := h.hex
  length_verifyingKey := h.length_verifyingKey
  length_sign := h.length_sign
  validKey := h.validKey
  verify := h.verify

end Nockd
