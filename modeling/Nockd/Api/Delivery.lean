import Nockd.Api.Verification
import Nockd.Api.Wire

/-!
# A signed deploy on its way to the daemon

The client hashes what it uploads, signs the hashes and puts the attestation as text into
the request, which is text itself. The daemon reads both again and hashes what it
decodes. If the two documents come back from their texts, the daemon assesses what the
client has signed.
-/

namespace Nockd

namespace Api

open Attest Config Registry Store Supervisor

/-! ## The client -/

/-- What `nockd deploy` has collected from its flags, the manifest and the build. -/
structure Upload where
  name : String
  target : String
  binBytes : Bytes
  jamBytes : Option Bytes := none
  endpoint : Option String := none
  restart : String := defaultRestart
  args : List String := []
  healthAddr : Option String := none
  statusCmd : Option String := none
  statusLabel : Option String := none
  port : Option UInt16 := none
  manifestPath : Option String := none
  icon : Option String := none
  provenance : Option String := none
deriving DecidableEq, Repr

variable (crates : Crates) (json : JsonText)

/-- The attestation of an upload, signed with the builder key. -/
def selfAttestation (now : Int64) (key : Bytes) (u : Upload) (provenance : Json.Value) :
    Attestation Json.Value :=
  let record := computeHashes crates.blake3 u.jamBytes u.binBytes u.target
  create (crates.withJson json) now.toInt key record.artifactHash record.kernelHash u.target
    provenance

/-- An external attestation if one is given, else the client's own if it has a key. -/
def attestationJson (now : Int64) (external : Option String) (noAttest : Bool)
    (keyFile : Option Bytes) (u : Upload) (provenance : Json.Value) : Option String :=
  match external with
  | some text => some text
  | none =>
    if noAttest then none
    else
      match loadKey keyFile with
      | some key => some (json.print (selfAttestation crates json now key u provenance).toJson)
      | none => none

def uploadRequest (u : Upload) (attestation : Option String) : DeployRequest where
  name := u.name
  targetTriple := u.target
  binB64 := crates.base64Encode u.binBytes
  jamB64 := u.jamBytes.map crates.base64Encode
  endpoint := u.endpoint
  restart := u.restart
  args := u.args
  adminAddr := u.healthAddr
  statusCmd := u.statusCmd
  statusLabel := u.statusLabel
  port := u.port
  manifestPath := u.manifestPath
  icon := u.icon
  provenance := u.provenance
  attestation := attestation

/-- The request that `nockd deploy` sends; `provenance` is the value that its own
attestation is made with. -/
def clientRequest (now : Int64) (external : Option String) (noAttest : Bool)
    (keyFile : Option Bytes) (u : Upload) (provenance : Json.Value) : DeployRequest :=
  uploadRequest crates u
    (attestationJson crates json now external noAttest keyFile u provenance)

variable {crates json} in
/-- Signing and sending depend on how documents are printed, not on how they are read. -/
theorem clientRequest_congr {json' : JsonText} (h : json.print = json'.print) :
    selfAttestation crates json = selfAttestation crates json' ∧
      clientRequest crates json = clientRequest crates json' := by
  obtain ⟨print, parse⟩ := json
  obtain ⟨print', parse'⟩ := json'
  cases h
  exact ⟨rfl, rfl⟩

/-! ## The daemon -/

/-- Why the body of a request is refused before its handler runs. -/
inductive Rejection where
  | tooLarge
  | syntaxError
  | dataError
deriving DecidableEq, Repr

/-- `DefaultBodyLimit::max`. -/
def bodyLimit : ℕ := 1024 * 1024 * 1024

/-- `Json(req)`: the request in a body. -/
def receive (body : String) : Except Rejection DeployRequest :=
  if bodyLimit < body.utf8ByteSize then .error .tooLarge
  else
    match json.parse body with
    | none => .error .syntaxError
    | some j =>
      match DeployRequest.ofJson? j with
      | none => .error .dataError
      | some req => .ok req

variable {crates json}

theorem receive_print {req : DeployRequest} (hkeeps : json.Keeps req.toJson)
    (hsize : (json.print req.toJson).utf8ByteSize ≤ bodyLimit) :
    receive json (json.print req.toJson) = .ok req := by
  unfold receive
  rw [if_neg hsize.not_gt, hkeeps]
  simp only [DeployRequest.ofJson?_toJson]

/-- The daemon decodes the bytes that were uploaded. -/
theorem decodeBundle_uploadRequest (h : crates.Reliable) (u : Upload)
    (attestation : Option String) :
    decodeBundle (crates.withJson json) (uploadRequest crates u attestation) =
      .ok (u.jamBytes, u.binBytes) := by
  unfold decodeBundle uploadRequest Crates.withJson
  cases hjam : u.jamBytes with
  | none => simp [h.base64]
  | some jam => simp [h.base64]

/-- The attestation comes back from the text it is sent as. -/
theorem parseAttestation_self {now : Int64} {key : Bytes} {u : Upload}
    {provenance : Json.Value}
    (hkeeps : json.Keeps (selfAttestation crates json now key u provenance).toJson) :
    (crates.withJson json).parseAttestation
      (json.print (selfAttestation crates json now key u provenance).toJson) =
        some (selfAttestation crates json now key u provenance) := by
  change (json.parse _).bind Attestation.ofJson? = _
  rw [hkeeps]
  exact @Attestation.ofJson?_toJson _ now rfl

theorem verification_self (h : crates.Reliable) {now : Int64} {key : Bytes}
    (hkey : key.length = 32) {u : Upload} {provenance : Json.Value}
    (hkeeps : json.Keeps (selfAttestation crates json now key u provenance).toJson)
    {isTrusted : String → Bool} (htrusted : isTrusted (pubkeyHex crates key) = true) :
    verification (crates.withJson json)
      (some (json.print (selfAttestation crates json now key u provenance).toJson))
      (computeHashes crates.blake3 u.jamBytes u.binBytes u.target) isTrusted =
        ("verified", some (pubkeyHex crates key)) := by
  unfold verification
  simp only [parseAttestation_self hkeeps]
  exact assess_create h.withJson hkey now.toInt _ _ u.target provenance htrusted

/-- An attestation that the client signs survives the way to the daemon, and the artifact
row ends up verified for its key, whatever the row held before. -/
theorem signature_delivered (h : crates.Reliable) (paths : Paths) (u : Upload)
    (provenance : Json.Value) (now : Int64) {keyFile : Option Bytes} {key : Bytes}
    (hkey : loadKey keyFile = some key) (env : ℕ → Env) (w : World)
    (htrusted : w.host.registry.isTrustedBuilder (pubkeyHex crates key) = true) :
    let wired := crates.withJson json
    let sent := clientRequest crates json now none false keyFile u provenance
    let record := computeHashes crates.blake3 u.jamBytes u.binBytes u.target
    let outcome := ("verified", some (pubkeyHex crates key))
    json.Keeps (selfAttestation crates json now key u provenance).toJson →
      json.Keeps sent.toJson → (json.print sent.toJson).utf8ByteSize ≤ bodyLimit →
      receive json (json.print sent.toJson) = .ok sent ∧
        decodeBundle wired sent = .ok (u.jamBytes, u.binBytes) ∧
        verification wired sent.attestation record w.host.registry.isTrustedBuilder =
          outcome ∧
        ((serve paths wired (Served.oracle ⟨.deploy sent, env⟩) w
          (.deploy sent)).1.world.host.registry.artifact.lookup record.artifactHash).map
            (fun row => (row.verifiedStatus, row.builder)) =
          some (some outcome.1, outcome.2) := by
  intro wired sent record outcome hatt hreq hsize
  have hlen : key.length = 32 := by
    simpa using (Option.filter_eq_some_iff.1 hkey).2
  have hbundle : decodeBundle wired sent = .ok (u.jamBytes, u.binBytes) :=
    decodeBundle_uploadRequest h u _
  have hsigned : sent.attestation =
      some (json.print (selfAttestation crates json now key u provenance).toJson) := by
    simp [sent, clientRequest, uploadRequest, attestationJson, hkey]
  have hverified : verification wired sent.attestation record
      w.host.registry.isTrustedBuilder = outcome := by
    rw [hsigned]
    exact verification_self h hlen hatt htrusted
  have hartifact : ∃ t, (serve paths wired (Served.oracle ⟨.deploy sent, env⟩) w
      (.deploy sent)).1.world.host.registry.artifact =
        ((w.host.registry.putArtifact t record sent.provenance).setArtifactVerification
          record.artifactHash outcome.1 outcome.2).artifact := by
    rw [← hverified]
    exact serve_deploy_artifact paths ⟨.deploy sent, env⟩ w hbundle
  obtain ⟨t, hartifact⟩ := hartifact
  refine ⟨receive_print hreq hsize, hbundle, hverified, ?_⟩
  rw [hartifact, artifact_after_deploy, if_pos rfl]
  rfl

section Commit

/-- Signatures are zeros, and zeros are valid. -/
def zeroCrates : Crates :=
  { Crates.plainCrates [] [] with verify := fun _ _ sig => sig == List.replicate 64 0 }

theorem zeroCrates_reliable : zeroCrates.Reliable where
  base64 b := congrArg Except.ok (Crates.plainBytes_plainHash b)
  hex b := congrArg some (Crates.plainBytes_plainHash b)
  length_verifyingKey _ hkey := hkey
  length_sign _ _ _ := List.length_replicate
  validKey _ _ := rfl
  verify _ _ _ := by simp [zeroCrates, Crates.plainCrates]

def commitKey : Bytes := List.replicate 32 0x6b

def commitUpload : Upload where
  name := "a"
  target := "t"
  binBytes := [0x61]
  jamBytes := some [0x6a]

def commitProvenance : Json.Value :=
  Json.toValue (.obj [("commit", .str "c0"), ("deps", .arr [.obj [("rev", Json.ofInt 7)]])])

/-- What the client makes of it, with the printer alone. -/
def commitAttestation : Attestation Json.Value :=
  selfAttestation zeroCrates (Crates.plainText []) 0 commitKey commitUpload commitProvenance

def commitRequest : DeployRequest :=
  clientRequest zeroCrates (Crates.plainText []) 0 none false (some commitKey) commitUpload
    commitProvenance

def commitText : JsonText :=
  Crates.plainText [commitAttestation.toJson, commitRequest.toJson]

/-- The builder is trusted, and the artifact has been deployed without an attestation. -/
def commitWorld : World :=
  serveAll (Paths.ofRoot "/r") (zeroCrates.withJson commitText) {}
    [{ request := .trustAdd (pubkeyHex zeroCrates commitKey) },
      { request := .deploy (uploadRequest zeroCrates commitUpload none) }]

theorem commitText_prints :
    selfAttestation zeroCrates commitText 0 commitKey commitUpload commitProvenance =
        commitAttestation ∧
      clientRequest zeroCrates commitText 0 none false (some commitKey) commitUpload
        commitProvenance = commitRequest := by
  have hprint : commitText.print = (Crates.plainText []).print := rfl
  obtain ⟨hself, hclient⟩ := @clientRequest_congr zeroCrates _ _ hprint
  rw [hself, hclient]
  exact ⟨rfl, rfl⟩

theorem compact_commit :
    Crates.compact commitAttestation.toJson ≠ Crates.compact commitRequest.toJson := by
  decide +kernel

theorem commitText_keeps_attestation : commitText.Keeps commitAttestation.toJson := by
  refine Crates.plainText_keeps List.mem_cons_self fun k hk heq => ?_
  rcases List.mem_pair.1 hk with rfl | rfl
  · rfl
  · exact absurd heq.symm compact_commit

theorem commitText_keeps_request : commitText.Keeps commitRequest.toJson := by
  refine Crates.plainText_keeps (by simp) fun k hk heq => ?_
  rcases List.mem_pair.1 hk with rfl | rfl
  · exact absurd heq compact_commit
  · rfl

theorem commitText_size :
    (commitText.print commitRequest.toJson).utf8ByteSize ≤ bodyLimit := by
  have hsigned : commitRequest.attestation =
      some (String.ofList (Crates.compact commitAttestation.toJson)) := rfl
  have hlength : 4 * (Crates.compact commitRequest.toJson).length ≤ bodyLimit := by
    -- the signed text is nested, and its characters are not read out of a string again
    simp only [DeployRequest.toJson, DeployRequest.toMembers, hsigned, Json.ofOption,
      Crates.compact, Crates.compactMembers, Crates.quoted, String.toList_ofList]
    decide +kernel
  exact (Crates.utf8ByteSize_ofList_le _).trans hlength

theorem signature_delivered_commit :
    receive commitText (commitText.print commitRequest.toJson) = .ok commitRequest ∧
      decodeBundle (zeroCrates.withJson commitText) commitRequest =
        .ok (commitUpload.jamBytes, commitUpload.binBytes) ∧
      verification (zeroCrates.withJson commitText) commitRequest.attestation
        (computeHashes zeroCrates.blake3 commitUpload.jamBytes commitUpload.binBytes
          commitUpload.target)
        commitWorld.host.registry.isTrustedBuilder =
          ("verified", some (pubkeyHex zeroCrates commitKey)) ∧
      ((serve (Paths.ofRoot "/r") (zeroCrates.withJson commitText)
        (Served.oracle ⟨.deploy commitRequest, fun _ => {}⟩) commitWorld
        (.deploy commitRequest)).1.world.host.registry.artifact.lookup
          (computeHashes zeroCrates.blake3 commitUpload.jamBytes commitUpload.binBytes
            commitUpload.target).artifactHash).map (fun row => (row.verifiedStatus, row.builder)) =
        some (some "verified", some (pubkeyHex zeroCrates commitKey)) := by
  have hdelivered := @signature_delivered zeroCrates commitText zeroCrates_reliable
    (Paths.ofRoot "/r") commitUpload commitProvenance 0 (some commitKey) commitKey rfl
    (fun _ => {}) commitWorld (by decide +kernel)
  simp only [commitText_prints] at hdelivered
  exact hdelivered commitText_keeps_attestation commitText_keeps_request commitText_size

end Commit

end Api

end Nockd
