import Nockd.Crates

/-!
# Assessing an attestation

`create` signs the canonical bytes of a payload, `verifySignature` checks them
against the key named in the payload, `binds` compares the two hashes, and
`assess` folds the three into a status.

A verified attestation pins the kernel and the joined bytes of binary and
target triple. Where one ends and the other starts is pinned only by the
payload's own triple, which nothing compares with the deployed one.
-/

namespace Nockd

namespace Attest

open Store

variable (crates : Crates)

/-- The canonical bytes of a payload, which are what is signed. -/
def canonical (payload : AttestationPayload crates.Value) : Bytes := crates.toVec payload

def pubkeyHex (key : Bytes) : String := crates.hexEncode (crates.verifyingKey key)

/-- Create and sign an attestation for an artifact. -/
def create (now : ℤ) (key : Bytes) (artifactHash kernelHash targetTriple : String)
    (provenance : crates.Value) : Attestation crates.Value :=
  let payload :=
    { schema, artifactHash, kernelHash, targetTriple, provenance
      builder := crates.hexEncode (crates.verifyingKey key)
      signedAt := now }
  let sig := crates.sign key (canonical crates payload)
  { payload, signature := crates.hexEncode sig }

/-- `load_key`: the seed of the builder key, if its file can be read and holds one. -/
def loadKey (file : Option Bytes) : Option Bytes := file.filter fun seed => seed.length = 32

/-- Decode hex into exactly `n` bytes (`try_into` a fixed-size array). -/
def decodeExact (n : ℕ) (s : String) : Option Bytes :=
  (crates.hexDecode s).filter fun b => b.length = n

/-- The builder's key, when the signature is valid for it. -/
def verifySignature (att : Attestation crates.Value) : Except String String :=
  match decodeExact crates 32 att.payload.builder with
  | none => .error "invalid builder pubkey"
  | some pk =>
    if crates.validKey pk then
      match decodeExact crates 64 att.signature with
      | none => .error "invalid signature encoding"
      | some sig =>
        if crates.verify pk (canonical crates att.payload) sig then
          .ok att.payload.builder
        else .error "signature verification failed"
    else .error "bad builder pubkey"

def binds {crates : Crates} (att : Attestation crates.Value)
    (artifactHash kernelHash : String) : Bool :=
  att.payload.artifactHash == artifactHash && att.payload.kernelHash == kernelHash

/-- Status and builder of an attestation for a deployed artifact. -/
def assess (att : Attestation crates.Value) (artifactHash kernelHash : String)
    (isTrusted : String → Bool) : String × Option String :=
  match verifySignature crates att with
  | .ok builder =>
    if !binds att artifactHash kernelHash then ("drift", some builder)
    else if isTrusted builder then ("verified", some builder)
    else ("unverified", some builder)
  | .error _ => ("drift", none)

variable {crates}

/-- What a valid signature establishes. -/
theorem verifySignature_ok {att : Attestation crates.Value} {builder : String}
    (h : verifySignature crates att = .ok builder) :
    builder = att.payload.builder ∧
      ∃ pk sig, crates.hexDecode att.payload.builder = some pk ∧
        crates.verify pk (canonical crates att.payload) sig = true := by
  unfold verifySignature at h
  cases hpk : decodeExact crates 32 att.payload.builder with
  | none => simp [hpk] at h
  | some pk =>
      cases hsig : decodeExact crates 64 att.signature with
      | none =>
          cases hvalid : crates.validKey pk <;> simp [hpk, hsig, hvalid] at h
      | some sig =>
          cases hvalid : crates.validKey pk with
          | false => simp [hpk, hvalid] at h
          | true =>
              cases hverify : crates.verify pk (canonical crates att.payload) sig with
              | false => simp [hpk, hsig, hvalid, hverify] at h
              | true =>
                  simp only [hpk, hsig, hvalid, hverify, if_true] at h
                  refine ⟨(Except.ok.inj h).symm, pk, sig, ?_, hverify⟩
                  exact (Option.filter_eq_some_iff.1 hpk).1

/-- The signature that `create` makes is valid. -/
theorem verifySignature_create (h : crates.Reliable) {key : Bytes} (hkey : key.length = 32)
    (now : ℤ) (artifactHash kernelHash targetTriple : String) (provenance : crates.Value) :
    verifySignature crates (create crates now key artifactHash kernelHash targetTriple
      provenance) = .ok (pubkeyHex crates key) := by
  have hdecode {n : ℕ} {b : Bytes} (hlen : b.length = n) :
      decodeExact crates n (crates.hexEncode b) = some b := by
    rw [decodeExact, h.hex, Option.filter_some, if_pos (decide_eq_true hlen)]
  unfold verifySignature create
  simp only [hdecode (h.length_verifyingKey key hkey), hdecode (h.length_sign key _ hkey),
    h.validKey key hkey, h.verify key _ hkey, if_true]
  rfl

theorem assess_create (h : crates.Reliable) {key : Bytes} (hkey : key.length = 32) (now : ℤ)
    (artifactHash kernelHash targetTriple : String) (provenance : crates.Value)
    {isTrusted : String → Bool} (htrusted : isTrusted (pubkeyHex crates key) = true) :
    assess crates (create crates now key artifactHash kernelHash targetTriple provenance)
      artifactHash kernelHash isTrusted = ("verified", some (pubkeyHex crates key)) := by
  unfold assess
  rw [verifySignature_create h hkey]
  simp [binds, create, htrusted]

/-- The status is `verified` exactly for a valid signature of a trusted
builder over the two hashes. -/
theorem assess_eq_verified_iff {att : Attestation crates.Value}
    {artifactHash kernelHash : String} {isTrusted : String → Bool} :
    (assess crates att artifactHash kernelHash isTrusted).1 = "verified" ↔
      verifySignature crates att = .ok att.payload.builder ∧
        att.payload.artifactHash = artifactHash ∧
        att.payload.kernelHash = kernelHash ∧ isTrusted att.payload.builder = true := by
  unfold assess
  cases hsig : verifySignature crates att with
  | error m => simp
  | ok builder =>
      obtain ⟨rfl, -⟩ := verifySignature_ok hsig
      cases hbinds : binds att artifactHash kernelHash with
      | false =>
          simp only [binds, Bool.and_eq_false_iff, beq_eq_false_iff_ne] at hbinds
          simp only [Bool.not_false, if_true, true_and]
          constructor
          · intro h
            exact absurd h (by decide)
          · rintro ⟨hart, hker, -⟩
            rcases hbinds with h | h
            · exact absurd hart h
            · exact absurd hker h
      | true =>
          simp only [binds, Bool.and_eq_true, beq_iff_eq] at hbinds
          cases htrust : isTrusted att.payload.builder with
          | true => simp [hbinds, htrust]
          | false => simp [htrust]

/-- A signed attestation for the two hashes is verified if its builder is trusted. -/
theorem assess_verified_iff_trusted {att : Attestation crates.Value} {builder : String}
    {artifactHash kernelHash : String} {isTrusted : String → Bool}
    (hsig : verifySignature crates att = .ok builder)
    (hbinds : binds att artifactHash kernelHash = true) :
    (assess crates att artifactHash kernelHash isTrusted).1 = "verified" ↔
      isTrusted builder = true := by
  unfold assess
  rw [hsig]
  cases htrust : isTrusted builder <;> simp [hbinds, htrust]

theorem assess_builder_of_verified {att : Attestation crates.Value}
    {artifactHash kernelHash : String} {isTrusted : String → Bool}
    (h : (assess crates att artifactHash kernelHash isTrusted).1 = "verified") :
    (assess crates att artifactHash kernelHash isTrusted).2 =
      some att.payload.builder := by
  obtain ⟨hsig, hart, hker, htrust⟩ := assess_eq_verified_iff.1 h
  simp [assess, hsig, binds, hart, hker, htrust]

end Attest

end Nockd
