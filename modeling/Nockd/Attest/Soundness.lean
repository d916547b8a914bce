import Nockd.Attest.Assess
import Nockd.Crates.Plain

/-!
# What a verified attestation says about the deployed bundle

A `Signing` is one call of `create` by a builder, over the hashes of the bundle
it was built for. Unforgeability is the hypothesis that a valid signature of a
trusted key stands for one of the recorded signings.
-/

namespace Nockd

namespace Attest

open Store Crates

/-- One bundle signed by a builder. -/
structure Signing (crates : Crates) where
  key : Bytes
  jam : Option Bytes
  bin : Bytes
  targetTriple : String
  provenance : crates.Value
  signedAt : ℤ

namespace Signing

variable {crates : Crates}

def attestation (s : Signing crates) : Attestation crates.Value :=
  let record := computeHashes crates.blake3 s.jam s.bin s.targetTriple
  create crates s.signedAt s.key record.artifactHash record.kernelHash s.targetTriple
    s.provenance

/-- The signing is of exactly this bundle. -/
def IsOf (s : Signing crates) (jam : Option Bytes) (bin : Bytes)
    (targetTriple : String) : Prop :=
  s.jam = jam ∧ s.bin = bin ∧ s.targetTriple = targetTriple

end Signing

variable (crates : Crates)

/-- A valid signature of a trusted key was made in one of `signings`. -/
def Unforgeable (isTrusted : String → Bool) (signings : List (Signing crates)) : Prop :=
  ∀ builder pk msg sig, isTrusted builder = true → crates.hexDecode builder = some pk →
    crates.verify pk msg sig = true →
      ∃ s ∈ signings, crates.verifyingKey s.key = pk ∧
        msg = canonical crates s.attestation.payload

/-- A trusted builder signed, in the payload at hand, exactly this bundle. -/
def SignedByTrusted (isTrusted : String → Bool) (signings : List (Signing crates))
    (att : Attestation crates.Value) (jam : Option Bytes) (bin : Bytes)
    (targetTriple : String) : Prop :=
  ∃ s ∈ signings, isTrusted (pubkeyHex crates s.key) = true ∧
    s.attestation.payload = att.payload ∧ s.IsOf jam bin targetTriple

variable {crates}

/-- A verified attestation carries the payload of a recorded signing. -/
theorem exists_signing_of_verified {isTrusted : String → Bool}
    {signings : List (Signing crates)} {att : Attestation crates.Value}
    {artifactHash kernelHash : String} (hcanonical : Function.Injective crates.toVec)
    (hunforgeable : Unforgeable crates isTrusted signings)
    (hverified : (assess crates att artifactHash kernelHash isTrusted).1 = "verified") :
    ∃ s ∈ signings, isTrusted (pubkeyHex crates s.key) = true ∧
      s.attestation.payload = att.payload ∧ att.payload.artifactHash = artifactHash ∧
      att.payload.kernelHash = kernelHash := by
  obtain ⟨hsig, hart, hker, htrust⟩ := assess_eq_verified_iff.1 hverified
  obtain ⟨-, pk, sig, hpk, hverify⟩ := verifySignature_ok hsig
  obtain ⟨s, hs, -, hmsg⟩ := hunforgeable _ pk _ sig htrust hpk hverify
  have hpayload : s.attestation.payload = att.payload := (hcanonical hmsg).symm
  refine ⟨s, hs, ?_, hpayload, hart, hker⟩
  have hbuilder : pubkeyHex crates s.key = att.payload.builder :=
    congrArg AttestationPayload.builder hpayload
  rw [hbuilder]
  exact htrust

/-- Equal hash pairs pin the kernel and the joined bytes of binary and
triple. -/
theorem hashes_pin_bundle {jam₁ jam₂ : Option Bytes} {bin₁ bin₂ : Bytes}
    {t₁ t₂ : String} (hinj : Function.Injective crates.blake3)
    (hne : ∀ b, crates.blake3 b ≠ "")
    (hart : (computeHashes crates.blake3 jam₁ bin₁ t₁).artifactHash =
      (computeHashes crates.blake3 jam₂ bin₂ t₂).artifactHash)
    (hker : (computeHashes crates.blake3 jam₁ bin₁ t₁).kernelHash =
      (computeHashes crates.blake3 jam₂ bin₂ t₂).kernelHash) :
    jam₁ = jam₂ ∧ bin₁ ++ asBytes t₁ = bin₂ ++ asBytes t₂ := by
  rw [computeHashes_artifactHash, computeHashes_artifactHash, hinj.eq_iff] at hart
  rw [computeHashes_kernelHash, computeHashes_kernelHash] at hker
  have hjam : jam₁ = jam₂ := by
    cases jam₁ with
    | none =>
        cases jam₂ with
        | none => rfl
        | some j => exact absurd hker.symm (hne j)
    | some i =>
        cases jam₂ with
        | none => exact absurd hker (hne i)
        | some j => exact congrArg some (hinj hker)
  subst hjam
  refine ⟨rfl, ?_⟩
  simpa [bundleBytes] using hart

/-- When a deployed bundle is assessed as verified, its exact parts are those
that a trusted builder signed in that payload if and only if the payload names
the deployed target triple. -/
theorem verified_bundle_iff {crates : Crates} {isTrusted : String → Bool}
    {signings : List (Signing crates)} (hinj : Function.Injective crates.blake3)
    (hne : ∀ b, crates.blake3 b ≠ "") (hcanonical : Function.Injective crates.toVec)
    (hunforgeable : Unforgeable crates isTrusted signings)
    (att : Attestation crates.Value) (jam : Option Bytes) (bin : Bytes)
    (targetTriple : String)
    (hverified : (assess crates att
      (computeHashes crates.blake3 jam bin targetTriple).artifactHash
      (computeHashes crates.blake3 jam bin targetTriple).kernelHash isTrusted).1 =
        "verified") :
    SignedByTrusted crates isTrusted signings att jam bin targetTriple ↔
      att.payload.targetTriple = targetTriple := by
  constructor
  · rintro ⟨s, -, -, hpayload, -, -, rfl⟩
    exact congrArg AttestationPayload.targetTriple hpayload.symm
  · intro htriple
    obtain ⟨s, hs, htrust, hpayload, hart, hker⟩ :=
      exists_signing_of_verified hcanonical hunforgeable hverified
    have hsTriple : s.targetTriple = targetTriple := by
      rw [← htriple, ← hpayload]
      rfl
    have hsArt : s.attestation.payload.artifactHash =
        (computeHashes crates.blake3 jam bin targetTriple).artifactHash := by
      rw [hpayload]
      exact hart
    have hsKer : s.attestation.payload.kernelHash =
        (computeHashes crates.blake3 jam bin targetTriple).kernelHash := by
      rw [hpayload]
      exact hker
    obtain ⟨hjam, hbin⟩ := hashes_pin_bundle hinj hne hsArt hsKer
    rw [hsTriple] at hbin
    exact ⟨s, hs, htrust, hpayload, hjam, List.append_cancel_right hbin, hsTriple⟩

section Resplit

/-- The builder signs the one-byte binary `a` for the triple `b`. -/
def resplitKey : Bytes := List.replicate 32 0x6b

def resplitCrates : Crates :=
  let unsigned := plainCrates [] []
  let record := computeHashes unsigned.blake3 none [0x61] "b"
  let att := create unsigned 0 resplitKey record.artifactHash record.kernelHash "b" ()
  plainCrates [(resplitKey, plainToVec att.payload)] []

def resplitSigning : Signing resplitCrates :=
  { key := resplitKey, jam := none, bin := [0x61], targetTriple := "b"
    provenance := (), signedAt := 0 }

def resplitTrusted (builder : String) : Bool := builder == pubkeyHex resplitCrates resplitKey

theorem resplit_unforgeable :
    Unforgeable resplitCrates resplitTrusted [resplitSigning] := by
  intro builder pk msg sig htrust hpk hverify
  refine ⟨resplitSigning, List.mem_singleton_self _, ?_⟩
  have hmem := of_decide_eq_true hverify
  obtain ⟨rfl, rfl⟩ := Prod.mk.inj (List.mem_singleton.1 hmem)
  exact ⟨rfl, rfl⟩

/-- The attestation for binary `a` and triple `b` also verifies the deploy of
binary `ab` with an empty triple, which nobody signed. -/
theorem verified_bundle_unsound :
    ¬ ∀ (crates : Crates) (isTrusted : String → Bool) (signings : List (Signing crates)),
      Function.Injective crates.blake3 → (∀ b, crates.blake3 b ≠ "") →
      Function.Injective crates.toVec → Unforgeable crates isTrusted signings →
      ∀ (att : Attestation crates.Value) (jam : Option Bytes) (bin : Bytes)
        (targetTriple : String),
        (assess crates att (computeHashes crates.blake3 jam bin targetTriple).artifactHash
          (computeHashes crates.blake3 jam bin targetTriple).kernelHash isTrusted).1 =
            "verified" →
          SignedByTrusted crates isTrusted signings att jam bin targetTriple := by
  intro h
  obtain ⟨s, hs, -, -, -, hbin, -⟩ := h resplitCrates resplitTrusted [resplitSigning]
    (plainCrates_blake3_injective _ _) (plainCrates_blake3_ne _ _) plainToVec_injective
    resplit_unforgeable resplitSigning.attestation none [0x61, 0x62] "" (by decide +kernel)
  rw [List.mem_singleton.1 hs] at hbin
  exact absurd hbin (by decide)

theorem verified_bundle_iff_resplit :
    SignedByTrusted resplitCrates resplitTrusted [resplitSigning]
      resplitSigning.attestation none [0x61] "b" ↔
        resplitSigning.attestation.payload.targetTriple = "b" :=
  verified_bundle_iff (plainCrates_blake3_injective _ _) (plainCrates_blake3_ne _ _)
    plainToVec_injective resplit_unforgeable _ none [0x61] "b" (by decide +kernel)

end Resplit

end Attest

end Nockd
