import Mathlib.Data.Int.Notation

/-!
# The body of an attestation
-/

namespace Nockd

namespace Attest

def schema : String := "nockd-attestation/v1"

/-- The signed body; `Value` is the type of JSON values. -/
structure AttestationPayload (Value : Type) where
  schema : String
  artifactHash : String
  kernelHash : String
  targetTriple : String
  provenance : Value
  /-- The builder's ed25519 public key, in hex. -/
  builder : String
  signedAt : ℤ
deriving DecidableEq

structure Attestation (Value : Type) where
  payload : AttestationPayload Value
  /-- The signature of the canonical bytes of `payload`, in hex. -/
  signature : String
deriving DecidableEq

end Attest

end Nockd
