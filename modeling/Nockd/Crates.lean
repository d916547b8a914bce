import Nockd.Attest.Payload
import Nockd.Config.Manifest
import Nockd.Store.Hashes

/-!
# Third-party crates

What the daemon calls outside its own source is one structure of parameters.
The properties a result needs of them are named hypotheses of that result.
-/

namespace Nockd

open Attest Config

structure Crates where
  /-- `serde_json::Value`. -/
  Value : Type
  /-- `blake3::hash(..).to_hex()`. -/
  blake3 : Bytes → String
  /-- `base64::engine::general_purpose::STANDARD`. -/
  base64Decode : String → Except String Bytes
  base64Encode : Bytes → String
  hexDecode : String → Option Bytes
  hexEncode : Bytes → String
  /-- The ed25519 public key of a 32-byte seed. -/
  verifyingKey : Bytes → Bytes
  /-- `VerifyingKey::from_bytes` accepts these bytes. -/
  validKey : Bytes → Bool
  sign : Bytes → Bytes → Bytes
  verify : Bytes → Bytes → Bytes → Bool
  /-- `serde_json::to_vec` of a payload. -/
  toVec : AttestationPayload Value → Bytes
  /-- `serde_json::from_str` at `Attestation`. -/
  parseAttestation : String → Option (Attestation Value)
  /-- `toml::from_str` at `DeployManifest`. -/
  parseManifest : String → Option DeploySection
  /-- The standard library's tables have `{:?}` escape a character that is not ASCII. -/
  debugEscapes : Char → Bool := fun _ => false

/-- What the encodings write is read back, and ed25519 accepts what it signed. -/
structure Crates.Reliable (crates : Crates) : Prop where
  base64 : ∀ b, crates.base64Decode (crates.base64Encode b) = .ok b
  hex : ∀ b, crates.hexDecode (crates.hexEncode b) = some b
  length_verifyingKey : ∀ key, key.length = 32 → (crates.verifyingKey key).length = 32
  length_sign : ∀ key msg, key.length = 32 → (crates.sign key msg).length = 64
  validKey : ∀ key, key.length = 32 → crates.validKey (crates.verifyingKey key) = true
  verify : ∀ key msg, key.length = 32 →
    crates.verify (crates.verifyingKey key) msg (crates.sign key msg) = true

end Nockd
