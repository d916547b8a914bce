import Nockd.Config.Paths
import Nockd.Crates
import Nockd.Data.Json

/-!
# Plain stand-ins for the crates

`plainCrates signed attestations` behaves as the real crates do on short
inputs: hash, hex and base64 spell bytes as characters, the canonical bytes of
a payload are a prefix code of its fields, and a signature is valid exactly for
the messages listed in `signed`. Runs on fixed inputs are evaluated with it.
-/

namespace Nockd

namespace Crates

open Attest Store

/-- Every byte is announced by a one, and a zero ends the text. -/
def encodeBytes : Bytes → Bytes
  | [] => [0]
  | b :: bs => 1 :: b :: encodeBytes bs

theorem encodeBytes_append_inj {b c s t : Bytes}
    (h : encodeBytes b ++ s = encodeBytes c ++ t) : b = c ∧ s = t := by
  induction b generalizing c with
  | nil =>
      cases c with
      | nil => simpa [encodeBytes] using h
      | cons x c => simp [encodeBytes] at h
  | cons x b ih =>
      cases c with
      | nil => simp [encodeBytes] at h
      | cons y c =>
          simp only [encodeBytes, List.cons_append, List.cons.injEq, true_and] at h
          obtain ⟨hbc, hst⟩ := ih h.2
          exact ⟨by rw [h.1, hbc], hst⟩

def encodeInt : ℤ → Bytes
  | .ofNat n => encodeBytes (0 :: List.replicate n 0)
  | .negSucc n => encodeBytes (1 :: List.replicate n 0)

theorem encodeInt_append_inj {i j : ℤ} {s t : Bytes}
    (h : encodeInt i ++ s = encodeInt j ++ t) : i = j := by
  have hlen {m n : ℕ} (h : List.replicate m (0 : UInt8) = List.replicate n 0) : m = n := by
    simpa using congrArg List.length h
  cases i with
  | ofNat m =>
      cases j with
      | ofNat n =>
          have hb := (encodeBytes_append_inj h).1
          rw [hlen (List.cons.inj hb).2]
      | negSucc n => exact absurd (List.cons.inj (encodeBytes_append_inj h).1).1 (by decide)
  | negSucc m =>
      cases j with
      | ofNat n => exact absurd (List.cons.inj (encodeBytes_append_inj h).1).1 (by decide)
      | negSucc n =>
          have hb := (encodeBytes_append_inj h).1
          rw [hlen (List.cons.inj hb).2]

def plainToVec (p : AttestationPayload Unit) : Bytes :=
  encodeBytes (asBytes p.schema) ++ (encodeBytes (asBytes p.artifactHash) ++
    (encodeBytes (asBytes p.kernelHash) ++ (encodeBytes (asBytes p.targetTriple) ++
      (encodeBytes (asBytes p.builder) ++ (encodeInt p.signedAt ++ [])))))

theorem plainToVec_injective : Function.Injective plainToVec := by
  intro p q h
  obtain ⟨hschema, h⟩ := encodeBytes_append_inj h
  obtain ⟨hart, h⟩ := encodeBytes_append_inj h
  obtain ⟨hker, h⟩ := encodeBytes_append_inj h
  obtain ⟨htriple, h⟩ := encodeBytes_append_inj h
  obtain ⟨hbuilder, h⟩ := encodeBytes_append_inj h
  have hsigned := encodeInt_append_inj h
  cases p
  cases q
  simp only [AttestationPayload.mk.injEq]
  exact ⟨asBytes_injective hschema, asBytes_injective hart, asBytes_injective hker,
    asBytes_injective htriple, trivial, asBytes_injective hbuilder, hsigned⟩

/-- Characters as bytes, the inverse of `plainHash`. -/
def plainBytes (s : String) : Bytes := s.toList.map fun c => UInt8.ofNat c.toNat

theorem plainBytes_plainHash (b : Bytes) : plainBytes (plainHash b) = b := by
  unfold plainBytes plainHash
  rw [String.toList_ofList, List.map_map]
  refine (List.map_congr_left fun x _ => ?_).trans (List.map_id b)
  change UInt8.ofNat (plainChar x).toNat = x
  rw [toNat_plainChar]
  apply UInt8.toNat_inj.1
  have hlt := x.toNat_lt
  rw [UInt8.toNat_ofNat']
  omega

def plainCrates (signed : List (Bytes × Bytes))
    (attestations : List (String × Attestation Unit)) : Crates where
  Value := Unit
  blake3 b := plainHash (0x23 :: b)
  base64Decode s := .ok (plainBytes s)
  base64Encode := plainHash
  hexDecode s := some (plainBytes s)
  hexEncode := plainHash
  verifyingKey seed := seed
  validKey _ := true
  sign _ _ := List.replicate 64 0
  verify pk msg _ := decide ((pk, msg) ∈ signed)
  toVec := plainToVec
  parseAttestation s := attestations.lookup s
  parseManifest _ := none

theorem plainCrates_blake3_injective (signed : List (Bytes × Bytes))
    (attestations : List (String × Attestation Unit)) :
    Function.Injective (plainCrates signed attestations).blake3 := by
  intro b c h
  exact (List.cons.inj (plainHash_injective h)).2

theorem plainCrates_blake3_ne (signed : List (Bytes × Bytes))
    (attestations : List (String × Attestation Unit)) (b : Bytes) :
    (plainCrates signed attestations).blake3 b ≠ "" := by
  intro h
  have hchars := congrArg String.toList h
  simp [plainCrates, plainHash] at hchars

theorem plainCrates_blake3_plain (signed : List (Bytes × Bytes))
    (attestations : List (String × Attestation Unit)) (b : Bytes) :
    Config.Plain ((plainCrates signed attestations).blake3 b).toList := by
  have hchars : ((plainCrates signed attestations).blake3 b).toList =
      plainChar 0x23 :: b.map plainChar := String.toList_ofList
  have hne (x : UInt8) (c : Char) (hc : c.toNat < 0x100) : plainChar x ≠ c := by
    intro heq
    have hnat := toNat_plainChar x
    rw [heq] at hnat
    omega
  rw [hchars]
  refine ⟨?_, by simp, ?_, ?_⟩
  · rw [← List.map_cons, List.mem_map]
    rintro ⟨x, -, hx⟩
    exact hne x '/' (by decide) hx
  · exact fun heq => hne _ '.' (by decide) (List.cons.inj heq).1
  · exact fun heq => hne _ '.' (by decide) (List.cons.inj heq).1

/-! ## Text of documents -/

/-- A string in quotes, without control characters. -/
def quoted (s : String) : List Char :=
  '\x22' :: (s.toList.flatMap fun c => if c = '\x22' ∨ c = '\x5c' then ['\x5c', c] else [c]) ++
    ['\x22']

mutual

/-- The compact text of a document. -/
def compact : Json → List Char
  | .null => "null".toList
  | .bool b => (toString b).toList
  | .num (.int n) => (toString n).toList
  | .num (.float text) => text.toList
  | .str s => quoted s
  | .arr xs => '[' :: compactAll xs
  | .obj xs => '\x7b' :: compactMembers xs

def compactAll : List Json → List Char
  | [] => [']']
  | [x] => compact x ++ [']']
  | x :: xs => compact x ++ ',' :: compactAll xs

def compactMembers : List (String × Json) → List Char
  | [] => ['\x7d']
  | [(k, x)] => quoted k ++ ':' :: (compact x ++ ['\x7d'])
  | (k, x) :: xs => quoted k ++ ':' :: (compact x ++ ',' :: compactMembers xs)

end

theorem utf8ByteSize_ofList_le (cs : List Char) :
    (String.ofList cs).utf8ByteSize ≤ 4 * cs.length := by
  induction cs with
  | nil => exact Nat.le_refl 0
  | cons c cs ih =>
      have hsize : (String.ofList [c]).utf8ByteSize = c.utf8Size := String.utf8ByteSize_singleton
      have hc := c.utf8Size_le_four
      rw [← List.singleton_append, String.ofList_append, String.utf8ByteSize_append, hsize,
        List.length_append, List.length_singleton]
      omega

/-- Compact text, of which the listed documents are read. -/
def plainText (documents : List Json) : JsonText where
  print j := String.ofList (compact j)
  parse s := documents.find? fun j => String.ofList (compact j) = s

theorem plainText_keeps {documents : List Json} {j : Json} (hmem : j ∈ documents)
    (h : ∀ k ∈ documents, compact k = compact j → k = j) : (plainText documents).Keeps j := by
  have hfound : ((plainText documents).parse ((plainText documents).print j)).isSome := by
    simp only [plainText, List.find?_isSome, decide_eq_true_eq]
    exact ⟨j, hmem, rfl⟩
  obtain ⟨k, hk⟩ := Option.isSome_iff_exists.1 hfound
  have htext : String.ofList (compact k) = String.ofList (compact j) := by
    have htrue := List.find?_some hk
    exact of_decide_eq_true htrue
  have heq : k = j := h k (List.mem_of_find?_eq_some hk) (String.ofList_injective htext)
  exact heq ▸ hk

end Crates

end Nockd
