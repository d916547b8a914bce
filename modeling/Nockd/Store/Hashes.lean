import Mathlib.Data.List.Basic
import Mathlib.Logic.Function.Basic

/-!
# Artifact identity

`computeHashes` feeds the optional kernel, the binary and the UTF-8 target
triple one after another into a single BLAKE3 hasher, and hashes the kernel on
its own. The hash function is the parameter `blake3`, which stands for
`blake3::hash(..).to_hex()`.

Two bundles have one artifact hash exactly when their joined bytes are equal,
so the hash identifies a bundle only among bundles that are cut at the same
places. The kernel hash pins the kernel, and a known triple then pins the
binary.
-/

namespace Nockd

abbrev Bytes := List UInt8

/-- The UTF-8 bytes of a string (`str::as_bytes`). -/
def asBytes (s : String) : Bytes := s.toByteArray.data.toList

theorem asBytes_injective : Function.Injective asBytes := by
  intro s t h
  apply String.toByteArray_inj.1
  apply ByteArray.ext
  exact Array.toList_inj.1 h

namespace Store

structure ArtifactRecord where
  artifactHash : String
  kernelHash : String
  targetTriple : String
deriving DecidableEq, Repr

/-- `Store::compute_hashes`. The hasher is the list of the bytes fed so far. -/
def computeHashes (blake3 : Bytes → String) (jam : Option Bytes) (bin : Bytes)
    (targetTriple : String) : ArtifactRecord :=
  let kernelHash := (jam.map blake3).getD ""
  let hasher : Bytes := []
  let hasher := match jam with
    | some j => hasher ++ j
    | none => hasher
  let hasher := hasher ++ bin
  let hasher := hasher ++ asBytes targetTriple
  { artifactHash := blake3 hasher, kernelHash, targetTriple }

/-- The bytes that an artifact hash covers. -/
def bundleBytes (jam : Option Bytes) (bin : Bytes) (targetTriple : String) : Bytes :=
  jam.getD [] ++ bin ++ asBytes targetTriple

theorem computeHashes_artifactHash (blake3 : Bytes → String) (jam : Option Bytes)
    (bin : Bytes) (triple : String) :
    (computeHashes blake3 jam bin triple).artifactHash =
      blake3 (bundleBytes jam bin triple) := by
  cases jam with
  | none => simp [computeHashes, bundleBytes]
  | some j => simp [computeHashes, bundleBytes]

@[simp] theorem computeHashes_targetTriple (blake3 : Bytes → String)
    (jam : Option Bytes) (bin : Bytes) (triple : String) :
    (computeHashes blake3 jam bin triple).targetTriple = triple := rfl

theorem computeHashes_kernelHash (blake3 : Bytes → String) (jam : Option Bytes)
    (bin : Bytes) (triple : String) :
    (computeHashes blake3 jam bin triple).kernelHash = (jam.map blake3).getD "" := rfl

/-- Two bundles are cut at the same places: both or neither ship a kernel, and
kernels and binaries have equal lengths. -/
def SameCuts (jam₁ : Option Bytes) (bin₁ : Bytes) (jam₂ : Option Bytes)
    (bin₂ : Bytes) : Prop :=
  jam₁.isSome = jam₂.isSome ∧ (jam₁.getD []).length = (jam₂.getD []).length ∧
    bin₁.length = bin₂.length

/-- Joined bytes cut at the same places have equal parts. -/
theorem bundleBytes_inj_of_sameCuts {jam₁ jam₂ : Option Bytes} {bin₁ bin₂ : Bytes}
    {t₁ t₂ : String} (hcuts : SameCuts jam₁ bin₁ jam₂ bin₂)
    (hbytes : bundleBytes jam₁ bin₁ t₁ = bundleBytes jam₂ bin₂ t₂) :
    jam₁ = jam₂ ∧ bin₁ = bin₂ ∧ t₁ = t₂ := by
  obtain ⟨hsome, hjamLen, hbinLen⟩ := hcuts
  unfold bundleBytes at hbytes
  have hfront : (jam₁.getD [] ++ bin₁).length = (jam₂.getD [] ++ bin₂).length := by
    rw [List.length_append, List.length_append, hjamLen, hbinLen]
  obtain ⟨hjamBin, htriple⟩ := List.append_inj hbytes hfront
  obtain ⟨hjam, hbin⟩ := List.append_inj hjamBin hjamLen
  refine ⟨?_, hbin, asBytes_injective htriple⟩
  cases jam₁ with
  | none =>
      cases jam₂ with
      | none => rfl
      | some j => cases hsome
  | some i =>
      cases jam₂ with
      | none => cases hsome
      | some j => exact congrArg some hjam

/-- For an injective hash, equal artifact hashes give equal bundles exactly
when joined bytes that agree were cut at the same places. -/
theorem artifactHash_identifies_iff (blake3 : Bytes → String)
    (hinj : Function.Injective blake3) (jam₁ jam₂ : Option Bytes) (bin₁ bin₂ : Bytes)
    (t₁ t₂ : String) :
    ((computeHashes blake3 jam₁ bin₁ t₁).artifactHash =
          (computeHashes blake3 jam₂ bin₂ t₂).artifactHash →
        jam₁ = jam₂ ∧ bin₁ = bin₂ ∧ t₁ = t₂) ↔
      (bundleBytes jam₁ bin₁ t₁ ≠ bundleBytes jam₂ bin₂ t₂ ∨
        SameCuts jam₁ bin₁ jam₂ bin₂) := by
  rw [computeHashes_artifactHash, computeHashes_artifactHash, hinj.eq_iff]
  constructor
  · intro h
    by_cases hbytes : bundleBytes jam₁ bin₁ t₁ = bundleBytes jam₂ bin₂ t₂
    · obtain ⟨rfl, rfl, rfl⟩ := h hbytes
      exact Or.inr ⟨rfl, rfl, rfl⟩
    · exact Or.inl hbytes
  · rintro (hne | hcuts) hbytes
    · exact absurd hbytes hne
    · exact bundleBytes_inj_of_sameCuts hcuts hbytes

/-- A byte as a character past the ASCII range. -/
def plainChar (x : UInt8) : Char := Char.ofNat (0x100 + x.toNat)

theorem toNat_plainChar (x : UInt8) : (plainChar x).toNat = 0x100 + x.toNat := by
  have hlt := x.toNat_lt
  have hvalid : (0x100 + x.toNat).isValidChar := Or.inl (by omega)
  unfold plainChar
  rw [Char.ofNat, dif_pos hvalid]
  rfl

/-- Bytes spelled as characters, a hash that loses nothing. -/
def plainHash (b : Bytes) : String := String.ofList (b.map plainChar)

theorem plainHash_injective : Function.Injective plainHash := by
  intro b c h
  have hchars := String.ofList_injective h
  refine List.map_injective_iff.2 ?_ hchars
  intro x y hxy
  have hnat := congrArg Char.toNat hxy
  rw [toNat_plainChar, toNat_plainChar] at hnat
  exact UInt8.toNat_inj.1 (Nat.add_left_cancel hnat)

/-- A byte moved from the binary to the target triple leaves the artifact hash
as it was. -/
theorem artifactHash_not_injective :
    ¬ ∀ blake3 : Bytes → String, Function.Injective blake3 →
      ∀ (jam₁ jam₂ : Option Bytes) (bin₁ bin₂ : Bytes) (t₁ t₂ : String),
        (computeHashes blake3 jam₁ bin₁ t₁).artifactHash =
            (computeHashes blake3 jam₂ bin₂ t₂).artifactHash →
          jam₁ = jam₂ ∧ bin₁ = bin₂ ∧ t₁ = t₂ := by
  intro h
  have hhash : (computeHashes plainHash none [0x7f, 0x61] "b").artifactHash =
      (computeHashes plainHash none [0x7f] "ab").artifactHash := by
    rw [computeHashes_artifactHash, computeHashes_artifactHash]
    exact congrArg plainHash (by decide)
  have hbin := (h plainHash plainHash_injective _ _ _ _ _ _ hhash).2.1
  exact absurd hbin (by decide)

theorem artifactHash_identifies_iff_plainHash :
    ((computeHashes plainHash (some [1, 2]) [3] "a").artifactHash =
          (computeHashes plainHash (some [1]) [2, 3] "a").artifactHash →
        (some [1, 2] : Option Bytes) = some [1] ∧ ([3] : Bytes) = [2, 3] ∧ "a" = "a") ↔
      (bundleBytes (some [1, 2]) [3] "a" ≠ bundleBytes (some [1]) [2, 3] "a" ∨
        SameCuts (some [1, 2]) [3] (some [1]) [2, 3]) :=
  artifactHash_identifies_iff plainHash plainHash_injective (some [1, 2]) (some [1]) [3]
    [2, 3] "a" "a"

end Store

end Nockd
