import Nockd.Crates.Plain
import Nockd.Store.Stock

/-!
# Putting what is stored

A completed put returns a record and performs a list of file operations, none if `has`
finds the artifact. `has` looks for both files, so among the bundles of one
hash it takes one with a kernel to make the next put a no-op.
-/

namespace Nockd

namespace Store

open Config

/-- What is put. -/
structure Bundle where
  jam : Option Bytes
  bin : Bytes
  targetTriple : String
deriving DecidableEq, Repr

inductive FileOp where
  | createDir (hash : String)
  | writeJam (hash : String) (jam : Bytes)
  | writeBin (hash : String) (bin : Bytes)
  | setMode (hash : String)
deriving DecidableEq, Repr

variable (paths : Paths) (blake3 : Bytes → String)

def FileOp.perform (d : Disk) : FileOp → Disk
  | .createDir _ => d
  | .writeJam hash jam => Store.writeJam paths hash jam d
  | .writeBin hash bin => Store.writeBin paths hash bin d
  | .setMode hash => Store.setMode paths hash d

def Bundle.record (b : Bundle) : ArtifactRecord := computeHashes blake3 b.jam b.bin b.targetTriple

def Bundle.hash (b : Bundle) : String := (b.record blake3).artifactHash

/-- `Store::put`: the record that it returns and the operations that it performs. -/
def put (d : Disk) (b : Bundle) : ArtifactRecord × List FileOp :=
  let record := b.record blake3
  let hash := record.artifactHash
  if has paths hash d then (record, [])
  else
    (record, .createDir hash :: (b.jam.map (.writeJam hash)).toList ++
      [.writeBin hash b.bin, .setMode hash])

/-- The store after the put. -/
def afterPut (d : Disk) (b : Bundle) : Disk :=
  (put paths blake3 d b).2.foldl (FileOp.perform paths) d

/-- The store after completed puts. -/
def afterPuts (d : Disk) (history : List Bundle) : Disk := history.foldl (afterPut paths blake3) d

variable {paths blake3} {root : String} {d : Disk} {b : Bundle} {history : List Bundle}

/-- The operations of a put make the undisturbed put. -/
theorem afterPut_eq (d : Disk) (b : Bundle) :
    afterPut paths blake3 d b = putAll paths (b.hash blake3) b.jam b.bin d := by
  unfold afterPut put putAll Bundle.hash
  simp only
  split
  · rfl
  · cases b.jam <;> rfl

theorem put_fst (d : Disk) (b : Bundle) : (put paths blake3 d b).1 = b.record blake3 := by
  unfold put
  simp only
  split <;> rfl

theorem put_snd_eq_nil_iff (d : Disk) (b : Bundle) :
    (put paths blake3 d b).2 = [] ↔ has paths (b.hash blake3) d = true := by
  unfold put Bundle.hash
  simp only
  split
  case isTrue hhas => simp [hhas]
  case isFalse hhas => simp [hhas]

/-! ## Which files a history leaves -/

theorem putAll_exists (hash : String) (jam : Option Bytes) (bin : Bytes) (d : Disk) :
    (putAll paths hash jam bin d).pathExists (binFile paths hash) = true ∧
      (putAll paths hash jam bin d).pathExists (jamFile paths hash) =
        (jam.isSome || d.pathExists (jamFile paths hash)) := by
  unfold putAll
  split
  case isTrue hhas =>
    obtain ⟨hbin, hjam⟩ := Bool.and_eq_true_iff.1 hhas
    exact ⟨hbin, by rw [hjam, Bool.or_true]⟩
  case isFalse =>
    unfold Disk.pathExists
    have hjam (d' : Disk) : setMode paths hash (writeBin paths hash bin d') (jamFile paths hash) =
        d' (jamFile paths hash) :=
      (setMode_disk paths hash _).2.trans (writeBin_disk paths hash bin d').2
    cases jam with
    | none => exact ⟨by rw [setMode_writeBin]; rfl, by rw [hjam]; rfl⟩
    | some j =>
        refine ⟨by rw [setMode_writeBin]; rfl, ?_⟩
        obtain ⟨node, hnode, -⟩ := Option.map_eq_some_iff.1 (writeJam_disk paths hash j d).1
        rw [hjam]
        simp [hnode]

/-- No artifact is in the store. -/
def Vacant (paths : Paths) (d : Disk) : Prop :=
  ∀ hash : String, Plain hash.toList →
    d.pathExists (binFile paths hash) = false ∧ d.pathExists (jamFile paths hash) = false

/-- The put of another artifact leaves the files alone. -/
theorem afterPut_of_ne (hblake : ∀ b, Plain (blake3 b).toList) {hash : String}
    (hplain : Plain hash.toList) (hne : b.hash blake3 ≠ hash) :
    d.SameAt (afterPut (Paths.ofRoot root) blake3 d b) (binFile (Paths.ofRoot root) hash) ∧
      d.SameAt (afterPut (Paths.ofRoot root) blake3 d b) (jamFile (Paths.ofRoot root) hash) := by
  have hown : Plain (b.hash blake3).toList := by
    unfold Bundle.hash Bundle.record
    rw [computeHashes_artifactHash]
    exact hblake _
  rw [afterPut_eq]
  constructor
  · obtain ⟨hbin, hjam⟩ := @artifactFiles_ne root _ _ hown hplain hne _ (Or.inl rfl)
    exact ⟨putAll_of_ne hbin hjam, by rw [putAll_dirs]⟩
  · obtain ⟨hbin, hjam⟩ := @artifactFiles_ne root _ _ hown hplain hne _ (Or.inr rfl)
    exact ⟨putAll_of_ne hbin hjam, by rw [putAll_dirs]⟩

/-- A history leaves the binaries of its bundles, and the kernels of those that have one. -/
theorem afterPuts_exists (hblake : ∀ b, Plain (blake3 b).toList)
    (hvacant : Vacant (Paths.ofRoot root) d) {hash : String} (hplain : Plain hash.toList) :
    ((afterPuts (Paths.ofRoot root) blake3 d history).pathExists
        (binFile (Paths.ofRoot root) hash) = true ↔ ∃ c ∈ history, c.hash blake3 = hash) ∧
      ((afterPuts (Paths.ofRoot root) blake3 d history).pathExists
        (jamFile (Paths.ofRoot root) hash) = true ↔
          ∃ c ∈ history, c.jam.isSome = true ∧ c.hash blake3 = hash) := by
  induction history using List.reverseRecOn with
  | nil =>
      obtain ⟨hbin, hjam⟩ := hvacant hash hplain
      simp [afterPuts, hbin, hjam]
  | append_singleton history last ih =>
      have hlast : afterPuts (Paths.ofRoot root) blake3 d (history ++ [last]) =
          afterPut (Paths.ofRoot root) blake3
            (afterPuts (Paths.ofRoot root) blake3 d history) last := by
        unfold afterPuts
        rw [List.foldl_append]
        rfl
      rw [hlast]
      by_cases hhash : last.hash blake3 = hash
      · subst hhash
        obtain ⟨hbin, hjam⟩ := @putAll_exists (Paths.ofRoot root) (last.hash blake3)
          last.jam last.bin (afterPuts (Paths.ofRoot root) blake3 d history)
        rw [afterPut_eq, hbin, hjam, Bool.or_eq_true, ih.2]
        simp [or_and_right, exists_or, or_comm]
      · obtain ⟨hbin, hjam⟩ := @afterPut_of_ne blake3 root
          (afterPuts (Paths.ofRoot root) blake3 d history) last hblake hash hplain hhash
        rw [hbin.pathExists, hjam.pathExists, ih.1, ih.2]
        simp [or_and_right, exists_or, hhash]

/-- After any history of completed puts on a vacant store, putting one of its bundles again
returns the record alone if and only if a bundle of the same hash had a kernel. -/
theorem put_again_iff (hblake : ∀ b, Plain (blake3 b).toList)
    (hvacant : Vacant (Paths.ofRoot root) d) (hb : b ∈ history) :
    put (Paths.ofRoot root) blake3 (afterPuts (Paths.ofRoot root) blake3 d history) b =
        (b.record blake3, []) ↔
      ∃ c ∈ history, c.jam.isSome = true ∧ c.hash blake3 = b.hash blake3 := by
  have hplain : Plain (b.hash blake3).toList := by
    unfold Bundle.hash Bundle.record
    rw [computeHashes_artifactHash]
    exact hblake _
  obtain ⟨hbin, hjam⟩ := @afterPuts_exists blake3 root d history hblake hvacant _ hplain
  rw [Prod.ext_iff, put_fst, put_snd_eq_nil_iff, has, Bool.and_eq_true, hbin, hjam]
  simp only [true_and, and_iff_right_iff_imp]
  exact fun _ => ⟨b, hb, rfl⟩

section Runs

open Crates

/-- A bundle whose kernel is embedded in the binary. -/
def embedded : Bundle := { jam := none, bin := [1], targetTriple := "t" }

theorem vacant_empty (paths : Paths) : Vacant paths {} := fun _ _ => ⟨rfl, rfl⟩

/-- A second put of it writes the binary again. -/
theorem put_again_writes :
    ¬ ∀ (root : String) (blake3 : Bytes → String) (d : Disk) (history : List Bundle) (b : Bundle),
      (∀ b, Plain (blake3 b).toList) → Vacant (Paths.ofRoot root) d → b ∈ history →
        put (Paths.ofRoot root) blake3 (afterPuts (Paths.ofRoot root) blake3 d history) b =
          (b.record blake3, []) := by
  intro h
  have hput := h "/r" (plainCrates [] []).blake3 {} [embedded] embedded
    (plainCrates_blake3_plain [] []) (vacant_empty _) (List.mem_singleton_self _)
  exact absurd (congrArg Prod.snd hput) (by decide)

theorem put_again_iff_kernel :
    put (Paths.ofRoot "/r") (plainCrates [] []).blake3
        (afterPuts (Paths.ofRoot "/r") (plainCrates [] []).blake3 {}
          [{ embedded with jam := some [2] }, embedded]) { embedded with jam := some [2] } =
      (Bundle.record (plainCrates [] []).blake3 { embedded with jam := some [2] }, []) :=
  (put_again_iff (plainCrates_blake3_plain [] []) (vacant_empty _) List.mem_cons_self).2
    ⟨_, List.mem_cons_self, rfl, rfl⟩

end Runs

end Store

end Nockd
