import Nockd.Config.Layout
import Nockd.Store.PutRuns

/-!
# What completed puts leave

`Whole` says of one hash that either none of its paths exists or exactly those
of its bundle do, complete. A completed put makes its own hash whole, and leaves
every other hash alone.
-/

namespace Nockd

namespace Store

open Config

variable {root : String} {hash other : String}

/-- The bundle that each hash stands for: its kernel, if it has one, and its
binary. -/
abbrev Bundles := String → Option (Option Bytes × Bytes)

/-- The artifact is in the store. -/
def Stored (paths : Paths) (d : Disk) (hash : String) : Prop :=
  Plain hash.toList ∧ (d (binFile paths hash)).isSome = true

def Whole (paths : Paths) (bundles : Bundles) (d : Disk) (hash : String) : Prop :=
  (d.pathExists (binFile paths hash) = false ∧ d.pathExists (jamFile paths hash) = false) ∨
    ∃ jam bin, bundles hash = some (jam, bin) ∧ Complete paths hash jam bin d ∧
      (jam = none → d.pathExists (jamFile paths hash) = false)

/-- The paths of every artifact are as before. -/
def SameArtifacts (paths : Paths) (d d' : Disk) : Prop :=
  ∀ hash : String, Plain hash.toList →
    d.SameAt d' (binFile paths hash) ∧ d.SameAt d' (jamFile paths hash)

section Same

variable {paths : Paths} {bundles : Bundles} {d d' : Disk}

theorem SameArtifacts.refl : SameArtifacts paths d d := fun _ _ => ⟨⟨rfl, rfl⟩, ⟨rfl, rfl⟩⟩

theorem SameArtifacts.of_eq (h : d' = d) : SameArtifacts paths d d' := h ▸ .refl

theorem SameArtifacts.set (h : SameArtifacts paths d d') {file : File}
    {node : Option FileNode} (hfile : ∀ hash : String, Plain hash.toList →
      file ≠ binFile paths hash ∧ file ≠ jamFile paths hash) :
    SameArtifacts paths d (d'.set file node) := by
  intro hash hplain
  obtain ⟨hbin, hjam⟩ := hfile hash hplain
  unfold Disk.SameAt
  rw [Disk.set_of_ne _ _ hbin.symm, Disk.set_of_ne _ _ hjam.symm]
  exact h hash hplain

theorem SameArtifacts.makeDir (h : SameArtifacts paths d d') {dir : File}
    (hdir : ∀ hash : String, Plain hash.toList →
      dir ≠ binFile paths hash ∧ dir ≠ jamFile paths hash) :
    SameArtifacts paths d (d'.makeDir dir) := by
  intro hash hplain
  obtain ⟨hbin, hjam⟩ := hdir hash hplain
  unfold Disk.SameAt
  rw [Disk.makeDir_of_ne _ hbin.symm, Disk.makeDir_of_ne _ hjam.symm]
  exact h hash hplain

theorem Stored.congr (h : Stored paths d hash) (hsame : SameArtifacts paths d d') :
    Stored paths d' hash :=
  ⟨h.1, by rw [(hsame hash h.1).1.1]; exact h.2⟩

theorem Whole.of_files (h : Whole paths bundles d hash)
    (hsame : d.SameAt d' (binFile paths hash) ∧ d.SameAt d' (jamFile paths hash)) :
    Whole paths bundles d' hash := by
  obtain ⟨hbin, hjam⟩ := hsame
  unfold Whole Complete at h ⊢
  rwa [hbin.pathExists, hjam.pathExists, hbin.1, hjam.1]

end Same

/-- The files of two artifacts differ. -/
theorem artifactFiles_ne (h : Plain hash.toList) (h' : Plain other.toList) (hne : hash ≠ other)
    {file : File} (hfile : file = binFile (Paths.ofRoot root) other ∨
      file = jamFile (Paths.ofRoot root) other) :
    file ≠ binFile (Paths.ofRoot root) hash ∧ file ≠ jamFile (Paths.ofRoot root) hash := by
  have hchars : other.toList ≠ hash.toList := fun heq => hne (String.toList_inj.1 heq).symm
  unfold binFile jamFile at *
  rw [resolve_binPath root h, resolve_jamPath root h]
  rw [resolve_binPath root h', resolve_jamPath root h'] at hfile
  rcases hfile with rfl | rfl <;> simp [hchars]

/-- A put touches the files of its own hash only. -/
theorem putAll_of_ne {paths : Paths} {jam : Option Bytes} {bin : Bytes} {d : Disk} {file : File}
    (hbin : file ≠ binFile paths hash) (hjam : file ≠ jamFile paths hash) :
    putAll paths hash jam bin d file = d file := by
  have hrest (d' : Disk) : setMode paths hash (writeBin paths hash bin d') file = d' file :=
    (Disk.set_of_ne _ _ hbin).trans (Disk.set_of_ne _ _ hbin)
  unfold putAll
  split
  · rfl
  · cases jam with
    | none => exact hrest d
    | some j => exact (hrest _).trans (Disk.set_of_ne _ _ hjam)

@[simp] theorem putAll_dirs (paths : Paths) (hash : String) (jam : Option Bytes) (bin : Bytes)
    (d : Disk) : (putAll paths hash jam bin d).dirs = d.dirs := by
  unfold putAll
  split
  · rfl
  · cases jam <;> rfl

theorem putAll_whole {paths : Paths} {bundles : Bundles} {jam : Option Bytes} {bin : Bytes}
    {d : Disk} (h : Whole paths bundles d hash) (hbundle : bundles hash = some (jam, bin)) :
    Whole paths bundles (putAll paths hash jam bin d) hash ∧
      (putAll paths hash jam bin d (binFile paths hash)).isSome = true := by
  unfold putAll
  by_cases hhas : has paths hash d = true
  · rw [if_pos hhas]
    refine ⟨h, ?_⟩
    rcases h with ⟨hnone, -⟩ | ⟨jam', bin', -, hcomplete, -⟩
    · rw [has, hnone] at hhas
      cases hhas
    · rw [hcomplete.1]
      rfl
  rw [if_neg hhas]
  have hnojam : jam = none → d.pathExists (jamFile paths hash) = false := by
    intro hnone
    rcases h with ⟨-, hjam⟩ | ⟨jam', bin', hbundle', -, hjam⟩
    · exact hjam
    · rw [hbundle] at hbundle'
      cases hbundle'
      exact hjam hnone
  have hfiles (d' : Disk) :
      setMode paths hash (writeBin paths hash bin d') (binFile paths hash) =
          some { bytes := bin, mode := 0o755 } ∧
        setMode paths hash (writeBin paths hash bin d') (jamFile paths hash) =
          d' (jamFile paths hash) := by
    obtain ⟨hmode, hkeep⟩ := setMode_disk paths hash (writeBin paths hash bin d')
    obtain ⟨hwritten, hsame⟩ := writeBin_disk paths hash bin d'
    obtain ⟨node, hnode, hbytes⟩ := Option.map_eq_some_iff.1 hwritten
    refine ⟨?_, hkeep.trans hsame⟩
    rw [hmode, hnode, Option.map_some, hbytes]
  cases jam with
  | none =>
      obtain ⟨hbin, hjam⟩ := hfiles d
      refine ⟨Or.inr ⟨none, bin, hbundle, ⟨hbin, fun j hj => by cases hj⟩, fun _ => ?_⟩, ?_⟩
      · have hsame : d.SameAt (setMode paths hash (writeBin paths hash bin d))
            (jamFile paths hash) := ⟨hjam, rfl⟩
        exact hsame.pathExists.trans (hnojam rfl)
      · rw [hbin]
        rfl
  | some j =>
      obtain ⟨hbin, hjam⟩ := hfiles (writeJam paths hash j d)
      refine ⟨Or.inr ⟨some j, bin, hbundle, ⟨hbin, ?_⟩, fun hnone => by cases hnone⟩, ?_⟩
      · rintro j' ⟨⟩
        rw [hjam]
        exact (writeJam_disk paths hash j d).1
      · rw [hbin]
        rfl

/-! ## Executables that stay -/

/-- The store has the artifact's binary, and it may be executed. -/
def Runnable (paths : Paths) (d : Disk) (hash : String) : Prop :=
  ∃ node, d (binFile paths hash) = some node ∧ node.mode = 0o755

/-- Every binary in the store may be executed, and those of `d` are still there. -/
structure BinsKept (paths : Paths) (d d' : Disk) : Prop where
  kept : ∀ hash, (d (binFile paths hash)).isSome = true →
    (d' (binFile paths hash)).isSome = true
  mode : ∀ hash node, d' (binFile paths hash) = some node → node.mode = 0o755

section Bins

variable {paths : Paths} {d d' : Disk} {hash : String}

theorem BinsKept.refl (h : ∀ hash node, d (binFile paths hash) = some node → node.mode = 0o755) :
    BinsKept paths d d := ⟨fun _ hsome => hsome, h⟩

theorem BinsKept.runnable (h : BinsKept paths d d') (hbin : Runnable paths d hash) :
    Runnable paths d' hash := by
  obtain ⟨node, hnode, -⟩ := hbin
  obtain ⟨node', hnode'⟩ := Option.isSome_iff_exists.1 (h.kept hash (by rw [hnode]; rfl))
  exact ⟨node', hnode', h.mode hash node' hnode'⟩

theorem BinsKept.set (h : BinsKept paths d d') {file : File} {node : Option FileNode}
    (hfile : ∀ hash, file ≠ binFile paths hash) : BinsKept paths d (d'.set file node) := by
  have hsame (hash : String) : d'.set file node (binFile paths hash) = d' (binFile paths hash) :=
    Disk.set_of_ne _ _ (hfile hash).symm
  exact ⟨fun hash hsome => by rw [hsame]; exact h.kept hash hsome,
    fun hash node hnode => h.mode hash node ((hsame hash).symm.trans hnode)⟩

theorem jamFile_ne_binFile_other (paths : Paths) (hash other : String) :
    jamFile paths hash ≠ binFile paths other := by
  unfold jamFile binFile Paths.jamPath Paths.binPath
  rw [resolve_join _ (by decide), resolve_join _ (by decide)]
  intro h
  exact absurd (List.append_inj' h rfl).2 (by decide)

/-- What a put that finds the files missing makes of its binary. -/
theorem setMode_writeBin (bin : Bytes) :
    setMode paths hash (writeBin paths hash bin d) (binFile paths hash) =
      some { bytes := bin, mode := 0o755 } := by
  obtain ⟨hwritten, -⟩ := writeBin_disk paths hash bin d
  obtain ⟨node, hnode, hbytes⟩ := Option.map_eq_some_iff.1 hwritten
  rw [(setMode_disk paths hash _).1, hnode, Option.map_some, hbytes]

/-- A put keeps what is there, and its own binary is there after it, unless a directory has the
name of it. -/
theorem putAll_binsKept (h : ∀ hash node, d (binFile paths hash) = some node → node.mode = 0o755)
    {hash : String} (hdir : d.dirs (binFile paths hash) = false) (jam : Option Bytes)
    (bin : Bytes) :
    BinsKept paths d (putAll paths hash jam bin d) ∧
      Runnable paths (putAll paths hash jam bin d) hash := by
  by_cases hhas : has paths hash d = true
  · unfold putAll
    rw [if_pos hhas]
    have hsome : (d (binFile paths hash)).isSome = true := by
      simpa [Disk.pathExists, hdir] using (Bool.and_eq_true_iff.1 hhas).1
    obtain ⟨node, hnode⟩ := Option.isSome_iff_exists.1 hsome
    exact ⟨.refl h, node, hnode, h hash node hnode⟩
  · have hown : putAll paths hash jam bin d (binFile paths hash) =
        some { bytes := bin, mode := 0o755 } := by
      unfold putAll
      rw [if_neg hhas]
      exact setMode_writeBin bin
    have hother (other : String) (hne : binFile paths other ≠ binFile paths hash) :
        putAll paths hash jam bin d (binFile paths other) = d (binFile paths other) :=
      putAll_of_ne hne (jamFile_ne_binFile_other paths hash other).symm
    refine ⟨⟨fun other hsome => ?_, fun other node hnode => ?_⟩, _, hown, rfl⟩
    · by_cases hfile : binFile paths other = binFile paths hash
      · rw [hfile, hown]
        rfl
      · rw [hother other hfile]
        exact hsome
    · by_cases hfile : binFile paths other = binFile paths hash
      · rw [hfile, hown] at hnode
        cases hnode
        rfl
      · rw [hother other hfile] at hnode
        exact h other node hnode

end Bins

end Store

end Nockd
