import Mathlib.Data.List.TakeDrop
import Nockd.Config.Icon

/-!
# Icon settings that name files

The extension of an image is looked up on the path that is read, after the setting has been
joined to a directory. A setting that names a file brings its own extension there.
-/

namespace Nockd

namespace Config

/-- The last component is empty or a dot, so the path can only be the one of a directory. -/
def FolderPath (path : List Char) : Prop :=
  path.reverse.takeWhile (· ≠ '/') = [] ∨ path.reverse.takeWhile (· ≠ '/') = ['.']

instance (path : List Char) : Decidable (FolderPath path) := inferInstanceAs (Decidable (_ ∨ _))

/-- Only files are read. -/
def FilesOnly (files : List Char → Option Bytes) : Prop :=
  ∀ path, FolderPath path → files path = none

/-- The setting is the path of a file, without white space around it. -/
structure IconPath (icon : String) : Prop where
  path : "data:".toList.isPrefixOf icon.toList = false
  trimmed : trim icon.toList = icon.toList

/-! ## Extensions -/

/-- What stands before a name in a reversed path. -/
def Before (rest : List Char) : Prop := rest = [] ∨ rest.head? = some '/'

theorem reverse_join (dir part : List Char) :
    ∃ rest, (join dir part).reverse = part.reverse ++ rest ∧ Before rest := by
  unfold join
  split
  case isTrue => exact ⟨[], by simp, Or.inl rfl⟩
  case isFalse =>
    split
    case isTrue hdir =>
      refine ⟨dir.reverse, by simp, ?_⟩
      rcases hdir with rfl | hlast
      · exact Or.inl rfl
      · exact Or.inr (by rwa [List.head?_reverse])
    case isFalse => exact ⟨'/' :: dir.reverse, by simp, Or.inr rfl⟩

theorem takeWhile_append_before {name rest : List Char} (h : Before rest) :
    (name ++ rest).takeWhile (· ≠ '/') = name.takeWhile (· ≠ '/') := by
  induction name with
  | nil =>
      rcases h with rfl | h
      · rfl
      · obtain ⟨rest, rfl⟩ := List.head?_eq_some_iff.1 h
        rfl
  | cons c name ih =>
      by_cases hc : c = '/'
      · simp [hc]
      · simpa [hc] using ih

/-- A reversed path that does not end in slashes and dots alone keeps its end. -/
theorem dropTail_append {path rest : List Char} (hne : dropTail path ≠ [])
    (hdot : dropTail path ≠ ['.']) : dropTail (path ++ rest) = dropTail path ++ rest := by
  fun_induction dropTail path with
  | case1 path ih => exact ih hne hdot
  | case2 path ih => exact ih hne hdot
  | case3 path hslash hdots =>
      match path with
      | [] => exact absurd rfl hne
      | [c] =>
          rw [List.singleton_append, dropTail]
          · rintro _ ⟨⟩
            exact hslash _ rfl
          · rintro _ ⟨⟩
            exact hdot rfl
      | c :: d :: path =>
          rw [List.cons_append, List.cons_append, dropTail]
          · rintro _ ⟨⟩
            exact hslash _ rfl
          · rintro _ ⟨⟩
            exact hdots _ rfl

/-- A path that has an extension brings it along. -/
theorem extension_join {part ext : List Char} (h : extension part = some ext)
    (dir : List Char) : extension (join dir part) = some ext := by
  obtain ⟨rest, hrest, hbefore⟩ := reverse_join dir part
  have hname : dropTail part.reverse ≠ [] ∧ dropTail part.reverse ≠ ['.'] := by
    constructor
    · intro hnil
      simp [extension, hnil, List.span_eq_takeWhile_dropWhile] at h
    · intro hdot
      simp [extension, hdot] at h
  unfold extension at h ⊢
  rwa [hrest, dropTail_append hname.1 hname.2, takeWhile_append_before hbefore]

theorem dropTail_of_not_folder {path : List Char} (h : ¬ FolderPath path) :
    dropTail path.reverse = path.reverse := by
  unfold FolderPath at h
  generalize path.reverse = path at h
  rw [dropTail]
  · rintro cs rfl
    exact h (Or.inl (by simp))
  · rintro cs rfl
    exact h (Or.inr (by simp))

/-- A path of a file has the extension of the setting, if that is none as well. -/
theorem extension_join_of_file {dir part : List Char} (h : ¬ FolderPath (join dir part)) :
    extension (join dir part) = extension part := by
  obtain ⟨rest, hrest, hbefore⟩ := reverse_join dir part
  have hpart : ¬ FolderPath part := by
    unfold FolderPath at h ⊢
    rwa [hrest, takeWhile_append_before hbefore] at h
  unfold extension
  rw [dropTail_of_not_folder h, dropTail_of_not_folder hpart, hrest,
    takeWhile_append_before hbefore]

theorem mimeOf_ne_none {ext : Option (List Char)} (h : mimeOf ext ≠ none) : ∃ e, ext = some e := by
  cases ext with
  | none => exact absurd rfl h
  | some e => exact ⟨e, rfl⟩

/-! ## Resolving -/

variable (crates : Crates)

/-- The URI of an image file. -/
def imageUri (mime : String) (bytes : Bytes) : String :=
  "data:" ++ mime ++ ";base64," ++ crates.base64Encode bytes

variable {crates} {files : List Char → Option Bytes} {dir : List Char} {icon : String}
  {bytes : Bytes}

/-- An image file within the cap becomes its URI. -/
theorem resolveIcon_image (hicon : IconPath icon)
    (hread : files (join dir icon.toList) = some bytes) (hsize : bytes.length ≤ maxIconBytes)
    {mime : String} (hmime : mimeOf (extension icon.toList) = some mime) :
    resolveIcon crates files dir icon = .ok (imageUri crates mime bytes) := by
  obtain ⟨ext, hext⟩ := mimeOf_ne_none (ne_of_eq_of_ne hmime (Option.some_ne_none mime))
  have hpath : mimeOf (extension (join dir icon.toList)) = some mime := by
    rw [extension_join hext, ← hext, hmime]
  unfold resolveIcon
  simp only [hicon.trimmed, hicon.path, Bool.false_eq_true, if_false, hread]
  rw [if_neg (Nat.not_lt.2 hsize)]
  simp only [hpath, imageUri]

/-- A file above the cap, or one of another type, does not. -/
theorem resolveIcon_refused (hfiles : FilesOnly files) (hicon : IconPath icon)
    (hread : files (join dir icon.toList) = some bytes)
    (hbad : maxIconBytes < bytes.length ∨ mimeOf (extension icon.toList) = none) :
    ∃ e, resolveIcon crates files dir icon = .error e := by
  have hfile : ¬ FolderPath (join dir icon.toList) := by
    intro hfolder
    rw [hfiles _ hfolder] at hread
    cases hread
  unfold resolveIcon
  simp only [hicon.trimmed, hicon.path, Bool.false_eq_true, if_false, hread]
  by_cases hsize : maxIconBytes < bytes.length
  · exact ⟨_, if_pos hsize⟩
  · have hmime := hbad.resolve_left hsize
    rw [if_neg hsize, extension_join_of_file hfile, hmime]
    exact ⟨_, rfl⟩

end Config

end Nockd
