import Mathlib.Data.List.Basic
import Nockd.Store.Hashes

/-!
# Paths of the data root

Paths are texts joined as `PathBuf::join` joins them: an absolute part replaces
the base. `resolve` gives the file a path names, as its components below the
file-system root with `.`, `..` and repeated slashes removed, so two texts name
one file exactly when they resolve alike.
-/

namespace Nockd

namespace Config

/-- A file, as the components of its path below the root. -/
abbrev File := List (List Char)

/-- `PathBuf::join` on texts. -/
def join (base part : List Char) : List Char :=
  if part.head? = some '/' then part
  else if base = [] ∨ base.getLast? = some '/' then base ++ part
  else base ++ '/' :: part

/-- One component of a lexical walk. -/
def walk (dir : File) (component : List Char) : File :=
  if component = [] ∨ component = ['.'] then dir
  else if component = ['.', '.'] then dir.dropLast
  else dir ++ [component]

/-- The text between the slashes. -/
def components : List Char → List (List Char)
  | [] => [[]]
  | c :: cs =>
    if c = '/' then [] :: components cs
    else match components cs with
      | w :: ws => (c :: w) :: ws
      | [] => [[c]]

def resolve (path : List Char) : File := (components path).foldl walk []

/-- The directories on the way to a path that is joined to `base`, the path itself being
the last. -/
def dirsOf (base part : List Char) : List File :=
  (components part).scanl walk (if part.head? = some '/' then [] else resolve base)

/-- The layout below the data root. -/
structure Paths where
  artifacts : List Char
  state : List Char
  logs : List Char
  run : List Char

def Paths.ofRoot (root : String) : Paths where
  artifacts := join root.toList "artifacts".toList
  state := join root.toList "state".toList
  logs := join root.toList "logs".toList
  run := join root.toList "run".toList

namespace Paths

variable (paths : Paths)

def stateDir (app : String) : List Char := join paths.state app.toList

/-- What `create_dir_all` of the state directory makes. -/
def stateDirs (app : String) : List File := dirsOf paths.state app.toList

def logFile (app : String) : List Char := join paths.logs (app.toList ++ ".log".toList)

def pidFile (app : String) : List Char := join paths.run (app.toList ++ ".pid".toList)

/-! The store's paths of an artifact. -/

def artifactDir (artifactHash : String) : List Char :=
  join paths.artifacts artifactHash.toList

def binPath (artifactHash : String) : List Char :=
  join (paths.artifactDir artifactHash) "bin".toList

def jamPath (artifactHash : String) : List Char :=
  join (paths.artifactDir artifactHash) "out.jam".toList

/-- The kernel a template app reads from its working directory. -/
def stagedJam (app : String) : List Char := join (paths.stateDir app) "out.jam".toList

end Paths

/-! ## Joining one plain component -/

theorem components_ne_nil (path : List Char) : components path ≠ [] := by
  cases path with
  | nil => simp [components]
  | cons c cs =>
      by_cases hc : c = '/'
      · simp [components, hc]
      · cases h : components cs <;> simp [components, hc, h]

theorem components_append (a b : List Char) :
    components (a ++ '/' :: b) = components a ++ components b := by
  induction a with
  | nil => simp [components]
  | cons c a ih =>
      by_cases hc : c = '/'
      · simp [components, hc, ih]
      · cases h : components a with
        | nil => exact absurd h (components_ne_nil a)
        | cons w ws => simp [components, hc, ih, h]

theorem components_of_no_slash {part : List Char} (h : '/' ∉ part) :
    components part = [part] := by
  induction part with
  | nil => rfl
  | cons c cs ih =>
      simp only [List.mem_cons, not_or] at h
      simp [components, Ne.symm h.1, ih h.2]

/-- A part that is neither empty, nor a dot component, nor cut by a slash. -/
def Plain (part : List Char) : Prop :=
  '/' ∉ part ∧ part ≠ [] ∧ part ≠ ['.'] ∧ part ≠ ['.', '.']

instance (part : List Char) : Decidable (Plain part) :=
  inferInstanceAs (Decidable (_ ∧ _ ∧ _ ∧ _))

@[simp] theorem walk_nil (dir : File) : walk dir [] = dir := by
  simp [walk]

theorem walk_plain (dir : File) {part : List Char} (h : Plain part) :
    walk dir part = dir ++ [part] := by
  obtain ⟨-, hne, hdot, hdots⟩ := h
  simp [walk, hne, hdot, hdots]

/-- A plain part names an entry of the directory it is joined to. -/
theorem resolve_join (base : List Char) {part : List Char} (h : Plain part) :
    resolve (join base part) = resolve base ++ [part] := by
  have hcomp := components_of_no_slash h.1
  have hhead : part.head? ≠ some '/' := by
    intro hslash
    exact h.1 (List.mem_of_mem_head? hslash)
  unfold join resolve
  rw [if_neg hhead]
  by_cases hbase : base = []
  · subst hbase
    simp [hcomp, components, walk_plain _ h]
  · by_cases hlast : base.getLast? = some '/'
    · obtain ⟨front, rfl⟩ := List.getLast?_eq_some_iff.1 hlast
      have hfront : components (front ++ ['/']) = components front ++ [[]] :=
        components_append front []
      rw [if_pos (Or.inr hlast), List.append_assoc, List.singleton_append,
        components_append, hfront, hcomp]
      simp [List.foldl_append, walk_plain _ h]
    · rw [if_neg (not_or.2 ⟨hbase, hlast⟩), components_append, hcomp]
      simp [List.foldl_append, walk_plain _ h]

/-! ## The disk -/

structure FileNode where
  bytes : Bytes
  mode : ℕ
deriving DecidableEq, Repr

/-- The files of a machine, and the directories that have been made on it. -/
structure Disk where
  files : File → Option FileNode := fun _ => none
  dirs : File → Bool := fun _ => false

namespace Disk

instance : CoeFun Disk fun _ => File → Option FileNode := ⟨files⟩

/-- `Path::exists`, which does not ask for a file. -/
def pathExists (d : Disk) (file : File) : Bool := (d file).isSome || d.dirs file

theorem pathExists_eq_false {d : Disk} {file : File} :
    d.pathExists file = false ↔ d file = none ∧ d.dirs file = false := by
  simp [pathExists]

def set (d : Disk) (file : File) (node : Option FileNode) : Disk :=
  { d with files := Function.update d.files file node }

/-- The directory is there, whether it was made now or before. -/
def makeDir (d : Disk) (dir : File) : Disk :=
  { d with dirs := Function.update d.dirs dir true }

@[simp] theorem set_self (d : Disk) (file : File) (node : Option FileNode) :
    d.set file node file = node := by
  simp [set]

theorem set_of_ne (d : Disk) {file other : File} (node : Option FileNode)
    (h : other ≠ file) : d.set file node other = d other := by
  simp [set, h]

@[simp] theorem set_dirs (d : Disk) (file : File) (node : Option FileNode) :
    (d.set file node).dirs = d.dirs := rfl

@[simp] theorem makeDir_files (d : Disk) (dir file : File) : d.makeDir dir file = d file := rfl

theorem makeDir_of_ne (d : Disk) {dir other : File} (h : other ≠ dir) :
    (d.makeDir dir).dirs other = d.dirs other := by
  simp [makeDir, h]

/-- The path is the same on both disks. -/
def SameAt (d d' : Disk) (file : File) : Prop := d' file = d file ∧ d'.dirs file = d.dirs file

theorem SameAt.pathExists {d d' : Disk} {file : File} (h : SameAt d d' file) :
    d'.pathExists file = d.pathExists file := by
  unfold Disk.pathExists
  rw [h.1, h.2]

/-- A written file: a new one gets the default mode, an old one keeps its. -/
def written (d : Disk) (file : File) (bytes : Bytes) : FileNode :=
  { bytes, mode := ((d file).map (·.mode)).getD 0o644 }

/-- `std::fs::write`. -/
def write (d : Disk) (file : File) (bytes : Bytes) : Disk :=
  d.set file (some (d.written file bytes))

end Disk

end Config

end Nockd
