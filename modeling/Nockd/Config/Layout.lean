import Nockd.Config.Paths

/-!
# Which files are apart

A log or pid file ends in its suffix whatever the app is called, so it is never
a file of the store nor a staged kernel. Files below the data root whose names
are plain are told apart by their components.
-/

namespace Nockd

namespace Config

/-- A suffix without a slash goes to the last component. -/
theorem components_append_suffix (path : List Char) {suffix : List Char}
    (h : '/' ∉ suffix) : ∃ front last,
      components path = front ++ [last] ∧
        components (path ++ suffix) = front ++ [last ++ suffix] := by
  induction path with
  | nil => exact ⟨[], [], rfl, components_of_no_slash h⟩
  | cons c path ih =>
      obtain ⟨front, last, hpath, hsuffix⟩ := ih
      by_cases hc : c = '/'
      · exact ⟨[] :: front, last, by simp [components, hc, hpath],
          by simp [components, hc, hsuffix]⟩
      · cases front with
        | nil => exact ⟨[], c :: last, by simp [components, hc, hpath],
            by simp [components, hc, hsuffix]⟩
        | cons w ws => exact ⟨(c :: w) :: ws, last, by simp [components, hc, hpath],
            by simp [components, hc, hsuffix]⟩

/-- A file named with a suffix ends in it. -/
theorem resolve_join_suffix (base name : List Char) {suffix : List Char}
    (h : '/' ∉ suffix) (hlong : 2 < suffix.length) :
    ∃ dir last, resolve (join base (name ++ suffix)) = dir ++ [last ++ suffix] := by
  have hpath : ∃ path, join base (name ++ suffix) = path ++ suffix := by
    unfold join
    split
    · exact ⟨name, rfl⟩
    · split
      · exact ⟨base ++ name, (List.append_assoc _ _ _).symm⟩
      · exact ⟨base ++ '/' :: name, by simp⟩
  obtain ⟨path, hpath⟩ := hpath
  obtain ⟨front, last, -, hcomponents⟩ := components_append_suffix path h
  have hlen : 2 < (last ++ suffix).length := by
    rw [List.length_append]
    omega
  have hwalk (dir : File) : walk dir (last ++ suffix) = dir ++ [last ++ suffix] := by
    unfold walk
    rw [if_neg, if_neg]
    · intro heq
      simp [heq] at hlen
    · rintro (heq | heq) <;> simp [heq] at hlen
  refine ⟨front.foldl walk [], last, ?_⟩
  unfold resolve
  rw [hpath, hcomponents, List.foldl_append, List.foldl_cons, List.foldl_nil, hwalk]

/-- Such a file is no entry whose name does not end in the suffix. -/
theorem resolve_suffix_ne (base base' name : List Char) {suffix part : List Char}
    (h : '/' ∉ suffix) (hlong : 2 < suffix.length) (hpart : Plain part)
    (hne : ¬ suffix <:+ part) :
    resolve (join base (name ++ suffix)) ≠ resolve (join base' part) := by
  obtain ⟨dir, last, hfile⟩ := resolve_join_suffix base name h hlong
  rw [hfile, resolve_join _ hpart]
  intro heq
  have hlast := (List.append_inj' heq rfl).2
  exact hne ⟨last, List.singleton_injective hlast⟩

namespace Paths

variable (paths : Paths) (app hash : String)

theorem pidFile_ne_binPath : resolve (paths.pidFile app) ≠ resolve (paths.binPath hash) :=
  resolve_suffix_ne _ _ _ (by decide) (by decide) (by decide) (by decide)

theorem pidFile_ne_jamPath : resolve (paths.pidFile app) ≠ resolve (paths.jamPath hash) :=
  resolve_suffix_ne _ _ _ (by decide) (by decide) (by decide) (by decide)

theorem pidFile_ne_stagedJam (other : String) :
    resolve (paths.pidFile app) ≠ resolve (paths.stagedJam other) :=
  resolve_suffix_ne _ _ _ (by decide) (by decide) (by decide) (by decide)

theorem logFile_ne_binPath : resolve (paths.logFile app) ≠ resolve (paths.binPath hash) :=
  resolve_suffix_ne _ _ _ (by decide) (by decide) (by decide) (by decide)

theorem logFile_ne_jamPath : resolve (paths.logFile app) ≠ resolve (paths.jamPath hash) :=
  resolve_suffix_ne _ _ _ (by decide) (by decide) (by decide) (by decide)

theorem logFile_ne_stagedJam (other : String) :
    resolve (paths.logFile app) ≠ resolve (paths.stagedJam other) :=
  resolve_suffix_ne _ _ _ (by decide) (by decide) (by decide) (by decide)

theorem pidFile_ne_logFile (other : String) :
    resolve (paths.pidFile app) ≠ resolve (paths.logFile other) := by
  obtain ⟨dir, last, hpid⟩ := resolve_join_suffix paths.run app.toList
    (show '/' ∉ ".pid".toList by decide) (by decide)
  obtain ⟨dir', last', hlog⟩ := resolve_join_suffix paths.logs other.toList
    (show '/' ∉ ".log".toList by decide) (by decide)
  unfold pidFile logFile
  rw [hpid, hlog]
  intro heq
  have hlast := List.singleton_injective (List.append_inj' heq rfl).2
  exact absurd (List.append_inj' hlast rfl).2 (by decide)

theorem stagedJam_ne_binPath : resolve (paths.stagedJam app) ≠ resolve (paths.binPath hash) := by
  unfold stagedJam binPath
  rw [resolve_join _ (by decide), resolve_join _ (by decide)]
  intro h
  exact absurd (List.append_inj' h rfl).2 (by decide)

end Paths

/-! ## Plain names below the data root -/

section Root

variable (root : String)

theorem resolve_binPath {hash : String} (h : Plain hash.toList) :
    resolve ((Paths.ofRoot root).binPath hash) =
      resolve root.toList ++ ["artifacts".toList, hash.toList, "bin".toList] := by
  unfold Paths.binPath Paths.artifactDir Paths.ofRoot
  rw [resolve_join _ (by decide), resolve_join _ h, resolve_join _ (by decide)]
  simp

theorem resolve_jamPath {hash : String} (h : Plain hash.toList) :
    resolve ((Paths.ofRoot root).jamPath hash) =
      resolve root.toList ++ ["artifacts".toList, hash.toList, "out.jam".toList] := by
  unfold Paths.jamPath Paths.artifactDir Paths.ofRoot
  rw [resolve_join _ (by decide), resolve_join _ h, resolve_join _ (by decide)]
  simp

theorem resolve_stagedJam {app : String} (h : Plain app.toList) :
    resolve ((Paths.ofRoot root).stagedJam app) =
      resolve root.toList ++ ["state".toList, app.toList, "out.jam".toList] := by
  unfold Paths.stagedJam Paths.stateDir Paths.ofRoot
  rw [resolve_join _ (by decide), resolve_join _ h, resolve_join _ (by decide)]
  simp

/-- A plain name makes one directory, below that of all states. -/
theorem stateDirs_ofRoot {app : String} (h : Plain app.toList) :
    (Paths.ofRoot root).stateDirs app =
      [resolve root.toList ++ ["state".toList],
        resolve root.toList ++ ["state".toList, app.toList]] := by
  have hhead : app.toList.head? ≠ some '/' := fun hslash => h.1 (List.mem_of_mem_head? hslash)
  unfold Paths.stateDirs dirsOf Paths.ofRoot
  rw [if_neg hhead, components_of_no_slash h.1, resolve_join _ (by decide)]
  simp [walk_plain _ h]

end Root

end Config

end Nockd
