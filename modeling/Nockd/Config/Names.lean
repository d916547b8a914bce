import Nockd.Config.Layout

/-!
# Where app names lead

The state directory, log and pidfile of an app are joins of its name, which is any
text. `course` reads a name lexically: how many directories it climbs above the one it
is joined to, and what it names from there. The files of an app are below the data root
exactly if its name is confined, and those of two apps are apart exactly if the courses of
their names are.
-/

namespace Nockd

namespace Config

/-! ## Courses -/

structure Course where
  climbed : ℕ := 0
  named : File := []
deriving DecidableEq, Repr

namespace Course

def walk (c : Course) (component : List Char) : Course :=
  if component = [] ∨ component = ['.'] then c
  else if component = ['.', '.'] then
    if c.named = [] then { c with climbed := c.climbed + 1 }
    else { c with named := c.named.dropLast }
  else { c with named := c.named ++ [component] }

/-- Where the course leads when it begins at a directory. -/
def goFrom (c : Course) (dir : File) : File := dir.take (dir.length - c.climbed) ++ c.named

theorem goFrom_walk (c : Course) (dir : File) (component : List Char) :
    (c.walk component).goFrom dir = Config.walk (c.goFrom dir) component := by
  unfold walk Config.walk goFrom
  by_cases hdot : component = [] ∨ component = ['.']
  · rw [if_pos hdot, if_pos hdot]
  · rw [if_neg hdot, if_neg hdot]
    by_cases hdots : component = ['.', '.']
    · rw [if_pos hdots, if_pos hdots]
      by_cases hnamed : c.named = []
      · rw [if_pos hnamed, hnamed, List.append_nil, List.append_nil, List.dropLast_eq_take,
          List.take_take, List.length_take]
        congr 1
        dsimp only
        omega
      · rw [if_neg hnamed, List.dropLast_append_of_ne_nil hnamed]
    · rw [if_neg hdots, if_neg hdots, List.append_assoc]

theorem goFrom_foldl (c : Course) (dir : File) (parts : List (List Char)) :
    (parts.foldl walk c).goFrom dir = parts.foldl Config.walk (c.goFrom dir) := by
  induction parts generalizing c with
  | nil => rfl
  | cons part parts ih => rw [List.foldl_cons, List.foldl_cons, ih, goFrom_walk]

end Course

def course (name : List Char) : Course := (components name).foldl Course.walk {}

/-- The directory a joined name begins at. -/
def origin (base : File) (name : List Char) : File :=
  if name.head? = some '/' then [] else base

theorem resolve_join_eq (base name : List Char) :
    resolve (join base name) = (course name).goFrom (origin (resolve base) name) := by
  have hstart (dir : File) : ({} : Course).goFrom dir = dir := by simp [Course.goFrom]
  unfold course origin
  rw [Course.goFrom_foldl, hstart]
  unfold join
  by_cases hslash : name.head? = some '/'
  · rw [if_pos hslash, if_pos hslash]
    rfl
  · rw [if_neg hslash, if_neg hslash]
    by_cases hbase : base = []
    · subst hbase
      rfl
    · by_cases hlast : base.getLast? = some '/'
      · obtain ⟨front, rfl⟩ := List.getLast?_eq_some_iff.1 hlast
        have hfront : components (front ++ ['/']) = components front ++ [[]] :=
          components_append front []
        rw [if_pos (Or.inr hlast), List.append_assoc, List.singleton_append]
        unfold resolve
        rw [components_append, hfront]
        simp [List.foldl_append]
      · rw [if_neg (not_or.2 ⟨hbase, hlast⟩)]
        unfold resolve
        rw [components_append, List.foldl_append]

/-! ## Staying below a directory -/

/-- The file lies strictly below the directory. -/
def Below (dir file : File) : Prop := dir <+: file ∧ dir ≠ file

/-- The name is relative, climbs above nothing, and names something. -/
def Confined (name : List Char) : Prop :=
  name.head? ≠ some '/' ∧ (course name).climbed = 0 ∧ (course name).named ≠ []

instance (name : List Char) : Decidable (Confined name) :=
  inferInstanceAs (Decidable (_ ∧ _ ∧ _))

/-- The files of an app are below the directories that hold such files. -/
structure Paths.Inside (paths : Paths) (app : String) : Prop where
  stateDir : Below (resolve paths.state) (resolve (paths.stateDir app))
  logFile : Below (resolve paths.logs) (resolve (paths.logFile app))
  pidFile : Below (resolve paths.run) (resolve (paths.pidFile app))

theorem prefix_of_below_walk {base dir : File} {component : List Char}
    (h : Below base (walk dir component)) : base <+: dir := by
  obtain ⟨hbelow, hne⟩ := h
  unfold walk at hbelow hne
  split at hbelow
  · exact hbelow
  · split at hbelow
    · exact hbelow.trans (List.dropLast_prefix dir)
    · rw [if_neg ‹_›, if_neg ‹_›] at hne
      exact (List.prefix_concat_iff.1 hbelow).resolve_left hne

theorem origin_append (name : List Char) {suffix : List Char} (h : '/' ∉ suffix)
    (dir : File) : origin dir (name ++ suffix) = origin dir name := by
  unfold origin
  cases name with
  | nil =>
      have hhead : suffix.head? ≠ some '/' := fun hslash => h (List.mem_of_mem_head? hslash)
      simp [hhead]
  | cons c name => rfl

/-- A suffix goes to the last component of a name. -/
theorem exists_last (name : List Char) : ∃ (front : Course) (last : List Char),
    course name = front.walk last ∧ ∀ suffix, '/' ∉ suffix → 2 < suffix.length →
      course (name ++ suffix) = { front with named := front.named ++ [last ++ suffix] } := by
  obtain ⟨front, last, hname⟩ : ∃ front last, components name = front ++ [last] :=
    ⟨_, _, (List.dropLast_append_getLast (components_ne_nil name)).symm⟩
  refine ⟨front.foldl Course.walk {}, last, ?_, fun suffix hslash hlong => ?_⟩
  · rw [course, hname, List.foldl_append]
    rfl
  · obtain ⟨front', last', hname', hsuffix⟩ := components_append_suffix name hslash
    obtain ⟨rfl, hlast⟩ := List.append_inj' (hname.symm.trans hname') rfl
    obtain rfl : last = last' := List.singleton_injective hlast
    have hlen : 2 < (last ++ suffix).length := by
      rw [List.length_append]
      omega
    rw [course, hsuffix, List.foldl_append, List.foldl_cons, List.foldl_nil, Course.walk,
      if_neg, if_neg]
    · intro heq
      simp [heq] at hlen
    · rintro (heq | heq) <;> simp [heq] at hlen

theorem not_both_prefix {dir file : File} {x y : List Char} (hxy : x ≠ y)
    (hx : dir ++ [x] <+: file) (hy : dir ++ [y] <+: file) : False := by
  have heq : dir ++ [x] = dir ++ [y] :=
    (List.prefix_of_prefix_length_le hx hy (by simp)).eq_of_length (by simp)
  exact hxy (List.singleton_injective (List.append_inj' heq rfl).2)

/-- A course that climbs does not see the directory it begins at. -/
theorem Course.goFrom_of_climbed {c : Course} (h : c.climbed ≠ 0) (dir : File)
    (x y : List Char) : c.goFrom (dir ++ [x]) = c.goFrom (dir ++ [y]) := by
  have htake (z : List Char) : (dir ++ [z]).take ((dir ++ [z]).length - c.climbed) =
      dir.take (dir.length + 1 - c.climbed) := by
    rw [List.length_append, List.length_singleton, List.take_append_of_le_length (by omega)]
  rw [goFrom, goFrom, htake x, htake y]

theorem Course.goFrom_of_not_climbed {c : Course} (h : c.climbed = 0) (dir : File) :
    c.goFrom dir = dir ++ c.named := by
  rw [goFrom, h, Nat.sub_zero, List.take_length]

theorem Course.climbed_le_walk (c : Course) (component : List Char) :
    c.climbed ≤ (c.walk component).climbed := by
  unfold walk
  split
  · exact Nat.le_refl _
  · split
    · split
      · exact Nat.le_succ _
      · exact Nat.le_refl _
    · exact Nat.le_refl _

/-- A step that climbs names nothing yet. -/
theorem Course.named_of_climbs {c : Course} (h : c.climbed = 0) {component : List Char}
    (hclimbs : (c.walk component).climbed ≠ 0) : (c.walk component).named = [] := by
  unfold walk at hclimbs ⊢
  split at hclimbs
  · exact absurd h hclimbs
  · split at hclimbs
    · split at hclimbs
      case isTrue hnamed =>
        rw [if_neg ‹_›, if_pos ‹_›, if_pos hnamed]
        exact hnamed
      case isFalse => exact absurd h hclimbs
    · exact absurd h hclimbs

theorem below_goFrom_iff {c : Course} {component : List Char} (h : c.climbed = 0) (dir : File) :
    Below dir ((c.walk component).goFrom dir) ↔
      (c.walk component).climbed = 0 ∧ (c.walk component).named ≠ [] := by
  by_cases hstays : (c.walk component).climbed = 0
  · rw [Course.goFrom_of_not_climbed hstays, Below]
    simp [hstays]
  · refine iff_of_false (fun hbelow => hbelow.2 ?_) fun hconfined => hstays hconfined.1
    have hshort := hbelow.1
    rw [Course.goFrom, Course.named_of_climbs h hstays, List.append_nil] at hshort ⊢
    exact hshort.eq_of_length_le (List.length_take_le' _ _)

section Root

variable (root app : String)

theorem resolve_state :
    resolve (Paths.ofRoot root).state = resolve root.toList ++ ["state".toList] :=
  resolve_join root.toList (show Plain "state".toList by decide)

theorem resolve_logs :
    resolve (Paths.ofRoot root).logs = resolve root.toList ++ ["logs".toList] :=
  resolve_join root.toList (show Plain "logs".toList by decide)

/-- The files of an app are below the data root exactly if its name is confined. -/
theorem inside_iff_confined : (Paths.ofRoot root).Inside app ↔ Confined app.toList := by
  obtain ⟨front, last, hname, hsuffix⟩ := exists_last app.toList
  have hfile (base : List Char) {suffix : List Char} (hslash : '/' ∉ suffix)
      (hlong : 2 < suffix.length) : resolve (join base (app.toList ++ suffix)) =
        front.goFrom (origin (resolve base) app.toList) ++ [last ++ suffix] := by
    rw [resolve_join_eq, hsuffix suffix hslash hlong, origin_append _ hslash]
    exact (List.append_assoc _ _ _).symm
  have hlog := hfile (Paths.ofRoot root).logs (show '/' ∉ ".log".toList by decide) (by decide)
  have hpid := hfile (Paths.ofRoot root).run (show '/' ∉ ".pid".toList by decide) (by decide)
  have hdir : resolve ((Paths.ofRoot root).stateDir app) = (front.walk last).goFrom
      (origin (resolve (Paths.ofRoot root).state) app.toList) := by
    rw [Paths.stateDir, resolve_join_eq, hname]
  unfold Confined
  rw [hname]
  constructor
  · rintro ⟨hin, hinLog, -⟩
    rw [hdir] at hin
    rw [Paths.logFile, hlog] at hinLog
    have hfrontLog := (List.prefix_concat_iff.1 hinLog.1).resolve_left hinLog.2
    have hfront := prefix_of_below_walk (Course.goFrom_walk front _ last ▸ hin)
    rw [resolve_state] at hfront
    rw [resolve_logs] at hfrontLog
    -- A name that leaves its directory leaves the other one to the same place.
    have hrelative : app.toList.head? ≠ some '/' := by
      intro hslash
      rw [origin, if_pos hslash] at hfront hfrontLog
      exact not_both_prefix (by decide) hfront hfrontLog
    rw [origin, if_neg hrelative] at hfront hfrontLog hin
    have hstays : front.climbed = 0 := by
      by_contra hclimbs
      rw [front.goFrom_of_climbed hclimbs _ "logs".toList "state".toList] at hfrontLog
      exact not_both_prefix (by decide) hfront hfrontLog
    exact ⟨hrelative, (below_goFrom_iff hstays _).1 hin⟩
  · rintro ⟨hrelative, hclimbed, hnamed⟩
    have hstays : front.climbed = 0 :=
      Nat.le_zero.1 (hclimbed ▸ front.climbed_le_walk last)
    have hbelow (dir : File) (x : List Char) : Below dir (front.goFrom dir ++ [x]) := by
      rw [Course.goFrom_of_not_climbed hstays, Below, List.append_assoc]
      simp
    refine ⟨?_, ?_, ?_⟩
    · rw [hdir, origin, if_neg hrelative]
      exact (below_goFrom_iff hstays _).2 ⟨hclimbed, hnamed⟩
    · rw [Paths.logFile, hlog, origin, if_neg hrelative]
      exact hbelow _ _
    · rw [Paths.pidFile, hpid, origin, if_neg hrelative]
      exact hbelow _ _

end Root

/-- The name of an app can lead out of the data root. -/
theorem inside_escaped : ¬ ∀ root app : String, (Paths.ofRoot root).Inside app := by
  intro h
  have hbelow := (h "/r" "../../etc").stateDir.1
  exact absurd hbelow (by decide)

/-! ## Two apps -/

/-- Neither state directory lies in the other or is the other, and the logs and the pidfiles
are different. -/
structure Paths.Apart (paths : Paths) (a b : String) : Prop where
  left : ¬ resolve (paths.stateDir a) <+: resolve (paths.stateDir b)
  right : ¬ resolve (paths.stateDir b) <+: resolve (paths.stateDir a)
  logFile : resolve (paths.logFile a) ≠ resolve (paths.logFile b)
  pidFile : resolve (paths.pidFile a) ≠ resolve (paths.pidFile b)

/-- The course of a name that is joined to a directory; an absolute one climbs to the top. -/
def courseIn (base : File) (name : List Char) : Course :=
  if name.head? = some '/' then { course name with climbed := base.length } else course name

/-- What a course names, seen from the higher of the two points that it and another climb
to. -/
def seen (base : File) (c other : Course) : File :=
  (base.take (base.length - c.climbed)).drop (base.length - other.climbed) ++ c.named

theorem resolve_join_courseIn (base name : List Char) :
    resolve (join base name) = (courseIn (resolve base) name).goFrom (resolve base) := by
  rw [resolve_join_eq]
  unfold courseIn origin
  split
  · simp [Course.goFrom]
  · rfl

theorem goFrom_eq_seen (base : File) (c other : Course) : c.goFrom base =
    base.take (min (base.length - c.climbed) (base.length - other.climbed)) ++
      seen base c other := by
  rw [Nat.min_comm, ← List.take_take, seen, ← List.append_assoc, List.take_append_drop]
  rfl

/-- Two courses from one directory are compared by what is seen of them. -/
theorem goFrom_prefix_iff (base : File) (c d : Course) :
    c.goFrom base <+: d.goFrom base ↔ seen base c d <+: seen base d c := by
  rw [goFrom_eq_seen base c d, goFrom_eq_seen base d c,
    Nat.min_comm (base.length - d.climbed), List.prefix_append_right_inj]

theorem goFrom_eq_iff (base : File) (c d : Course) :
    c.goFrom base = d.goFrom base ↔ seen base c d = seen base d c := by
  rw [goFrom_eq_seen base c d, goFrom_eq_seen base d c,
    Nat.min_comm (base.length - d.climbed), List.append_right_inj]

/-- Below a directory, neither name leads to where the other leads or into it. -/
def Diverge (base : List Char) (a b : List Char) : Prop :=
  let c := courseIn (resolve base) a
  let d := courseIn (resolve base) b
  ¬ seen (resolve base) c d <+: seen (resolve base) d c ∧
    ¬ seen (resolve base) d c <+: seen (resolve base) c d

/-- Below a directory, the two names lead to different places. -/
def Differ (base : List Char) (a b : List Char) : Prop :=
  let c := courseIn (resolve base) a
  let d := courseIn (resolve base) b
  seen (resolve base) c d ≠ seen (resolve base) d c

/-- The files of two apps are apart exactly if the courses of their names are. -/
theorem apart_iff_courses (paths : Paths) (a b : String) :
    paths.Apart a b ↔ Diverge paths.state a.toList b.toList ∧
      Differ paths.logs (a.toList ++ ".log".toList) (b.toList ++ ".log".toList) ∧
      Differ paths.run (a.toList ++ ".pid".toList) (b.toList ++ ".pid".toList) := by
  unfold Diverge Differ
  simp only [← goFrom_prefix_iff, ← goFrom_eq_iff, Ne, ← resolve_join_courseIn]
  exact ⟨fun h => ⟨⟨h.left, h.right⟩, h.logFile, h.pidFile⟩,
    fun h => ⟨h.1.1, h.1.2, h.2.1, h.2.2⟩⟩

theorem Plain.append {name suffix : List Char} (h : Plain name) (hslash : '/' ∉ suffix)
    (hlong : 2 < suffix.length) : Plain (name ++ suffix) := by
  have hlen : 2 < (name ++ suffix).length := by
    rw [List.length_append]
    omega
  refine ⟨fun hmem => (List.mem_append.1 hmem).elim h.1 hslash, ?_, ?_, ?_⟩ <;>
    exact fun heq => by simp [heq] at hlen

/-- Different names of one plain component are apart. -/
theorem apart_of_plain (paths : Paths) {a b : String} (ha : Plain a.toList)
    (hb : Plain b.toList) (hne : a ≠ b) : paths.Apart a b := by
  have hchars : a.toList ≠ b.toList := fun heq => hne (String.toList_injective heq)
  have hsuffix {suffix : List Char} (hslash : '/' ∉ suffix) (hlong : 2 < suffix.length)
      (base : List Char) : resolve (join base (a.toList ++ suffix)) ≠
        resolve (join base (b.toList ++ suffix)) := by
    rw [resolve_join _ (ha.append hslash hlong), resolve_join _ (hb.append hslash hlong)]
    intro heq
    have hlast := List.singleton_injective (List.append_inj' heq rfl).2
    exact hchars (List.append_cancel_right hlast)
  refine ⟨?_, ?_, hsuffix (by decide) (by decide) _, hsuffix (by decide) (by decide) _⟩ <;>
    rw [Paths.stateDir, Paths.stateDir, resolve_join _ ha, resolve_join _ hb,
      List.prefix_append_right_inj]
  · exact fun h => hchars (List.singleton_injective (h.eq_of_length rfl))
  · exact fun h => hchars (List.singleton_injective (h.eq_of_length rfl)).symm

theorem not_apart_alias : ¬ ∀ (root a b : String), a ≠ b → (Paths.ofRoot root).Apart a b := by
  intro h
  exact (h "/r" "a" "./a" (by decide)).left (by decide)

end Config

end Nockd
