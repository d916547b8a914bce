import Mathlib.Data.List.Infix
import Mathlib.Data.Set.Insert

/-!
# Substitution in texts

`Filled rules s t` says that `t` is `s` with the replacement of a rule put in for every match of
its pattern, from left to right and all at once: nothing is looked for in what has been put in.
Two substitutions one after the other are a simultaneous one exactly if the first makes no match
for the second, which is a condition on the text and on what is put into it (`Fresh`).
-/

namespace Substitution

variable {α : Type}

abbrev Rule (α : Type) := List α × List α

/-- All rules at once. -/
inductive Filled (rules : Set (Rule α)) : List α → List α → Prop where
  | nil : Filled rules [] []
  | put {pat rep s t : List α} : (pat, rep) ∈ rules → Filled rules s t →
      Filled rules (pat ++ s) (rep ++ t)
  | keep {c : α} {s t : List α} : (∀ rule ∈ rules, ¬ rule.1 <+: c :: s) → Filled rules s t →
      Filled rules (c :: s) (c :: t)

/-- With `rep` read for each `pat`, the text begins with the word. -/
inductive Begins (pat rep : List α) : List α → List α → Prop where
  | nil {s : List α} : Begins pat rep [] s
  | char {c : α} {w s : List α} : ¬ pat <+: c :: s → Begins pat rep w s →
      Begins pat rep (c :: w) (c :: s)
  | within {w s : List α} : w <+: rep → Begins pat rep w (pat ++ s)
  | past {w s : List α} : Begins pat rep w s → Begins pat rep (rep ++ w) (pat ++ s)

/-- The word begins in `lead`, and what is left of it in the text behind it. -/
def BeginsFrom (pat rep lead w s : List α) : Prop :=
  w <+: lead ∨ ∃ v, w = lead ++ v ∧ Begins pat rep v s

/-- Putting `rep` in for `pat` makes no new `word`. -/
structure Fresh (pat rep word s : List α) : Prop where
  /-- One that begins in the text itself is there already. -/
  own : ∀ x y, s = x ++ y → ¬ pat <+: y → Begins pat rep word y → word <+: y
  /-- None begins in what is put in. -/
  put : ∀ x y v, s = x ++ pat ++ y → v ≠ [] → v <:+ rep → ¬ BeginsFrom pat rep v word y

/-- The mark stands at the beginning of the pattern, and nowhere else in it. -/
def Marked (m : α) (pat : List α) : Prop := ∃ p, pat = m :: p ∧ m ∉ p

/-- Two different patterns with one mark, neither of them the beginning of the other. -/
structure Apart (m : α) (pat word : List α) : Prop where
  left : Marked m pat
  right : Marked m word
  pat_word : ¬ pat <+: word
  word_pat : ¬ word <+: pat

variable {rules : Set (Rule α)} {pat rep word q s t r v w : List α} {c m : α}

/-! ## Reading a text pattern by pattern -/

theorem parse_induction {pats : Set (List α)} (hne : [] ∉ pats) {motive : List α → Prop}
    (nil : motive []) (put : ∀ pat ∈ pats, ∀ s, motive s → motive (pat ++ s))
    (keep : ∀ c s, (∀ pat ∈ pats, ¬ pat <+: c :: s) → motive s → motive (c :: s))
    (s : List α) : motive s := by
  induction hn : s.length using Nat.strong_induction_on generalizing s with
  | _ n ih =>
      cases s with
      | nil => exact nil
      | cons c s =>
          by_cases hmatch : ∃ pat ∈ pats, pat <+: c :: s
          · obtain ⟨pat, hpat, rest, hrest⟩ := hmatch
            have hlen : 0 < pat.length := List.length_pos_iff.2 fun heq => hne (heq ▸ hpat)
            rw [← hrest]
            refine put pat hpat rest (ih rest.length ?_ rest rfl)
            rw [← hn, ← hrest, List.length_append]
            omega
          · simp only [not_exists, not_and] at hmatch
            refine keep c s hmatch (ih s.length ?_ s rfl)
            rw [← hn, List.length_cons]
            exact Nat.lt_succ_self _

theorem Filled.of_nil (hne : ∀ rule ∈ rules, rule.1 ≠ []) (h : Filled rules [] t) : t = [] := by
  generalize hs : ([] : List α) = s at h
  cases h with
  | nil => rfl
  | put hmem _ => exact absurd (List.append_eq_nil_iff.1 hs.symm).1 (hne _ hmem)
  | keep => cases hs

theorem Filled.of_append
    (hfree : ∀ rule ∈ rules, ∀ rule' ∈ rules, rule.1 <+: rule'.1 → rule = rule')
    (hne : pat ≠ []) (hmem : (pat, rep) ∈ rules) (h : Filled rules (pat ++ s) t) :
    ∃ t', t = rep ++ t' ∧ Filled rules s t' := by
  generalize hu : pat ++ s = u at h
  cases h with
  | nil => exact absurd (List.append_eq_nil_iff.1 hu).1 hne
  | @put pat' rep' s' t' hmem' h =>
      have hsame : (pat, rep) = (pat', rep') := by
        rcases List.prefix_or_prefix_of_prefix (List.prefix_append pat s)
          (hu ▸ List.prefix_append pat' s') with hpre | hpre
        · exact hfree _ hmem _ hmem' hpre
        · exact (hfree _ hmem' _ hmem hpre).symm
      cases hsame
      rw [List.append_cancel_left hu]
      exact ⟨t', rfl, h⟩
  | keep hno h => exact absurd (hu ▸ List.prefix_append pat s) (hno _ hmem)

theorem Filled.of_cons (hno : ∀ rule ∈ rules, ¬ rule.1 <+: c :: s) (h : Filled rules (c :: s) t) :
    ∃ t', t = c :: t' ∧ Filled rules s t' := by
  generalize hu : c :: s = u at h
  cases h with
  | nil => cases hu
  | @put pat' rep' s' t' hmem' h => exact absurd (hu ▸ List.prefix_append pat' s') (hno _ hmem')
  | keep _ h =>
      cases hu
      exact ⟨_, rfl, h⟩

/-- What comes of a text is determined. -/
theorem Filled.unique
    (hfree : ∀ rule ∈ rules, ∀ rule' ∈ rules, rule.1 <+: rule'.1 → rule = rule')
    (hne : ∀ rule ∈ rules, rule.1 ≠ []) (h : Filled rules s t) (h' : Filled rules s r) :
    t = r := by
  induction h generalizing r with
  | nil => exact (h'.of_nil hne).symm
  | put hmem _ ih =>
      obtain ⟨r', rfl, hrest⟩ := h'.of_append hfree (hne _ hmem) hmem
      rw [ih hrest]
  | keep hno _ ih =>
      obtain ⟨r', rfl, hrest⟩ := h'.of_cons hno
      rw [ih hrest]

/-! ## Marks -/

theorem Marked.ne_nil (h : Marked m pat) : pat ≠ [] := by
  obtain ⟨p, rfl, -⟩ := h
  exact List.cons_ne_nil _ _

theorem Marked.not_start (h : Marked m pat) (hc : c ≠ m) : ¬ pat <+: c :: s := by
  obtain ⟨p, rfl, -⟩ := h
  rintro ⟨t, ht⟩
  exact hc (List.cons.inj ht).1.symm

theorem Apart.ne_nil (h : Apart m pat word) : [] ∉ ({pat, word} : Set (List α)) := by
  simp [Ne.symm h.left.ne_nil, Ne.symm h.right.ne_nil]

theorem Apart.not_pat (h : Apart m pat word) : ¬ pat <+: word ++ s := fun hpre =>
  (List.prefix_or_prefix_of_prefix hpre (List.prefix_append word s)).elim h.pat_word h.word_pat

theorem Apart.not_word (h : Apart m pat word) : ¬ word <+: pat ++ s := fun hpre =>
  (List.prefix_or_prefix_of_prefix hpre (List.prefix_append pat s)).elim h.word_pat h.pat_word

/-- Where no pattern can begin, nothing is put in. -/
theorem Filled.append_of_not_mem (hmarked : ∀ rule ∈ rules, Marked m rule.1) (hv : m ∉ v)
    (h : Filled rules s t) : Filled rules (v ++ s) (v ++ t) := by
  induction v with
  | nil => exact h
  | cons c v ih =>
      rw [List.mem_cons, not_or] at hv
      exact .keep (fun rule hrule => (hmarked rule hrule).not_start (Ne.symm hv.1)) (ih hv.2)

/-- A pattern of no rule is left as it is. -/
theorem Filled.append_marked (hmarked : ∀ rule ∈ rules, Marked m rule.1) (hv : Marked m v)
    (hno : ∀ rule ∈ rules, ¬ rule.1 <+: v ++ s) (h : Filled rules s t) :
    Filled rules (v ++ s) (v ++ t) := by
  obtain ⟨p, rfl, hp⟩ := hv
  exact .keep hno (h.append_of_not_mem hmarked hp)

theorem Filled.exists (hne : ∀ rule ∈ rules, rule.1 ≠ []) (s : List α) : ∃ t, Filled rules s t := by
  have hpats : [] ∉ Prod.fst '' rules := by
    rintro ⟨rule, hrule, hnil⟩
    exact hne rule hrule hnil
  induction s using parse_induction hpats with
  | nil => exact ⟨[], .nil⟩
  | put pat hpat s ih =>
      obtain ⟨t, ht⟩ := ih
      obtain ⟨⟨_, rep⟩, hrule, rfl⟩ := hpat
      exact ⟨rep ++ t, .put hrule ht⟩
  | keep c s hno ih =>
      obtain ⟨t, ht⟩ := ih
      exact ⟨c :: t, .keep (fun rule hrule => hno _ (Set.mem_image_of_mem _ hrule)) ht⟩

/-! ## Reading over what is put in -/

/-- What is put in for one pattern stands before what is put into the rest. -/
theorem Filled.of_append_one (hne : pat ≠ []) (h : Filled {(pat, rep)} (pat ++ s) t) :
    ∃ t', t = rep ++ t' ∧ Filled {(pat, rep)} s t' :=
  h.of_append (by simp) hne (Set.mem_singleton _)

theorem Filled.of_cons_one (hno : ¬ pat <+: c :: s) (h : Filled {(pat, rep)} (c :: s) t) :
    ∃ t', t = c :: t' ∧ Filled {(pat, rep)} s t' :=
  h.of_cons (by simpa using hno)

theorem begins_iff (hne : pat ≠ []) (h : Filled {(pat, rep)} s t) :
    Begins pat rep w s ↔ w <+: t := by
  constructor
  · intro hbegins
    induction hbegins generalizing t with
    | nil => exact List.nil_prefix
    | char hno _ ih =>
        obtain ⟨t', rfl, hrest⟩ := h.of_cons_one hno
        exact (List.prefix_cons_inj _).2 (ih hrest)
    | within hw =>
        obtain ⟨t', rfl, -⟩ := h.of_append_one hne
        exact hw.trans (List.prefix_append _ _)
    | past _ ih =>
        obtain ⟨t', rfl, hrest⟩ := h.of_append_one hne
        exact (List.prefix_append_right_inj _).2 (ih hrest)
  · intro hw
    induction h generalizing w with
    | nil =>
        rw [List.prefix_nil.1 hw]
        exact .nil
    | @put pat' rep' s t hmem _ ih =>
        obtain ⟨rfl, rfl⟩ := Prod.mk.inj (Set.mem_singleton_iff.1 hmem)
        rcases List.prefix_or_prefix_of_prefix hw (List.prefix_append _ t) with hshort | ⟨v, rfl⟩
        · exact .within hshort
        · exact .past (ih ((List.prefix_append_right_inj _).1 hw))
    | @keep c s t hno _ ih =>
        cases w with
        | nil => exact .nil
        | cons b w =>
            obtain ⟨rfl, hrest⟩ := List.cons_prefix_cons.1 hw
            exact .char (hno _ (Set.mem_singleton _)) (ih hrest)

theorem beginsFrom_iff (hne : pat ≠ []) (h : Filled {(pat, rep)} s t) :
    BeginsFrom pat rep v w s ↔ w <+: v ++ t := by
  constructor
  · rintro (hw | ⟨u, rfl, hu⟩)
    · exact hw.trans (List.prefix_append _ _)
    · exact (List.prefix_append_right_inj _).2 ((begins_iff hne h).1 hu)
  · intro hw
    rcases List.prefix_or_prefix_of_prefix hw (List.prefix_append v t) with hshort | ⟨u, rfl⟩
    · exact Or.inl hshort
    · exact Or.inr ⟨u, rfl, (begins_iff hne h).2 ((List.prefix_append_right_inj _).1 hw)⟩

/-- A word stays as it is. -/
theorem Filled.of_append_word (h : Apart m pat word) (hfilled : Filled {(pat, rep)} (word ++ s) t) :
    ∃ t', t = word ++ t' ∧ Filled {(pat, rep)} s t' := by
  have hne : ∀ rule ∈ ({(pat, rep)} : Set (Rule α)), rule.1 ≠ [] := by simpa using h.left.ne_nil
  obtain ⟨t', hrest⟩ := Filled.exists hne s
  have hkept := hrest.append_marked (by simpa using h.left) h.right (by simpa using h.not_pat)
  exact ⟨t', hfilled.unique (by simp) hne hkept, hrest⟩

/-! ## Texts without new words -/

theorem fresh_nil (hne : pat ≠ []) (hword : word ≠ []) : Fresh pat rep word [] where
  own x y hs _ hbegins := by
    obtain ⟨-, rfl⟩ := List.append_eq_nil_iff.1 hs.symm
    exact absurd (List.prefix_nil.1 ((begins_iff hne .nil).1 hbegins)) hword
  put x y v hs := by simp [hne] at hs

theorem fresh_cons : Fresh pat rep word (c :: s) ↔
    (¬ pat <+: c :: s → Begins pat rep word (c :: s) → word <+: c :: s) ∧
      (∀ y v, c :: s = pat ++ y → v ≠ [] → v <:+ rep → ¬ BeginsFrom pat rep v word y) ∧
      Fresh pat rep word s := by
  constructor
  · intro h
    refine ⟨h.own [] _ rfl, h.put [], fun x y hs => h.own (c :: x) y (by rw [hs]; rfl),
      fun x y v hs => h.put (c :: x) y v (by rw [hs]; rfl)⟩
  · rintro ⟨hown, hput, h⟩
    constructor
    · intro x y hs
      cases x with
      | nil => exact (show c :: s = y from hs) ▸ hown
      | cons b x => exact h.own x y (List.cons.inj hs).2
    · intro x y v hs
      cases x with
      | nil => exact hput y v hs
      | cons b x => exact h.put x y v (List.cons.inj hs).2

theorem fresh_append_of_not_mem (hpat : Marked m pat) (hword : Marked m word) (hv : m ∉ v) :
    Fresh pat rep word (v ++ s) ↔ Fresh pat rep word s := by
  induction v with
  | nil => rfl
  | cons c v ih =>
      rw [List.mem_cons, not_or] at hv
      rw [List.cons_append, fresh_cons, ih hv.2]
      have hno := hpat.not_start (s := v ++ s) (Ne.symm hv.1)
      refine ⟨fun h => h.2.2, fun h => ⟨fun _ hbegins => ?_, fun y u hs => ?_, h⟩⟩
      · have hexists : ∃ t, Filled {(pat, rep)} (v ++ s) t :=
          Filled.exists (by simpa using hpat.ne_nil) (v ++ s)
        obtain ⟨t, ht⟩ := hexists
        have hfilled : Filled {(pat, rep)} (c :: (v ++ s)) (c :: t) := .keep (by simpa using hno) ht
        exact absurd ((begins_iff hpat.ne_nil hfilled).1 hbegins) (hword.not_start (Ne.symm hv.1))
      · exact absurd (hs ▸ List.prefix_append pat y) hno

theorem fresh_append_pat (h : Apart m pat word) : Fresh pat rep word (pat ++ s) ↔
    (∀ v, v ≠ [] → v <:+ rep → ¬ BeginsFrom pat rep v word s) ∧ Fresh pat rep word s := by
  obtain ⟨p, rfl, hp⟩ := h.left
  rw [List.cons_append, fresh_cons, fresh_append_of_not_mem h.left h.right hp]
  have hpre : m :: p <+: m :: (p ++ s) := List.prefix_append (m :: p) s
  constructor
  · rintro ⟨-, hput, hs⟩
    exact ⟨fun v => hput s v rfl, hs⟩
  · rintro ⟨hput, hs⟩
    refine ⟨fun hno => absurd hpre hno, fun y v heq => ?_, hs⟩
    rw [← List.append_cancel_left (show (m :: p) ++ s = (m :: p) ++ y from heq)]
    exact hput v

theorem fresh_append_word (h : Apart m pat word) :
    Fresh pat rep word (word ++ s) ↔ Fresh pat rep word s := by
  have hno : ¬ pat <+: word ++ s := h.not_pat
  obtain ⟨w, rfl, hw⟩ := h.right
  rw [List.cons_append] at hno ⊢
  rw [fresh_cons, fresh_append_of_not_mem h.left h.right hw]
  refine ⟨fun hs => hs.2.2, fun hs => ⟨fun _ _ => List.prefix_append (m :: w) s, fun y v heq => ?_,
    hs⟩⟩
  exact absurd (heq ▸ List.prefix_append pat y) hno

/-- A replacement without the ends of the word, and with something that is not in the word, is no
part of a word wherever it is put. -/
theorem fresh_of_foreign (hword : Marked m word) {e d : α}
    (hend : word.getLast? = some e) (hm : m ∉ rep) (he : e ∉ rep) (hd : d ∈ rep) (hdw : d ∉ word)
    (s : List α) : Fresh pat rep word s := by
  have hread : ∀ {w s}, Begins pat rep w s → w <:+ word → w <+: s := by
    intro w s hbegins
    induction hbegins with
    | nil => exact fun _ => List.nil_prefix
    | char _ _ ih =>
        exact fun hw => (List.prefix_cons_inj _).2 (ih ((List.suffix_cons _ _).trans hw))
    | @within w s hpre =>
        rintro ⟨x, hx⟩
        rcases List.eq_nil_or_concat w with rfl | ⟨w', b, rfl⟩
        · exact List.nil_prefix
        · rw [← hx, List.concat_eq_append, ← List.append_assoc, List.getLast?_concat,
            Option.some.injEq] at hend
          exact absurd (hpre.subset (by simp [hend])) he
    | past _ _ => exact fun hw => absurd (hw.subset (List.mem_append_left _ hd)) hdw
  constructor
  · exact fun x y _ _ hbegins => hread hbegins List.suffix_rfl
  · intro x y v _ hv hsuffix hbegins
    obtain ⟨w, rfl, -⟩ := hword
    have hhead : v.head? = some m := by
      cases v with
      | nil => exact absurd rfl hv
      | cons b v =>
          rcases hbegins with hpre | ⟨u, hu, -⟩
          · rw [(List.cons_prefix_cons.1 hpre).1]
            rfl
          · rw [(List.cons.inj hu).1]
            rfl
    exact hm (hsuffix.subset (List.mem_of_mem_head? hhead))

/-! ## Counting -/

section Count

variable [DecidableEq α]

/-- The number of places where the word begins. -/
def occurrences (word : List α) : List α → ℕ
  | [] => 0
  | c :: s => (if word <+: c :: s then 1 else 0) + occurrences word s

theorem occurrences_cons_of_not (h : ¬ word <+: c :: s) :
    occurrences word (c :: s) = occurrences word s := by
  rw [occurrences, if_neg h, Nat.zero_add]

theorem occurrences_append_of_not_mem (hword : Marked m word) (hv : m ∉ v) :
    occurrences word (v ++ s) = occurrences word s := by
  induction v with
  | nil => rfl
  | cons c v ih =>
      rw [List.mem_cons, not_or] at hv
      rw [List.cons_append, occurrences_cons_of_not (hword.not_start (Ne.symm hv.1)), ih hv.2]

theorem occurrences_append_pat (h : Apart m pat word) :
    occurrences word (pat ++ s) = occurrences word s := by
  have hno : ¬ word <+: pat ++ s := h.not_word
  obtain ⟨p, rfl, hp⟩ := h.left
  rw [List.cons_append] at hno ⊢
  rw [occurrences_cons_of_not hno, occurrences_append_of_not_mem h.right hp]

theorem occurrences_append_word (hword : Marked m word) :
    occurrences word (word ++ s) = 1 + occurrences word s := by
  have hpre : word <+: word ++ s := List.prefix_append word s
  obtain ⟨w, rfl, hw⟩ := hword
  rw [List.cons_append] at hpre ⊢
  rw [occurrences, if_pos hpre, occurrences_append_of_not_mem ⟨w, rfl, hw⟩ hw]

/-- Text in front adds the occurrences that begin in it. -/
theorem occurrences_append_iff (word v s : List α) :
    occurrences word s ≤ occurrences word (v ++ s) ∧
    (occurrences word (v ++ s) = occurrences word s ↔
      ∀ u, u ≠ [] → u <:+ v → ¬ word <+: u ++ s) := by
  induction v with
  | nil =>
      refine ⟨Nat.le_refl _, fun _ u hu hsuffix => ?_, fun _ => rfl⟩
      exact absurd (List.suffix_nil.1 hsuffix) hu
  | cons c v ih =>
      obtain ⟨hle, hiff⟩ := ih
      rw [List.cons_append, occurrences]
      refine ⟨by omega, ?_⟩
      by_cases hbegins : word <+: c :: (v ++ s)
      · rw [if_pos hbegins]
        refine iff_of_false (by omega) fun h => ?_
        exact h (c :: v) (List.cons_ne_nil c v) List.suffix_rfl hbegins
      · rw [if_neg hbegins, Nat.zero_add, hiff]
        refine ⟨fun h u hu hsuffix => ?_, fun h u hu hsuffix => ?_⟩
        · rcases List.suffix_cons_iff.1 hsuffix with rfl | hsuffix
          · exact hbegins
          · exact h u hu hsuffix
        · exact h u hu (hsuffix.trans (List.suffix_cons c v))

/-- As many words as before exactly if the text has been fresh. -/
theorem occurrences_filled_iff (h : Apart m pat word) (hfilled : Filled {(pat, rep)} s t) :
    occurrences word s ≤ occurrences word t ∧
      (occurrences word t = occurrences word s ↔ Fresh pat rep word s) := by
  induction s using parse_induction h.ne_nil generalizing t with
  | nil =>
      rw [hfilled.of_nil (by simpa using h.left.ne_nil)]
      exact ⟨Nat.le_refl _, iff_of_true rfl (fresh_nil h.left.ne_nil h.right.ne_nil)⟩
  | put pat' hpat s ih =>
      rcases Set.mem_insert_iff.1 hpat with rfl | rfl
      · obtain ⟨t', rfl, hrest⟩ := hfilled.of_append_one h.left.ne_nil
        obtain ⟨hle, hiff⟩ := ih hrest
        obtain ⟨hmore, hnone⟩ := occurrences_append_iff word rep t'
        rw [occurrences_append_pat h, fresh_append_pat h, ← hiff]
        simp only [beginsFrom_iff h.left.ne_nil hrest, ← hnone]
        omega
      · obtain ⟨t', rfl, hrest⟩ := hfilled.of_append_word h
        obtain ⟨hle, hiff⟩ := ih hrest
        rw [occurrences_append_word h.right, occurrences_append_word h.right, fresh_append_word h,
          ← hiff]
        omega
  | keep c s hno ih =>
      have hpat : ¬ pat <+: c :: s := hno pat (by simp)
      have hword : ¬ word <+: c :: s := hno word (by simp)
      obtain ⟨t', rfl, hrest⟩ := hfilled.of_cons_one hpat
      obtain ⟨hle, hiff⟩ := ih hrest
      have hput : ∀ y v, c :: s = pat ++ y → v ≠ [] → v <:+ rep →
          ¬ BeginsFrom pat rep v word y :=
        fun y v heq => absurd (heq ▸ List.prefix_append pat y) hpat
      rw [occurrences_cons_of_not hword, fresh_cons, begins_iff h.left.ne_nil hfilled, ← hiff,
        occurrences]
      split
      case isTrue hbegins =>
        exact ⟨by omega, iff_of_false (by omega) fun hs => hword (hs.1 hpat hbegins)⟩
      case isFalse hbegins =>
        rw [Nat.zero_add]
        exact ⟨hle, fun hs => ⟨fun _ hw => absurd hw hbegins, hput, hs⟩, fun hs => hs.2.2⟩

/-! ## One after the other -/

theorem length_filled (hword : Marked m word) (h : Filled {(word, q)} t r) :
    r.length + occurrences word t * word.length = t.length + occurrences word t * q.length := by
  induction h with
  | nil => simp [occurrences]
  | put hmem _ ih =>
      obtain ⟨rfl, rfl⟩ := Prod.mk.inj (Set.mem_singleton_iff.1 hmem)
      rw [occurrences_append_word hword, List.length_append, List.length_append, Nat.add_mul,
        Nat.add_mul]
      omega
  | keep hno _ ih =>
      have hword' : ¬ word <+: _ := hno (word, q) (Set.mem_singleton _)
      rw [occurrences_cons_of_not hword', List.length_cons, List.length_cons]
      omega

theorem length_filled_both (h : Apart m pat word) (hfilled : Filled {(pat, rep)} s t)
    (hboth : Filled {(pat, rep), (word, q)} s r) :
    r.length + occurrences word s * word.length = t.length + occurrences word s * q.length := by
  induction hboth generalizing t with
  | nil => simp [occurrences, hfilled.of_nil (by simpa using h.left.ne_nil)]
  | put hmem _ ih =>
      rcases Set.mem_insert_iff.1 hmem with heq | heq <;> obtain ⟨rfl, rfl⟩ := Prod.mk.inj heq
      · obtain ⟨t', rfl, hrest⟩ := hfilled.of_append_one h.left.ne_nil
        have hlen := ih hrest
        rw [occurrences_append_pat h, List.length_append, List.length_append]
        omega
      · obtain ⟨t', rfl, hrest⟩ := hfilled.of_append_word h
        have hlen := ih hrest
        rw [occurrences_append_word h.right, List.length_append, List.length_append, Nat.add_mul,
          Nat.add_mul]
        omega
  | keep hno _ ih =>
      obtain ⟨t', rfl, hrest⟩ := hfilled.of_cons_one (hno (pat, rep) (by simp))
      have hlen := ih hrest
      have hword : ¬ word <+: _ := hno (word, q) (by simp)
      rw [occurrences_cons_of_not hword, List.length_cons, List.length_cons]
      omega

end Count

theorem Filled.of_append_of_not (hno : ∀ u, u ≠ [] → u <:+ v → ¬ word <+: u ++ s)
    (h : Filled {(word, q)} (v ++ s) t) : ∃ t', t = v ++ t' ∧ Filled {(word, q)} s t' := by
  induction v generalizing t with
  | nil => exact ⟨t, rfl, h⟩
  | cons c v ih =>
      obtain ⟨t', rfl, hrest⟩ := h.of_cons_one (hno _ (List.cons_ne_nil c v) List.suffix_rfl)
      obtain ⟨t'', rfl, hlast⟩ :=
        ih (fun u hu hsuffix => hno u hu (hsuffix.trans (List.suffix_cons c v))) hrest
      exact ⟨t'', rfl, hlast⟩

/-- In a fresh text two substitutions find what both together find. -/
theorem Fresh.filled (h : Apart m pat word) (hs : Fresh pat rep word s)
    (hfilled : Filled {(pat, rep)} s t) (hthen : Filled {(word, q)} t r) :
    Filled {(pat, rep), (word, q)} s r := by
  induction s using parse_induction h.ne_nil generalizing t r with
  | nil =>
      rw [hfilled.of_nil (by simpa using h.left.ne_nil)] at hthen
      rw [hthen.of_nil (by simpa using h.right.ne_nil)]
      exact .nil
  | put pat' hpat s ih =>
      rcases Set.mem_insert_iff.1 hpat with rfl | rfl
      · obtain ⟨hput, hs⟩ := (fresh_append_pat h).1 hs
        obtain ⟨t', rfl, hrest⟩ := hfilled.of_append_one h.left.ne_nil
        simp only [beginsFrom_iff h.left.ne_nil hrest] at hput
        obtain ⟨r', rfl, hlast⟩ := hthen.of_append_of_not hput
        exact .put (by simp) (ih hs hrest hlast)
      · obtain ⟨t', rfl, hrest⟩ := hfilled.of_append_word h
        obtain ⟨r', rfl, hlast⟩ := hthen.of_append_one h.right.ne_nil
        exact .put (by simp) (ih ((fresh_append_word h).1 hs) hrest hlast)
  | keep c s hno ih =>
      have hpat : ¬ pat <+: c :: s := hno pat (by simp)
      obtain ⟨hown, -, hs⟩ := fresh_cons.1 hs
      rw [begins_iff h.left.ne_nil hfilled] at hown
      obtain ⟨t', rfl, hrest⟩ := hfilled.of_cons_one hpat
      obtain ⟨r', rfl, hlast⟩ :=
        hthen.of_cons_one fun hbegins => hno word (by simp) (hown hpat hbegins)
      exact .keep (by simpa using hno) (ih hs hrest hlast)

/-- One substitution after the other is the simultaneous one exactly if the first makes no match
for the second, provided that the second puts in less than it takes out. -/
theorem filled_filled_iff [DecidableEq α] (h : Apart m pat word) (hshort : q.length < word.length)
    (hfilled : Filled {(pat, rep)} s t) (hthen : Filled {(word, q)} t r) :
    Filled {(pat, rep), (word, q)} s r ↔ Fresh pat rep word s := by
  refine ⟨fun hboth => ?_, fun hs => hs.filled h hfilled hthen⟩
  obtain ⟨hle, hiff⟩ := occurrences_filled_iff h hfilled
  have hseq := length_filled h.right hthen
  have hsim := length_filled_both h hfilled hboth
  refine hiff.1 ?_
  obtain ⟨more, hmore⟩ := Nat.exists_eq_add_of_le hle
  obtain ⟨gap, hgap⟩ := Nat.exists_eq_add_of_lt hshort
  rw [hmore, hgap] at hseq
  rw [hgap] at hsim
  have hnone : more * (gap + 1) = 0 := by
    simp only [Nat.add_mul, Nat.mul_add] at hseq hsim ⊢
    omega
  rw [hmore, (Nat.mul_eq_zero.1 hnone).resolve_right (Nat.succ_ne_zero gap), Nat.add_zero]

end Substitution
