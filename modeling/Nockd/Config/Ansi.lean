import Mathlib.Data.List.Basic

/-!
# Escape sequences

`strip_ansi` removes control sequences from a text. It takes the first ASCII letter for the
end of one, whatever comes before it, while a sequence consists of parameter bytes,
intermediate bytes and one final byte, which need not be a letter.
-/

namespace Nockd

namespace Config

def nul : Char := '\x00'

def esc : Char := '\x1b'

def isAsciiAlphabetic (c : Char) : Bool :=
  65 ≤ c.toNat && c.toNat ≤ 90 || 97 ≤ c.toNat && c.toNat ≤ 122

mutual

/-- `strip_ansi` -/
def stripAnsi : List Char → List Char
  | [] => []
  | c :: s =>
    if c = esc then
      -- the loop may begin with the `[`, which is no letter
      if s.head? = some '[' then skipCsi s else stripAnsi s
    else if c ≠ nul then c :: stripAnsi s
    else stripAnsi s

/-- The rest of a control sequence is skipped, up to a letter. -/
def skipCsi : List Char → List Char
  | [] => []
  | c :: s => if isAsciiAlphabetic c then stripAnsi s else skipCsi s

end

/-! ## The reference -/

def isParameter (c : Char) : Bool := 0x30 ≤ c.toNat && c.toNat ≤ 0x3F

def isIntermediate (c : Char) : Bool := 0x20 ≤ c.toNat && c.toNat ≤ 0x2F

def isFinal (c : Char) : Bool := 0x40 ≤ c.toNat && c.toNat ≤ 0x7E

/-- The parameter and intermediate bytes of a control sequence. -/
structure IsBody (params inters : List Char) : Prop where
  params : ∀ c ∈ params, isParameter c = true
  inters : ∀ c ∈ inters, isIntermediate c = true

/-- The next character does not go on with the sequence. -/
def Breaks (inters s : List Char) : Prop :=
  ∀ c ∈ s.head?, isFinal c = false ∧ isIntermediate c = false ∧
    (inters = [] → isParameter c = false)

/-- A text without its control sequences, its NULs, and the ESCs that begin no sequence. -/
inductive Stripped : List Char → List Char → Prop where
  | nil : Stripped [] []
  | nul {s t : List Char} : Stripped s t → Stripped (nul :: s) t
  | esc {s t : List Char} : s.head? ≠ some '[' → Stripped s t → Stripped (esc :: s) t
  | sequence {params inters s t : List Char} {c : Char} : IsBody params inters →
      isFinal c = true → Stripped s t → Stripped (esc :: '[' :: (params ++ inters ++ c :: s)) t
  | broken {params inters s t : List Char} : IsBody params inters → Breaks inters s →
      Stripped s t → Stripped (esc :: '[' :: (params ++ inters ++ s)) t
  | keep {s t : List Char} {c : Char} : c ≠ nul → c ≠ esc → Stripped s t →
      Stripped (c :: s) (c :: t)

/-- Where a reader of the text is. -/
inductive Mode where
  | text
  | escape
  | parameters
  | intermediates

namespace Mode

/-- A character outside of a sequence: what is kept of it, and what comes then. -/
def plain (c : Char) : List Char × Mode :=
  if c = esc then ([], escape) else if c = nul then ([], text) else ([c], text)

def read : Mode → Char → List Char × Mode
  | text, c => plain c
  | escape, c => if c = '[' then ([], parameters) else plain c
  | parameters, c =>
    if isParameter c then ([], parameters)
    else if isIntermediate c then ([], intermediates)
    else if isFinal c then ([], text)
    else plain c
  | intermediates, c =>
    if isIntermediate c then ([], intermediates)
    else if isFinal c then ([], text)
    else plain c

end Mode

/-- The text that a reader keeps. -/
def readFrom : Mode → List Char → List Char
  | _, [] => []
  | m, c :: s => (m.read c).1 ++ readFrom (m.read c).2 s

/-! ## The condition -/

/-- NULs and ESCs only, up to the end or the next sequence. -/
def SilentGap : List Char → Prop
  | [] => True
  | c :: s => c = nul ∧ SilentGap s ∨ c = esc ∧ (s.head? = some '[' ∨ SilentGap s)

/-- After the parameters: intermediates, and then a letter, or at most one other final
character and nothing that is kept up to the next sequence. -/
def IntermediatesEnd : List Char → Prop
  | [] => True
  | c :: s =>
    if isIntermediate c then IntermediatesEnd s
    else if isAsciiAlphabetic c then True
    else if isFinal c then SilentGap s
    else SilentGap (c :: s)

/-- What comes after `ESC [`. -/
def EndsInTime : List Char → Prop
  | [] => True
  | c :: s => if isParameter c then EndsInTime s else IntermediatesEnd (c :: s)

variable {s t : List Char} {c : Char} {m : Mode} {params inters : List Char}

/-! ## Characters -/

theorem letter_range (h : isAsciiAlphabetic c = true) :
    65 ≤ c.toNat ∧ c.toNat ≤ 90 ∨ 97 ≤ c.toNat ∧ c.toNat ≤ 122 := by
  simpa only [isAsciiAlphabetic, Bool.or_eq_true, Bool.and_eq_true, decide_eq_true_eq] using h

theorem isFinal_of_letter (h : isAsciiAlphabetic c = true) : isFinal c = true := by
  have hrange := letter_range h
  simp only [isFinal, Bool.and_eq_true, decide_eq_true_eq]
  omega

theorem not_parameter_of_letter (h : isAsciiAlphabetic c = true) : isParameter c = false := by
  have hrange := letter_range h
  simp only [isParameter, Bool.and_eq_false_iff, decide_eq_false_iff_not]
  omega

theorem not_intermediate_of_letter (h : isAsciiAlphabetic c = true) : isIntermediate c = false := by
  have hrange := letter_range h
  simp only [isIntermediate, Bool.and_eq_false_iff, decide_eq_false_iff_not]
  omega

theorem ne_of_letter (h : isAsciiAlphabetic c = true) : c ≠ esc ∧ c ≠ nul ∧ c ≠ '[' := by
  refine ⟨?_, ?_, ?_⟩ <;>
  · rintro rfl
    exact absurd h (by decide)

theorem esc_ne_nul : esc ≠ nul := by decide

/-- A letter ends every sequence, and is kept outside of one. -/
theorem Mode.read_letter (h : isAsciiAlphabetic c = true) (m : Mode) : (m.read c).2 = .text := by
  obtain ⟨hesc, hnul, hbracket⟩ := ne_of_letter h
  cases m <;>
    simp [read, plain, hesc, hnul, hbracket, isFinal_of_letter h, not_parameter_of_letter h,
      not_intermediate_of_letter h]

/-! ## What the two keep -/

theorem skipCsi_cons (c : Char) (s : List Char) :
    skipCsi (c :: s) = if isAsciiAlphabetic c then stripAnsi s else skipCsi s := rfl

theorem stripAnsi_cons (c : Char) (s : List Char) :
    stripAnsi (c :: s) =
      if c = esc then (if s.head? = some '[' then skipCsi s else stripAnsi s)
      else if c ≠ nul then c :: stripAnsi s else stripAnsi s := rfl

theorem readFrom_cons (m : Mode) (c : Char) (s : List Char) :
    readFrom m (c :: s) = (m.read c).1 ++ readFrom (m.read c).2 s := rfl

theorem readFrom_escape (h : s.head? ≠ some '[') : readFrom .escape s = readFrom .text s := by
  cases s with
  | nil => rfl
  | cons c s =>
      have hc : c ≠ '[' := by simpa using h
      rw [readFrom_cons, readFrom_cons]
      simp only [Mode.read, hc, if_false]

/-- `strip_ansi` keeps nothing that the reference does not keep. -/
theorem strip_sublist (s : List Char) :
    (stripAnsi s).Sublist (readFrom .text s) ∧ ∀ m, (skipCsi s).Sublist (readFrom m s) := by
  induction s with
  | nil => exact ⟨.slnil, fun _ => .slnil⟩
  | cons c s ih =>
      constructor
      · rw [stripAnsi_cons, readFrom_cons]
        by_cases hesc : c = esc
        · rw [if_pos hesc]
          simp only [Mode.read, Mode.plain, hesc, if_true, List.nil_append]
          split
          · exact ih.2 _
          case isFalse h =>
            rw [readFrom_escape h]
            exact ih.1
        · rw [if_neg hesc]
          by_cases hnul : c = nul
          · simp only [Mode.read, Mode.plain, hnul, esc_ne_nul.symm, if_false, if_true,
              ne_eq, not_true, List.nil_append]
            exact ih.1
          · simp only [Mode.read, Mode.plain, hesc, hnul, if_false, ne_eq, not_false_iff, if_true,
              List.singleton_append]
            exact ih.1.cons_cons c
      · intro m
        rw [skipCsi_cons, readFrom_cons]
        split
        case isTrue h =>
          rw [Mode.read_letter h]
          exact ih.1.trans (List.sublist_append_right _ _)
        case isFalse => exact (ih.2 _).trans (List.sublist_append_right _ _)

theorem eq_append_iff_of_sublist {α : Type} {xs ys zs : List α} (h : xs.Sublist ys) :
    xs = zs ++ ys ↔ zs = [] ∧ xs = ys := by
  constructor
  · intro heq
    have hlength := congrArg List.length heq
    have hle := h.length_le
    rw [List.length_append] at hlength
    obtain rfl : zs = [] := List.length_eq_zero_iff.1 (by omega)
    exact ⟨rfl, heq⟩
  · rintro ⟨rfl, rfl⟩
    rfl

/-! ## Where they agree -/

/-- A sequence that begins with the `[` ends in time. -/
def Opens (s : List Char) : Prop := ∀ post, s = '[' :: post → EndsInTime post

/-- Every sequence ends in time. -/
def InTime (s : List Char) : Prop :=
  ∀ pre post, s = pre ++ esc :: '[' :: post → EndsInTime post

/-- From there on, the reader keeps nothing up to the next letter, nor the letter. -/
def Mode.Silent : Mode → List Char → Prop
  | text, s => SilentGap s
  | escape, s => Opens s ∧ (s.head? = some '[' ∨ SilentGap s)
  | parameters, s => EndsInTime s
  | intermediates, s => IntermediatesEnd s

theorem inTime_nil : InTime [] := by
  intro pre post h
  cases pre <;> cases h

theorem inTime_cons : InTime (c :: s) ↔ (c = esc → Opens s) ∧ InTime s := by
  constructor
  · intro h
    refine ⟨?_, fun pre post hs => h (c :: pre) post (by rw [hs]; rfl)⟩
    rintro rfl post rfl
    exact h [] post rfl
  · rintro ⟨hfirst, hrest⟩ pre post h
    cases pre with
    | nil =>
        obtain ⟨rfl, rfl⟩ := List.cons.inj h
        exact hfirst rfl post rfl
    | cons d pre => exact hrest pre post (List.cons.inj h).2

theorem opens_of_ne (h : c ≠ '[') (s : List Char) : Opens (c :: s) :=
  fun _ heq => absurd (List.cons.inj heq).1 h

theorem Mode.silent_plain :
    (plain c).1 = [] ∧ (plain c).2.Silent s ↔ SilentGap (c :: s) ∧ (c = esc → Opens s) := by
  unfold plain SilentGap
  by_cases hesc : c = esc
  · subst hesc
    simp [Silent, esc_ne_nul, and_comm]
  · by_cases hnul : c = nul
    · subst hnul
      simp [Silent, esc_ne_nul.symm]
    · simp [hesc, hnul]

theorem body_ne_esc (h : isParameter c = true ∨ isIntermediate c = true ∨ isFinal c = true) :
    c ≠ esc := by
  rintro rfl
  exact absurd h (by decide)

theorem intermediatesEnd_cons (c : Char) (s : List Char) :
    IntermediatesEnd (c :: s) =
      if isIntermediate c then IntermediatesEnd s
      else if isAsciiAlphabetic c then True
      else if isFinal c then SilentGap s
      else SilentGap (c :: s) := rfl

theorem Mode.silent_intermediates (h : isAsciiAlphabetic c = false) :
    (intermediates.read c).1 = [] ∧ (intermediates.read c).2.Silent s ↔
      IntermediatesEnd (c :: s) ∧ (c = esc → Opens s) := by
  rw [intermediatesEnd_cons, h]
  by_cases hinter : isIntermediate c = true
  · simp [read, hinter, Silent, body_ne_esc (Or.inr (Or.inl hinter))]
  · by_cases hfinal : isFinal c = true
    · simp [read, hinter, hfinal, Silent, body_ne_esc (Or.inr (Or.inr hfinal))]
    · simp only [read, hinter, hfinal, Bool.false_eq_true, if_false]
      exact silent_plain

theorem Mode.silent_cons (h : isAsciiAlphabetic c = false) (m : Mode) :
    (m.read c).1 = [] ∧ (m.read c).2.Silent s ↔ m.Silent (c :: s) ∧ (c = esc → Opens s) := by
  cases m with
  | text => exact silent_plain
  | escape =>
      by_cases hc : c = '['
      · subst hc
        simp [read, Silent, Opens, show '[' ≠ esc by decide]
      · simp only [read, hc, if_false, Silent, List.head?_cons, Option.some.injEq, false_or,
          opens_of_ne hc, true_and]
        exact silent_plain
  | parameters =>
      change _ ↔ (if isParameter c then EndsInTime s else IntermediatesEnd (c :: s)) ∧ _
      by_cases hparam : isParameter c = true
      · simp [read, hparam, Silent, body_ne_esc (Or.inl hparam)]
      · rw [if_neg hparam, ← silent_intermediates h]
        simp only [read, hparam, Bool.false_eq_true, if_false]
  | intermediates => exact silent_intermediates h

theorem Mode.silent_letter (h : isAsciiAlphabetic c = true) (m : Mode) :
    (m.read c).1 = [] ↔ m.Silent (c :: s) := by
  obtain ⟨hesc, hnul, hbracket⟩ := ne_of_letter h
  have hgap : ¬ SilentGap (c :: s) := by
    unfold SilentGap
    simp [hesc, hnul]
  cases m with
  | text => simpa [read, plain, hesc, hnul, Silent] using hgap
  | escape => simpa [read, plain, hesc, hnul, hbracket, Silent] using fun _ => hgap
  | parameters =>
      simp [read, Silent, EndsInTime, IntermediatesEnd, h, isFinal_of_letter h,
        not_parameter_of_letter h, not_intermediate_of_letter h]
  | intermediates =>
      simp [read, Silent, IntermediatesEnd, h, isFinal_of_letter h,
        not_intermediate_of_letter h]

theorem agree_iff (s : List Char) :
    (stripAnsi s = readFrom .text s ↔ InTime s) ∧
      ((if s.head? = some '[' then skipCsi s else stripAnsi s) = readFrom .escape s ↔
        Opens s ∧ InTime s) ∧
      ∀ m : Mode, skipCsi s = readFrom m s ↔ m.Silent s ∧ InTime s := by
  induction s with
  | nil =>
      refine ⟨iff_of_true rfl inTime_nil, iff_of_true rfl ⟨nofun, inTime_nil⟩, fun m => ?_⟩
      refine iff_of_true rfl ⟨?_, inTime_nil⟩
      cases m with
      | text => trivial
      | escape => exact ⟨nofun, Or.inr trivial⟩
      | parameters => trivial
      | intermediates => trivial
  | cons c s ih =>
      obtain ⟨htext, hescape, hskip⟩ := ih
      have hfirst : stripAnsi (c :: s) = readFrom .text (c :: s) ↔ InTime (c :: s) := by
        rw [stripAnsi_cons, readFrom_cons, inTime_cons]
        by_cases hesc : c = esc
        · simp only [Mode.read, Mode.plain, hesc, if_true, List.nil_append, true_imp_iff]
          exact hescape
        · by_cases hnul : c = nul
          · simp only [Mode.read, Mode.plain, hnul, esc_ne_nul.symm, if_false, if_true, ne_eq,
              not_true, List.nil_append, false_imp_iff, true_and]
            exact htext
          · simp only [Mode.read, Mode.plain, hesc, hnul, if_false, ne_eq, not_false_iff, if_true,
              List.singleton_append, List.cons.injEq, true_and, false_imp_iff]
            exact htext
      refine ⟨hfirst, ?_, fun m => ?_⟩
      · by_cases hc : c = '['
        · subst hc
          have hopens : Opens ('[' :: s) ↔ EndsInTime s := by simp [Opens]
          have hagree : skipCsi ('[' :: s) = readFrom .escape ('[' :: s) ↔
              EndsInTime s ∧ InTime s := hskip .parameters
          rw [List.head?_cons, if_pos rfl, hagree, hopens, inTime_cons]
          simp [show '[' ≠ esc by decide]
        · have hhead : (c :: s).head? ≠ some '[' := by simpa using hc
          rw [if_neg hhead, readFrom_escape hhead, hfirst, and_iff_right (opens_of_ne hc s)]
      · rw [skipCsi_cons, readFrom_cons, inTime_cons]
        by_cases h : isAsciiAlphabetic c = true
        · rw [if_pos h, Mode.read_letter h,
            eq_append_iff_of_sublist (strip_sublist s).1, htext, @Mode.silent_letter s c h m]
          simp [(ne_of_letter h).1]
        · rw [if_neg h, eq_append_iff_of_sublist ((strip_sublist s).2 _), hskip, ← and_assoc,
            m.silent_cons (by simpa using h), and_assoc]

/-! ## The reference as a reader -/

theorem readFrom_params (h : ∀ c ∈ params, isParameter c = true) :
    readFrom .parameters (params ++ s) = readFrom .parameters s := by
  induction params with
  | nil => rfl
  | cons c params ih =>
      rw [List.forall_mem_cons] at h
      rw [List.cons_append, readFrom_cons]
      simp only [Mode.read, h.1, if_true, List.nil_append]
      exact ih h.2

theorem not_parameter_of_intermediate (h : isIntermediate c = true) : isParameter c = false := by
  simp only [isIntermediate, Bool.and_eq_true, decide_eq_true_eq] at h
  simp only [isParameter, Bool.and_eq_false_iff, decide_eq_false_iff_not]
  omega

theorem not_body_of_final (h : isFinal c = true) :
    isParameter c = false ∧ isIntermediate c = false := by
  simp only [isFinal, Bool.and_eq_true, decide_eq_true_eq] at h
  simp only [isParameter, isIntermediate, Bool.and_eq_false_iff, decide_eq_false_iff_not]
  omega

theorem readFrom_inters (h : ∀ c ∈ inters, isIntermediate c = true) :
    readFrom .intermediates (inters ++ s) = readFrom .intermediates s := by
  induction inters with
  | nil => rfl
  | cons c inters ih =>
      rw [List.forall_mem_cons] at h
      rw [List.cons_append, readFrom_cons]
      simp only [Mode.read, h.1, if_true, List.nil_append]
      exact ih h.2

/-- After the body of a sequence. -/
theorem IsBody.readFrom_eq (h : IsBody params inters) :
    readFrom .parameters (params ++ inters ++ s) =
      readFrom (if inters = [] then .parameters else .intermediates) s := by
  rw [List.append_assoc, readFrom_params h.params]
  cases inters with
  | nil => rfl
  | cons c inters =>
      obtain ⟨hc, hinters⟩ := List.forall_mem_cons.1 h.inters
      rw [List.cons_append, readFrom_cons, if_neg (List.cons_ne_nil _ _)]
      simp only [Mode.read, hc, not_parameter_of_intermediate hc, Bool.false_eq_true, if_false,
        if_true, List.nil_append]
      exact readFrom_inters hinters

theorem readFrom_final (h : isFinal c = true) :
    readFrom (if inters = [] then .parameters else .intermediates) (c :: s) =
      readFrom .text s := by
  obtain ⟨hparam, hinter⟩ := not_body_of_final h
  rw [readFrom_cons]
  split <;> simp [Mode.read, h, hparam, hinter]

theorem Breaks.readFrom_eq (h : Breaks inters s) :
    readFrom (if inters = [] then .parameters else .intermediates) s = readFrom .text s := by
  cases s with
  | nil => rfl
  | cons c s =>
      obtain ⟨hfinal, hinter, hparam⟩ := h c rfl
      rw [readFrom_cons, readFrom_cons]
      split
      case isTrue hnil => simp [Mode.read, hfinal, hinter, hparam hnil]
      case isFalse => simp [Mode.read, hfinal, hinter]

theorem readFrom_opens (s : List Char) :
    readFrom .text (esc :: '[' :: s) = readFrom .parameters s := rfl

theorem Stripped.readFrom_eq (h : Stripped s t) : readFrom .text s = t := by
  induction h with
  | nil => rfl
  | nul _ ih => exact ih
  | esc hhead _ ih => exact (readFrom_escape hhead).trans ih
  | sequence hbody hfinal _ ih => rw [readFrom_opens, hbody.readFrom_eq, readFrom_final hfinal, ih]
  | broken hbody hbreaks _ ih => rw [readFrom_opens, hbody.readFrom_eq, hbreaks.readFrom_eq, ih]
  | keep hnul hesc _ ih =>
      rw [readFrom_cons]
      simp only [Mode.read, Mode.plain, hesc, hnul, if_false]
      rw [ih]
      rfl

theorem exists_run (p : Char → Bool) (s : List Char) :
    ∃ run rest, s = run ++ rest ∧ (∀ c ∈ run, p c = true) ∧ ∀ c ∈ rest.head?, p c = false := by
  induction s with
  | nil => exact ⟨[], [], rfl, nofun, nofun⟩
  | cons c s ih =>
      obtain ⟨run, rest, rfl, hrun, hrest⟩ := ih
      by_cases hc : p c = true
      · exact ⟨c :: run, rest, rfl, List.forall_mem_cons.2 ⟨hc, hrun⟩, hrest⟩
      · exact ⟨[], c :: (run ++ rest), rfl, nofun, by simpa using hc⟩

/-- The longest body, and what comes after it. -/
theorem exists_body (s : List Char) :
    ∃ params inters rest, s = params ++ inters ++ rest ∧ IsBody params inters ∧
      ((∃ c rest', rest = c :: rest' ∧ isFinal c = true) ∨ Breaks inters rest) := by
  obtain ⟨params, more, rfl, hparams, hmore⟩ := exists_run isParameter s
  obtain ⟨inters, rest, rfl, hinters, hrest⟩ := exists_run isIntermediate more
  refine ⟨params, inters, rest, (List.append_assoc _ _ _).symm, ⟨hparams, hinters⟩, ?_⟩
  by_cases hfinal : ∃ c rest', rest = c :: rest' ∧ isFinal c = true
  · exact Or.inl hfinal
  · refine Or.inr fun c hc => ⟨?_, hrest c hc, fun hnil => ?_⟩
    · obtain ⟨rest', rfl⟩ := List.head?_eq_some_iff.1 hc
      by_contra hne
      exact hfinal ⟨c, rest', rfl, by simpa using hne⟩
    · subst hnil
      exact hmore c hc

theorem exists_stripped (s : List Char) : ∃ t, Stripped s t := by
  cases s with
  | nil => exact ⟨[], .nil⟩
  | cons c s =>
      by_cases hnul : c = nul
      · obtain ⟨t, ht⟩ := exists_stripped s
        exact ⟨t, hnul ▸ .nul ht⟩
      by_cases hesc : c = esc
      · subst hesc
        by_cases hhead : s.head? = some '['
        · obtain ⟨s, rfl⟩ := List.head?_eq_some_iff.1 hhead
          obtain ⟨params, inters, rest, rfl, hbody, ⟨c, rest, rfl, hfinal⟩ | hbreaks⟩ :=
            exists_body s
          · obtain ⟨t, ht⟩ := exists_stripped rest
            exact ⟨t, .sequence hbody hfinal ht⟩
          · obtain ⟨t, ht⟩ := exists_stripped rest
            exact ⟨t, .broken hbody hbreaks ht⟩
        · obtain ⟨t, ht⟩ := exists_stripped s
          exact ⟨t, .esc hhead ht⟩
      · obtain ⟨t, ht⟩ := exists_stripped s
        exact ⟨c :: t, .keep hnul hesc ht⟩
termination_by s.length

theorem stripped_iff : Stripped s t ↔ readFrom .text s = t := by
  refine ⟨Stripped.readFrom_eq, ?_⟩
  rintro rfl
  obtain ⟨t, ht⟩ := exists_stripped s
  rwa [ht.readFrom_eq]

/-- `strip_ansi` returns what the reference keeps if and only if each sequence that is begun
ends in time: its parameters and intermediates are followed by a letter, or by at most one
other final character and no more than NULs and ESCs up to the next sequence. -/
theorem stripAnsi_iff (s : List Char) :
    Stripped s (stripAnsi s) ↔
      ∀ pre post, s = pre ++ esc :: '[' :: post → EndsInTime post := by
  rw [stripped_iff, eq_comm]
  exact (agree_iff s).1

section Runs

theorem stripAnsi_swallows : ¬ ∀ s, Stripped s (stripAnsi s) := by
  intro h
  exact absurd (stripped_iff.1 (h (esc :: "[1~ok\n".toList))) (by decide)

end Runs

end Config

end Nockd
