import Mathlib.Data.List.Basic

/-!
# UTF-8

A text is read byte by byte, and falls into pieces: the characters, and what cannot be part
of one. An ASCII byte is a character wherever it stands, so a text can be cut at it.
-/

namespace Utf8

/-- Bytes that may come after the first one of a character. -/
structure Range where
  lo : UInt8
  hi : UInt8
  beyond : 0x80 ≤ lo

namespace Range

def has (r : Range) (b : UInt8) : Bool := r.lo ≤ b && b ≤ r.hi

def tail : Range := ⟨0x80, 0xBF, by decide⟩

end Range

/-- What has to follow the first byte of a character, if it can be one. -/
def following (b : UInt8) : Option (List Range) :=
  if b < 0x80 then some []
  else if b < 0xC2 then none
  else if b < 0xE0 then some [.tail]
  else if b = 0xE0 then some [⟨0xA0, 0xBF, by decide⟩, .tail]
  else if b = 0xED then some [⟨0x80, 0x9F, by decide⟩, .tail]
  else if b < 0xF0 then some [.tail, .tail]
  else if b = 0xF0 then some [⟨0x90, 0xBF, by decide⟩, .tail, .tail]
  else if b < 0xF4 then some [.tail, .tail, .tail]
  else if b = 0xF4 then some [⟨0x80, 0x8F, by decide⟩, .tail, .tail]
  else none

/-- A character, or bytes that are not part of one. -/
abbrev Piece := Option (List UInt8)

/-- Between two characters, or within one. -/
inductive Pending where
  | idle
  | within (seen : List UInt8) (next : Range) (more : List Range)

namespace Pending

def seen : Pending → List UInt8
  | idle => []
  | within seen _ _ => seen

/-- The first byte of a character. -/
def start (b : UInt8) : List Piece × Pending :=
  match following b with
  | none => ([none], idle)
  | some [] => ([some [b]], idle)
  | some (next :: more) => ([], within [b] next more)

def feed : Pending → UInt8 → List Piece × Pending
  | idle, b => start b
  | within seen next [], b =>
    if next.has b then ([some (seen ++ [b])], idle) else (none :: (start b).1, (start b).2)
  | within seen next (next' :: more), b =>
    if next.has b then ([], within (seen ++ [b]) next' more)
    else (none :: (start b).1, (start b).2)

def flush : Pending → List Piece
  | idle => []
  | within _ _ _ => [none]

end Pending

def piecesFrom : Pending → List UInt8 → List Piece
  | p, [] => p.flush
  | p, b :: bs => (p.feed b).1 ++ piecesFrom (p.feed b).2 bs

def pieces (bs : List UInt8) : List Piece := piecesFrom .idle bs

/-- All of it is characters. -/
def Valid (bs : List UInt8) : Prop := none ∉ pieces bs

instance (bs : List UInt8) : Decidable (Valid bs) := inferInstanceAs (Decidable (¬ _))

/-- U+FFFD -/
def replacement : List UInt8 := [0xEF, 0xBF, 0xBD]

/-- The text with a replacement for each piece that is not a character. -/
def lossy (bs : List UInt8) : List UInt8 := (pieces bs).flatMap (·.getD replacement)

/-- The code point of a character of one to four bytes. -/
def codePoint : List UInt8 → ℕ
  | [a] => a.toNat
  | [a, b] => a.toNat % 0x20 * 0x40 + b.toNat % 0x40
  | [a, b, c] => (a.toNat % 0x10 * 0x40 + b.toNat % 0x40) * 0x40 + c.toNat % 0x40
  | [a, b, c, d] =>
    ((a.toNat % 0x08 * 0x40 + b.toNat % 0x40) * 0x40 + c.toNat % 0x40) * 0x40 + d.toNat % 0x40
  | _ => 0xFFFD

/-- The characters of a text. -/
def chars (bs : List UInt8) : List Char :=
  (pieces bs).map fun piece => Char.ofNat (codePoint (piece.getD replacement))

variable {b c : UInt8} {xs ys bs q : List UInt8} {p : Pending}

/-! ## ASCII -/

theorem Range.not_has (hc : c < 0x80) (r : Range) : r.has c = false := by
  have hlo := r.beyond
  unfold Range.has
  rw [Bool.and_eq_false_iff]
  refine Or.inl (decide_eq_false fun hle => ?_)
  exact absurd (UInt8.le_trans hlo hle) (UInt8.not_le.2 hc)

theorem Pending.start_ascii (hc : c < 0x80) : Pending.start c = ([some [c]], .idle) := by
  unfold Pending.start following
  rw [if_pos hc]

/-- An ASCII byte ends what comes before it. -/
theorem Pending.feed_ascii (hc : c < 0x80) (p : Pending) :
    p.feed c = (p.flush ++ [some [c]], .idle) := by
  cases p with
  | idle => exact start_ascii hc
  | within seen next more =>
      cases more <;>
        simp only [feed, next.not_has hc, start_ascii hc, flush, List.cons_append,
          List.nil_append, Bool.false_eq_true, if_false]

@[simp] theorem piecesFrom_nil (p : Pending) : piecesFrom p [] = p.flush := rfl

@[simp] theorem piecesFrom_cons (p : Pending) (b : UInt8) (bs : List UInt8) :
    piecesFrom p (b :: bs) = (p.feed b).1 ++ piecesFrom (p.feed b).2 bs := rfl

theorem piecesFrom_append_ascii (hc : c < 0x80) (p : Pending) (xs ys : List UInt8) :
    piecesFrom p (xs ++ c :: ys) = piecesFrom p xs ++ some [c] :: pieces ys := by
  induction xs generalizing p with
  | nil =>
      rw [List.nil_append, piecesFrom_cons, Pending.feed_ascii hc, List.append_assoc]
      rfl
  | cons x xs ih =>
      rw [List.cons_append, piecesFrom_cons, ih, piecesFrom_cons, List.append_assoc]

/-- A text is cut at an ASCII byte. -/
theorem lossy_append_ascii (hc : c < 0x80) (xs ys : List UInt8) :
    lossy (xs ++ c :: ys) = lossy xs ++ c :: lossy ys := by
  unfold lossy
  rw [pieces, piecesFrom_append_ascii hc, List.flatMap_append, List.flatMap_cons]
  rfl

theorem valid_append_ascii (hc : c < 0x80) : Valid (xs ++ c :: ys) ↔ Valid xs ∧ Valid ys := by
  unfold Valid
  rw [pieces, piecesFrom_append_ascii hc]
  simp [pieces]

theorem chars_cons (hc : c < 0x80) (bs : List UInt8) :
    chars (c :: bs) = Char.ofNat c.toNat :: chars bs := by
  have hpieces : pieces (c :: bs) = some [c] :: pieces bs := piecesFrom_append_ascii hc .idle [] bs
  unfold chars
  rw [hpieces]
  rfl

theorem valid_of_ascii (h : ∀ b ∈ bs, b < 0x80) : Valid bs := by
  induction bs with
  | nil => exact List.not_mem_nil
  | cons b bs ih =>
      rw [List.forall_mem_cons] at h
      exact (@valid_append_ascii b [] bs h.1).2 ⟨List.not_mem_nil, ih h.2⟩

@[simp] theorem lossy_nil : lossy [] = [] := rfl

/-! ## The bytes of the pieces -/

/-- Characters have the bytes that have been read. -/
theorem Pending.start_bytes (h : none ∉ (start b).1) :
    (start b).1.flatMap (·.getD []) ++ (start b).2.seen = [b] := by
  unfold start at h ⊢
  split at h
  · exact absurd (by simp) h
  · rfl
  · rfl

theorem Pending.feed_bytes (h : none ∉ (p.feed b).1) :
    (p.feed b).1.flatMap (·.getD []) ++ (p.feed b).2.seen = p.seen ++ [b] := by
  cases p with
  | idle => exact start_bytes h
  | within seen next more =>
      cases more <;>
      · simp only [feed] at h ⊢
        split at h
        case isTrue hnext =>
          rw [if_pos hnext]
          simp [Pending.seen]
        case isFalse => exact absurd (by simp) h

theorem piecesFrom_bytes (h : none ∉ piecesFrom p bs) :
    (piecesFrom p bs).flatMap (·.getD []) = p.seen ++ bs := by
  induction bs generalizing p with
  | nil =>
      cases p with
      | idle => rfl
      | within seen next more => exact absurd (by simp [Pending.flush]) h
  | cons b bs ih =>
      rw [piecesFrom_cons, List.mem_append, not_or] at h
      rw [piecesFrom_cons, List.flatMap_append, ih h.2, ← List.append_assoc,
        Pending.feed_bytes h.1, List.append_assoc, List.singleton_append]

/-- Nothing is replaced in a valid text. -/
theorem lossy_of_valid (h : Valid bs) : lossy bs = bs := by
  have hgetD : lossy bs = (pieces bs).flatMap (·.getD []) := by
    refine List.flatMap_congr fun piece hpiece => ?_
    cases piece with
    | none => exact absurd hpiece h
    | some q => rfl
  exact hgetD.trans (piecesFrom_bytes h)

theorem Pending.start_subset :
    (∀ q, some q ∈ (start b).1 → q ⊆ [b]) ∧ (start b).2.seen ⊆ [b] := by
  unfold start
  split <;> simp [Pending.seen]

theorem Pending.feed_subset :
    (∀ q, some q ∈ (p.feed b).1 → q ⊆ p.seen ++ [b]) ∧ (p.feed b).2.seen ⊆ p.seen ++ [b] := by
  obtain ⟨hpieces, hseen⟩ := @start_subset b
  cases p with
  | idle => exact ⟨hpieces, hseen⟩
  | within seen next more =>
      have hright : [b] ⊆ seen ++ [b] := List.subset_append_right _ _
      cases more <;>
      · simp only [feed]
        split
        · simp [Pending.seen]
        · refine ⟨fun q hq => ?_, List.Subset.trans hseen hright⟩
          rw [List.mem_cons, or_iff_right (Option.some_ne_none q)] at hq
          exact List.Subset.trans (hpieces q hq) hright

theorem subset_of_mem_piecesFrom (h : some q ∈ piecesFrom p bs) : q ⊆ p.seen ++ bs := by
  induction bs generalizing p with
  | nil => cases p <;> simp [Pending.flush] at h
  | cons b bs ih =>
      obtain ⟨hpieces, hseen⟩ := @Pending.feed_subset b p
      have happend : p.seen ++ b :: bs = p.seen ++ [b] ++ bs := by simp
      rw [happend]
      rw [piecesFrom_cons, List.mem_append] at h
      rcases h with h | h
      · exact List.Subset.trans (hpieces q h) (List.subset_append_left _ _)
      · refine List.Subset.trans (ih h) (List.append_subset.2 ⟨?_, List.subset_append_right _ _⟩)
        exact List.Subset.trans hseen (List.subset_append_left _ _)

/-- A replacement has no ASCII byte. -/
theorem mem_lossy (hc : c < 0x80) : c ∈ lossy bs ↔ c ∈ bs := by
  constructor
  · intro h
    obtain ⟨piece, hpiece, hmem⟩ := List.mem_flatMap.1 h
    cases piece with
    | none =>
        simp only [Option.getD_none, replacement, List.mem_cons, List.not_mem_nil, or_false] at hmem
        rcases hmem with rfl | rfl | rfl <;> exact absurd hc (by decide)
    | some q => exact subset_of_mem_piecesFrom hpiece hmem
  · intro h
    obtain ⟨xs, ys, rfl⟩ := List.append_of_mem h
    rw [lossy_append_ascii hc]
    simp

/-- The last piece ends with the last byte, or is replaced. -/
theorem Pending.feed_concat (p : Pending) (b : UInt8) :
    ∃ init last, (p.feed b).1 ++ (p.feed b).2.flush = init ++ [last] ∧
      ∀ q ∈ last, q.getLast? = some b := by
  have hstart : ∃ init last, (start b).1 ++ (start b).2.flush = init ++ [last] ∧
      ∀ q ∈ last, q.getLast? = some b := by
    unfold start
    split
    · exact ⟨[], none, rfl, by simp⟩
    · exact ⟨[], some [b], rfl, by simp⟩
    · exact ⟨[], none, rfl, by simp⟩
  obtain ⟨init, last, hinit, hlast⟩ := hstart
  cases p with
  | idle => exact ⟨init, last, hinit, hlast⟩
  | within seen next more =>
      cases more with
      | nil =>
          simp only [feed]
          split
          · exact ⟨[], some (seen ++ [b]), rfl, by simp⟩
          · exact ⟨none :: init, last, by rw [List.cons_append, hinit]; rfl, hlast⟩
      | cons next' more =>
          simp only [feed]
          split
          · exact ⟨[], none, rfl, by simp⟩
          · exact ⟨none :: init, last, by rw [List.cons_append, hinit]; rfl, hlast⟩

theorem piecesFrom_concat (p : Pending) (xs : List UInt8) (b : UInt8) :
    ∃ init last, piecesFrom p (xs ++ [b]) = init ++ [last] ∧ ∀ q ∈ last, q.getLast? = some b := by
  induction xs generalizing p with
  | nil => exact p.feed_concat b
  | cons x xs ih =>
      obtain ⟨init, last, h, hlast⟩ := ih (p.feed x).2
      refine ⟨(p.feed x).1 ++ init, last, ?_, hlast⟩
      rw [List.cons_append, piecesFrom_cons, h, List.append_assoc]

theorem getLast?_lossy_concat (xs : List UInt8) (b : UInt8) :
    (lossy (xs ++ [b])).getLast? = some b ∨ (lossy (xs ++ [b])).getLast? = some 0xBD := by
  obtain ⟨init, last, hinit, hlast⟩ := piecesFrom_concat .idle xs b
  have hlossy : lossy (xs ++ [b]) =
      init.flatMap (·.getD replacement) ++ last.getD replacement := by
    unfold lossy
    rw [pieces, hinit, List.flatMap_append, List.flatMap_singleton]
  rw [hlossy, List.getLast?_append]
  cases last with
  | none => exact Or.inr rfl
  | some q => exact Or.inl (by rw [Option.getD_some, hlast q rfl]; rfl)

theorem lossy_eq_nil : lossy bs = [] ↔ bs = [] := by
  refine ⟨fun h => ?_, fun h => by rw [h, lossy_nil]⟩
  rcases List.eq_nil_or_concat bs with rfl | ⟨xs, b, rfl⟩
  · rfl
  · rw [List.concat_eq_append] at h
    have hlast := getLast?_lossy_concat xs b
    simp [h] at hlast

theorem getLast?_lossy (hc : c < 0x80) : (lossy bs).getLast? = some c ↔ bs.getLast? = some c := by
  constructor
  · intro h
    rcases List.eq_nil_or_concat bs with rfl | ⟨xs, b, rfl⟩
    · simp at h
    · rw [List.concat_eq_append] at h ⊢
      rw [List.getLast?_concat]
      rcases getLast?_lossy_concat xs b with hlast | hlast
      · rw [← hlast, h]
      · obtain rfl : (0xBD : UInt8) = c := Option.some.inj (hlast.symm.trans h)
        exact absurd hc (by decide)
  · intro h
    obtain ⟨xs, rfl⟩ := List.getLast?_eq_some_iff.1 h
    rw [lossy_append_ascii hc, lossy_nil, List.getLast?_concat]

end Utf8
