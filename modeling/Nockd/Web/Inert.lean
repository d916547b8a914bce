import Nockd.Data.Skeleton
import Nockd.Web.Dashboard

/-!
# What is inert in HTML

A fragment is read piece by piece. The literal pieces say in which mode the reader is before
what is put between them, and escaped text, numbers and the like neither begin a tag nor end a
value.
-/

namespace Nockd

namespace Web

open Api Registry Skeleton Store

def htmlDelimiters : Delimiters UInt16 := ⟨ltUnit, gtUnit, 0x22⟩

abbrev HtmlInert (s : JsString) : Prop := Inert htmlDelimiters s

/-- The same tags, from one mode to another. -/
abbrev HtmlAlike (m m' : Mode) (s t : JsString) : Prop := Alike htmlDelimiters m m' s t

def units (l : List Char) : JsString := l.map fun c => UInt16.ofNat c.toNat

theorem js_ofList (l : List Char) : js (String.ofList l) = units l := by
  unfold js units
  rw [String.toList_ofList]

variable {m m' : Mode} {s t : JsString} {ss ts : List JsString} {l : List Char}

/-! ## Literal pieces -/

theorem alike_lit (h : after htmlDelimiters m (units l) = m') :
    HtmlAlike m m' (js (String.ofList l)) (js (String.ofList l)) :=
  .of_eq (js_ofList l ▸ h)

/-- A literal piece that ends between tags. -/
theorem alike_litText (h : after htmlDelimiters m (units l) = .text)
    (hrest : HtmlAlike .text m' ss.flatten ts.flatten) :
    HtmlAlike m m' (js (String.ofList l) :: ss).flatten (js (String.ofList l) :: ts).flatten :=
  (alike_lit h).cons hrest

/-- A literal piece that ends in a value. -/
theorem alike_litValue (h : after htmlDelimiters m (units l) = .value)
    (hrest : HtmlAlike .value m' ss.flatten ts.flatten) :
    HtmlAlike m m' (js (String.ofList l) :: ss).flatten (js (String.ofList l) :: ts).flatten :=
  (alike_lit h).cons hrest

theorem alike_litEnd (h : after htmlDelimiters m (units l) = m') :
    HtmlAlike m m' [js (String.ofList l)].flatten [js (String.ofList l)].flatten :=
  (alike_lit h).cons (.nil m')

/-- A literal text in two pieces. -/
theorem alike_twoLits {k : List Char} (hl : after htmlDelimiters m (units l) = .text)
    (hk : after htmlDelimiters .text (units k) = m') :
    HtmlAlike m m' (js (String.ofList l) ++ js (String.ofList k))
      (js (String.ofList l) ++ js (String.ofList k)) :=
  (alike_lit hl).append (alike_lit hk)

/-- What is inert between tags. -/
theorem alike_inertText (hs : HtmlInert s) (ht : HtmlInert t)
    (hrest : HtmlAlike .text m' ss.flatten ts.flatten) :
    HtmlAlike .text m' (s :: ss).flatten (t :: ts).flatten :=
  .hole hs ht (by decide) hrest

/-- What is inert in a value. -/
theorem alike_inertValue (hs : HtmlInert s) (ht : HtmlInert t)
    (hrest : HtmlAlike .value m' ss.flatten ts.flatten) :
    HtmlAlike .value m' (s :: ss).flatten (t :: ts).flatten :=
  .hole hs ht (by decide) hrest

/-! ## What is inert -/

def isInert (s : JsString) : Bool := s.all fun c => c ≠ ltUnit ∧ c ≠ 0x22

theorem isInert_iff : isInert s = true ↔ HtmlInert s := by
  unfold isInert HtmlInert Inert
  simp [htmlDelimiters]

theorem inert_lit (h : isInert (units l) = true) : HtmlInert (js (String.ofList l)) :=
  js_ofList l ▸ isInert_iff.1 h

theorem inert_nil : HtmlInert [] := nofun

theorem inert_dash : HtmlInert dash := inert_lit rfl

theorem inert_flatten (h : ∀ s ∈ ss, HtmlInert s) : HtmlInert ss.flatten := fun c hc => by
  obtain ⟨s, hs, hc⟩ := List.mem_flatten.1 hc
  exact h s hs c hc

theorem inert_flatMap {α : Type} {xs : List α} {f : α → JsString} (h : ∀ x ∈ xs, HtmlInert (f x)) :
    HtmlInert (xs.flatMap f) := fun c hc => by
  obtain ⟨x, hx, hc⟩ := List.mem_flatMap.1 hc
  exact h x hx c hc

theorem inert_getD {x : Option JsString} (hx : ∀ s ∈ x, HtmlInert s) (hs : HtmlInert s) :
    HtmlInert (x.getD s) := by
  cases x with
  | none => exact hs
  | some s => exact hx s rfl

/-- Escaped text is inert. -/
theorem inert_esc (s : JsString) : HtmlInert (esc s) := by
  refine inert_flatMap fun c _ => ?_
  by_cases hc : c ∈ escapes.map Prod.fst
  · obtain ⟨e, he, rfl⟩ := List.mem_map.1 hc
    have hall : ∀ e ∈ escapes, isInert ((escapes.lookup e.1).getD [e.1]) = true := by decide
    exact isInert_iff.1 (hall e he)
  · have hnone : escapes.lookup c = none := by
      rw [List.lookup_eq_none_iff]
      intro e he
      exact bne_iff_ne.2 fun heq => hc (heq ▸ List.mem_map_of_mem he)
    rw [hnone]
    intro c' hc'
    rw [List.mem_singleton.1 hc']
    exact ⟨fun heq => hc (by rw [heq]; decide), fun heq => hc (by rw [heq]; decide)⟩

/-- The other characters of a text are inert. -/
theorem inert_units (h : ∀ c ∈ l, c.toNat < 0x10000 ∧ c ≠ '<' ∧ c ≠ '"') :
    HtmlInert (units l) := fun c hc => by
  obtain ⟨c, hmem, rfl⟩ := List.mem_map.1 hc
  obtain ⟨hsmall, hlt, hquote⟩ := h c hmem
  have hne (c' : Char) (hsmall' : c'.toNat < 0x10000) (hne : c ≠ c') :
      UInt16.ofNat c.toNat ≠ UInt16.ofNat c'.toNat := fun heq => hne <| by
    have hnat := congrArg UInt16.toNat heq
    rw [UInt16.toNat_ofNat', UInt16.toNat_ofNat', Nat.mod_eq_of_lt hsmall,
      Nat.mod_eq_of_lt hsmall'] at hnat
    exact Char.toNat_inj.1 hnat
  exact ⟨hne '<' (by decide) hlt, hne '"' (by decide) hquote⟩

theorem of_isDigit {c : Char} (h : c.isDigit = true) :
    c.toNat < 0x10000 ∧ c ≠ '<' ∧ c ≠ '"' := by
  have hle : c.toNat ≤ 57 := by
    simp only [Char.isDigit, Bool.and_eq_true, decide_eq_true_eq] at h
    exact UInt32.le_iff_toNat_le.1 h.2
  refine ⟨by omega, ?_, ?_⟩
  · rintro rfl
    exact absurd hle (by decide)
  · rintro rfl
    exact absurd h (by decide)

theorem inert_digits (n : ℕ) : HtmlInert (digits n) := by
  have htext : digits n = units (Nat.toDigits 10 n) := js_ofList _
  rw [htext]
  refine inert_units fun c hc => of_isDigit ?_
  exact Nat.isDigit_of_mem_toDigits (by decide) (by decide) hc

theorem inert_integer (n : ℤ) : HtmlInert (integer n) := by
  cases n with
  | ofNat n => exact inert_digits n
  | negSucc n =>
      have htext : integer (.negSucc n) = js "-" ++ digits (n + 1) := by
        unfold integer digits js
        rw [← List.map_append, ← String.toList_append]
        rfl
      rw [htext]
      exact (inert_lit rfl).append (inert_digits _)

theorem of_isUnreserved {c : Char} (h : isUnreserved c = true) :
    c.toNat < 0x10000 ∧ c ≠ '<' ∧ c ≠ '"' := by
  refine ⟨?_, ?_, ?_⟩
  · simp only [isUnreserved, Bool.or_eq_true, decide_eq_true_eq] at h
    rcases h with halnum | hmem
    · unfold Char.isAlphanum Char.isAlpha Char.isUpper Char.isLower Char.isDigit at halnum
      simp only [Bool.or_eq_true, Bool.and_eq_true, decide_eq_true_eq, UInt32.le_iff_toNat_le]
        at halnum
      have hnat : c.toNat = c.val.toNat := rfl
      have hz : 'z'.val.toNat = 122 := rfl
      have hZ : 'Z'.val.toNat = 90 := rfl
      have h9 : '9'.val.toNat = 57 := rfl
      omega
    · have hall : (['-', '_', '.', '!', '~', '*', '\'', '(', ')'].all fun c =>
          c.toNat < 0x10000) = true := rfl
      exact of_decide_eq_true (List.all_eq_true.1 hall c hmem)
  · rintro rfl
    exact absurd h (by decide)
  · rintro rfl
    exact absurd h (by decide)

theorem inert_percent (byte : UInt8) : HtmlInert (percent byte) := by
  have hdigit : ∀ n < 16, hexDigit n ≠ ltUnit ∧ hexDigit n ≠ 0x22 := by decide
  have hbyte := byte.toNat_lt
  intro c hc
  simp only [percent, List.mem_cons, List.not_mem_nil, or_false] at hc
  rcases hc with rfl | rfl | rfl
  · decide
  · exact hdigit _ (by omega)
  · exact hdigit _ (by omega)

theorem inert_encodeURIComponent (s : String) : HtmlInert (encodeURIComponent s) := by
  refine inert_flatMap fun c _ => ?_
  split
  case isTrue hc =>
    have hchar : HtmlInert (units [c]) :=
      inert_units fun c' hc' => List.mem_singleton.1 hc' ▸ of_isUnreserved hc
    exact hchar
  case isFalse => exact inert_flatMap fun byte _ => inert_percent byte

theorem inert_statusClass (s : JsString) : HtmlInert (statusClass s) := by
  have hall : ∀ s ∈ statuses, isInert s = true := by decide
  unfold statusClass
  split
  case isTrue hmem => exact isInert_iff.1 (hall s hmem)
  case isFalse => exact inert_lit rfl

theorem inert_shortHash (h : HtmlInert s) : HtmlInert (shortHash s) := by
  unfold shortHash
  split
  · exact inert_dash
  · refine ((h.sublist (List.take_sublist _ _)).append (inert_lit rfl)).append ?_
    exact h.sublist (List.drop_sublist _ _)

theorem inert_two (hs : HtmlInert s) (ht : HtmlInert t) : HtmlInert [s, t].flatten :=
  inert_flatten fun u hu => by
    rcases List.mem_cons.1 hu with rfl | hu
    · exact hs
    · exact List.mem_singleton.1 hu ▸ ht

theorem inert_three {u : JsString} (hs : HtmlInert s) (ht : HtmlInert t) (hu : HtmlInert u) :
    HtmlInert [s, t, u].flatten := by
  rw [List.flatten_cons]
  exact hs.append (inert_two ht hu)

theorem inert_fixed (n unit : ℕ) : HtmlInert (fixed n unit) := by
  exact inert_three (inert_digits _) (inert_lit rfl) (inert_digits _)

theorem inert_scaled (n unit : ℕ) {us : List JsString} (hus : ∀ u ∈ us, HtmlInert u) :
    HtmlInert (scaled n unit us) := by
  have hsized {u : JsString} (hu : HtmlInert u) (unit : ℕ) :
      HtmlInert [fixed n unit, js " ", u].flatten := by
    exact inert_three (inert_fixed n unit) (inert_lit rfl) hu
  induction us generalizing unit with
  | nil => exact inert_nil
  | cons u us ih =>
      have hu := hus u List.mem_cons_self
      cases us with
      | nil => exact hsized hu unit
      | cons u' us =>
          unfold scaled
          split
          · exact hsized hu unit
          · exact ih _ fun u'' hu'' => hus u'' (List.mem_cons_of_mem u hu'')

theorem inert_fmtBytes (n : ℕ) : HtmlInert (fmtBytes n) := by
  unfold fmtBytes
  split
  · exact inert_two (inert_digits n) (inert_lit rfl)
  · refine inert_scaled n 1024 fun u hu => ?_
    have hall : ∀ u ∈ [js "KB", js "MB", js "GB", js "TB"], isInert u = true := by decide
    exact isInert_iff.1 (hall u hu)

theorem inert_fmtUptime (s : Option ℤ) : HtmlInert (fmtUptime s) := by
  cases s with
  | none => exact inert_dash
  | some s =>
      unfold fmtUptime
      simp only
      split
      · exact inert_two (inert_integer _) (inert_lit rfl)
      · split
        · exact inert_two (inert_integer _) (inert_lit rfl)
        · split
          · exact inert_two (inert_integer _) (inert_lit rfl)
          · exact inert_two (inert_integer _) (inert_lit rfl)

end Web

end Nockd
