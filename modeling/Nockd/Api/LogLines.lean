import Nockd.Api.LogStream
import Nockd.Data.Utf8

/-!
# The lines of a log

A log is any bytes. The lines of a decoded log are the decoded lines of the log, and the last
lines of a log are the lines of the end of it. What is sent of a line has a carriage return
if and only if the line has one that is not directly before its line feed.
-/

namespace Nockd

namespace Api

open LogsSse Lines Store Utf8

variable {line text : Bytes}

theorem text_induction {motive : Bytes → Prop} (open_line : ∀ line, 10 ∉ line → motive line)
    (cons_line : ∀ line text, 10 ∉ line → motive text → motive (line ++ 10 :: text))
    (text : Bytes) : motive text :=
  line_induction open_line cons_line text

theorem strLines_line (h : 10 ∉ line) :
    strLines (line ++ 10 :: text) = stripCr line :: strLines text := by
  unfold strLines
  rw [whole_line h, rest_append_cons]
  rfl

theorem strLines_open (h : 10 ∉ line) : strLines line = if line = [] then [] else [line] := by
  unfold strLines
  rw [whole_of_not_mem h, rest_of_not_mem h]
  rfl

@[simp] theorem strLines_nil : strLines [] = [] := rfl

theorem strLines_eq_nil : strLines text = [] ↔ text = [] := by
  refine ⟨fun h => ?_, fun h => by rw [h, strLines_nil]⟩
  induction text using text_induction with
  | open_line line hline =>
      rw [strLines_open hline] at h
      by_contra hne
      rw [if_neg hne] at h
      cases h
  | cons_line line text hline =>
      rw [strLines_line hline] at h
      cases h

theorem strLines_append {xs : Bytes} (h : Closed 10 xs) :
    strLines (xs ++ text) = strLines xs ++ strLines text := by
  rw [strLines_of_closed h]
  unfold strLines
  rw [h.whole_append, h.rest_append, List.map_append, List.append_assoc]

/-! ## Decoding -/

theorem stripCr_lossy (line : Bytes) : stripCr (lossy line) = lossy (stripCr line) := by
  have hlast : (lossy line).getLast? = some 13 ↔ line.getLast? = some 13 :=
    getLast?_lossy (by decide)
  unfold stripCr
  by_cases h : line.getLast? = some 13
  · rw [if_pos h, if_pos (hlast.2 h)]
    obtain ⟨line, rfl⟩ := List.getLast?_eq_some_iff.1 h
    rw [lossy_append_ascii (by decide), lossy_nil, List.dropLast_concat, List.dropLast_concat]
  · rw [if_neg h, if_neg (mt hlast.1 h)]

theorem strLines_lossy (text : Bytes) : strLines (lossy text) = (strLines text).map lossy := by
  have hmem {line : Bytes} (h : 10 ∉ line) : 10 ∉ lossy line := by
    rwa [mem_lossy (by decide)]
  induction text using text_induction with
  | open_line line h =>
      rw [strLines_open h, strLines_open (hmem h)]
      by_cases hline : line = []
      · rw [if_pos hline, if_pos (lossy_eq_nil.2 hline)]
        rfl
      · rw [if_neg hline, if_neg (mt lossy_eq_nil.1 hline)]
        rfl
  | cons_line line text h ih =>
      rw [lossy_append_ascii (by decide), strLines_line (hmem h), strLines_line h, ih,
        stripCr_lossy]
      rfl

/-! ## The last lines -/

theorem strLines_dropLines (n : ℕ) (text : Bytes) :
    strLines (dropLines 10 n text) = (strLines text).drop n := by
  induction n generalizing text with
  | zero => rfl
  | succ n ih =>
      rw [dropLines, ih]
      by_cases hmem : 10 ∈ text
      · obtain ⟨line, more, rfl, hline⟩ := List.eq_append_cons_of_mem hmem
        rw [afterLine_line hline, strLines_line hline, List.drop_succ_cons]
      · rw [afterLine_of_not_mem hmem, strLines_open hmem]
        split <;> simp

/-- The end of a text, from its `n`th last line on. -/
def lastLines (n : ℕ) (text : Bytes) : Bytes := dropLines 10 ((strLines text).length - n) text

theorem strLines_lastLines (n : ℕ) (text : Bytes) :
    strLines (lastLines n text) = (strLines text).drop ((strLines text).length - n) :=
  strLines_dropLines _ _

/-! ## Carriage returns -/

/-- Each carriage return is directly before a line feed. -/
def CrLf : Bytes → Prop
  | [] => True
  | b :: text => (b = 13 → text.head? = some 10) ∧ CrLf text

instance CrLf.decidable : (text : Bytes) → Decidable (CrLf text)
  | [] => inferInstanceAs (Decidable True)
  | b :: text =>
    have := CrLf.decidable text
    inferInstanceAs (Decidable ((b = 13 → text.head? = some 10) ∧ CrLf text))

theorem crLf_append (h : 10 ∉ line) (htext : text.head? ≠ some 10) :
    CrLf (line ++ text) ↔ 13 ∉ line ∧ CrLf text := by
  induction line with
  | nil => simp
  | cons b line ih =>
      rw [List.mem_cons, not_or] at h
      have hhead : (line ++ text).head? ≠ some 10 := by
        cases line with
        | nil => exact htext
        | cons c line => simpa using fun heq => h.2 (by simp [heq])
      rw [List.cons_append, CrLf, ih h.2, List.mem_cons, not_or, and_assoc]
      simp only [hhead, imp_false, eq_comm]

theorem crLf_open (h : 10 ∉ line) : CrLf line ↔ 13 ∉ line := by
  have happend := @crLf_append line [] h (by simp)
  rw [List.append_nil] at happend
  rw [happend]
  simp [CrLf]

theorem crLf_line (h : 10 ∉ line) :
    CrLf (line ++ 10 :: text) ↔ 13 ∉ stripCr line ∧ CrLf text := by
  rcases List.eq_nil_or_concat line with rfl | ⟨init, b, rfl⟩
  · simp [CrLf, stripCr]
  · rw [List.concat_eq_append] at h ⊢
    simp only [List.mem_append, List.mem_singleton, not_or] at h
    rw [List.append_assoc, List.singleton_append, crLf_append h.1 (by simpa using Ne.symm h.2)]
    unfold stripCr
    by_cases hb : b = 13
    · subst hb
      simp [CrLf]
    · simp [CrLf, hb, Ne.symm hb]

/-- A line keeps those that are not before its line feed. -/
theorem crLf_iff (text : Bytes) : CrLf text ↔ ∀ line ∈ strLines text, 13 ∉ line := by
  induction text using text_induction with
  | open_line line h =>
      rw [crLf_open h, strLines_open h]
      split
      case isTrue heq => simp [heq]
      case isFalse => simp
  | cons_line line text h ih => rw [crLf_line h, strLines_line h, ih, List.forall_mem_cons]

theorem mem_stripNul {b : UInt8} (hb : b ≠ 0) : b ∈ stripNul line ↔ b ∈ line := by
  simp [stripNul, hb]

end Api

end Nockd
