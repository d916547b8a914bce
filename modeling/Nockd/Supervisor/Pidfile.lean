import Nockd.Supervisor.Reconcile

/-!
# Reading a pidfile back

A later daemon takes the first word of a pidfile for a pid. What `pidText`
writes is read back as the pid it was written for.
-/

namespace Nockd

namespace Supervisor

/-- `char::is_whitespace`. -/
def isWhitespace (c : Char) : Bool :=
  let n := c.toNat
  (9 ≤ n && n ≤ 13) || n = 0x20 || n = 0x85 || n = 0xa0 || n = 0x1680 ||
    (0x2000 ≤ n && n ≤ 0x200a) || n = 0x2028 || n = 0x2029 || n = 0x202f || n = 0x205f ||
    n = 0x3000

/-- `split_whitespace().next()`; no word is the empty one. -/
def firstWord (text : List Char) : List Char :=
  (text.dropWhile isWhitespace).takeWhile fun c => !isWhitespace c

/-- `parse::<u32>()`: digits, perhaps after a plus sign. -/
def parseU32 (word : List Char) : Option ℕ :=
  let digits := if word.head? = some '+' then word.tail else word
  let n := Nat.ofDigitChars 10 digits 0
  if digits ≠ [] ∧ digits.all (·.isDigit) ∧ n < 2 ^ 32 then some n else none

/-- The pid that a pidfile names. A file that is not UTF-8 is not read. -/
def readPid (bytes : Bytes) : Option Pid :=
  (String.fromUTF8? ⟨bytes.toArray⟩).bind fun text => parseU32 (firstWord text.toList)

theorem fromUTF8?_asBytes (s : String) : String.fromUTF8? ⟨(asBytes s).toArray⟩ = some s := by
  have hbytes : (⟨(asBytes s).toArray⟩ : ByteArray) = s.toByteArray := rfl
  rw [hbytes]
  exact dif_pos s.isValidUTF8

theorem not_isWhitespace_of_isDigit {c : Char} (h : c.isDigit = true) :
    isWhitespace c = false := by
  simp only [Char.isDigit, Bool.and_eq_true, decide_eq_true_eq, UInt32.le_iff_toNat_le] at h
  have hn : 48 ≤ c.toNat ∧ c.toNat ≤ 57 := h
  simp only [isWhitespace]
  grind

theorem firstWord_digits {digits rest : List Char} (h : ∀ c ∈ digits, c.isDigit = true)
    (hne : digits ≠ []) : firstWord (digits ++ ' ' :: rest) = digits := by
  have hword : ∀ c ∈ digits, isWhitespace c = false :=
    fun c hc => not_isWhitespace_of_isDigit (h c hc)
  unfold firstWord
  obtain ⟨c, cs, rfl⟩ := List.exists_cons_of_ne_nil hne
  rw [List.cons_append, List.dropWhile_cons_of_neg (by simp [hword c]), ← List.cons_append,
    List.takeWhile_append_of_pos (by simpa using hword),
    List.takeWhile_cons_of_neg (by decide), List.append_nil]

theorem parseU32_toDigits {n : ℕ} (h : n < 2 ^ 32) :
    parseU32 (Nat.toDigits 10 n) = some n := by
  have hdigit : ∀ c ∈ Nat.toDigits 10 n, c.isDigit = true :=
    fun c hc => Nat.isDigit_of_mem_toDigits (by decide) (by decide) hc
  have hplus : (Nat.toDigits 10 n).head? ≠ some '+' := by
    intro hhead
    exact absurd (hdigit _ (List.mem_of_mem_head? hhead)) (by decide)
  unfold parseU32
  simp only [if_neg hplus, Nat.ofDigitChars_ten_toDigits]
  exact if_pos ⟨Nat.toDigits_ne_nil, List.all_eq_true.2 hdigit, h⟩

/-- A whole pidfile is read back. -/
theorem readPid_pidText {pid : Pid} (h : pid < 2 ^ 32) (startedAt : ℤ) :
    readPid (World.pidText pid startedAt) = some pid := by
  have htext : (toString pid ++ " " ++ toString startedAt).toList =
      Nat.toDigits 10 pid ++ ' ' :: (toString startedAt).toList := by
    simp [String.toList_append]
  unfold readPid World.pidText
  rw [fromUTF8?_asBytes, Option.bind_some, htext, firstWord_digits, parseU32_toDigits h]
  · exact fun c hc => Nat.isDigit_of_mem_toDigits (by decide) (by decide) hc
  · exact Nat.toDigits_ne_nil

end Supervisor

end Nockd
