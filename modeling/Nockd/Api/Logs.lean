import Mathlib.Algebra.Group.Nat.Hom
import Nockd.Api.LogLines
import Nockd.Config.Tail

/-!
# The end of a log

`logs` decodes a window at the end of the log, whose size goes with the number of lines that
are asked for, and returns its last lines. The size is a product in 64 bits, which a build
checks or not.
-/

namespace Nockd

namespace Api

open Config Lines Store Utf8

/-- `a * b` on `u64`, which panics in a build that checks for overflow. -/
def mulU64 (overflowChecks : Bool) (a b : UInt64) : Option UInt64 :=
  if overflowChecks = true ∧ 2 ^ 64 ≤ a.toNat * b.toNat then none else some (a * b)

/-- `clamp(256 * 1024, 8 * 1024 * 1024)` -/
def clamp (n : ℕ) : ℕ := min (max n (256 * 1024)) (8 * 1024 * 1024)

/-- `logs`, on what the calls on the log file give; `none` is a panic. -/
def logs (overflowChecks : Bool) (lines : UInt64) (c : FileCalls) : Option Bytes :=
  (mulU64 overflowChecks lines 1024).map fun product =>
    let text := readTail c (clamp product.toNat)
    let tail := (strLines text).reverse.take lines.toNat
    [10].intercalate tail.reverse

/-- The last lines of a file, decoded and joined. -/
def tailOf (lines : UInt64) (file : Bytes) : Bytes :=
  [10].intercalate
    (((strLines file).drop ((strLines file).length - lines.toNat)).map lossy)

/-- They are in the window, which is computed without wrapping around. -/
def Fits (lines : UInt64) (file : Bytes) : Prop :=
  (lastLines lines.toNat file).length ≤ clamp (lines.toNat * 1024)

variable {overflowChecks : Bool} {lines : UInt64} {file : Bytes} {n w : ℕ}

theorem reverse_take_reverse {α : Type} (xs : List α) (n : ℕ) :
    (xs.reverse.take n).reverse = xs.drop (xs.length - n) := by
  rw [List.take_reverse, List.reverse_reverse]

/-- A window that holds the last lines has them as its last lines. -/
theorem drop_strLines_window (h : (lastLines n file).length ≤ w) :
    (strLines (file.drop (file.length - w))).drop
        ((strLines (file.drop (file.length - w))).length - n) =
      (strLines file).drop ((strLines file).length - n) := by
  have hlast := strLines_lastLines n file
  have hlength := congrArg List.length hlast
  rw [List.length_drop] at hlength
  rw [← hlast]
  obtain ⟨before, hfile, hclosed⟩ :=
    @exists_dropLines UInt8 10 _ ((strLines file).length - n) file
  change file = before ++ lastLines n file at hfile
  change Closed 10 before ∨ lastLines n file = [] at hclosed
  rcases hclosed with hclosed | hnil
  · -- the window begins within the lines before
    have hwindow : file.drop (file.length - w) =
        before.drop (before.length + (lastLines n file).length - w) ++ lastLines n file := by
      conv_lhs => rw [hfile]
      rw [List.length_append, List.drop_append_of_le_length (by omega)]
    have hsuffix : Closed 10 (before.drop (before.length + (lastLines n file).length - w)) := by
      rw [← List.take_append_drop (before.length + (lastLines n file).length - w) before]
        at hclosed
      exact hclosed.of_append
    rw [hwindow, strLines_append hsuffix, List.length_append, hlength]
    by_cases hn : n ≤ (strLines file).length
    · rw [Nat.sub_sub_self hn, Nat.add_sub_cancel, List.drop_left]
    · have hbefore : before = [] := by
        have hall : lastLines n file = file := by
          unfold lastLines
          rw [Nat.sub_eq_zero_of_le (by omega), dropLines]
        rw [hall] at hfile
        exact List.append_left_eq_self.1 hfile.symm
      rw [hbefore, List.drop_nil, strLines_nil, List.nil_append, List.length_nil,
        show 0 + ((strLines file).length - ((strLines file).length - n)) - n = 0 by omega,
        List.drop_zero]
  · -- there are none to be returned
    rw [hnil, strLines_nil, List.length_nil] at hlength
    rw [hnil, strLines_nil]
    by_cases hn : n = 0
    · rw [hn, Nat.sub_zero, List.drop_length]
    · have hfile : file = [] := strLines_eq_nil.1 (List.length_eq_zero_iff.1 (by omega))
      rw [hfile, List.drop_nil, strLines_nil, List.drop_nil]

theorem logs_quiet (hlt : lines.toNat * 1024 < 2 ^ 64) (hfits : Fits lines file) :
    logs overflowChecks lines (.quiet file) = some (tailOf lines file) := by
  have hproduct : (lines * 1024).toNat = lines.toNat * 1024 := by
    rw [UInt64.toNat_mul]
    exact Nat.mod_eq_of_lt hlt
  unfold logs mulU64
  rw [if_neg fun h => absurd h.2 (Nat.not_le.2 hlt), Option.map_some, hproduct]
  simp only [readTail, FileCalls.tail_quiet, strLines_lossy, reverse_take_reverse,
    List.length_map]
  rw [← List.map_drop, drop_strLines_window hfits]
  rfl

/-- In every build, the last lines are returned if and only if the size of the window can be
computed. -/
theorem logs_exact_iff (hfits : Fits lines file) :
    (∀ overflowChecks, logs overflowChecks lines (.quiet file) = some (tailOf lines file)) ↔
      lines.toNat * 1024 < 2 ^ 64 := by
  refine ⟨fun h => ?_, fun hlt overflowChecks => logs_quiet hlt hfits⟩
  by_contra hlt
  have htrue := h true
  unfold logs mulU64 at htrue
  rw [if_pos ⟨rfl, Nat.not_lt.1 hlt⟩] at htrue
  cases htrue

/-- A build without checks takes a product that wraps around. -/
theorem logs_wrapped (h : file.length ≤ clamp ((lines.toNat * 1024) % 2 ^ 64)) :
    logs false lines (.quiet file) = some (tailOf lines file) := by
  have hproduct : (lines * 1024).toNat = (lines.toNat * 1024) % 2 ^ 64 := UInt64.toNat_mul _ _
  unfold logs mulU64
  rw [if_neg (fun h => Bool.false_ne_true h.1), Option.map_some, hproduct]
  simp only [readTail, FileCalls.tail_quiet, Nat.sub_eq_zero_of_le h, List.drop_zero,
    strLines_lossy, reverse_take_reverse, List.length_map]
  rw [← List.map_drop]
  rfl

section Runs

/-- More lines than the size of a window can be computed for. -/
def countless : UInt64 := 18014398509481984

/-- A log of one line. -/
def oneLine (n : ℕ) : Bytes := List.replicate (n + 1) 97

theorem length_oneLine (n : ℕ) : (oneLine n).length = n + 1 := List.length_replicate

theorem strLines_oneLine (n : ℕ) : strLines (lossy (oneLine n)) = [oneLine n] := by
  have hascii : ∀ b ∈ oneLine n, b < 0x80 := by
    intro b hb
    rw [List.eq_of_mem_replicate hb]
    decide
  rw [lossy_of_valid (valid_of_ascii hascii), strLines_open, if_neg (by simp [oneLine])]
  intro hmem
  exact absurd (List.eq_of_mem_replicate hmem) (by decide)

theorem tailOf_oneLine : tailOf countless (oneLine n) = oneLine n := by
  have hone := strLines_oneLine n
  have hlength := congrArg List.length hone
  rw [strLines_lossy, List.length_map, List.length_singleton] at hlength
  rw [strLines_lossy] at hone
  unfold tailOf
  rw [hlength, Nat.sub_eq_zero_of_le (by decide), List.drop_zero, hone]
  simp [List.intercalate]

theorem fits_oneLine (hn : n < 8 * 1024 * 1024) : Fits countless (oneLine n) := by
  have hlength := congrArg List.length (strLines_oneLine n)
  rw [strLines_lossy, List.length_map, List.length_singleton] at hlength
  have hclamp : clamp (countless.toNat * 1024) = 8 * 1024 * 1024 := by decide
  unfold Fits lastLines
  rwa [hlength, Nat.sub_eq_zero_of_le (by decide), dropLines, hclamp, length_oneLine,
    Nat.add_one_le_iff]

/-- The end of the line, from where the smallest window begins. -/
theorem logs_oneLine : logs false countless (.quiet (oneLine (256 * 1024))) =
    some (oneLine (256 * 1024 - 1)) := by
  have hwindow : (oneLine (256 * 1024)).drop ((oneLine (256 * 1024)).length - 256 * 1024) =
      oneLine (256 * 1024 - 1) := by
    rw [length_oneLine]
    exact List.drop_replicate
  have hclamp : clamp (countless * 1024).toNat = 256 * 1024 := by decide
  unfold logs mulU64
  rw [if_neg (fun h => Bool.false_ne_true h.1), Option.map_some, hclamp]
  simp only [readTail, FileCalls.tail_quiet, hwindow, strLines_oneLine, reverse_take_reverse]
  simp [List.intercalate, countless]

theorem logs_not_exact :
    (¬ ∀ (lines : UInt64) (file : Bytes), Fits lines file →
      logs true lines (.quiet file) = some (tailOf lines file)) ∧
    ¬ ∀ (lines : UInt64) (file : Bytes), Fits lines file →
      logs false lines (.quiet file) = some (tailOf lines file) := by
  refine ⟨fun h => ?_, fun h => ?_⟩
  · have hnone : logs true countless (.quiet (oneLine 0)) = none := by
      unfold logs mulU64
      rw [if_pos ⟨rfl, by decide⟩]
      rfl
    have heq := h _ _ (fits_oneLine (n := 0) (by decide))
    rw [hnone] at heq
    cases heq
  · have heq := h _ _ (fits_oneLine (n := 256 * 1024) (by decide))
    rw [logs_oneLine, tailOf_oneLine] at heq
    have hlength := congrArg List.length (Option.some.inj heq)
    rw [length_oneLine, length_oneLine] at hlength
    exact absurd hlength (by decide)

theorem logs_exact_iff_two :
    logs true 1 (.quiet [97, 10, 98, 13, 10]) = some [98] ∧
      logs false 1 (.quiet [97, 10, 98, 13, 10]) = some [98] := by
  have hfits : Fits 1 [97, 10, 98, 13, 10] := by
    unfold Fits
    decide
  have htail : tailOf 1 [97, 10, 98, 13, 10] = [98] := by decide
  have hexact := (logs_exact_iff hfits).2 (by decide)
  rw [htail] at hexact
  exact ⟨hexact true, hexact false⟩

end Runs

end Api

end Nockd
