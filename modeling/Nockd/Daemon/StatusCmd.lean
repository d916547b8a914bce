import Nockd.Api.LogLines
import Nockd.Config.Ansi
import Nockd.Config.Icon
import Nockd.Config.Tail
import Nockd.Interleaving.Pipes

/-!
# The status command

`run_status_cmd` writes the recent log to a command and then collects what it prints. The
command is any deterministic stream program. A command that prints more than a pipe holds
before it has come close to the end of the log waits for the daemon, which waits for it.
-/

namespace Nockd

namespace Daemon

open Api Config Interleaving Pipes Store Utf8

/-- What is written to the command. -/
def plainLog (c : FileCalls) : Bytes :=
  (stripAnsi (chars (readTail c (256 * 1024)))).flatMap String.utf8EncodeChar

/-- What is made of the output of a command that was successful. -/
def statusLine (stdout : Bytes) : Option (List Char) :=
  ((strLines (lossy stdout)).find? fun line => trim (chars line) ≠ []).bind fun line =>
    let capped := (trim (chars line)).take 80
    if capped ≠ [] then some capped else none

/-- What `run_status_cmd` returns, once the command has exited and its output is collected. -/
def returned {σ : Type} (s : Pipes.State UInt8 σ) : Option (List Char) :=
  match s.process with
  | .exited true => statusLine s.collected
  | _ => none

/-- The first line that is not blank, trimmed and cut. -/
def firstLine (stdout : Bytes) : Option (List Char) :=
  (((strLines (lossy stdout)).map fun line => trim (chars line)).find? (· ≠ [])).map
    (·.take 80)

/-- The daemon and a command come to their end, with a result. -/
structure Completes {σ : Type} (prog : σ → Op UInt8 σ) (cin cout : ℕ) (q : σ) (input : Bytes)
    (result : Option (List Char)) : Prop where
  /-- Until then, one of the two can move. -/
  moves : ∀ s, Reachable (step prog cin cout) (· = start q input) s → ¬ Stuck prog cin cout s
  returns : ∀ s, Reachable (step prog cin cout) (· = start q input) s → s.done = true →
    returned s = result
  /-- No run goes on for ever. -/
  ends : ∃ n, ∀ sides s, run (step prog cin cout) (start q input) sides = some s →
    sides.length ≤ n

variable {σ : Type} {prog : σ → Op UInt8 σ} {q : σ} {c : FileCalls} {cin cout : ℕ}
  {trace : List (Event UInt8)}

theorem statusLine_eq (stdout : Bytes) : statusLine stdout = firstLine stdout := by
  have hsame : ((fun line : List Char => decide (line ≠ [])) ∘ fun line => trim (chars line)) =
      fun line => decide (trim (chars line) ≠ []) := rfl
  unfold statusLine firstLine
  rw [List.find?_map, hsame]
  cases hfind : (strLines (lossy stdout)).find? fun line => decide (trim (chars line) ≠ []) with
  | none => rfl
  | some line =>
      have hfound := List.find?_some hfind
      have hline : (trim (chars line)).take 80 ≠ [] := by simpa using hfound
      exact if_pos hline

/-- With a command that is successful by itself, the daemon comes to its end and returns the
first line that is not blank if and only if, whenever the command prints, it has not filled
its output pipe or what it has not read of the log fits in its input pipe. -/
theorem run_status_cmd_iff (hruns : Runs prog q (plainLog c) trace true) (hcin : 0 < cin)
    (hcout : 0 < cout) :
    Completes prog cin cout q (plainLog c) (firstLine (written trace)) ↔
      Roomy cin cout (plainLog c).length trace := by
  constructor
  · intro h
    exact roomy_of_not_stuck hruns h.moves
  · intro hroomy
    refine ⟨fun s hs => not_stuck hruns hcin hcout hroomy hs, fun s hs hdone => ?_,
      ⟨_, fun sides s hrun => (tracks_start hruns).length_le hrun⟩⟩
    obtain ⟨past, future, rfl, htracks⟩ := exists_tracks hruns hs
    obtain ⟨rfl, hcollected, hprocess⟩ := htracks.of_done hdone
    unfold returned
    rw [hprocess, hcollected, statusLine_eq, List.append_nil]

section Runs

/-- Prints a text, whatever the log is. -/
def echo : List UInt8 → Op UInt8 (List UInt8)
  | [] => .exit true
  | x :: text => .write x text

theorem runs_echo (text input : Bytes) :
    Runs echo text input (text.map .write) true := by
  induction text with
  | nil => exact .exit rfl
  | cons x text ih => exact .write rfl ih

theorem run_status_cmd_iff_echo :
    Completes echo 65536 65536 [10, 32, 111, 107, 10] (plainLog (.quiet [104, 105, 10]))
      (some ['o', 'k']) := by
  have hresult : firstLine (written ([10, 32, 111, 107, 10].map Event.write)) =
      some ['o', 'k'] := by decide
  have hcompletes : Completes echo 65536 65536 [10, 32, 111, 107, 10]
      (plainLog (.quiet [104, 105, 10]))
      (firstLine (written ([10, 32, 111, 107, 10].map Event.write))) :=
    (run_status_cmd_iff (runs_echo _ _) (by decide) (by decide)).2 (roomy_of_output_le (by decide))
  rwa [hresult] at hcompletes

inductive Cat where
  | reading
  | printing (x : UInt8)
  | ended

/-- Prints what it reads. -/
def cat : Cat → Op UInt8 Cat
  | .reading => .read fun x => x.elim .ended .printing
  | .printing x => .write x .reading
  | .ended => .exit true

/-- A byte is read, and then printed. -/
def copied (text : Bytes) : List (Event UInt8) := text.flatMap fun x => [.read, .write x]

theorem runs_cat (text : Bytes) : Runs cat .reading text (copied text ++ [.eof]) true := by
  induction text with
  | nil => exact .eof rfl (.exit rfl)
  | cons x text ih => exact .read rfl (.write rfl ih)

theorem written_copied (text : Bytes) : written (copied text) = text := by
  induction text with
  | nil => rfl
  | cons x text ih => exact congrArg (x :: ·) ih

theorem taken_copied (text : Bytes) : taken (copied text) = text.length := by
  induction text with
  | nil => rfl
  | cons x text ih => exact congrArg (· + 1) ih

/-- It gets stuck on a log that is longer than both pipes. -/
theorem not_roomy_cat {text : Bytes} (h : cin + cout + 1 < text.length) :
    ¬ Roomy cin cout text.length (copied text ++ [.eof]) := by
  intro hroomy
  obtain ⟨x, post, hpost⟩ : ∃ x post, text.drop cout = x :: post := by
    cases hdrop : text.drop cout with
    | nil =>
        rw [List.drop_eq_nil_iff] at hdrop
        omega
    | cons x post => exact ⟨x, post, rfl⟩
  have htrace : copied text ++ [.eof] =
      copied (text.take cout) ++ [.read] ++ .write x :: (copied post ++ [.eof]) := by
    conv_lhs => rw [← List.take_append_drop cout text, hpost]
    simp [copied]
  have hlength : (text.take cout).length = cout := List.length_take_of_le (by omega)
  have hroom := hroomy _ x _ htrace
  rw [written_append, taken_append, written_copied, taken_copied, List.length_append,
    hlength] at hroom
  simp only [written, taken, List.length_nil] at hroom
  omega

/-- A log of one line, `n` bytes long. -/
def lineLog (n : ℕ) : Bytes := List.replicate n 97

theorem chars_lineLog (n : ℕ) : chars (lineLog n) = List.replicate n 'a' := by
  induction n with
  | zero => rfl
  | succ n ih => exact (chars_cons (by decide) _).trans (congrArg ('a' :: ·) ih)

theorem stripAnsi_replicate (n : ℕ) :
    stripAnsi (List.replicate n 'a') = List.replicate n 'a' := by
  induction n with
  | zero => rfl
  | succ n ih =>
      rw [List.replicate_succ, stripAnsi_cons, if_neg (by decide), if_pos (by decide), ih]

theorem plainLog_lineLog {n : ℕ} (h : n ≤ 256 * 1024) :
    plainLog (.quiet (lineLog n)) = lineLog n := by
  have hascii : ∀ b ∈ lineLog n, b < 0x80 := by
    intro b hb
    rw [List.eq_of_mem_replicate hb]
    decide
  have hencode : String.utf8EncodeChar 'a' = [97] := by decide
  have htail : (FileCalls.quiet (lineLog n)).tail (256 * 1024) = lineLog n := by
    rw [FileCalls.tail_quiet, lineLog, List.length_replicate, Nat.sub_eq_zero_of_le h,
      List.drop_zero]
  unfold plainLog
  rw [readTail, htail, lossy_of_valid (valid_of_ascii hascii), chars_lineLog,
    stripAnsi_replicate]
  unfold lineLog
  clear hascii htail h
  induction n with
  | zero => rfl
  | succ n ih => rw [List.replicate_succ, List.flatMap_cons, hencode, ih]; rfl

theorem cat_deadlock :
    ¬ ∀ (σ : Type) (prog : σ → Op UInt8 σ) (q : σ) (c : FileCalls) (cin cout : ℕ)
      (trace : List (Event UInt8)), Runs prog q (plainLog c) trace true → 0 < cin → 0 < cout →
        Completes prog cin cout q (plainLog c) (firstLine (written trace)) := by
  intro h
  have hcompletes := h Cat cat .reading (.quiet (lineLog 200000)) 65536 65536 _ (runs_cat _)
    (by decide) (by decide)
  have hroomy := roomy_of_not_stuck (runs_cat _) hcompletes.moves
  rw [plainLog_lineLog (by decide)] at hroomy
  exact not_roomy_cat (by rw [lineLog, List.length_replicate]; decide) hroomy

end Runs

end Daemon

end Nockd
