import Mathlib.Data.List.Infix
import Nockd.Data.Lines
import Nockd.Interleaving.Machine
import Nockd.Store.Hashes

/-!
# The log stream

`logs_sse` notes the length of the log, sends the end of it, and then polls for more. The
length that it continues from and the text that it sends are read at different moments, and
the app may write in between. The stream is exact as long as it reads whole lines, and nothing
is written between a length and the text that goes with it.
-/

namespace Nockd

namespace Api

open Interleaving Lines Store

/-- The carriage return of a line that ends in CR LF. -/
def stripCr (line : Bytes) : Bytes := if line.getLast? = some 13 then line.dropLast else line

/-- `str::lines`, on ASCII text. -/
def strLines (text : Bytes) : List Bytes :=
  (whole 10 text).map stripCr ++ if rest 10 text = [] then [] else [rest 10 text]

/-- `line.replace('\0', "")` -/
def stripNul (line : Bytes) : Bytes := line.filter (· ≠ 0)

/-- What the stream does next. -/
inductive LogPhase where
  | fileLen
  | tailOpen
  | tailMetadata
  | tailSeek (start : ℕ)
  | tailRead (start : ℕ)
  | seeding (lines : List Bytes)
  | open
  | metadata
  | seek (len : ℕ)
  | read (len : ℕ)
  | emitting (lines : List Bytes) (len : ℕ)
  /-- A line could not be sent, and the connection is gone. -/
  | panicked
deriving DecidableEq, Repr

/-- A log and a stream of it. -/
structure LogsSse where
  file : Bytes := []
  phase : LogPhase := .fileLen
  offset : ℕ := 0
  /-- How many lines were whole when the tail was read. -/
  before : ℕ := 0
  seeded : List Bytes := []
  /-- The events after the seed. -/
  sent : List Bytes := []
deriving DecidableEq, Repr

inductive LogAction where
  | append (text : Bytes)
  | fileLen (ok : Bool)
  | open (ok : Bool)
  | metadata (ok : Bool)
  | seek (ok : Bool)
  /-- Everything up to the end is read, or the read fails after some bytes. -/
  | read (failed : Option ℕ)
  | emit
deriving DecidableEq, Repr

namespace LogsSse

def seeding (s : LogsSse) : List Bytes → LogsSse
  | [] => { s with phase := .open }
  | lines => { s with phase := .seeding lines }

/-- The last lines of what `read_tail` has returned. -/
def seed (s : LogsSse) (text : Bytes) : LogsSse :=
  let lines := strLines text
  { s with before := (whole 10 s.file).length }.seeding (lines.drop (lines.length - 200))

def emitting (s : LogsSse) (len : ℕ) : List Bytes → LogsSse
  | [] => { s with phase := .open, offset := len }
  | lines => { s with phase := .emitting lines len }

/-- `accepts` are the texts that `Event::data` takes without a panic. -/
def step (accepts : Bytes → Bool) (s : LogsSse) (a : LogAction) : Option LogsSse :=
  match s.phase, a with
  | _, .append text => if text.all (· < 128) then some { s with file := s.file ++ text } else none
  | .fileLen, .fileLen ok =>
    some { s with phase := .tailOpen, offset := if ok then s.file.length else 0 }
  | .tailOpen, .open ok => some (if ok then { s with phase := .tailMetadata } else s.seed [])
  | .tailMetadata, .metadata ok =>
    let len := if ok then s.file.length else 0
    let start := len - 128 * 1024
    some { s with phase := if 0 < start then .tailSeek start else .tailRead 0 }
  | .tailSeek start, .seek ok =>
    some (if ok then { s with phase := .tailRead start } else s.seed [])
  | .tailRead start, .read none => some (s.seed (s.file.drop start))
  | .tailRead start, .read (some n) => some (s.seed ((s.file.drop start).take n))
  | .seeding (line :: lines), .emit =>
    let data := stripNul line
    some (if accepts data then { s with seeded := s.seeded ++ [data] }.seeding lines
      else { s with phase := .panicked })
  | .open, .open ok => some (if ok then { s with phase := .metadata } else s)
  | .metadata, .metadata ok =>
    let len := if ok then s.file.length else s.offset
    let offset := if len < s.offset then 0 else s.offset
    some { s with offset, phase := if offset < len then .seek len else .open }
  | .seek len, .seek ok => some { s with phase := if ok then .read len else .open }
  | .read len, .read none => some (s.emitting len (strLines (s.file.drop s.offset)))
  | .read _, .read (some _) => some { s with phase := .open }
  | .emitting (line :: lines) len, .emit =>
    let data := stripNul line
    some (if accepts data then { s with sent := s.sent ++ [data] }.emitting len lines
      else { s with phase := .panicked })
  | _, _ => none

/-- A stream that has just been opened, on any log of ASCII text. -/
def Opening (s : LogsSse) : Prop :=
  s.phase = .fileLen ∧ s.sent = [] ∧ s.file.all (· < 128) = true

/-- The events of the whole lines of a text. -/
def lineEvents (text : Bytes) : List Bytes :=
  (whole 10 text).map fun line => stripNul (stripCr line)

/-- The events of the lines that have become whole after the seed. -/
def due (s : LogsSse) (text : Bytes) : List Bytes := (lineEvents text).drop s.before

/-- The events after the seed are those of the lines that have become whole since, in their
order and without a gap, and between two polls those of all lines up to the offset. -/
structure Delivered (s : LogsSse) : Prop where
  alive : s.phase ≠ .panicked
  sent : s.sent <+: s.due s.file
  polled : s.phase = .open → s.sent = s.due (s.file.take s.offset)

/-- No line has become whole since the length was noted, and none was cut there. -/
def Settled (s : LogsSse) : Prop := Closed 10 (s.file.take s.offset) ∧ 10 ∉ s.file.drop s.offset

instance (s : LogsSse) : Decidable s.Settled := inferInstanceAs (Decidable (_ ∧ _))

/-- Nothing has been written between a length and the text that goes with it, the text is
one of whole lines, and its lines can be sent. -/
def steady (accepts : Bytes → Bool) (s : LogsSse) (a : LogAction) : Bool :=
  match s.phase, a with
  | .tailOpen, .open false => s.Settled
  | .tailSeek _, .seek false => s.Settled
  | .tailRead _, .read _ => s.Settled
  | .read len, .read none => s.file.length = len ∧ Closed 10 s.file
  | .seeding (line :: _), .emit => accepts (stripNul line)
  | .emitting (line :: _) _, .emit => accepts (stripNul line)
  | _, _ => true

end LogsSse

variable {accepts : Bytes → Bool} {s s' : LogsSse} {file line : Bytes} {before n : ℕ}
  {lines sent : List Bytes}

namespace LogsSse

/-- The events of the first `n` bytes have been sent, except for the lines that are left. -/
structure Reads (file : Bytes) (before : ℕ) (sent : List Bytes) (n : ℕ) (lines : List Bytes) :
    Prop where
  le : n ≤ file.length
  closed : Closed 10 (file.take n)
  reached : before ≤ (whole 10 (file.take n)).length
  sent : sent ++ lines.map stripNul = (lineEvents (file.take n)).drop before

theorem Reads.append (h : Reads file before sent n lines) (text : Bytes) :
    Reads (file ++ text) before sent n lines := by
  have htake : (file ++ text).take n = file.take n := List.take_append_of_le_length h.le
  refine ⟨Nat.le_trans h.le (by simp), ?_, ?_, ?_⟩
  · rw [htake]
    exact h.closed
  · rw [htake]
    exact h.reached
  · rw [htake]
    exact h.sent

theorem Reads.emit (h : Reads file before sent n (line :: lines)) :
    Reads file before (sent ++ [stripNul line]) n lines :=
  ⟨h.le, h.closed, h.reached, by rw [List.append_assoc]; exact h.sent⟩

theorem strLines_of_closed {text : Bytes} (h : Closed 10 text) :
    strLines text = (whole 10 text).map stripCr := by
  unfold strLines
  rw [h.rest_eq, if_pos rfl, List.append_nil]

theorem Reads.sent_eq (h : Reads file before sent n []) :
    sent = (lineEvents (file.take n)).drop before := by
  have hsent := h.sent
  rwa [List.map_nil, List.append_nil] at hsent

/-- A chunk of whole lines, up to the end of the log. -/
theorem Reads.chunk (h : Reads file before sent n []) (hclosed : Closed 10 file) :
    Reads file before sent file.length (strLines (file.drop n)) := by
  have hsplit : whole 10 file = whole 10 (file.take n) ++ whole 10 (file.drop n) := by
    conv_lhs => rw [← List.take_append_drop n file]
    exact h.closed.whole_append
  have hchunk : Closed 10 (file.drop n) := by
    rw [← List.take_append_drop n file] at hclosed
    exact hclosed.of_append
  refine ⟨Nat.le_refl _, ?_, ?_, ?_⟩
  · rwa [List.take_length]
  · rw [List.take_length, hsplit, List.length_append]
    exact Nat.le_trans h.reached (Nat.le_add_right _ _)
  · rw [List.take_length, h.sent_eq, strLines_of_closed hchunk, List.map_map]
    unfold lineEvents
    rw [hsplit, List.map_append, List.drop_append_of_le_length (by simpa using h.reached)]
    rfl

/-- What has been sent is a beginning of what is to be sent. -/
theorem Reads.sent_prefix (h : Reads file before sent n lines) :
    sent <+: (lineEvents file).drop before := by
  have hwhole : whole 10 (file.take n) <+: whole 10 file := by
    conv_rhs => rw [← List.take_append_drop n file]
    exact whole_prefix _ _
  refine List.IsPrefix.trans ⟨_, h.sent⟩ ?_
  exact (hwhole.map _).drop _

/-- The seed ends where the first chunk begins, up to a line that is not whole yet. -/
theorem Settled.reads (h : s.Settled) (hle : s.offset ≤ s.file.length) :
    Reads s.file (whole 10 s.file).length [] s.offset [] := by
  have hsplit : whole 10 s.file = whole 10 (s.file.take s.offset) := by
    conv_lhs => rw [← List.take_append_drop s.offset s.file]
    rw [h.1.whole_append, whole_of_not_mem h.2, List.append_nil]
  refine ⟨hle, h.1, by rw [hsplit], ?_⟩
  rw [hsplit]
  exact (List.drop_eq_nil_of_le (by simp [lineEvents])).symm

/-- What holds in each phase. -/
def Sound (s : LogsSse) : Prop :=
  match s.phase with
  | .fileLen => s.sent = []
  | .tailOpen => s.offset ≤ s.file.length ∧ s.sent = []
  | .tailMetadata => s.offset ≤ s.file.length ∧ s.sent = []
  | .tailSeek _ => s.offset ≤ s.file.length ∧ s.sent = []
  | .tailRead _ => s.offset ≤ s.file.length ∧ s.sent = []
  | .emitting lines len => Reads s.file s.before s.sent len lines
  | .panicked => False
  | _ => Reads s.file s.before s.sent s.offset []

theorem Sound.delivered (h : s.Sound) : s.Delivered := by
  have hnone (hsent : s.sent = []) : s.sent <+: s.due s.file := by
    rw [hsent]
    exact List.nil_prefix
  unfold Sound at h
  split at h
  case h_1 hphase => exact ⟨by simp [hphase], hnone h, by simp [hphase]⟩
  case h_6 hphase => exact ⟨by simp [hphase], h.sent_prefix, by simp [hphase]⟩
  case h_7 hphase => exact h.elim
  case h_8 hphase => exact ⟨fun hpanicked => by simp_all, h.sent_prefix, fun _ => h.sent_eq⟩
  all_goals next hphase => exact ⟨by simp [hphase], hnone h.2, by simp [hphase]⟩

theorem sound_seed (h : s.Settled) (hle : s.offset ≤ s.file.length) (hsent : s.sent = [])
    {text : Bytes} (hs : s.seed text = s') : s'.Sound := by
  have hreads : Reads s.file (whole 10 s.file).length s.sent s.offset [] := by
    rw [hsent]
    exact Settled.reads h hle
  subst hs
  unfold seed
  dsimp only
  generalize (strLines text).drop ((strLines text).length - 200) = lines
  cases lines with
  | nil => exact hreads
  | cons line lines => exact hreads

/-- A call of `read_tail` that may fail: then the seed comes of nothing. -/
theorem sound_or_seed {ok : Bool} {next : LogsSse} {text : Bytes}
    (hs : some (if ok then next else s.seed text) = some s') (hnext : next.Sound)
    (hsettled : ok = false → s.Settled) (hle : s.offset ≤ s.file.length) (hsent : s.sent = []) :
    s'.Sound := by
  cases ok with
  | true =>
      cases hs
      exact hnext
  | false =>
      rw [if_neg Bool.false_ne_true] at hs
      exact sound_seed (hsettled rfl) hle hsent (Option.some.inj hs)

theorem Reads.emitting (h : Reads s.file s.before s.sent n lines) : (s.emitting n lines).Sound := by
  cases lines with
  | nil => exact h
  | cons line lines => exact h

theorem Sound.append (h : s.Sound) (text : Bytes) : Sound { s with file := s.file ++ text } := by
  have hle (hle : s.offset ≤ s.file.length) : s.offset ≤ (s.file ++ text).length :=
    Nat.le_trans hle (by simp)
  unfold Sound at h ⊢
  split at h
  case h_1 hphase => simpa only [hphase] using h
  case h_6 hphase => simpa only [hphase] using h.append text
  case h_7 hphase => exact h.elim
  case h_8 => exact h.append text
  all_goals next hphase => simpa only [hphase] using h.imp_left hle

theorem Sound.step (h : s.Sound) {a : LogAction} (hsteady : s.steady accepts a = true)
    (hs : s.step accepts a = some s') : s'.Sound := by
  unfold LogsSse.step at hs
  split at hs
  case h_1 text =>
    split at hs
    case isTrue =>
      cases hs
      exact h.append text
    case isFalse => cases hs
  case h_2 ok hphase =>
    cases hs
    simp only [Sound, hphase] at h
    refine ⟨?_, h⟩
    change (if ok then s.file.length else 0) ≤ s.file.length
    split
    · exact Nat.le_refl _
    · exact Nat.zero_le _
  case h_3 ok hphase =>
    simp only [Sound, hphase] at h
    refine sound_or_seed hs h (fun hok => ?_) h.1 h.2
    simp only [steady, hphase, hok] at hsteady
    exact of_decide_eq_true hsteady
  case h_4 ok hphase =>
    simp only [Sound, hphase] at h
    dsimp only at hs
    generalize (if ok then s.file.length else 0) - 128 * 1024 = start at hs
    split at hs <;> cases hs <;> exact h
  case h_5 start ok hphase =>
    simp only [Sound, hphase] at h
    refine sound_or_seed hs h (fun hok => ?_) h.1 h.2
    simp only [steady, hphase, hok] at hsteady
    exact of_decide_eq_true hsteady
  case h_6 start hphase =>
    simp only [Sound, hphase] at h
    simp only [steady, hphase] at hsteady
    exact sound_seed (of_decide_eq_true hsteady) h.1 h.2 (Option.some.inj hs)
  case h_7 start n hphase =>
    simp only [Sound, hphase] at h
    simp only [steady, hphase] at hsteady
    exact sound_seed (of_decide_eq_true hsteady) h.1 h.2 (Option.some.inj hs)
  case h_8 line lines hphase =>
    simp only [Sound, hphase] at h
    simp only [steady, hphase] at hsteady
    simp only [hsteady, if_true] at hs
    cases hs
    cases lines with
    | nil => exact h
    | cons line lines => exact h
  case h_9 ok hphase =>
    cases ok with
    | true =>
        cases hs
        simp only [Sound, hphase] at h
        exact h
    | false =>
        cases hs
        exact h
  case h_10 ok hphase =>
    simp only [Sound, hphase] at h
    have hlen : ¬ (if ok then s.file.length else s.offset) < s.offset := by
      have hle := h.le
      split <;> omega
    simp only [if_neg hlen] at hs
    generalize (if ok then s.file.length else s.offset) = len at hs
    split at hs <;> cases hs <;> exact h
  case h_11 len ok hphase =>
    cases hs
    simp only [Sound, hphase] at h
    cases ok <;> exact h
  case h_12 len hphase =>
    cases hs
    simp only [Sound, hphase] at h
    simp only [steady, hphase] at hsteady
    obtain ⟨rfl, hclosed⟩ := of_decide_eq_true hsteady
    exact (h.chunk hclosed).emitting
  case h_13 len n hphase =>
    cases hs
    simp only [Sound, hphase] at h
    exact h
  case h_14 line lines len hphase =>
    simp only [Sound, hphase] at h
    simp only [steady, hphase] at hsteady
    simp only [hsteady, if_true] at hs
    cases hs
    exact h.emit.emitting
  case h_15 => cases hs

/-- In a run in which nothing is written between a length and the text that goes with it, and
each text read consists of whole lines that can be sent, the stream sends each line that
becomes whole after the seed, once, in order and unsplit, and no line of the seed again. -/
theorem lines_exactly_once (h : ReachableWhen (step accepts) Opening
    (fun s a => s.steady accepts a = true) s) : s.Delivered := by
  have hsound : s.Sound := by
    refine h.invariant (I := Sound) ?_ fun s a s' ih hsteady hs => ih.step hsteady hs
    rintro s ⟨hphase, hsent, -⟩
    simpa only [Sound, hphase] using hsent
  exact hsound.delivered

section Runs

/-- The texts without a carriage return. -/
def plain (text : Bytes) : Bool := !text.contains 13

/-- The reads of `read_tail`. -/
def tailRun : List LogAction :=
  [.fileLen true, .open true, .metadata true, .read none]

/-- A poll that finds more text, up to its read. -/
def pollRun : List LogAction := [.open true, .metadata true, .seek true]

/-- A line before the seed and two in one chunk. -/
def steadyRun : List LogAction :=
  [.append (asBytes "a\n")] ++ tailRun ++ [.emit, .append (asBytes "b\nc\x00\r\n")] ++ pollRun ++
    [.read none, .emit, .emit]

theorem lines_exactly_once_steadyRun :
    ∃ s, runWhen (step plain) (fun s a => s.steady plain a = true) {} steadyRun = some s ∧
      s.seeded = [asBytes "a"] ∧ s.sent = [asBytes "b", asBytes "c"] ∧ s.Delivered := by
  have hrun : (runWhen (step plain) (fun s a => s.steady plain a = true) {} steadyRun).map
      (fun s => (s.seeded, s.sent)) = some ([asBytes "a"], [asBytes "b", asBytes "c"]) := by
    decide
  obtain ⟨s, hs, hval⟩ := Option.map_eq_some_iff.1 hrun
  obtain ⟨hseeded, hsent⟩ := Prod.mk.inj hval
  have hdelivered := lines_exactly_once (ReachableWhen.runWhen (.start ⟨rfl, rfl, rfl⟩) hs)
  exact ⟨s, hs, hseeded, hsent, hdelivered⟩

/-- A line is written in two parts, with a poll between them. -/
def splitRun : List LogAction :=
  tailRun ++ [.append (asBytes "ab")] ++ pollRun ++ [.read none, .emit, .append (asBytes "c\n")]

theorem line_split :
    ¬ ∀ (accepts : Bytes → Bool) (s : LogsSse), Reachable (step accepts) Opening s →
      s.Delivered := by
  intro h
  have hrun : (run (step plain) {} splitRun).map (fun s => (s.sent, s.due s.file)) =
      some ([asBytes "ab"], [asBytes "abc"]) := by
    decide
  obtain ⟨s, hs, hval⟩ := Option.map_eq_some_iff.1 hrun
  obtain ⟨hsent, hdue⟩ := Prod.mk.inj hval
  have hprefix := (h plain s (ReachableWhen.runWhen (.start ⟨rfl, rfl, rfl⟩) hs)).sent
  rw [hsent, hdue] at hprefix
  exact absurd hprefix (by decide)

end Runs

end LogsSse

end Api

end Nockd
