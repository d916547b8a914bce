import Nockd.Api.LogLines
import Nockd.Config.Tail

/-!
# Following a log

A tick of `logs_sse` reads what has come after the offset. It is decoded strictly, so that a
byte that is not UTF-8 holds up all that comes after it, while the seed is decoded with
replacements.
-/

namespace Nockd

namespace Api

open Config Interleaving Lines Store Utf8

/-- What a tick finds. -/
structure Tick where
  opened : Bool := true
  /-- The length that the metadata gives. -/
  len : Option ℕ
  seeks : Bool := true
  reads : Bool := true
  /-- The log when it is read. -/
  log : Bytes

/-- The stream between two ticks. -/
structure Follower where
  offset : ℕ
  /-- What has been passed to `Event::data`. -/
  data : List Bytes := []
  /-- `Event::data` has panicked, and the stream is gone. -/
  panicked : Bool := false
deriving DecidableEq, Repr

namespace Follower

/-- The events of some lines. `accepts` are the texts that `Event::data` takes without a panic. -/
def emit (accepts : Bytes → Bool) (f : Follower) : List Bytes → Follower
  | [] => f
  | line :: lines =>
    let text := stripNul line
    let f := { f with data := f.data ++ [text] }
    if accepts text then f.emit accepts lines else { f with panicked := true }

/-- `read_to_string` from the offset on. -/
def readToString (f : Follower) (t : Tick) : Option Bytes :=
  let bytes := t.log.drop f.offset
  if t.reads ∧ Valid bytes then some bytes else none

/-- What is new is emitted, if it can be read. -/
def poll (accepts : Bytes → Bool) (f : Follower) (len : ℕ) (t : Tick) : Follower :=
  if f.offset < len ∧ t.seeks then
    match f.readToString t with
    | none => f
    | some buf =>
      let f := f.emit accepts (strLines buf)
      if f.panicked then f else { f with offset := len }
  else f

/-- One turn of the loop. -/
def tick (accepts : Bytes → Bool) (f : Follower) (t : Tick) : Follower :=
  if f.panicked then f
  else if t.opened = false then f
  else
    let len := t.len.getD f.offset
    let f := if len < f.offset then { f with offset := 0 } else f
    f.poll accepts len t

def follow (accepts : Bytes → Bool) (f : Follower) (ticks : List Tick) : Follower :=
  ticks.foldl (tick accepts) f

end Follower

/-- `logs_sse` up to its loop. -/
def logsSse (accepts : Bytes → Bool) (fileLen : Option ℕ) (c : FileCalls) : Follower :=
  let lines := strLines (readTail c (128 * 1024))
  Follower.emit accepts { offset := fileLen.getD 0 } (lines.drop (lines.length - 200))

variable {accepts : Bytes → Bool} {f : Follower} {t : Tick} {ticks : List Tick} {text : Bytes}
  {lines : List Bytes} {len : ℕ}

/-- The lines of a chunk are sent one by one. -/
theorem LogsSse.run_emitting {s : LogsSse}
    (h : ∀ line ∈ lines, accepts (stripNul line) = true) :
    run (LogsSse.step accepts) (s.emitting len lines) (List.replicate lines.length .emit) =
      some { s with phase := .open, offset := len, sent := s.sent ++ lines.map stripNul } := by
  induction lines generalizing s with
  | nil => simp [LogsSse.emitting, run, runWhen]
  | cons line lines ih =>
      rw [List.forall_mem_cons] at h
      have hstep : LogsSse.step accepts (s.emitting len (line :: lines)) .emit =
          some (LogsSse.emitting { s with sent := s.sent ++ [stripNul line] } len lines) := by
        simp only [LogsSse.emitting, LogsSse.step, h.1, if_true]
      rw [List.length_cons, List.replicate_succ, run, runWhen, if_pos trivial, hstep,
        Option.bind_some]
      exact (ih h.2).trans (by simp)

namespace Follower

/-! ## Events -/

/-- The events of some lines are passed one after the other, up to the first that is refused. -/
theorem emit_eq (h : ∀ line ∈ lines, accepts (stripNul line) = true) :
    f.emit accepts lines = { f with data := f.data ++ lines.map stripNul } := by
  induction lines generalizing f with
  | nil => simp [emit]
  | cons line lines ih =>
      rw [List.forall_mem_cons] at h
      rw [emit, if_pos h.1, ih h.2, List.map_cons, List.append_assoc, List.singleton_append]

theorem emit_panicked (hf : f.panicked = false) :
    (f.emit accepts lines).panicked = false ↔ ∀ line ∈ lines, accepts (stripNul line) = true := by
  induction lines generalizing f with
  | nil => simpa [emit] using hf
  | cons line lines ih =>
      rw [emit, List.forall_mem_cons]
      by_cases h : accepts (stripNul line) = true
      · rw [if_pos h, and_iff_right h]
        exact ih hf
      · rw [if_neg h]
        simp [h]

/-! ## A tick -/

/-- Where a tick begins to read, which is the offset unless the log has been cut before it. -/
def start (f : Follower) (t : Tick) : ℕ := if t.len.getD f.offset < f.offset then 0 else f.offset

/-- A tick opens the log and finds it longer than what has been read. -/
def Finds (f : Follower) (t : Tick) : Prop :=
  t.opened = true ∧ f.start t < t.len.getD f.offset

/-- The new bytes can be read, and are UTF-8. -/
def Reads (f : Follower) (t : Tick) : Prop :=
  t.seeks = true ∧ t.reads = true ∧ Valid (t.log.drop (f.start t))

/-- The log is longer, and what is new is sent, decoded, and not looked at again. -/
def Delivers (accepts : Bytes → Bool) (f : Follower) (t : Tick) : Prop :=
  f.Finds t → f.tick accepts t =
    { f with
      offset := t.len.getD f.offset
      data := f.data ++ (strLines (lossy (t.log.drop (f.start t)))).map stripNul }

/-- If the log is longer, what is new can be read and sent. -/
def Takes (accepts : Bytes → Bool) (f : Follower) (t : Tick) : Prop :=
  f.Finds t → f.Reads t ∧
    ∀ line ∈ strLines (t.log.drop (f.start t)), accepts (stripNul line) = true

/-- Of a follower and a tick, at each tick of a run. -/
def AtEach (accepts : Bytes → Bool) (P : Follower → Tick → Prop) (f : Follower) :
    List Tick → Prop
  | [] => True
  | t :: ticks => P f t ∧ (f.tick accepts t).AtEach accepts P ticks

theorem tick_of_panicked (hf : f.panicked = true) : f.tick accepts t = f := by
  unfold tick
  rw [if_pos hf]

theorem tick_opened (hf : f.panicked = false) (hopen : t.opened = true) :
    f.tick accepts t = { f with offset := f.start t }.poll accepts (t.len.getD f.offset) t := by
  have hstart : (if t.len.getD f.offset < f.offset then { f with offset := 0 } else f) =
      { f with offset := f.start t } := by
    unfold start
    split <;> rfl
  unfold tick
  rw [if_neg (by simp [hf]), if_neg (by simp [hopen])]
  exact congrArg (fun g => poll accepts g (t.len.getD f.offset) t) hstart

theorem tick_of_reads (hf : f.panicked = false) (hfinds : f.Finds t) (hreads : f.Reads t) :
    f.tick accepts t =
      let g := { f with offset := f.start t }.emit accepts (strLines (t.log.drop (f.start t)))
      if g.panicked then g else { g with offset := t.len.getD f.offset } := by
  rw [tick_opened hf hfinds.1]
  unfold poll readToString
  rw [if_pos ⟨hfinds.2, hreads.1⟩, if_pos hreads.2]

/-- Otherwise nothing is sent, and a later tick begins at the same place. -/
theorem tick_of_not_reads (hf : f.panicked = false) (h : ¬ (f.Finds t ∧ f.Reads t)) :
    f.tick accepts t = f ∨ f.tick accepts t = { f with offset := f.start t } := by
  by_cases hopen : t.opened = true
  · rw [tick_opened hf hopen]
    refine Or.inr ?_
    unfold poll
    split
    case isTrue hlt =>
      have hread : readToString { f with offset := f.start t } t = none := by
        unfold readToString
        rw [if_neg fun hread => h ⟨⟨hopen, hlt.1⟩, hlt.2, hread⟩]
      rw [hread]
    case isFalse => rfl
  · refine Or.inl ?_
    unfold tick
    rw [if_neg (by simp [hf]), if_pos (by simpa using hopen)]

theorem Delivers.panicked (h : f.Delivers accepts t) (hf : f.panicked = false) :
    (f.tick accepts t).panicked = false := by
  by_cases hfinds : f.Finds t
  · rw [h hfinds]
    exact hf
  · rcases tick_of_not_reads hf (fun hboth => hfinds hboth.1) with htick | htick <;>
    · rw [htick]
      exact hf

theorem tick_delivers_iff (hf : f.panicked = false) :
    f.Delivers accepts t ↔ f.Takes accepts t := by
  constructor
  · intro h hfinds
    have htick := h hfinds
    by_cases hreads : f.Reads t
    · refine ⟨hreads, (@emit_panicked accepts { f with offset := f.start t } _ hf).1 ?_⟩
      rw [tick_of_reads hf hfinds hreads] at htick
      by_contra hpanicked
      rw [Bool.not_eq_false] at hpanicked
      rw [if_pos hpanicked] at htick
      rw [htick] at hpanicked
      exact absurd (hpanicked.symm.trans hf) (by decide)
    · -- it stays where it is
      have hoffset : (f.tick accepts t).offset = t.len.getD f.offset := by rw [htick]
      have hlt := hfinds.2
      rcases tick_of_not_reads hf (fun hboth => hreads hboth.2) with hstay | hstay
      · rw [hstay] at hoffset
        rw [← hoffset, start, ← hoffset, if_neg (lt_irrefl _)] at hlt
        exact absurd hlt (lt_irrefl _)
      · rw [hstay] at hoffset
        exact absurd hoffset (Nat.ne_of_lt hlt)
  · intro h hfinds
    obtain ⟨hreads, hlines⟩ := h hfinds
    rw [tick_of_reads hf hfinds hreads, emit_eq hlines, lossy_of_valid hreads.2.2]
    exact if_neg (by simp [hf])

/-- In every run of ticks, each tick that opens the log and finds it longer sends what is new,
decoded, and goes on behind it, if and only if at each such tick what is new can be read, is
UTF-8, and consists of lines that `Event::data` takes. -/
theorem ticks_deliver_iff (hf : f.panicked = false) :
    f.AtEach accepts (Delivers accepts) ticks ↔ f.AtEach accepts (Takes accepts) ticks := by
  induction ticks generalizing f with
  | nil => exact Iff.rfl
  | cons t ticks ih =>
      unfold AtEach
      rw [tick_delivers_iff hf]
      refine and_congr_right fun htakes => ih ?_
      exact ((tick_delivers_iff hf).2 htakes).panicked hf

/-! ## Over a growing log -/

/-- The events of a text. -/
def events (text : Bytes) : List Bytes := (strLines text).map stripNul

/-- The ticks see a log that ends as `log`, and is not written to while they read. -/
structure Quiet (log : Bytes) (ticks : List Tick) : Prop where
  opened : ∀ t ∈ ticks, t.opened = true ∧ t.len = some t.log.length
  grows : ticks.Pairwise fun t t' => t.log <+: t'.log
  below : ∀ t ∈ ticks, t.log <+: log

theorem start_of_le {n : ℕ} (hlen : t.len = some n) (hle : f.offset ≤ n) :
    f.start t = f.offset := by
  unfold start
  rw [hlen]
  exact if_neg (Nat.not_lt.2 hle)

theorem Takes.tick_eq (h : f.Takes accepts t) (hf : f.panicked = false)
    (hopen : t.opened = true) (hlen : t.len = some t.log.length) (hle : f.offset ≤ t.log.length) :
    f.tick accepts t =
      { f with offset := t.log.length, data := f.data ++ events (t.log.drop f.offset) } := by
  have hstart := start_of_le hlen hle
  rcases Nat.lt_or_eq_of_le hle with hlt | heq
  · have hfinds : f.Finds t := ⟨hopen, by rw [hstart, hlen]; exact hlt⟩
    rw [(tick_delivers_iff hf).2 h hfinds, lossy_of_valid (h hfinds).1.2.2, hstart, hlen]
    rfl
  · rw [tick_opened hf hopen, hstart, hlen, ← heq, List.drop_eq_nil_of_le (by rw [heq])]
    unfold poll events
    simp

/-- What is sent is what is written, in its order and in pieces that follow each other. -/
theorem follow_of_takes {log : Bytes} (h : f.AtEach accepts (Takes accepts) ticks)
    (hquiet : Quiet log ticks) (hf : f.panicked = false)
    (hle : ∀ t ∈ ticks, f.offset ≤ t.log.length) :
    f.offset ≤ (f.follow accepts ticks).offset ∧
      ∃ chunks : List Bytes, (f.follow accepts ticks).data = f.data ++ chunks.flatMap events ∧
        chunks.flatten = (log.drop f.offset).take ((f.follow accepts ticks).offset - f.offset) := by
  induction ticks generalizing f with
  | nil => exact ⟨Nat.le_refl _, [], by simp [follow], by simp [follow]⟩
  | cons t ticks ih =>
      have hmem : t ∈ t :: ticks := List.mem_cons_self
      obtain ⟨hopen, hlen⟩ := hquiet.opened t hmem
      have hgrows := List.pairwise_cons.1 hquiet.grows
      have htick := h.1.tick_eq hf hopen hlen (hle t hmem)
      obtain ⟨hmono, chunks, hdata, hchunks⟩ := ih h.2
        ⟨fun t' ht' => hquiet.opened t' (List.mem_cons_of_mem _ ht'), hgrows.2,
          fun t' ht' => hquiet.below t' (List.mem_cons_of_mem _ ht')⟩
        (by rw [htick]; exact hf)
        (fun t' ht' => by rw [htick]; exact (hgrows.1 t' ht').length_le)
      have hfollow : f.follow accepts (t :: ticks) = (f.tick accepts t).follow accepts ticks := rfl
      have hoffset : (f.tick accepts t).offset = t.log.length := by rw [htick]
      rw [hoffset] at hmono hchunks
      have hnext := hle t hmem
      -- the piece that this tick sends
      obtain ⟨more, rfl⟩ := hquiet.below t hmem
      have hpiece : t.log.drop f.offset =
          ((t.log ++ more).drop f.offset).take (t.log.length - f.offset) := by
        rw [List.drop_append_of_le_length hnext, List.take_append_of_le_length (by simp),
          List.take_of_length_le (by simp)]
      rw [hfollow]
      refine ⟨hnext.trans hmono, t.log.drop f.offset :: chunks, ?_, ?_⟩
      · rw [hdata, htick, List.flatMap_cons, List.append_assoc]
      · have hsum : ((f.tick accepts t).follow accepts ticks).offset - f.offset =
            (t.log.length - f.offset) +
              (((f.tick accepts t).follow accepts ticks).offset - t.log.length) := by omega
        rw [List.flatten_cons, hchunks, hsum, List.take_add, ← hpiece, List.drop_drop,
          Nat.add_sub_cancel' hnext]

/-- On an ASCII log, a tick is a turn of the stream through its phases. -/
theorem run_tick {s : LogsSse} (hphase : s.phase = .open) (hascii : ∀ b ∈ s.file, b < 0x80)
    (hlt : s.offset < s.file.length)
    (hlines : ∀ line ∈ strLines (s.file.drop s.offset), accepts (stripNul line) = true) :
    let f := tick accepts { offset := s.offset, data := s.sent }
      { len := some s.file.length, log := s.file }
    run (LogsSse.step accepts) s ([.open true, .metadata true, .seek true, .read none] ++
        List.replicate (strLines (s.file.drop s.offset)).length .emit) =
      some { s with offset := f.offset, sent := f.data } := by
  have hvalid : Valid (s.file.drop s.offset) :=
    valid_of_ascii fun b hb => hascii b (List.mem_of_mem_drop hb)
  have htick := @Takes.tick_eq accepts { offset := s.offset, data := s.sent }
    { len := some s.file.length, log := s.file }
    (fun _ => ⟨⟨rfl, rfl, by rwa [start_of_le rfl hlt.le]⟩, by rwa [start_of_le rfl hlt.le]⟩)
    rfl rfl rfl hlt.le
  have hreads : run (LogsSse.step accepts) s
      ([.open true, .metadata true, .seek true, .read none] ++
        List.replicate (strLines (s.file.drop s.offset)).length .emit) =
      run (LogsSse.step accepts)
        (LogsSse.emitting { s with phase := .read s.file.length } s.file.length
          (strLines (s.file.drop s.offset)))
        (List.replicate (strLines (s.file.drop s.offset)).length .emit) := by
    simp [run, runWhen, LogsSse.step, hphase, hlt, Nat.not_lt.2 hlt.le]
  intro f
  rw [show f = _ from htick, hreads, LogsSse.run_emitting hlines]
  simp only [← hphase]
  rfl

/-- Once a line that is not UTF-8 follows the offset, nothing is sent any more. -/
theorem follow_stalled {base line more : Bytes} (hbase : base.drop f.offset = line ++ 10 :: more)
    (hline : ¬ Valid line) (hf : f.panicked = false)
    (hgrown : ∀ t ∈ ticks, base <+: t.log ∧ ∀ n ∈ t.len, base.length ≤ n) :
    f.follow accepts ticks = f := by
  have hle : f.offset ≤ base.length := by
    by_contra hlt
    rw [List.drop_eq_nil_of_le (by omega)] at hbase
    simp at hbase
  have hstay : ∀ t ∈ ticks, f.tick accepts t = f := by
    intro t ht
    obtain ⟨⟨rest, hlog⟩, hlen⟩ := hgrown t ht
    have hstart : f.start t = f.offset := by
      unfold start
      cases h : t.len with
      | none => exact if_neg (Nat.lt_irrefl _)
      | some n => exact if_neg (Nat.not_lt.2 (hle.trans (hlen n h)))
    have hreads : ¬ f.Reads t := by
      rintro ⟨-, -, hvalid⟩
      rw [hstart, ← hlog, List.drop_append_of_le_length hle, hbase, List.append_assoc,
        List.cons_append, valid_append_ascii (by decide)] at hvalid
      exact hline hvalid.1
    rcases tick_of_not_reads hf (fun hboth => hreads hboth.2) with h | h
    · exact h
    · rw [h, hstart]
  induction ticks with
  | nil => rfl
  | cons t ticks ih =>
      rw [List.forall_mem_cons] at hgrown hstay
      have hfollow : f.follow accepts (t :: ticks) = (f.tick accepts t).follow accepts ticks := rfl
      rw [hfollow, hstay.1, ih hgrown.2 hstay.2]

section Runs

/-- Two ticks, the first of which reads a character of two bytes. -/
def accented : List Tick :=
  [{ len := some 3, log := [0xC3, 0xA9, 10] }, { len := some 5, log := [0xC3, 0xA9, 10, 97, 10] }]

theorem ticks_deliver_iff_accented :
    AtEach LogsSse.plain (Delivers LogsSse.plain) { offset := 0 } accented ∧
      (follow LogsSse.plain { offset := 0 } accented).data = [[0xC3, 0xA9], [97]] :=
  ⟨(ticks_deliver_iff rfl).2 ⟨fun _ => ⟨⟨rfl, rfl, by decide⟩, by decide⟩,
    fun _ => ⟨⟨by decide, by decide, by decide⟩, by decide⟩, trivial⟩, by decide⟩

/-- A byte that is not UTF-8 holds up its line, and those after it. -/
theorem tick_stalls :
    ¬ ∀ (accepts : Bytes → Bool) (f : Follower) (ticks : List Tick), f.panicked = false →
      f.AtEach accepts (Delivers accepts) ticks := by
  intro h
  obtain ⟨hdelivers, -⟩ :=
    h (fun _ => true) { offset := 0 } [{ len := some 2, log := [0xFF, 10] }] rfl
  exact absurd (hdelivers (by unfold Finds; decide)) (by decide)

end Runs

end Follower

end Api

end Nockd
