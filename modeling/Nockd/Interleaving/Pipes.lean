import Mathlib.Data.List.Basic
import Nockd.Interleaving.Machine

/-!
# A process between two pipes

A driver writes all of its input to a process, and only then begins to collect the output.
The process is any deterministic stream program, and the pipes between the two are bounded.
What the program does when its input is at hand and its output is taken decides how the two
get along: they get stuck if and only if the program writes more than the output pipe holds
while more of the input is left than the input pipe holds.
-/

namespace Pipes

open Interleaving

/-- What a program does next. The end of the input is read as `none`. -/
inductive Op (α σ : Type) where
  | read (next : Option α → σ)
  | write (x : α) (next : σ)
  | exit (ok : Bool)

inductive Event (α : Type) where
  | read
  | eof
  | write (x : α)
deriving DecidableEq, Repr

variable {α σ : Type}

/-- A program runs by itself on some input, to its exit. -/
inductive Runs (prog : σ → Op α σ) : σ → List α → List (Event α) → Bool → Prop where
  | read {q : σ} {next : Option α → σ} {x : α} {input : List α} {trace : List (Event α)}
      {ok : Bool} : prog q = .read next → Runs prog (next (some x)) input trace ok →
      Runs prog q (x :: input) (.read :: trace) ok
  | eof {q : σ} {next : Option α → σ} {trace : List (Event α)} {ok : Bool} :
      prog q = .read next → Runs prog (next none) [] trace ok → Runs prog q [] (.eof :: trace) ok
  | write {q next : σ} {x : α} {input : List α} {trace : List (Event α)} {ok : Bool} :
      prog q = .write x next → Runs prog next input trace ok →
      Runs prog q input (.write x :: trace) ok
  | exit {q : σ} {input : List α} {ok : Bool} : prog q = .exit ok → Runs prog q input [] ok

/-- The output of a run. -/
def written : List (Event α) → List α
  | [] => []
  | .write x :: trace => x :: written trace
  | _ :: trace => written trace

/-- How much of its input a run has taken. -/
def taken : List (Event α) → ℕ
  | [] => 0
  | .read :: trace => taken trace + 1
  | _ :: trace => taken trace

/-- Whenever the program writes, what it has written before fits in the output pipe, or what
it has not taken fits in the input pipe. -/
def Roomy (cin cout total : ℕ) (trace : List (Event α)) : Prop :=
  ∀ before x after, trace = before ++ .write x :: after →
    (written before).length < cout ∨ total ≤ taken before + cin

inductive Process (σ : Type) where
  | running (q : σ)
  | exited (ok : Bool)

/-- The two, and the pipes between them. -/
structure State (α σ : Type) where
  /-- What the driver has not written yet. -/
  todo : List α
  /-- The driver has closed the input, and collects the output. -/
  closed : Bool := false
  stdin : List α := []
  process : Process σ
  stdout : List α := []
  collected : List α := []
  done : Bool := false

inductive Side where
  | driver
  | process
deriving DecidableEq, Repr

/-- The driver writes its input, unless the process is gone, and then collects the output up
to its end. -/
def drive (cin : ℕ) (s : State α σ) : Option (State α σ) :=
  match s.done, s.closed, s.todo, s.stdout, s.process with
  | true, _, _, _, _ => none
  | false, false, [], _, _ => some { s with closed := true }
  | false, false, _ :: _, _, .exited _ => some { s with todo := [] }
  | false, false, x :: todo, _, .running _ =>
    if s.stdin.length < cin then some { s with todo, stdin := s.stdin ++ [x] } else none
  | false, true, _, x :: stdout, _ => some { s with stdout, collected := s.collected ++ [x] }
  | false, true, _, [], .exited _ => some { s with done := true }
  | false, true, _, [], .running _ => none

/-- The process reads what is there, and the end of the input once it is closed. -/
def act (prog : σ → Op α σ) (cout : ℕ) (s : State α σ) : Option (State α σ) :=
  match s.process with
  | .exited _ => none
  | .running q =>
    match prog q, s.stdin with
    | .read next, x :: stdin => some { s with stdin, process := .running (next (some x)) }
    | .read next, [] =>
      if s.closed then some { s with process := .running (next none) } else none
    | .write x next, _ =>
      if s.stdout.length < cout then
        some { s with process := .running next, stdout := s.stdout ++ [x] }
      else none
    | .exit ok, _ => some { s with process := .exited ok }

def step (prog : σ → Op α σ) (cin cout : ℕ) (s : State α σ) : Side → Option (State α σ)
  | .driver => drive cin s
  | .process => act prog cout s

def start (q : σ) (input : List α) : State α σ := { todo := input, process := .running q }

/-- Neither side can move, and the driver has not come to its end. -/
def Stuck (prog : σ → Op α σ) (cin cout : ℕ) (s : State α σ) : Prop :=
  s.done = false ∧ ∀ side, step prog cin cout s side = none

variable {prog : σ → Op α σ} {cin cout total : ℕ} {input : List α} {s s' : State α σ} {q : σ}
  {past future trace before after : List (Event α)} {ok : Bool} {x : α}

/-! ## Traces -/

@[simp] theorem written_nil : written ([] : List (Event α)) = [] := rfl

@[simp] theorem taken_nil : taken ([] : List (Event α)) = 0 := rfl

theorem written_append (xs ys : List (Event α)) :
    written (xs ++ ys) = written xs ++ written ys := by
  induction xs with
  | nil => rfl
  | cons e xs ih => cases e <;> simp [written, ih]

theorem taken_append (xs ys : List (Event α)) : taken (xs ++ ys) = taken xs + taken ys := by
  induction xs with
  | nil => simp
  | cons e xs ih =>
      cases e with
      | read => rw [List.cons_append, taken, taken, ih, Nat.add_right_comm]
      | eof => exact ih
      | write x => exact ih

namespace Runs

theorem of_read {next : Option α → σ} (h : Runs prog q (x :: input) trace ok)
    (hop : prog q = .read next) :
    ∃ rest, trace = .read :: rest ∧ Runs prog (next (some x)) input rest ok := by
  cases h with
  | @read _ next' _ _ rest _ hop' hrest =>
      obtain rfl : next' = next := by simpa using hop'.symm.trans hop
      exact ⟨rest, rfl, hrest⟩
  | write hop' => simp [hop'] at hop
  | exit hop' => simp [hop'] at hop

theorem of_eof {next : Option α → σ} (h : Runs prog q [] trace ok) (hop : prog q = .read next) :
    ∃ rest, trace = .eof :: rest ∧ Runs prog (next none) [] rest ok := by
  cases h with
  | @eof _ next' rest _ hop' hrest =>
      obtain rfl : next' = next := by simpa using hop'.symm.trans hop
      exact ⟨rest, rfl, hrest⟩
  | write hop' => simp [hop'] at hop
  | exit hop' => simp [hop'] at hop

theorem of_write {next : σ} (h : Runs prog q input trace ok) (hop : prog q = .write x next) :
    ∃ rest, trace = .write x :: rest ∧ Runs prog next input rest ok := by
  cases h with
  | read hop' => simp [hop'] at hop
  | eof hop' => simp [hop'] at hop
  | @write _ next' x' _ rest _ hop' hrest =>
      obtain ⟨rfl, rfl⟩ : x' = x ∧ next' = next := by simpa using hop'.symm.trans hop
      exact ⟨rest, rfl, hrest⟩
  | exit hop' => simp [hop'] at hop

theorem of_exit {ok' : Bool} (h : Runs prog q input trace ok) (hop : prog q = .exit ok') :
    trace = [] ∧ ok' = ok := by
  cases h with
  | read hop' => simp [hop'] at hop
  | eof hop' => simp [hop'] at hop
  | write hop' => simp [hop'] at hop
  | exit hop' => exact ⟨rfl, by simpa using hop.symm.trans hop'⟩

end Runs

/-! ## What a step does -/

/-- All that a step can do, on either side. -/
inductive Moves (prog : σ → Op α σ) (cin cout : ℕ) (s : State α σ) : State α σ → Prop where
  | close : s.done = false → s.closed = false → s.todo = [] →
      Moves prog cin cout s { s with closed := true }
  | broken {x : α} {todo : List α} {ok : Bool} : s.done = false → s.closed = false →
      s.todo = x :: todo → s.process = .exited ok → Moves prog cin cout s { s with todo := [] }
  | feed {x : α} {todo : List α} {q : σ} : s.done = false → s.closed = false →
      s.todo = x :: todo → s.process = .running q → s.stdin.length < cin →
      Moves prog cin cout s { s with todo, stdin := s.stdin ++ [x] }
  | collect {x : α} {stdout : List α} : s.done = false → s.closed = true →
      s.stdout = x :: stdout →
      Moves prog cin cout s { s with stdout, collected := s.collected ++ [x] }
  | finish {ok : Bool} : s.done = false → s.closed = true → s.stdout = [] →
      s.process = .exited ok → Moves prog cin cout s { s with done := true }
  | read {q : σ} {next : Option α → σ} {x : α} {stdin : List α} : s.process = .running q →
      prog q = .read next → s.stdin = x :: stdin →
      Moves prog cin cout s { s with stdin, process := .running (next (some x)) }
  | eof {q : σ} {next : Option α → σ} : s.process = .running q → prog q = .read next →
      s.stdin = [] → s.closed = true →
      Moves prog cin cout s { s with process := .running (next none) }
  | write {q next : σ} {x : α} : s.process = .running q → prog q = .write x next →
      s.stdout.length < cout →
      Moves prog cin cout s { s with process := .running next, stdout := s.stdout ++ [x] }
  | exit {q : σ} {ok : Bool} : s.process = .running q → prog q = .exit ok →
      Moves prog cin cout s { s with process := .exited ok }

theorem moves_of_drive (h : drive cin s = some s') : Moves prog cin cout s s' := by
  unfold drive at h
  split at h
  case h_1 => cases h
  case h_2 hdone hclosed htodo =>
    cases h
    exact .close hdone hclosed htodo
  case h_3 hdone hclosed htodo hprocess =>
    cases h
    exact .broken hdone hclosed htodo hprocess
  case h_4 hdone hclosed htodo hprocess =>
    split at h
    case isTrue hlt =>
      cases h
      exact .feed hdone hclosed htodo hprocess hlt
    case isFalse => cases h
  case h_5 hdone hclosed hstdout =>
    cases h
    exact .collect hdone hclosed hstdout
  case h_6 hdone hclosed hstdout hprocess =>
    cases h
    exact .finish hdone hclosed hstdout hprocess
  case h_7 => cases h

theorem moves_of_act (h : act prog cout s = some s') : Moves prog cin cout s s' := by
  unfold act at h
  split at h
  case h_1 => cases h
  case h_2 q hprocess =>
    split at h
    case h_1 next x stdin hop hstdin =>
      cases h
      exact .read hprocess hop hstdin
    case h_2 next hop hstdin =>
      split at h
      case isTrue hclosed =>
        cases h
        exact .eof hprocess hop hstdin hclosed
      case isFalse => cases h
    case h_3 x next stdin hop =>
      split at h
      case isTrue hlt =>
        cases h
        exact .write hprocess hop hlt
      case isFalse => cases h
    case h_4 ok stdin hop =>
      cases h
      exact .exit hprocess hop

theorem moves_of_step {side : Side} (h : step prog cin cout s side = some s') :
    Moves prog cin cout s s' := by
  cases side with
  | driver => exact moves_of_drive h
  | process => exact moves_of_act h

/-! ## Beside the program by itself -/

/-- The rest of the trace is what the process still does. -/
def Process.Goes (prog : σ → Op α σ) (input : List α) (future : List (Event α)) (ok : Bool) :
    Process σ → Prop
  | running q => Runs prog q input future ok
  | exited ok' => future = [] ∧ ok' = ok

def Process.alive : Process σ → Bool
  | running _ => true
  | exited _ => false

/-- A state of the two on the way of the program by itself, which has come through `past`. -/
structure Tracks (prog : σ → Op α σ) (cin total : ℕ) (ok : Bool) (s : State α σ)
    (past future : List (Event α)) : Prop where
  goes : s.process.Goes prog (s.stdin ++ s.todo) future ok
  output : s.collected ++ s.stdout = written past
  supply : s.process.alive = true → taken past + s.stdin.length + s.todo.length = total
  room : s.stdin.length ≤ cin
  fed : s.closed = true → s.todo = []
  uncollected : s.closed = false → s.collected = []
  ended : s.done = true → s.closed = true ∧ s.stdout = [] ∧ s.process.alive = false

/-- What is left to be done. -/
def effort (s : State α σ) (future : List (Event α)) : ℕ :=
  2 * s.todo.length + 2 * future.length + s.stdout.length + (if s.closed then 0 else 1) +
    (if s.process.alive then 1 else 0) + if s.done then 0 else 1

theorem tracks_start (hruns : Runs prog q input trace ok) :
    Tracks prog cin input.length ok (start q input) [] trace := by
  refine ⟨hruns, rfl, fun _ => ?_, Nat.zero_le _, nofun, fun _ => rfl, nofun⟩
  simp [start]

/-- A step takes the program through at most one of its events, and leaves less to be done. -/
theorem Tracks.step (h : Tracks prog cin total ok s past future) (hs : Moves prog cin cout s s') :
    (Tracks prog cin total ok s' past future ∧ effort s' future < effort s future) ∨
      ∃ e rest, future = e :: rest ∧ (∀ x, e = .write x → s.stdout.length < cout) ∧
        Tracks prog cin total ok s' (past ++ [e]) rest ∧ effort s' rest < effort s future := by
  have hgone {q : σ} (hprocess : s.process = .running q) (hdone : s.done = true) : False := by
    have halive := (h.ended hdone).2.2
    rw [hprocess] at halive
    cases halive
  cases hs with
  | close hdone hclosed htodo =>
      refine Or.inl ⟨⟨h.goes, h.output, h.supply, h.room, fun _ => htodo, nofun, ?_⟩, ?_⟩
      · exact fun hd => absurd (hd.symm.trans hdone) (by decide)
      · simp [effort, hclosed]
  | broken hdone hclosed htodo hprocess =>
      have hgoes := h.goes
      rw [hprocess] at hgoes
      refine Or.inl ⟨⟨?_, h.output, ?_, h.room, fun _ => rfl, h.uncollected, h.ended⟩, ?_⟩
      · rw [hprocess]
        exact hgoes
      · rw [hprocess]
        nofun
      · simp [effort, htodo]
  | @feed x todo q hdone hclosed htodo hprocess hlt =>
      have hgoes := h.goes
      have hsupply := h.supply (by rw [hprocess]; rfl)
      rw [htodo] at hgoes hsupply
      refine Or.inl ⟨⟨?_, h.output, fun _ => ?_, ?_, fun hc => ?_, h.uncollected, h.ended⟩, ?_⟩
      · rwa [List.append_assoc, List.singleton_append]
      · simp only [List.length_append, List.length_cons, List.length_nil] at hsupply ⊢
        omega
      · simpa [Nat.succ_le_iff] using hlt
      · exact absurd (hc.symm.trans hclosed) (by decide)
      · simp only [effort, htodo, List.length_cons]
        omega
  | collect hdone hclosed hstdout =>
      have houtput := h.output
      rw [hstdout] at houtput
      refine Or.inl ⟨⟨h.goes, ?_, h.supply, h.room, h.fed, ?_, ?_⟩, ?_⟩
      · rwa [List.append_assoc, List.singleton_append]
      · exact fun hc => absurd (hclosed.symm.trans hc) (by decide)
      · exact fun hd => absurd (hd.symm.trans hdone) (by decide)
      · simp only [effort, hstdout, List.length_cons]
        omega
  | finish hdone hclosed hstdout hprocess =>
      refine Or.inl ⟨⟨h.goes, h.output, h.supply, h.room, h.fed, h.uncollected, ?_⟩, ?_⟩
      · exact fun _ => ⟨hclosed, hstdout, by rw [hprocess]; rfl⟩
      · simp [effort, hdone]
  | @read q next x stdin hprocess hop hstdin =>
      have hgoes := h.goes
      have hsupply := h.supply (by rw [hprocess]; rfl)
      have hroom := h.room
      rw [hprocess, hstdin] at hgoes
      rw [hstdin] at hsupply hroom
      obtain ⟨rest, rfl, hrest⟩ := hgoes.of_read hop
      refine Or.inr ⟨.read, rest, rfl, nofun, ⟨hrest, ?_, fun _ => ?_, Nat.le_of_succ_le hroom,
        h.fed, h.uncollected, fun hd => (hgone hprocess hd).elim⟩, ?_⟩
      · rw [written_append, h.output]
        exact (List.append_nil _).symm
      · rw [taken_append]
        simp only [taken, List.length_cons] at hsupply ⊢
        omega
      · simp only [effort, hprocess, List.length_cons, Process.alive]
        omega
  | @eof q next hprocess hop hstdin hclosed =>
      have hgoes := h.goes
      rw [hprocess, hstdin, h.fed hclosed] at hgoes
      obtain ⟨rest, rfl, hrest⟩ := hgoes.of_eof hop
      refine Or.inr ⟨.eof, rest, rfl, nofun, ⟨?_, ?_, fun _ => ?_, h.room, h.fed, h.uncollected,
        fun hd => (hgone hprocess hd).elim⟩, ?_⟩
      · rw [hstdin, h.fed hclosed]
        exact hrest
      · rw [written_append, h.output]
        exact (List.append_nil _).symm
      · rw [taken_append]
        exact h.supply (by rw [hprocess]; rfl)
      · simp only [effort, hprocess, List.length_cons, Process.alive]
        omega
  | @write q next x hprocess hop hlt =>
      have hgoes := h.goes
      rw [hprocess] at hgoes
      obtain ⟨rest, rfl, hrest⟩ := hgoes.of_write hop
      refine Or.inr ⟨.write x, rest, rfl, fun _ _ => hlt, ⟨hrest, ?_, fun _ => ?_, h.room, h.fed,
        h.uncollected, fun hd => (hgone hprocess hd).elim⟩, ?_⟩
      · rw [written_append, ← h.output, List.append_assoc]
        rfl
      · rw [taken_append]
        exact h.supply (by rw [hprocess]; rfl)
      · simp only [effort, hprocess, List.length_append, List.length_cons, List.length_nil,
          Process.alive]
        omega
  | @exit q ok' hprocess hop =>
      have hgoes := h.goes
      rw [hprocess] at hgoes
      refine Or.inl ⟨⟨hgoes.of_exit hop, h.output, nofun, h.room, h.fed, h.uncollected,
        fun hd => (hgone hprocess hd).elim⟩, ?_⟩
      simp [effort, hprocess, Process.alive]

/-! ## Whole runs -/

theorem exists_tracks (hruns : Runs prog q input trace ok)
    (hs : Reachable (step prog cin cout) (· = start q input) s) :
    ∃ past future, past ++ future = trace ∧ Tracks prog cin input.length ok s past future := by
  induction hs with
  | start hs =>
      subst hs
      exact ⟨[], trace, rfl, tracks_start hruns⟩
  | step _ _ hs ih =>
      obtain ⟨past, future, htrace, htracks⟩ := ih
      rcases htracks.step (moves_of_step hs) with ⟨htracks', -⟩ | ⟨e, rest, rfl, -, htracks', -⟩
      · exact ⟨past, future, htrace, htracks'⟩
      · exact ⟨past ++ [e], rest, by rw [← htrace, List.append_assoc]; rfl, htracks'⟩

/-- No run goes on for ever. -/
theorem Tracks.length_le {sides : List Side} (h : Tracks prog cin total ok s past future)
    (hrun : run (Pipes.step prog cin cout) s sides = some s') :
    sides.length ≤ effort s future := by
  induction sides generalizing s past future with
  | nil => exact Nat.zero_le _
  | cons side sides ih =>
      rw [run, runWhen, if_pos trivial] at hrun
      obtain ⟨t, hs, hrest⟩ := Option.bind_eq_some_iff.1 hrun
      rcases h.step (moves_of_step hs) with ⟨h', hlt⟩ | ⟨e, rest, -, -, h', hlt⟩
      · exact Nat.lt_of_le_of_lt (ih h' hrest) hlt
      · exact Nat.lt_of_le_of_lt (ih h' hrest) hlt

/-- At its end, the driver has all of the output. -/
theorem Tracks.of_done (h : Tracks prog cin total ok s past future) (hdone : s.done = true) :
    future = [] ∧ s.collected = written past ∧ s.process = .exited ok := by
  obtain ⟨-, hstdout, hgone⟩ := h.ended hdone
  have houtput := h.output
  rw [hstdout, List.append_nil] at houtput
  have hgoes := h.goes
  cases hprocess : s.process with
  | running q =>
      rw [hprocess] at hgone
      cases hgone
  | exited ok' =>
      rw [hprocess] at hgoes
      obtain ⟨hfuture, rfl⟩ := hgoes
      exact ⟨hfuture, houtput, rfl⟩

/-- A driver that is closed or has nothing more to write is not waited for. -/
theorem Tracks.waits (h : Tracks prog cin total ok s past future) (hcin : 0 < cin)
    (hcout : 0 < cout) (hstuck : Stuck prog cin cout s) :
    ∃ x rest, future = .write x :: rest ∧ cout ≤ (written past).length ∧
      taken past + cin < total := by
  obtain ⟨hdone, hnone⟩ := hstuck
  have hdrive : drive cin s = none := hnone .driver
  have hact : act prog cout s = none := hnone .process
  have hgoes := h.goes
  have hsupply := h.supply
  have houtput := h.output
  unfold drive at hdrive
  unfold act at hact
  cases hprocess : s.process with
  | exited ok' =>
      cases hclosed : s.closed <;> cases htodo : s.todo <;> cases hstdout : s.stdout <;>
        simp [hdone, hprocess, hclosed, htodo, hstdout] at hdrive
  | running q =>
      rw [hprocess] at hgoes hsupply
      have hsupply := hsupply rfl
      cases hclosed : s.closed with
      | true =>
          -- the output is taken and the input is closed, so that the program goes on
          have hstdout : s.stdout = [] := by
            cases hstdout : s.stdout with
            | nil => rfl
            | cons x stdout => simp [hdone, hclosed, hstdout] at hdrive
          cases hop : prog q <;> cases hstdin : s.stdin <;>
            simp [hprocess, hop, hstdin, hclosed, hstdout] at hact
          all_goals omega
      | false =>
          rw [h.uncollected hclosed, List.nil_append] at houtput
          cases htodo : s.todo with
          | nil => simp [hdone, hclosed, htodo] at hdrive
          | cons x todo =>
              have hfull : cin ≤ s.stdin.length := by
                simpa [hdone, hclosed, htodo, hprocess] using hdrive
              rw [htodo, List.length_cons] at hsupply
              cases hop : prog q with
              | read next =>
                  cases hstdin : s.stdin with
                  | nil =>
                      rw [hstdin] at hfull
                      exact absurd hcin (Nat.not_lt.2 hfull)
                  | cons y stdin => simp [hprocess, hop, hstdin] at hact
              | write y next =>
                  obtain ⟨rest, rfl, -⟩ := hgoes.of_write hop
                  refine ⟨y, rest, rfl, ?_, by omega⟩
                  rw [← houtput]
                  simpa [hprocess, hop] using hact
              | exit ok' => simp [hprocess, hop] at hact

theorem not_stuck (hruns : Runs prog q input trace ok) (hcin : 0 < cin) (hcout : 0 < cout)
    (hroomy : Roomy cin cout input.length trace)
    (hs : Reachable (step prog cin cout) (· = start q input) s) : ¬ Stuck prog cin cout s := by
  intro hstuck
  obtain ⟨past, future, rfl, htracks⟩ := exists_tracks hruns hs
  obtain ⟨x, rest, rfl, hfull, hleft⟩ := htracks.waits hcin hcout hstuck
  rcases hroomy past x rest rfl with hroom | hroom <;> omega

/-- As long as it has not come past such a write, a run goes on to where it is stuck. -/
theorem Tracks.exists_stuck (h : Tracks prog cin total ok s past future)
    (htrace : past ++ future = before ++ .write x :: after)
    (hle : past.length ≤ before.length) (hfull : cout ≤ (written before).length)
    (hleft : taken before + cin < total) :
    ∃ sides s', run (Pipes.step prog cin cout) s sides = some s' ∧ Stuck prog cin cout s' := by
  induction heffort : effort s future using Nat.strongRecOn generalizing s past future with
  | ind n ih =>
      by_cases hstuck : Stuck prog cin cout s
      · exact ⟨[], s, rfl, hstuck⟩
      obtain ⟨gap, rfl⟩ : past <+: before :=
        List.prefix_of_prefix_length_le ⟨future, htrace⟩ ⟨_, rfl⟩ hle
      obtain rfl : future = gap ++ .write x :: after := by
        rwa [List.append_assoc, List.append_cancel_left_eq] at htrace
      -- the driver still has to write
      have hclosed : s.closed = false := by
        rw [← Bool.not_eq_true]
        intro hclosed
        have hgoes := h.goes
        have hsupply := h.supply
        have hroom := h.room
        rw [h.fed hclosed] at hsupply
        cases hprocess : s.process with
        | running q =>
            rw [hprocess] at hsupply
            have hsupply := hsupply rfl
            rw [taken_append] at hleft
            simp only [List.length_nil] at hsupply
            omega
        | exited ok' =>
            rw [hprocess] at hgoes
            exact absurd hgoes.1 (by simp)
      have hdone : s.done = false := by
        rw [← Bool.not_eq_true]
        intro hdone
        rw [(h.ended hdone).1] at hclosed
        cases hclosed
      obtain ⟨side, t, hside⟩ : ∃ side t, Pipes.step prog cin cout s side = some t := by
        by_contra hnone
        simp only [not_exists] at hnone
        exact hstuck ⟨hdone, fun side => Option.eq_none_iff_forall_ne_some.2 (hnone side)⟩
      have hgo {past' future' : List (Event α)} (ht : Tracks prog cin total ok t past' future')
          (hlt : effort t future' < n)
          (htrace' : past' ++ future' = past ++ gap ++ .write x :: after)
          (hle' : past'.length ≤ (past ++ gap).length) :
          ∃ sides s', run (Pipes.step prog cin cout) s sides = some s' ∧
            Stuck prog cin cout s' := by
        obtain ⟨sides, s', hrun, hs'⟩ := ih _ hlt ht htrace' hle' rfl
        refine ⟨side :: sides, s', ?_, hs'⟩
        rw [run, runWhen, if_pos trivial, hside]
        exact hrun
      subst heffort
      rcases h.step (moves_of_step hside) with ⟨ht, hlt⟩ | ⟨e, rest, hrest, hwrite, ht, hlt⟩
      · exact hgo ht hlt htrace hle
      · cases gap with
        | nil =>
            obtain ⟨rfl, rfl⟩ := List.cons.inj hrest
            have houtput := h.output
            rw [h.uncollected hclosed, List.nil_append] at houtput
            rw [List.append_nil, ← houtput] at hfull
            exact absurd (hwrite x rfl) (Nat.not_lt.2 hfull)
        | cons e' gap =>
            obtain ⟨rfl, rfl⟩ := List.cons.inj hrest
            exact hgo ht hlt (by simp) (by simp)

theorem roomy_of_not_stuck (hruns : Runs prog q input trace ok)
    (h : ∀ s, Reachable (step prog cin cout) (· = start q input) s → ¬ Stuck prog cin cout s) :
    Roomy cin cout input.length trace := by
  rintro before x after rfl
  by_contra hno
  rw [not_or, Nat.not_lt, Nat.not_le] at hno
  obtain ⟨sides, s, hrun, hstuck⟩ :=
    (@tracks_start α σ prog cin input q _ ok hruns).exists_stuck rfl (Nat.zero_le _) hno.1 hno.2
  exact h s (ReachableWhen.runWhen (.start rfl) hrun) hstuck

/-! ## Programs that are not in the way -/

/-- The output fits in its pipe. -/
theorem roomy_of_output_le (h : (written trace).length ≤ cout) : Roomy cin cout total trace := by
  rintro before x after rfl
  rw [written_append, written, List.length_append, List.length_cons] at h
  exact Or.inl (by omega)

end Pipes
