import Nockd.Interleaving.Machine
import Nockd.Registry.Events

/-!
# The event stream

`events_sse` looks up the largest id when it is opened and then polls for larger ones, a
hundred at a time. The rows of a poll are sent one by one, and meanwhile the log may grow.
What has been sent is at any time a prefix of the rows behind the first cursor.
-/

namespace Nockd

namespace Api

open Cursor Interleaving Registry

/-- One event as it is sent. -/
structure EventJson where
  id : ℕ
  ts : ℤ
  appName : String
  kind : String
  detail : String
deriving DecidableEq, Repr

def EventJson.from (e : EventRow) : EventJson :=
  { id := e.id, ts := e.ts, appName := e.appName, kind := e.kind, detail := e.detail }

/-- An open stream, with the rows that it has fetched and not sent yet. -/
structure EventsSse where
  /-- The cursor it was opened with. -/
  initial : ℕ
  lastId : ℕ
  fetched : List EventRow := []
  sent : List EventJson := []
deriving DecidableEq, Repr

/-- A registry and a stream of its events. -/
structure Watch where
  registry : Registry
  stream : Option EventsSse := none
deriving DecidableEq

inductive WatchAction where
  | write (now : ℤ) (st : Statement)
  /-- An id is used up by an insert that fails. -/
  | skip
  | openStream (ok : Bool)
  | poll (ok : Bool)
  | emit
deriving DecidableEq

/-- The cursor of a new stream; a failed query counts as an empty log. -/
def initialId (r : Registry) (ok : Bool) : ℕ :=
  if ok then ((r.listEvents 1).head?.map (·.id)).getD 0 else 0

namespace EventsSse

def opened (id : ℕ) : EventsSse := { initial := id, lastId := id }

/-- The rows of a poll are fetched; a failed one is skipped. -/
def poll (r : Registry) (ok : Bool) (f : EventsSse) : Option EventsSse :=
  if f.fetched = [] then
    some (if ok then { f with fetched := r.eventsSince f.lastId 100 } else f)
  else none

/-- The next of the fetched rows is sent. -/
def emit (f : EventsSse) : Option EventsSse :=
  match f.fetched with
  | [] => none
  | e :: rest =>
      some { f with lastId := e.id, fetched := rest, sent := f.sent ++ [.from e] }

/-- The rows that are to be sent. -/
def due (f : EventsSse) (r : Registry) : List EventRow := after (·.id) f.initial r.event

def unsent (f : EventsSse) (r : Registry) : List EventRow := (f.due r).drop f.sent.length

end EventsSse

namespace Watch

def step (s : Watch) : WatchAction → Option Watch
  | .write now st => some { s with registry := st.exec now s.registry }
  | .skip => some { s with registry := { s.registry with eventSeq := s.registry.eventSeq + 1 } }
  | .openStream ok =>
      match s.stream with
      | some _ => none
      | none =>
          some { s with stream := some (.opened (initialId s.registry ok)) }
  | .poll ok =>
      s.stream.bind fun f => (f.poll s.registry ok).map fun f => { s with stream := some f }
  | .emit => s.stream.bind fun f => f.emit.map fun f => { s with stream := some f }

/-- A log that SQLite has numbered, and no stream yet. -/
def Started (s : Watch) : Prop := s.registry.Numbered ∧ s.stream = none

end Watch

/-! ## What a stream has read -/

/-- The rows that the stream has read are those it has sent and then the fetched ones. -/
structure EventsSse.Reads (f : EventsSse) (r : Registry) (read rest : List EventRow) : Prop where
  due : f.due r = read ++ f.fetched ++ rest
  sent : f.sent = read.map .from
  lastId : f.lastId = past (·.id) f.initial read

/-- What has been sent, and the fetched rows that will be sent before the next poll. -/
def EventsSse.committed (f : EventsSse) : List EventJson := f.sent ++ f.fetched.map .from

variable {r : Registry} {f f' : EventsSse} {read rest : List EventRow}

namespace EventsSse

theorem Reads.unsent (h : f.Reads r read rest) : f.unsent r = f.fetched ++ rest := by
  unfold EventsSse.unsent
  rw [h.due, h.sent, List.length_map, List.append_assoc, List.drop_left]

theorem Reads.sent_prefix (h : f.Reads r read rest) : f.sent <+: (f.due r).map .from := by
  rw [h.due, h.sent, List.append_assoc, List.map_append]
  exact List.prefix_append _ _

/-- A poll fetches what comes next. -/
theorem Reads.fetch (h : f.Reads r read rest) (hids : r.Numbered) (hnil : f.fetched = []) :
    r.eventsSince f.lastId 100 = rest.take 100 := by
  have hdue : after (·.id) f.initial r.event = read ++ rest := by
    have := h.due
    rwa [hnil, List.append_nil] at this
  have hpast := after_past hids.ascending hdue
  rw [← h.lastId] at hpast
  rw [← hpast]
  exact eventsSince_eq hids f.lastId 100

theorem poll_eq_some {ok : Bool} (h : f.poll r ok = some f') :
    f.fetched = [] ∧
      f' = if ok then { f with fetched := r.eventsSince f.lastId 100 } else f := by
  unfold EventsSse.poll at h
  split at h
  case isTrue hnil =>
    cases h
    exact ⟨hnil, rfl⟩
  case isFalse => cases h

theorem Reads.poll (h : f.Reads r read rest) (hids : r.Numbered) {ok : Bool}
    (hpoll : f.poll r ok = some f') : ∃ rest', f'.Reads r read rest' := by
  obtain ⟨hnil, rfl⟩ := poll_eq_some hpoll
  split
  · have hfetch := h.fetch hids hnil
    have hdue := h.due
    rw [hnil, List.append_nil] at hdue
    refine ⟨rest.drop 100, ⟨?_, h.sent, h.lastId⟩⟩
    change f.due r = read ++ r.eventsSince f.lastId 100 ++ rest.drop 100
    rw [hfetch, List.append_assoc, List.take_append_drop]
    exact hdue
  · exact ⟨rest, h⟩

/-- After a poll the next hundred unsent rows are committed to. -/
theorem Reads.committed_poll (h : f.Reads r read rest) (hids : r.Numbered)
    (hpoll : f.poll r true = some f') :
    f'.committed = f.sent ++ ((f.unsent r).take 100).map .from := by
  obtain ⟨hnil, rfl⟩ := poll_eq_some hpoll
  have hfetch := h.fetch hids hnil
  rw [if_pos rfl, h.unsent, hnil, List.nil_append, ← hfetch]
  rfl

theorem initial_poll {ok : Bool} (hpoll : f.poll r ok = some f') : f'.initial = f.initial := by
  obtain ⟨-, rfl⟩ := poll_eq_some hpoll
  split <;> rfl

theorem emit_eq_some (h : f.emit = some f') :
    ∃ e rest, f.fetched = e :: rest ∧
      f' = { f with lastId := e.id, fetched := rest, sent := f.sent ++ [.from e] } := by
  unfold EventsSse.emit at h
  split at h
  case h_1 => cases h
  case h_2 e rest heq =>
    cases h
    exact ⟨e, rest, heq, rfl⟩

theorem Reads.emit (h : f.Reads r read rest) (hemit : f.emit = some f') :
    ∃ e, f'.Reads r (read ++ [e]) rest := by
  obtain ⟨e, fetched, hfetched, rfl⟩ := emit_eq_some hemit
  refine ⟨e, ⟨?_, ?_, ?_⟩⟩
  · change f.due r = read ++ [e] ++ fetched ++ rest
    rw [h.due, hfetched]
    simp
  · change f.sent ++ [EventJson.from e] = (read ++ [e]).map .from
    rw [h.sent, List.map_append]
    rfl
  · change e.id = past (·.id) f.initial (read ++ [e])
    rw [past_append_singleton]

theorem initial_emit (hemit : f.emit = some f') : f'.initial = f.initial := by
  obtain ⟨e, rest, -, rfl⟩ := emit_eq_some hemit
  rfl

theorem committed_emit (hemit : f.emit = some f') : f'.committed = f.committed := by
  obtain ⟨e, fetched, hfetched, rfl⟩ := emit_eq_some hemit
  unfold committed
  rw [hfetched, List.map_cons, List.append_assoc]
  rfl

theorem Reads.append (h : f.Reads r read rest) {r' : Registry} {added : List EventRow}
    (hevent : r'.event = r.event ++ added) (hadded : ∀ e ∈ added, f.initial < e.id) :
    f.Reads r' read (rest ++ added) := by
  refine ⟨?_, h.sent, h.lastId⟩
  have hdue := h.due
  unfold EventsSse.due after at hdue ⊢
  rw [hevent, List.filter_append, hdue, List.append_assoc,
    List.filter_eq_self.2 fun e he => decide_eq_true (hadded e he)]

end EventsSse

/-- The log is numbered and the stream has read some of what is due. -/
structure Watch.Sound (s : Watch) : Prop where
  numbered : s.registry.Numbered
  initial : ∀ f ∈ s.stream, f.initial ≤ s.registry.eventSeq
  reads : ∀ f ∈ s.stream, ∃ read rest, f.Reads s.registry read rest

theorem initialId_le (h : r.Numbered) (ok : Bool) : initialId r ok ≤ r.eventSeq := by
  unfold initialId
  split
  · rw [listEvents_eq h]
    cases hlast : r.event.getLast? with
    | none => simp [List.getLast?_eq_none_iff.1 hlast, limited]
    | some e =>
        obtain ⟨front, hfront⟩ := List.getLast?_eq_some_iff.1 hlast
        simpa [limited, hfront] using h.bound e (hfront ▸ by simp)
  · exact Nat.zero_le _

namespace Watch

variable {s s' : Watch}

theorem Sound.write (h : s.Sound) (now : ℤ) (st : Statement) :
    Sound { s with registry := st.exec now s.registry } := by
  refine ⟨h.numbered.exec now st, fun f hf => ?_, fun f hf => ?_⟩
  · rw [eventSeq_exec]
    exact (h.initial f hf).trans (Nat.le_add_right _ _)
  · obtain ⟨read, rest, hreads⟩ := h.reads f hf
    refine ⟨read, _, hreads.append (event_exec now s.registry st) fun e he => ?_⟩
    rw [id_of_logs (Option.mem_toList.1 he)]
    exact Nat.lt_succ_of_le (h.initial f hf)

theorem Sound.skip (h : s.Sound) :
    Sound { s with registry := { s.registry with eventSeq := s.registry.eventSeq + 1 } } where
  numbered := ⟨h.numbered.ascending, fun e he => (h.numbered.bound e he).trans (Nat.le_succ _)⟩
  initial f hf := (h.initial f hf).trans (Nat.le_succ _)
  reads f hf := by
    obtain ⟨read, rest, hreads⟩ := h.reads f hf
    exact ⟨read, rest, hreads.due, hreads.sent, hreads.lastId⟩

/-- The stream takes a step that keeps its first cursor. -/
theorem Sound.stream (h : s.Sound) {f f' : EventsSse} (hf : s.stream = some f)
    (hinitial : f'.initial = f.initial)
    (hreads : ∃ read rest, f'.Reads s.registry read rest) :
    Sound { s with stream := some f' } := by
  refine ⟨h.numbered, fun g hg => ?_, fun g hg => ?_⟩
  · cases hg
    rw [hinitial]
    exact h.initial f hf
  · cases hg
    exact hreads

theorem step_openStream {ok : Bool} (hs : s.step (.openStream ok) = some s') :
    s.stream = none ∧ s' = { s with stream := some (.opened (initialId s.registry ok)) } := by
  cases hstream : s.stream with
  | some f => simp [step, hstream] at hs
  | none =>
      simp only [step, hstream, Option.some.injEq] at hs
      exact ⟨rfl, hs.symm⟩

theorem step_poll {ok : Bool} (hs : s.step (.poll ok) = some s') :
    ∃ f f', s.stream = some f ∧ f.poll s.registry ok = some f' ∧
      s' = { s with stream := some f' } := by
  obtain ⟨f, hf, hs⟩ := Option.bind_eq_some_iff.1 hs
  obtain ⟨f', hpoll, rfl⟩ := Option.map_eq_some_iff.1 hs
  exact ⟨f, f', hf, hpoll, rfl⟩

theorem step_emit (hs : s.step .emit = some s') :
    ∃ f f', s.stream = some f ∧ f.emit = some f' ∧ s' = { s with stream := some f' } := by
  obtain ⟨f, hf, hs⟩ := Option.bind_eq_some_iff.1 hs
  obtain ⟨f', hemit, rfl⟩ := Option.map_eq_some_iff.1 hs
  exact ⟨f, f', hf, hemit, rfl⟩

theorem Sound.step (h : s.Sound) {a : WatchAction} (hs : s.step a = some s') : s'.Sound := by
  cases a with
  | write now st =>
      cases hs
      exact h.write now st
  | skip =>
      cases hs
      exact h.skip
  | openStream ok =>
      obtain ⟨-, rfl⟩ := step_openStream hs
      refine ⟨h.numbered, fun f hf => ?_, fun f hf => ?_⟩
      · cases hf
        exact initialId_le h.numbered ok
      · cases hf
        exact ⟨[], _, rfl, rfl, rfl⟩
  | poll ok =>
      obtain ⟨f, f', hf, hpoll, rfl⟩ := step_poll hs
      obtain ⟨read, rest, hreads⟩ := h.reads f hf
      exact h.stream hf (EventsSse.initial_poll hpoll) ⟨read, hreads.poll h.numbered hpoll⟩
  | emit =>
      obtain ⟨f, f', hf, hemit, rfl⟩ := step_emit hs
      obtain ⟨read, rest, hreads⟩ := h.reads f hf
      obtain ⟨e, hreads'⟩ := hreads.emit hemit
      exact h.stream hf (EventsSse.initial_emit hemit) ⟨_, _, hreads'⟩

theorem sound_of_reachable (hs : Reachable step Started s) : s.Sound :=
  hs.invariant
    (fun _ h => ⟨h.1, fun f hf => by simp [h.2] at hf, fun f hf => by simp [h.2] at hf⟩)
    fun _ _ _ h _ hstep => h.step hstep

/-! ## From one poll to the next -/

/-- The log grows or the stream sends, but does not poll. -/
def Between : WatchAction → Prop
  | .write _ _ | .skip | .emit => True
  | .openStream _ | .poll _ => False

theorem committed_step {f : EventsSse} (hf : s.stream = some f) {a : WatchAction}
    (ha : Between a) (hs : s.step a = some s') :
    ∃ f', s'.stream = some f' ∧ f'.committed = f.committed := by
  cases a with
  | write now st =>
      cases hs
      exact ⟨f, hf, rfl⟩
  | skip =>
      cases hs
      exact ⟨f, hf, rfl⟩
  | emit =>
      obtain ⟨g, f', hg, hemit, rfl⟩ := step_emit hs
      rw [hf] at hg
      cases hg
      exact ⟨f', rfl, EventsSse.committed_emit hemit⟩
  | openStream ok => exact ha.elim
  | poll ok => exact ha.elim

theorem committed_run {f : EventsSse} (hf : s.stream = some f) {as : List WatchAction}
    (has : ∀ a ∈ as, Between a) (hrun : run step s as = some s') :
    ∃ f', s'.stream = some f' ∧ f'.committed = f.committed := by
  induction as generalizing s f with
  | nil =>
      cases hrun
      exact ⟨f, hf, rfl⟩
  | cons a as ih =>
      rw [List.forall_mem_cons] at has
      obtain ⟨t, hstep, hrest⟩ := Option.bind_eq_some_iff.1 hrun
      obtain ⟨g, hg, hcommitted⟩ := committed_step hf has.1 hstep
      obtain ⟨f', hf', hcommitted'⟩ := ih hg has.2 hrest
      exact ⟨f', hf', hcommitted'.trans hcommitted⟩

/-- The fetched rows can be sent, whatever the log does. -/
theorem run_emit {f : EventsSse} (hf : s.stream = some f) :
    ∃ s' f', run step s (List.replicate f.fetched.length .emit) = some s' ∧
      s'.stream = some f' ∧ f'.fetched = [] := by
  induction hfetched : f.fetched generalizing s f with
  | nil => exact ⟨s, f, rfl, hf, hfetched⟩
  | cons e rest ih =>
      let g : EventsSse :=
        { f with lastId := e.id, fetched := rest, sent := f.sent ++ [.from e] }
      have hemit : f.emit = some g := by
        unfold EventsSse.emit
        rw [hfetched]
      obtain ⟨s', f', hrun, hf', hnil⟩ := ih (s := { s with stream := some g }) rfl rfl
      refine ⟨s', f', ?_, hf', hnil⟩
      have hstep : s.step .emit = some { s with stream := some g } := by
        simp only [step, hf, Option.bind_some, hemit, Option.map_some]
      rw [List.length_cons, List.replicate_succ]
      change (s.step .emit).bind _ = some s'
      rw [hstep]
      exact hrun

def registryAt (n : ℕ) : Registry :=
  (List.range n).foldl (fun r i => r.addEvent i "app" "start" "instance started") {}

/-- A stream that was opened after the first event, with two events since. -/
def lateStream : EventsSse := { initial := 1, lastId := 1 }

def lateWatch : Watch := { registry := registryAt 3, stream := some lateStream }

/-- In every run the stream has sent a prefix of the rows behind its first cursor, in the
order of their ids, and after a successful poll it sends exactly the next hundred, or all
when there are less, before it polls again. -/
theorem events_exactly_once (hs : Reachable step Started s) {f : EventsSse}
    (hf : s.stream = some f) :
    Ascending (·.id) (f.due s.registry) ∧ f.sent <+: (f.due s.registry).map .from ∧
      ∀ s₁, s.step (.poll true) = some s₁ →
        (∀ as s₂, (∀ a ∈ as, Between a) → run step s₁ as = some s₂ →
          ∃ f₂, s₂.stream = some f₂ ∧ f₂.sent ++ f₂.fetched.map .from =
            f.sent ++ ((f.unsent s.registry).take 100).map .from) ∧
        ∃ as s₂ f₂, (∀ a ∈ as, a = .emit) ∧ run step s₁ as = some s₂ ∧
          s₂.stream = some f₂ ∧ f₂.fetched = [] := by
  have hsound := sound_of_reachable hs
  obtain ⟨read, rest, hreads⟩ := hsound.reads f hf
  refine ⟨hsound.numbered.ascending.after, hreads.sent_prefix, fun s₁ hpoll => ?_⟩
  obtain ⟨g, f₁, hg, hfetch, rfl⟩ := step_poll hpoll
  rw [hf] at hg
  cases hg
  have hcommitted := hreads.committed_poll hsound.numbered hfetch
  refine ⟨fun as s₂ has hrun => ?_, ?_⟩
  · obtain ⟨f₂, hf₂, hkept⟩ := committed_run rfl has hrun
    exact ⟨f₂, hf₂, hkept.trans hcommitted⟩
  · obtain ⟨s₂, f₂, hrun, hf₂, hnil⟩ := run_emit (s := { s with stream := some f₁ }) rfl
    exact ⟨_, s₂, f₂, fun a ha => List.eq_of_mem_replicate ha, hrun, hf₂, hnil⟩

theorem events_exactly_once_late :
    ∃ s₁ s₂ f₂, lateWatch.step (.poll true) = some s₁ ∧
      run step s₁ [.emit, .write 3 (.addEvent "app" "crash" "exit code 1"), .emit] = some s₂ ∧
      s₂.stream = some f₂ ∧ f₂.sent ++ f₂.fetched.map .from =
        lateStream.sent ++ ((lateStream.unsent (registryAt 3)).take 100).map .from := by
  have hrun : run step { registry := registryAt 1 } [.openStream true,
      .write 1 (.addEvent "app" "start" "instance started"),
      .write 2 (.addEvent "app" "start" "instance started")] = some lateWatch := rfl
  have hids : (registryAt 1).Numbered := ⟨List.pairwise_singleton _ _, by decide⟩
  have hreach : Reachable step Started lateWatch := .runWhen (.start ⟨hids, rfl⟩) hrun
  obtain ⟨-, -, hpoll⟩ := events_exactly_once hreach (f := lateStream) rfl
  obtain ⟨s₁, hs₁⟩ : ∃ s₁, lateWatch.step (.poll true) = some s₁ := ⟨_, rfl⟩
  obtain ⟨s₂, hs₂⟩ : ∃ s₂, run step s₁
      [.emit, .write 3 (.addEvent "app" "crash" "exit code 1"), .emit] = some s₂ := by
    cases hs₁
    exact ⟨_, rfl⟩
  obtain ⟨f₂, hf₂, hsent⟩ := (hpoll s₁ hs₁).1 _ s₂ (by simp [Between]) hs₂
  exact ⟨s₁, s₂, f₂, hs₁, hs₂, hf₂, hsent⟩

end Watch

end Api

end Nockd
