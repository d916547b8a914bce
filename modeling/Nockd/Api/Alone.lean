import Nockd.Api.Frame
import Nockd.Interleaving.Exec

/-!
# Requests served one at a time

An `Oracle` is everything the outside decides while a request is served: the
environment of each call, and which calls fail (a put that finds a directory in the place of
its file, for one). `serve` runs the handler of a request alone and keeps the statements that
have succeeded.
-/

namespace Nockd

namespace Api

open Config Interleaving Registry Store Supervisor

variable (paths : Paths) (crates : Crates)

structure Oracle where
  env : ℕ → Env := fun _ => {}
  fails : ℕ → Call → Option String := fun _ _ => none

/-- The trust table as a deploy finds it when it assesses an attestation. -/
def Oracle.trusts (o : Oracle) (r : Registry) (pubkey : String) : Bool :=
  !(o.env 2).queryErr && r.isTrustedBuilder pubkey

/-- A world in which a request is being served. -/
structure Alone where
  world : World
  calls : ℕ := 0
  /-- The statements that have succeeded, with their times. -/
  done : List (ℤ × Statement) := []

def Oracle.answer (o : Oracle) (s : Alone) (op : Call) : Alone × Except String op.Reply :=
  match if op.fallible then o.fails s.calls op else none with
  | some m => ({ s with calls := s.calls + 1 }, .error m)
  | none =>
    let env := o.env s.calls
    let (world, r) := perform paths crates env s.world op
    let done := s.done ++ (op.statement.toList.map fun st => (env.now, st))
    ({ world, calls := s.calls + 1, done }, .ok r)

/-- Serve one request, from its first call to its answer. -/
def serve (o : Oracle) (w : World) (r : Request) : Alone × Except ApiError Response :=
  (r.handler paths crates).exec (o.answer paths crates) { world := w }

/-- What a list of statements leaves. -/
def execAll (done : List (ℤ × Statement)) (r : Registry) : Registry :=
  done.foldl (fun r x => x.2.exec x.1 r) r

variable {paths crates} {o : Oracle} {s : Alone} {op : Call}

theorem answer_ok {r : op.Reply} (h : (o.answer paths crates s op).2 = .ok r) :
    r = (perform paths crates (o.env s.calls) s.world op).2 ∧
      (o.answer paths crates s op).1.world =
        (perform paths crates (o.env s.calls) s.world op).1 ∧
      (o.answer paths crates s op).1.done = s.done ++
        (op.statement.toList.map fun st => ((o.env s.calls).now, st)) := by
  unfold Oracle.answer at h ⊢
  cases hfail : if op.fallible then o.fails s.calls op else none with
  | some m =>
      rw [hfail] at h
      cases h
  | none =>
      rw [hfail] at h
      exact ⟨(Except.ok.inj h).symm, rfl, rfl⟩

theorem answer_error {m : String} (h : (o.answer paths crates s op).2 = .error m) :
    op.fallible = true ∧ o.fails s.calls op = some m ∧
      (o.answer paths crates s op).1.world = s.world ∧
      (o.answer paths crates s op).1.done = s.done := by
  unfold Oracle.answer at h ⊢
  cases hfail : if op.fallible then o.fails s.calls op else none with
  | some m' =>
      rw [hfail] at h
      cases h
      split at hfail
      · exact ⟨‹_›, hfail, rfl, rfl⟩
      · cases hfail
  | none =>
      rw [hfail] at h
      cases h

/-- A call that is refused ends the program; after any other the program goes on with its reply. -/
theorem exec_must_cases {α : Type} (paths : Paths) (crates : Crates) (o : Oracle) (s : Alone)
    (op : Call) (f : op.Reply → Proc α) :
    (∃ m, op.fallible = true ∧ o.fails s.calls op = some m ∧
      (must op >>= f).exec (o.answer paths crates) s =
        ({ s with calls := s.calls + 1 }, .error (.internal m))) ∨
    ((op.fallible = true → o.fails s.calls op = none) ∧
      (must op >>= f).exec (o.answer paths crates) s =
        (f (perform paths crates (o.env s.calls) s.world op).2).exec (o.answer paths crates)
          { world := (perform paths crates (o.env s.calls) s.world op).1
            calls := s.calls + 1
            done := s.done ++
              (op.statement.toList.map fun st => ((o.env s.calls).now, st)) }) := by
  cases hr : (o.answer paths crates s op).2 with
  | error m =>
      obtain ⟨hfallible, hfails, -, -⟩ := answer_error hr
      refine Or.inl ⟨m, hfallible, hfails, (Program.exec_attempt_error f hr).trans ?_⟩
      simp [Oracle.answer, hfallible, hfails]
  | ok r =>
      have hnone : (if op.fallible then o.fails s.calls op else none) = none := by
        unfold Oracle.answer at hr
        split at hr
        · cases hr
        · assumption
      refine Or.inr ⟨fun hfallible => by rwa [if_pos hfallible] at hnone,
        (Program.exec_attempt_ok f hr).trans ?_⟩
      rw [(answer_ok hr).1]
      simp [Oracle.answer, hnone]

/-- Up to events, a request leaves what its statements leave. -/
theorem serve_registry (o : Oracle) (w : World) (r : Request) :
    (serve paths crates o w r).1.world.host.registry.quiet =
      (execAll (serve paths crates o w r).1.done w.host.registry).quiet := by
  refine (Program.only_true (r.handler paths crates)).exec
    (I := fun s : Alone => s.world.host.registry.quiet =
      (execAll s.done w.host.registry).quiet) ?_ rfl
  intro s op _ hs
  cases hr : (o.answer paths crates s op).2 with
  | error m =>
      obtain ⟨-, -, hworld, hdone⟩ := answer_error hr
      rw [hworld, hdone, hs]
  | ok r =>
      obtain ⟨-, hworld, hdone⟩ := answer_ok hr
      rw [hworld, hdone]
      cases hst : op.statement with
      | none =>
          rw [perform_quiet paths crates _ _ hst, hs]
          simp
      | some st =>
          cases op with
          | write st' =>
              cases hst
              have := Statement.exec_quiet (o.env s.calls).now hs st
              simpa [perform, World.mapRegistry, Call.statement, execAll] using this
          | _ => cases hst

/-- What the occurring statements keep, up to events, a run keeps. -/
theorem exec_keeps {α : Type} {p : Proc α} {P : Call → Prop} {I : Registry → Prop}
    (hp : p.Only P) (hquiet : ∀ {r r' : Registry}, r'.quiet = r.quiet → I r → I r')
    (hexec : ∀ st now r, P (.write st) → I r → I (st.exec now r))
    (hs : I s.world.host.registry) :
    I (p.exec (o.answer paths crates) s).1.world.host.registry := by
  refine hp.exec (I := fun s : Alone => I s.world.host.registry) (fun s op hop hI => ?_) hs
  cases hr : (o.answer paths crates s op).2 with
  | error m => rwa [(answer_error hr).2.2.1]
  | ok r =>
      rw [(answer_ok hr).2.1]
      cases hst : op.statement with
      | none => exact hquiet (perform_quiet paths crates _ _ hst) hI
      | some st =>
          cases op with
          | write st' => exact hexec st' _ _ hop hI
          | _ => cases hst

end Api

end Nockd
