import Nockd.Api.Discipline
import Nockd.Interleaving.Machine
import Nockd.Supervisor.Tracking

/-!
# The daemon as a machine

A running daemon is a world, the threads that are in flight in it, and the
shutdown, once it has begun. Its actions are the atomic steps: a request or a
tick arrives, a thread makes its next call, a call fails, a process exits or
appears, `stop_all` begins or makes its next call. The runs of the
machine are all interleavings.
-/

namespace Nockd

namespace Supervisor.World

open Supervisor

/-- A change of the process table that no daemon makes. -/
def setProcess (w : World) (pid : Pid) (p : Option Process) : World :=
  { w with host := { w.host with processes := Function.update w.host.processes pid p } }

/-- A running process ends. -/
def exits (w : World) (pid : Pid) (status : ExitStatus) : Option World :=
  match w.host.processes pid with
  | some { launch, exit := none } => some (w.setProcess pid (some { launch, exit := some status }))
  | _ => none

/-- The exit of a process that nobody holds a handle of is collected: by the
runtime when the handle was dropped, by its own parent when it is not ours. -/
def collects (w : World) (pid : Pid) : Option World :=
  if w.exited pid ∧ pid ∉ w.taken ∧ ∀ name ∈ w.procs.keys, (w.entry name).child ≠ some pid then
    some (w.setProcess pid none)
  else none

/-- A process that is not ours appears. -/
def appears (w : World) (pid : Pid) : Option World :=
  if w.host.FreePid pid then some (w.setProcess pid (some { launch := none })) else none

theorem runs_setProcess {w : World} {pid q : Pid} {p : Option Process} {launch : Launch}
    (h : (w.setProcess pid p).host.Runs q launch) :
    q = pid ∧ p = some { launch := some launch, exit := none } ∨
      q ≠ pid ∧ w.host.Runs q launch := by
  unfold Host.Runs setProcess at *
  by_cases hq : q = pid
  · subst hq
    exact Or.inl ⟨rfl, by simpa using h⟩
  · exact Or.inr ⟨hq, by simpa [Function.update_of_ne hq] using h⟩

theorem startedFor_setProcess {w : World} {pid q : Pid} {p : Option Process} {app : String}
    (hq : q ≠ pid) (h : w.StartedFor q app) : (w.setProcess pid p).StartedFor q app := by
  obtain ⟨launch, exit, hp, happ⟩ := h
  exact ⟨launch, exit, by simpa [setProcess, Function.update_of_ne hq] using hp, happ⟩

theorem processesKept_exit {w : World} {pid : Pid} {launch : Option Launch}
    {status : ExitStatus} (hp : w.host.processes pid = some { launch, exit := none }) :
    ProcessesKept w (w.setProcess pid (some { launch, exit := some status })) := by
  constructor
  · intro q app hstarted _
    by_cases hq : q = pid
    · subst hq
      obtain ⟨launch', exit, hp', happ⟩ := hstarted
      rw [hp] at hp'
      cases hp'
      exact ⟨launch', some status, by simp [setProcess], happ⟩
    · exact startedFor_setProcess hq hstarted
  · intro q launch' hruns
    rcases runs_setProcess hruns with ⟨-, h⟩ | ⟨-, h⟩
    · cases h
    · exact h

theorem processesKept_collect {w : World} {pid : Pid} (htaken : pid ∉ w.taken)
    (hchild : ∀ name, ¬ w.HeldBy pid name) : ProcessesKept w (w.setProcess pid none) := by
  constructor
  · intro q app hstarted hheld
    refine startedFor_setProcess ?_ hstarted
    rintro rfl
    exact hheld.elim (fun ⟨name, h⟩ => hchild name h) htaken
  · intro q launch hruns
    rcases runs_setProcess hruns with ⟨-, h⟩ | ⟨-, h⟩
    · cases h
    · exact h

theorem processesKept_foreign {w : World} {pid : Pid} (hfree : w.host.FreePid pid) :
    ProcessesKept w (w.setProcess pid (some { launch := none })) := by
  constructor
  · intro q app hstarted _
    exact startedFor_setProcess (hstarted.ne_free hfree.2.2) hstarted
  · intro q launch hruns
    rcases runs_setProcess hruns with ⟨-, h⟩ | ⟨-, h⟩
    · cases h
    · exact h

end Supervisor.World

namespace Daemon

open Api Config Interleaving Registry Store Supervisor

structure Sys where
  world : World := {}
  threads : List Thread := []
  /-- What is left of `stop_all`, once it has begun. -/
  stopping : Option (Proc Unit) := none

inductive Action where
  | arrive (r : Request)
  | run (i : ℕ) (env : Env)
  | fail (i : ℕ) (message : String)
  | exit (pid : Pid) (status : ExitStatus)
  | collect (pid : Pid)
  | foreign (pid : Pid)
  | beginStop
  | stop (env : Env)

variable (paths : Paths) (crates : Crates)

/-- The next call of a program is made and succeeds. -/
def turn {α : Type} (env : Env) (w : World) : Proc α → Option (World × Proc α)
  | .call op next =>
    if enabled paths crates env w op then
      let (w, r) := perform paths crates env w op
      some (w, next (.ok r))
    else none
  | _ => none

/-- The next call of a program fails. -/
def failTurn {α : Type} (message : String) : Proc α → Option (Proc α)
  | .call op next => if op.fallible then some (next (.error message)) else none
  | _ => none

namespace Sys

def step (s : Sys) : Action → Option Sys
  | .arrive r => some { s with threads := s.threads ++ [r.handler paths crates] }
  | .run i env => do
    let (world, t) ← turn paths crates env s.world (← s.threads[i]?)
    pure { s with world, threads := s.threads.set i t }
  | .fail i message => do
    let t ← failTurn message (← s.threads[i]?)
    pure { s with threads := s.threads.set i t }
  | .exit pid status => (s.world.exits pid status).map fun world => { s with world }
  | .collect pid => (s.world.collects pid).map fun world => { s with world }
  | .foreign pid => (s.world.appears pid).map fun world => { s with world }
  | .beginStop => if s.stopping.isNone then some { s with stopping := some stopAll } else none
  | .stop env => do
    let (world, p) ← turn paths crates env s.world (← s.stopping)
    pure { s with world, stopping := some p }

/-- A daemon that has just started on a host where no daemon of the root has
left a process. -/
structure Fresh (s : Sys) : Prop where
  procs : s.world.procs = ∅
  taken : s.world.taken = []
  shuttingDown : s.world.shuttingDown = false
  log : s.world.host.log = []
  threads : s.threads = []
  stopping : s.stopping = none
  quiet : ∀ pid launch, ¬ s.world.host.Runs pid launch

/-- The snapshot with which a thread is about to enter the locked section. -/
def section? (s : Sys) (i : ℕ) : Option (List AppRow) :=
  match s.threads[i]? with
  | some (.call (.lockedSection apps) _) => some apps
  | _ => none

theorem section?_eq {s : Sys} {i : ℕ} {apps : List AppRow}
    {next : Except String Unit → Thread}
    (ht : s.threads[i]? = some (.call (.lockedSection apps) next)) :
    s.section? i = some apps := by
  unfold section?
  rw [ht]

/-- If the action is a locked section, `P` holds of its environment and
snapshot. -/
def AtSection (s : Sys) (P : Env → List AppRow → Prop) : Action → Prop
  | .run i env => ∀ apps ∈ s.section? i, P env apps
  | _ => True

instance (s : Sys) (P : Env → List AppRow → Prop) [∀ env apps, Decidable (P env apps)]
    (a : Action) : Decidable (s.AtSection P a) :=
  match a with
  | .run i env => inferInstanceAs (Decidable (∀ apps ∈ s.section? i, P env apps))
  | .arrive _ => .isTrue trivial
  | .fail _ _ => .isTrue trivial
  | .exit _ _ => .isTrue trivial
  | .collect _ => .isTrue trivial
  | .foreign _ => .isTrue trivial
  | .beginStop => .isTrue trivial
  | .stop _ => .isTrue trivial

theorem AtSection.mono {s : Sys} {P Q : Env → List AppRow → Prop} {a : Action}
    (h : s.AtSection P a) (himp : ∀ env apps, P env apps → Q env apps) : s.AtSection Q a := by
  cases a with
  | run i env => exact fun apps happs => himp env apps (h apps happs)
  | _ => trivial

/-! ## The steps, with what is known before each of them -/

inductive Step (s : Sys) : Action → Sys → Prop where
  | arrive (r : Request) :
      Step s (.arrive r) { s with threads := s.threads ++ [r.handler paths crates] }
  | run (i : ℕ) (env : Env) (op : Call) (next : Except String op.Reply → Thread)
      (ht : s.threads[i]? = some (.call op next))
      (hopen : enabled paths crates env s.world op = true) :
      Step s (.run i env)
        { s with
          world := (perform paths crates env s.world op).1
          threads := s.threads.set i (next (.ok (perform paths crates env s.world op).2)) }
  | fail (i : ℕ) (message : String) (op : Call) (next : Except String op.Reply → Thread)
      (ht : s.threads[i]? = some (.call op next)) (hfallible : op.fallible = true) :
      Step s (.fail i message) { s with threads := s.threads.set i (next (.error message)) }
  | exit (pid : Pid) (status : ExitStatus) (launch : Option Launch)
      (hp : s.world.host.processes pid = some { launch, exit := none }) :
      Step s (.exit pid status)
        { s with world := s.world.setProcess pid (some { launch, exit := some status }) }
  | collect (pid : Pid) (hexit : s.world.exited pid = true) (htaken : pid ∉ s.world.taken)
      (hchild : ∀ name, ¬ s.world.HeldBy pid name) :
      Step s (.collect pid) { s with world := s.world.setProcess pid none }
  | foreign (pid : Pid) (hfree : s.world.host.FreePid pid) :
      Step s (.foreign pid) { s with world := s.world.setProcess pid (some { launch := none }) }
  | beginStop (hnone : s.stopping = none) : Step s .beginStop { s with stopping := some stopAll }
  | stop (env : Env) (op : Call) (next : Except String op.Reply → Proc Unit)
      (hp : s.stopping = some (.call op next))
      (hopen : enabled paths crates env s.world op = true) :
      Step s (.stop env)
        { s with
          world := (perform paths crates env s.world op).1
          stopping := some (next (.ok (perform paths crates env s.world op).2)) }

variable {paths crates}

theorem turn_eq_some {α : Type} {env : Env} {w w' : World} {p p' : Proc α}
    (h : turn paths crates env w p = some (w', p')) :
    ∃ op next, p = .call op next ∧ enabled paths crates env w op = true ∧
      w' = (perform paths crates env w op).1 ∧
      p' = next (.ok (perform paths crates env w op).2) := by
  cases p with
  | pure a => cases h
  | throw e => cases h
  | call op next =>
      simp only [turn] at h
      split at h
      case isTrue hopen =>
        cases h
        exact ⟨op, next, rfl, hopen, rfl, rfl⟩
      case isFalse => cases h

theorem failTurn_eq_some {α : Type} {message : String} {p p' : Proc α}
    (h : failTurn message p = some p') :
    ∃ op next, p = .call op next ∧ op.fallible = true ∧ p' = next (.error message) := by
  cases p with
  | pure a => cases h
  | throw e => cases h
  | call op next =>
      simp only [failTurn] at h
      split at h
      case isTrue hfallible =>
        cases h
        exact ⟨op, next, rfl, hfallible, rfl⟩
      case isFalse => cases h

/-- The machine makes no other steps. -/
theorem step_cases {s s' : Sys} {a : Action} (h : s.step paths crates a = some s') :
    Step paths crates s a s' := by
  cases a with
  | arrive r =>
      cases h
      exact .arrive r
  | run i env =>
      obtain ⟨t, ht, h⟩ := Option.bind_eq_some_iff.1 h
      obtain ⟨⟨world, t'⟩, hturn, h⟩ := Option.bind_eq_some_iff.1 h
      obtain ⟨op, next, rfl, hopen, rfl, rfl⟩ := turn_eq_some hturn
      cases h
      exact .run i env op next ht hopen
  | fail i message =>
      obtain ⟨t, ht, h⟩ := Option.bind_eq_some_iff.1 h
      obtain ⟨t', hturn, h⟩ := Option.bind_eq_some_iff.1 h
      obtain ⟨op, next, rfl, hfallible, rfl⟩ := failTurn_eq_some hturn
      cases h
      exact .fail i message op next ht hfallible
  | exit pid status =>
      obtain ⟨world, hworld, rfl⟩ := Option.map_eq_some_iff.1 h
      unfold World.exits at hworld
      split at hworld
      case h_1 launch hp =>
        cases hworld
        exact .exit pid status launch hp
      case h_2 => cases hworld
  | collect pid =>
      obtain ⟨world, hworld, rfl⟩ := Option.map_eq_some_iff.1 h
      unfold World.collects at hworld
      split at hworld
      case isTrue hfree =>
        cases hworld
        refine .collect pid hfree.1 hfree.2.1 ?_
        rintro name ⟨m, hm, hchild⟩
        have hkey : name ∈ s.world.procs.keys := by
          rw [← AList.mem_keys, ← AList.lookup_isSome, hm]
          rfl
        exact hfree.2.2 name hkey (by rw [World.entry_of_lookup hm, hchild])
      case isFalse => cases hworld
  | foreign pid =>
      obtain ⟨world, hworld, rfl⟩ := Option.map_eq_some_iff.1 h
      unfold World.appears at hworld
      split at hworld
      case isTrue hfree =>
        cases hworld
        exact .foreign pid hfree
      case isFalse => cases hworld
  | beginStop =>
      simp only [step] at h
      split at h
      case isTrue hnone =>
        cases h
        exact .beginStop (Option.isNone_iff_eq_none.1 hnone)
      case isFalse => cases h
  | stop env =>
      obtain ⟨p, hp, h⟩ := Option.bind_eq_some_iff.1 h
      obtain ⟨⟨world, p'⟩, hturn, h⟩ := Option.bind_eq_some_iff.1 h
      obtain ⟨op, next, rfl, hopen, rfl, rfl⟩ := turn_eq_some hturn
      cases h
      exact .stop env op next hp hopen

/-- What every thread is, it stays, if handlers begin so and are left so by their calls. -/
theorem Step.threads {s s' : Sys} {a : Action} {T : Thread → Prop}
    (h : Step paths crates s a s') (hs : ∀ t ∈ s.threads, T t)
    (harrive : ∀ r, a = .arrive r → T (r.handler paths crates))
    (hrun : ∀ i env op next, a = .run i env → s.threads[i]? = some (.call op next) →
      T (.call op next) → T (next (.ok (perform paths crates env s.world op).2)))
    (hfail : ∀ op next m, T (.call op next) → T (next (.error m))) : ∀ t ∈ s'.threads, T t := by
  cases h with
  | arrive r =>
      intro t ht
      rcases List.mem_append.1 ht with ht | ht
      · exact hs t ht
      · exact List.mem_singleton.1 ht ▸ harrive r rfl
  | run i env op next ht hopen =>
      intro u hu
      rcases List.mem_or_eq_of_mem_set hu with hu | rfl
      · exact hs u hu
      · exact hrun i env op next rfl ht (hs _ (List.mem_of_getElem? ht))
  | fail i message op next ht hfallible =>
      intro u hu
      rcases List.mem_or_eq_of_mem_set hu with hu | rfl
      · exact hs u hu
      · exact hfail op next message (hs _ (List.mem_of_getElem? ht))
  | _ => exact hs

theorem Step.not_stop {s s' : Sys} {a : Action} (h : Step paths crates s a s')
    (hnone : s.stopping = none) : ∀ env, a ≠ .stop env := by
  rintro env rfl
  cases h with
  | stop env op next hp hopen =>
      rw [hnone] at hp
      cases hp

/-- While `stop_all` has not begun it makes no calls. -/
theorem Step.of_not_stopping {s s' : Sys} {a : Action} (h : Step paths crates s a s')
    (hnone : s'.stopping = none) : s.stopping = none ∧ ∀ env, a ≠ .stop env := by
  cases h with
  | beginStop => cases hnone
  | stop => cases hnone
  | _ => exact ⟨hnone, by simp⟩

end Sys

end Daemon

end Nockd
