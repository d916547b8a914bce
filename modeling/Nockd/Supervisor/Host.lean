import Mathlib.Data.List.Induction
import Nockd.Config.Paths
import Nockd.Registry.Statements
import Nockd.Supervisor.Managed

/-!
# The host a daemon runs on

The registry, the files and the processes outlive a daemon; `log` is the list of what this
daemon has done to them so far. All of it changes through `Host.apply`, one
effect at a time, so the host after a crash is the fold of a prefix of effects.

A signal only asks a process to exit. It stays in the table as a running
process until it exits on its own account, and as an exited one until it is
waited for.
-/

namespace Nockd

namespace Supervisor

open Config Registry

inductive Signal where
  | term
  | kill
deriving DecidableEq, Repr

/-- How a process ended. -/
inductive ExitStatus where
  | code (c : ℤ)
  | signal (n : ℕ)
deriving DecidableEq, Repr

/-- `status.code().unwrap_or(-1)`. -/
def ExitStatus.codeOr : ExitStatus → ℤ
  | .code c => c
  | .signal _ => -1

/-- What `std::process::Command` is given. -/
structure Command where
  program : List Char
  currentDir : List Char
  args : List (List Char)
  env : List (String × List Char)
deriving DecidableEq, Repr

/-- How an instance was started: for which app and from which row, by which
daemon, and what the executed file and the working directory's `out.jam` held
at that moment. -/
structure Launch where
  app : String
  row : AppRow
  command : Command
  daemon : ℕ
  executed : Bytes
  outJam : Option Bytes
deriving DecidableEq, Repr

/-- A process of the host; `launch` is `none` for a process no daemon of this
root started. -/
structure Process where
  launch : Option Launch
  exit : Option ExitStatus := none
deriving DecidableEq, Repr

inductive Effect where
  | signal (t : ℤ) (pid : Pid) (sig : Signal)
  | wait (pid : Pid)
  | spawn (pid : Pid) (launch : Launch)
  | write (file : File) (node : FileNode)
  | remove (file : File)
  | createDir (dir : File)
  | event (ts : ℤ) (app kind detail : String)
  | takeChildren
deriving DecidableEq, Repr

structure Host where
  registry : Registry := {}
  disk : Disk := {}
  processes : Pid → Option Process := fun _ => none
  log : List Effect := []

namespace Host

/-- What an effect does to registry, files and processes. -/
def perform (h : Host) : Effect → Host
  | .signal _ _ _ => h
  | .wait pid => { h with processes := Function.update h.processes pid none }
  | .spawn pid launch =>
      { h with processes := Function.update h.processes pid (some { launch := some launch }) }
  | .write file node => { h with disk := h.disk.set file (some node) }
  | .remove file => { h with disk := h.disk.set file none }
  | .createDir dir => { h with disk := h.disk.makeDir dir }
  | .event ts app kind detail => { h with registry := h.registry.addEvent ts app kind detail }
  | .takeChildren => h

def apply (h : Host) (e : Effect) : Host :=
  { h.perform e with log := h.log ++ [e] }

/-- The process is running and was started for `launch`. -/
def Runs (h : Host) (pid : Pid) (launch : Launch) : Prop :=
  h.processes pid = some { launch := some launch, exit := none }

section

variable (h : Host) (e : Effect)

@[simp] theorem apply_log : (h.apply e).log = h.log ++ [e] := rfl

@[simp] theorem apply_signal_processes (t : ℤ) (pid : Pid) (sig : Signal) :
    (h.apply (.signal t pid sig)).processes = h.processes := rfl

@[simp] theorem apply_wait_processes (pid : Pid) :
    (h.apply (.wait pid)).processes = Function.update h.processes pid none := rfl

@[simp] theorem apply_spawn_processes (pid : Pid) (launch : Launch) :
    (h.apply (.spawn pid launch)).processes =
      Function.update h.processes pid (some { launch := some launch }) := rfl

@[simp] theorem apply_write_processes (file : File) (node : FileNode) :
    (h.apply (.write file node)).processes = h.processes := rfl

@[simp] theorem apply_remove_processes (file : File) :
    (h.apply (.remove file)).processes = h.processes := rfl

@[simp] theorem apply_createDir_processes (dir : File) :
    (h.apply (.createDir dir)).processes = h.processes := rfl

@[simp] theorem apply_event_processes (ts : ℤ) (app kind detail : String) :
    (h.apply (.event ts app kind detail)).processes = h.processes := rfl

@[simp] theorem apply_takeChildren_processes :
    (h.apply .takeChildren).processes = h.processes := rfl

theorem runs_apply_wait {pid q : Pid} {launch : Launch}
    (hruns : (h.apply (.wait q)).Runs pid launch) : h.Runs pid launch := by
  unfold Runs at hruns ⊢
  rw [apply_wait_processes] at hruns
  by_cases hq : pid = q
  · simp [hq] at hruns
  · rwa [Function.update_of_ne hq] at hruns

/-- What runs after a spawn is what it started, or has run before. -/
theorem runs_apply_spawn {pid q : Pid} {launch l : Launch}
    (hruns : (h.apply (.spawn pid launch)).Runs q l) : q = pid ∧ l = launch ∨ h.Runs q l := by
  unfold Runs at hruns ⊢
  rw [apply_spawn_processes] at hruns
  by_cases hq : q = pid
  · rw [hq, Function.update_self] at hruns
    cases hruns
    exact Or.inl ⟨hq, rfl⟩
  · rw [Function.update_of_ne hq] at hruns
    exact Or.inr hruns

/-- The host has had further effects, all of which meet `P`. -/
def Adds (P : Effect → Prop) (h h' : Host) : Prop :=
  ∃ added, h'.log = h.log ++ added ∧ ∀ e ∈ added, P e

theorem Adds.refl {P : Effect → Prop} : Adds P h h := ⟨[], by simp, by simp⟩

theorem Adds.of_log {P : Effect → Prop} {h h' : Host} (hlog : h'.log = h.log) : Adds P h h' :=
  ⟨[], by simp [hlog], by simp⟩

theorem Adds.mono {P Q : Effect → Prop} {h h' : Host} (hadds : Adds P h h')
    (himp : ∀ e, P e → Q e) : Adds Q h h' := by
  obtain ⟨added, hlog, hall⟩ := hadds
  exact ⟨added, hlog, fun e he => himp e (hall e he)⟩

theorem Adds.apply {P : Effect → Prop} {h h' : Host} {e : Effect} (hadds : Adds P h h')
    (he : P e) : Adds P h (h'.apply e) := by
  obtain ⟨added, hlog, hall⟩ := hadds
  refine ⟨added ++ [e], by simp [hlog], fun e' he' => ?_⟩
  rcases List.mem_append.1 he' with hmem | hmem
  · exact hall e' hmem
  · exact List.mem_singleton.1 hmem ▸ he

/-- Effects touch no table but the events. -/
@[simp] theorem apply_quiet : (h.apply e).registry.quiet = h.registry.quiet := by
  cases e <;> rfl

theorem foldl_apply_log (added : List Effect) (h : Host) :
    (added.foldl apply h).log = h.log ++ added := by
  induction added generalizing h with
  | nil => simp
  | cons e es ih => simp [ih]

/-- What every effect keeps, a sequence of effects keeps. -/
theorem foldl_apply_keep {P : Host → Prop} {Q : Effect → Prop}
    (hkeep : ∀ h e, Q e → P h → P (h.apply e)) {added : List Effect} {h : Host} (hp : P h)
    (hall : ∀ e ∈ added, Q e) : P (added.foldl apply h) := by
  induction added generalizing h with
  | nil => exact hp
  | cons e es ih =>
      rw [List.forall_mem_cons] at hall
      exact ih (hkeep h e hall.1 hp) hall.2

/-! ## Effects in the hosts they are performed in -/

/-- The host has had further effects, each performed in a host for which `Q`
admits it. -/
def Acts (Q : Host → Effect → Prop) (h h' : Host) : Prop :=
  ∃ added, h' = added.foldl apply h ∧
    ∀ before e after, added = before ++ e :: after → Q (before.foldl apply h) e

variable {h} {h' h'' : Host} {Q : Host → Effect → Prop}

theorem Acts.refl : Acts Q h h := ⟨[], rfl, by simp⟩

theorem Acts.trans (hacts : Acts Q h h') (hacts' : Acts Q h' h'') : Acts Q h h'' := by
  obtain ⟨added, rfl, hall⟩ := hacts
  obtain ⟨more, rfl, hmore⟩ := hacts'
  refine ⟨added ++ more, (List.foldl_append).symm, fun before e after heq => ?_⟩
  rcases List.append_eq_append_iff.1 heq with ⟨mid, rfl, hmid⟩ | ⟨mid, rfl, hmid⟩
  · rw [List.foldl_append]
    exact hmore mid e after hmid
  · cases mid with
    | nil =>
        rw [List.nil_append] at hmid
        have := hmore [] e after hmid.symm
        simpa using this
    | cons x mid =>
        rw [List.cons_append, List.cons.injEq] at hmid
        exact hall before e mid (by rw [hmid.1])

theorem Acts.apply {e : Effect} (hacts : Acts Q h h') (he : Q h' e) : Acts Q h (h'.apply e) := by
  refine hacts.trans ⟨[e], rfl, fun before e' after heq => ?_⟩
  cases before with
  | nil =>
      cases heq
      exact he
  | cons x before =>
      have hlength := congrArg List.length heq
      simp at hlength

theorem Acts.mono {Q' : Host → Effect → Prop} (hacts : Acts Q h h')
    (himp : ∀ h e, Q h e → Q' h e) : Acts Q' h h' := by
  obtain ⟨added, hhost, hall⟩ := hacts
  exact ⟨added, hhost, fun before e after heq => himp _ e (hall before e after heq)⟩

/-- What every admitted effect keeps. -/
theorem Acts.keep {P : Host → Prop} (hacts : Acts Q h h')
    (hkeep : ∀ h e, Q h e → P h → P (h.apply e)) (hp : P h) : P h' := by
  obtain ⟨added, rfl, hall⟩ := hacts
  induction added using List.reverseRecOn with
  | nil => exact hp
  | append_singleton added e ih =>
      rw [List.foldl_append]
      refine hkeep _ e (hall added e [] rfl) (ih fun before e' after heq => ?_)
      exact hall before e' (after ++ [e]) (by rw [heq]; simp)

theorem Acts.adds {P : Effect → Prop} (hacts : Acts Q h h') (himp : ∀ h e, Q h e → P e) :
    Adds P h h' := by
  obtain ⟨added, rfl, hall⟩ := hacts
  refine ⟨added, foldl_apply_log added h, fun e he => ?_⟩
  obtain ⟨before, after, heq⟩ := List.append_of_mem he
  exact himp _ e (hall before e after heq)

end

end Host

end Supervisor

end Nockd
