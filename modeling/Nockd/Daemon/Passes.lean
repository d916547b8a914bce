import Nockd.Daemon.Signals
import Nockd.Supervisor.Attempts

/-!
# Runs with atomic passes

In an atomic pass the snapshot holds the rows that the registry has when the section begins.
Every tracked app is then a registered one, because no request forgets an app. A step of
such a run changes what an entry is decided by in a section or in a restart request only.
-/

namespace Nockd

namespace Daemon

open Api Config Interleaving Registry Store Supervisor

def Action.beginsStop : Action → Bool
  | .beginStop => true
  | _ => false

namespace Sys

/-- The next call of a thread. -/
def call? (s : Sys) (i : ℕ) : Option Call :=
  match s.threads[i]? with
  | some (.call op _) => some op
  | _ => none

theorem call?_eq {s : Sys} {i : ℕ} {op : Call} {next : Except String op.Reply → Thread}
    (ht : s.threads[i]? = some (.call op next)) : s.call? i = some op := by
  unfold call?
  rw [ht]

/-- The answer of a thread that has returned. -/
def answer? (s : Sys) (i : ℕ) : Option Response :=
  match s.threads[i]? with
  | some (.pure resp) => some resp
  | _ => none

theorem answer?_eq_some {s : Sys} {i : ℕ} {resp : Response} (h : s.answer? i = some resp) :
    s.threads[i]? = some (.pure resp) := by
  unfold answer? at h
  split at h
  case h_1 ht =>
    cases h
    exact ht
  case h_2 => cases h

/-- The environment and the snapshot of the section that the action is. -/
def sectionOf (s : Sys) : Action → Option (Env × List AppRow)
  | .run i env => (s.section? i).map fun apps => (env, apps)
  | _ => none

theorem sectionOf_run (s : Sys) (i : ℕ) (env : Env) :
    s.sectionOf (.run i env) = (s.section? i).map fun apps => (env, apps) := rfl

theorem sectionOf_of_section {s : Sys} {i : ℕ} {apps : List AppRow}
    (h : s.section? i = some apps) (env : Env) : s.sectionOf (.run i env) = some (env, apps) := by
  rw [sectionOf_run, h]
  rfl

/-- The action is a restart request for the app. -/
def Requests (s : Sys) (name : String) : Action → Prop
  | .run i _ => s.call? i = some (.requestRestart name)
  | _ => False

instance (s : Sys) (name : String) (a : Action) : Decidable (s.Requests name a) :=
  match a with
  | .run i _ => inferInstanceAs (Decidable (s.call? i = some (.requestRestart name)))
  | .arrive _ => .isFalse id
  | .fail _ _ => .isFalse id
  | .exit _ _ => .isFalse id
  | .collect _ => .isFalse id
  | .foreign _ => .isFalse id
  | .beginStop => .isFalse id
  | .stop _ => .isFalse id

/-- `stop_all` does not begin, and a section works on the rows of now. -/
def Atomic (s : Sys) (a : Action) : Prop :=
  a.beginsStop = false ∧ s.AtSection (fun _ apps => apps = s.world.host.registry.listApps) a

instance (s : Sys) (a : Action) : Decidable (s.Atomic a) :=
  inferInstanceAs (Decidable (_ ∧ _))

end Sys

variable {paths : Paths} {crates : Crates} {s s' : Sys} {a : Action} {env : Env}
  {apps : List AppRow} {w w' : World}

theorem Sys.AtSection.of_sectionOf {P : Env → List AppRow → Prop} (h : s.AtSection P a)
    (hsection : s.sectionOf a = some (env, apps)) : P env apps := by
  cases a with
  | run i env' =>
      obtain ⟨apps', happs, heq⟩ := Option.map_eq_some_iff.1 hsection
      cases heq
      exact h _ happs
  | _ => cases hsection

/-- A step is a section, a restart request, or leaves what entries are decided
by alone. -/
theorem Sys.Step.entries (h : Sys.Step paths crates s a s') (hs : Supervised s)
    (hstop : ∀ env, a ≠ .stop env) :
    (∃ env apps, s.sectionOf a = some (env, apps) ∧
        s'.world = s.world.lockedSection paths env apps ∧ (apps.map (·.name)).Nodup) ∨
      s.sectionOf a = none ∧ ((∃ env name, s.Requests name a ∧
          s'.world = s.world.requestRestart env name) ∨
        (∀ name, ¬ s.Requests name a) ∧ World.SameCores s.world s'.world) := by
  cases h with
  | run i env op next ht hopen =>
      have hcall : s.call? i = some op := Sys.call?_eq ht
      rcases op.section_cases with ⟨apps, rfl⟩ | hsection
      · have hsection := Sys.sectionOf_of_section (Sys.section?_eq ht) env
        exact Or.inl ⟨env, apps, hsection, rfl, hs.lawful.good ht (.snapshot apps) rfl⟩
      · have hnone : s.sectionOf (.run i env) = none := by
          rw [Sys.sectionOf_run, Option.map_eq_none_iff]
          unfold Sys.section?
          rw [ht]
          cases op <;> first | rfl | exact absurd rfl (hsection _)
        refine Or.inr ⟨hnone, ?_⟩
        by_cases hrestart : ∃ name, op = .requestRestart name
        · obtain ⟨name, rfl⟩ := hrestart
          exact Or.inl ⟨env, name, hcall, rfl⟩
        · refine Or.inr ⟨fun name hname => ?_, perform_sameCores (lawful_main hs.lawful ht)
            hsection fun name heq => hrestart ⟨name, heq⟩⟩
          rw [Sys.Requests, hcall, Option.some.injEq] at hname
          exact hrestart ⟨name, hname⟩
  | stop env => exact absurd rfl (hstop env)
  | _ => exact Or.inr ⟨rfl, Or.inr ⟨fun _ h => h, World.sameCores_of_procs rfl⟩⟩

theorem Sys.Step.keys {name : String} (h : Sys.Step paths crates s a s')
    (hname : name ∈ s.world.host.registry.app.keys) :
    name ∈ s'.world.host.registry.app.keys := by
  cases h with
  | run i env op next ht hopen => exact keys_perform paths crates env s.world op hname
  | stop env op next hp hopen => exact keys_perform paths crates env s.world op hname
  | _ => exact hname

/-- Only sections start instances. -/
theorem Sys.Step.ran (h : Sys.Step paths crates s a s') (hs : Supervised s)
    (hstop : ∀ env, a ≠ .stop env) (hsection : s.sectionOf a = none) {pid : Pid} {launch : Launch}
    (hruns : s'.world.host.Runs pid launch) : s.world.host.Runs pid launch := by
  cases h with
  | run i env op next ht hopen =>
      have hother : ∀ apps, op ≠ .lockedSection apps := by
        rintro apps rfl
        rw [Sys.sectionOf_of_section (Sys.section?_eq ht)] at hsection
        cases hsection
      have hframe : Frame s.world (perform paths crates env s.world op).1 :=
        perform_frame (lawful_main hs.lawful ht) hother
      unfold Host.Runs at hruns ⊢
      rwa [← hframe.processes]
  | exit pid status launch hp => exact (World.processesKept_exit hp).ran _ _ hruns
  | collect pid hexit htaken hchild =>
      exact (World.processesKept_collect htaken hchild).ran _ _ hruns
  | foreign pid hfree => exact (World.processesKept_foreign hfree).ran _ _ hruns
  | stop env => exact absurd rfl (hstop env)
  | _ => exact hruns

/-! ## Restart requests and entries -/

theorem requestRestart_lookup_isSome (env : Env) (w : World) (name other : String) :
    ((w.requestRestart env name).procs.lookup other).isSome =
      (w.procs.lookup other).isSome := by
  unfold World.requestRestart
  cases hm : w.procs.lookup name with
  | none => rfl
  | some m =>
      by_cases hother : other = name
      · subst hother
        cases hpid : m.pid <;> simp [hpid, hm]
      · cases hpid : m.pid <;> simp [hpid, AList.lookup_insert_ne hother]

theorem requestRestart_entry_ne (env : Env) (w : World) {name other : String}
    (hother : other ≠ name) : (w.requestRestart env name).entry other = w.entry other := by
  unfold World.requestRestart World.entry
  cases hm : w.procs.lookup name with
  | none => rfl
  | some m => cases hpid : m.pid <;> simp [hpid, AList.lookup_insert_ne hother]

/-- After a restart request the app waits for no backoff, and a child it has is
asked to exit. -/
theorem requestRestart_entry (h : w.Coherent) (env : Env) (name : String) :
    let m := (w.requestRestart env name).entry name
    m.backoffUntil = 0 ∧ m.child = (w.entry name).child ∧
      m.restarts = (w.entry name).restarts ∧ (m.child.isSome → m.restartRequested = true) := by
  unfold World.requestRestart World.entry
  cases hm : w.procs.lookup name with
  | none => exact ⟨by simp [hm], by simp [hm], by simp [hm], by simp [hm]⟩
  | some m =>
      cases hpid : m.pid with
      | none =>
          have hchild : m.child = none := (h name m hm).pid.symm.trans hpid
          simp [hpid, hchild]
      | some pid => simp [hpid, Managed.restarting]

/-! ## Tracked apps are registered -/

def Registered (w : World) : Prop :=
  ∀ name, (w.procs.lookup name).isSome = true → name ∈ w.host.registry.app.keys

theorem registered_section (w : World) :
    Registered (w.lockedSection paths env w.host.registry.listApps) := by
  intro name hname
  rw [keys_of_quiet (World.lockedSection_quiet w _), ← name_mem_listApps]
  by_contra hmissing
  rw [World.lockedSection_lookup_of_not_mem hmissing] at hname
  cases hname

theorem Registered.of_sameCores (h : Registered w) (hcores : World.SameCores w w')
    (hkeys : ∀ name ∈ w.host.registry.app.keys, name ∈ w'.host.registry.app.keys) :
    Registered w' := by
  intro name hname
  obtain ⟨m', hm'⟩ := Option.isSome_iff_exists.1 hname
  obtain ⟨m, hm, -⟩ := hcores.back hm'
  exact hkeys name (h name (by rw [hm]; rfl))

/-! ## The invariant of such runs -/

structure Passing (s : Sys) : Prop where
  supervised : Supervised s
  registered : Registered s.world
  stopping : s.stopping = none

theorem Passing.of_started (h : s.Started) : Passing s where
  supervised := Supervised.of_started h
  registered := fun name hname => by simp [h.procs] at hname
  stopping := h.stopping

theorem Sys.Step.stopping_none (hstep : Sys.Step paths crates s a s')
    (hnone : s.stopping = none) (hbegins : a.beginsStop = false) : s'.stopping = none := by
  have hstop := hstep.not_stop hnone
  cases hstep with
  | beginStop => cases hbegins
  | stop env => exact absurd rfl (hstop env)
  | _ => exact hnone

theorem Passing.step (h : Passing s) (hstep : Sys.Step paths crates s a s')
    (hatomic : s.Atomic a) : Passing s' := by
  have hstop := hstep.not_stop h.stopping
  refine ⟨h.supervised.step hstep hstop, ?_, hstep.stopping_none h.stopping hatomic.1⟩
  rcases hstep.entries h.supervised hstop with ⟨env, apps, hsection, hworld, -⟩ |
    ⟨-, ⟨env, name, -, hworld⟩ | ⟨-, hcores⟩⟩
  · rw [hworld, hatomic.2.of_sectionOf hsection]
    exact registered_section s.world
  · intro other hother
    rw [hworld, requestRestart_lookup_isSome] at hother
    exact hstep.keys (h.registered other hother)
  · exact h.registered.of_sameCores hcores fun name => hstep.keys

end Daemon

end Nockd
