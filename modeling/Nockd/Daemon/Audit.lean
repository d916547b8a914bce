import Nockd.Api.Audit
import Nockd.Daemon.Signals

/-!
# The audit log over a run

No step of a run removes or changes an event. In every state a run reaches, a request that
succeeds has appended an event of its own exactly when it is covered.
-/

namespace Nockd

namespace Daemon

open Api Config Interleaving Registry Store Supervisor

variable {paths : Paths} {crates : Crates} {s s' : Sys} {env : Env} {w : World}

/-! ## Events stay -/

theorem Sys.Step.events {a : Action} (h : Sys.Step paths crates s a s') :
    s.world.host.registry.event <+: s'.world.host.registry.event := by
  cases h with
  | run i env op next ht hopen => exact perform_events env s.world op
  | stop env op next hp hopen => exact perform_events env s.world op
  | _ => exact List.prefix_rfl

/-! ## Before the shutdown flag is set -/

theorem lockedSection_shuttingDown (w : World) (apps : List AppRow) :
    (w.lockedSection paths env apps).shuttingDown = w.shuttingDown := by
  refine (World.lockedSection_moves w apps).keep
    (P := fun w' => w'.shuttingDown = w.shuttingDown) (fun w₁ w₂ hmove hsame => ?_) rfl
  cases hmove with
  | spawn app pid bin url =>
      unfold World.writePidfile
      split <;> exact hsame
  | _ => exact hsame

/-- No call takes the shutdown flag back. -/
theorem shuttingDown_of_perform {op : Call}
    (h : (perform paths crates env w op).1.shuttingDown = false) : w.shuttingDown = false := by
  cases op with
  | lockedSection apps => rwa [← lockedSection_shuttingDown w apps]
  | requestRestart name =>
      have hframe : Frame w (w.requestRestart env name) := frame_requestRestart name
      rw [← hframe.shuttingDown]
      exact h
  | setShuttingDown => cases h
  | waitTimeout pid =>
      simp only [perform, World.waitTimeout] at h
      split at h <;> exact h
  | removePidfiles =>
      simp only [perform] at h
      generalize env.order w.procs.keys = names at h
      induction names generalizing w with
      | nil => exact h
      | cons name names ih => exact ih (w := w.emit (.remove (resolve (paths.pidFile name)))) h
  | _ => exact h

/-- Until the flag is set, the shutdown has not made a call. -/
def Unstopped (s : Sys) : Prop :=
  s.world.shuttingDown = false → Supervised s ∧ (s.stopping = none ∨ s.stopping = some stopAll)

theorem Unstopped.step (h : Unstopped s) {a : Action} (hstep : Sys.Step paths crates s a s') :
    Unstopped s' := by
  intro hflag
  have hbefore : s.world.shuttingDown = false := by
    cases hstep with
    | run i env op next ht hopen => exact shuttingDown_of_perform hflag
    | stop env op next hp hopen => exact shuttingDown_of_perform hflag
    | _ => exact hflag
  obtain ⟨hsupervised, hstopping⟩ := h hbefore
  have hstop : ∀ env, a ≠ .stop env := by
    rintro env rfl
    cases hstep with
    | stop env op next hp hopen =>
        rcases hstopping with hnone | hall
        · rw [hnone] at hp
          cases hp
        · rw [hall] at hp
          cases hp
          cases hflag
  refine ⟨hsupervised.step hstep hstop, ?_⟩
  cases hstep with
  | beginStop hnone => exact Or.inr rfl
  | stop env op next hp hopen => exact absurd rfl (hstop env)
  | _ => exact hstopping

theorem held_of_reachable (h : Reachable (Sys.step paths crates) Sys.Started s) :
    s.world.shuttingDown = false → s.world.Held := by
  have hunstopped : Unstopped s := by
    refine h.invariant (I := Unstopped) ?_ fun s a s' ih _ hs => ih.step (Sys.step_cases hs)
    exact fun s hstarted _ => ⟨Supervised.of_started hstarted, Or.inl hstarted.stopping⟩
  exact fun hflag => (hunstopped hflag).1.upkeep.held

/-! ## Requests -/

/-- In every state that a run reaches, no step removes an event, and a request that succeeds
is recorded exactly when it appends its own event or its pass has a stop or a start to
log. -/
theorem audited_iff (h : Reachable (Sys.step paths crates) Sys.Started s) (o : Oracle) :
    (∀ a s', s.step paths crates a = some s' →
      s.world.host.registry.event <+: s'.world.host.registry.event) ∧
    ∀ r x, (serve paths crates o s.world r).2 = .ok x →
      (Audited paths crates o s.world r ↔ Covered paths o s.world r) :=
  ⟨fun _ _ hs => (Sys.step_cases hs).events,
    fun _ _ hok => audited_of_held (held_of_reachable h) hok⟩

/-- An endpoint is added without an event. -/
theorem unaudited_endpoint :
    ¬ ∀ (paths : Paths) (crates : Crates) (s : Sys),
      Reachable (Sys.step paths crates) Sys.Started s → ∀ (o : Oracle) (r : Request) (x : Response),
        (serve paths crates o s.world r).2 = .ok x → Audited paths crates o s.world r := by
  intro h
  have hok : (serve (Paths.ofRoot "/r") (Crates.plainCrates [] []) {} {}
      (.addEndpoint "node" "http://n" "public-grpc")).2 = .ok .ok := rfl
  obtain ⟨-, hrecord⟩ := h (Paths.ofRoot "/r") (Crates.plainCrates [] []) {}
    (.start fresh_default.started) {} _ _ hok
  obtain ⟨e, he, -⟩ := hrecord rfl
  cases he

/-- A running app is stopped, and that is recorded. -/
theorem audited_iff_stop :
    ∃ s, run (Sys.step (Paths.ofRoot "/r") (Crates.plainCrates [] [])) {} (deployRun 0 1) =
        some s ∧
      Audited (Paths.ofRoot "/r") (Crates.plainCrates [] []) {} s.world (.stop "a") := by
  have hrun : (run (Sys.step (Paths.ofRoot "/r") (Crates.plainCrates [] [])) {}
      (deployRun 0 1)).map (fun s => ((serve (Paths.ofRoot "/r") (Crates.plainCrates [] []) {}
        s.world (.stop "a")).2.isOk, decide (Passes {} 2 s.world ∧
          World.LogsStop {} s.world "a"))) = some (true, true) := by
    decide
  obtain ⟨s, hs, hval⟩ := Option.map_eq_some_iff.1 hrun
  obtain ⟨hok, hcovered⟩ := Prod.mk.inj hval
  have hreach : Reachable (Sys.step (Paths.ofRoot "/r") (Crates.plainCrates [] []))
      Sys.Started s := ReachableWhen.runWhen (.start fresh_default.started) hs
  cases hserve : (serve (Paths.ofRoot "/r") (Crates.plainCrates [] []) {} s.world
      (.stop "a")).2 with
  | error e =>
      rw [hserve] at hok
      cases hok
  | ok x =>
      have hlogs : Passes {} 2 s.world ∧ World.LogsStop {} s.world "a" :=
        of_decide_eq_true hcovered
      exact ⟨s, hs, ((audited_iff hreach {}).2 (.stop "a") x hserve).2 hlogs⟩

end Daemon

end Nockd
