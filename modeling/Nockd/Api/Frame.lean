import Nockd.Api.Discipline
import Nockd.Supervisor.Tracking

/-!
# What the calls of a thread leave alone

Only the locked section starts, collects or drops processes. Every other call
of a thread is a `Frame`: the handles and the process table stay, and the
effects it adds are signals. Only writing statements change a table other than the events.
-/

namespace Nockd

namespace Supervisor.World

open Api Config Registry Store Supervisor

theorem requestRestart_quiet (env : Env) (w : World) (name : String) :
    (w.requestRestart env name).host.registry.quiet = w.host.registry.quiet := by
  unfold requestRestart
  cases hm : w.procs.lookup name with
  | none => rfl
  | some m =>
      cases hpid : m.pid with
      | none => simp [hpid]
      | some pid => simp [hpid]

theorem emits_quiet (names : List String) (f : String → Effect) (w : World) :
    (names.foldl (fun w name => w.emit (f name)) w).host.registry.quiet =
      w.host.registry.quiet := by
  induction names generalizing w with
  | nil => rfl
  | cons name names ih =>
      rw [List.foldl_cons, ih]
      simp

theorem emits_daemon (names : List String) (f : String → Effect) (w : World) :
    (names.foldl (fun w name => w.emit (f name)) w).daemon = w.daemon := by
  induction names generalizing w with
  | nil => rfl
  | cons name names ih => exact ih _

theorem waitTimeout_quiet (w : World) (pid : Pid) :
    (w.waitTimeout pid).1.host.registry.quiet = w.host.registry.quiet := by
  unfold waitTimeout
  split
  · exact Host.apply_quiet _ _
  · rfl

end Supervisor.World

namespace Api

open Config Registry Store Supervisor Supervisor.World

structure Frame (w w' : World) : Prop where
  handles : SameHandles w w'
  processes : w'.host.processes = w.host.processes
  taken : w'.taken = w.taken
  daemon : w'.daemon = w.daemon
  shuttingDown : w'.shuttingDown = w.shuttingDown
  signals : w'.host.log = w.host.log ∨
    ∃ t pid sig, w'.host.log = w.host.log ++ [.signal t pid sig]

variable {paths : Paths} {crates : Crates} {env : Env} {w : World} {op : Call}

theorem Frame.of_map {f : Registry → Registry} {g : Disk → Disk} :
    Frame w ((w.mapRegistry f).mapDisk g) where
  handles := sameHandles_of_procs rfl
  processes := rfl
  taken := rfl
  daemon := rfl
  shuttingDown := rfl
  signals := Or.inl rfl

theorem Frame.refl (w : World) : Frame w w := Frame.of_map (f := id) (g := id)

theorem frame_modifyEntry {name : String} {f : Managed → Managed}
    (hf : ∀ m, (f m).child = m.child ∧ (f m).pid = m.pid ∧
      ((f m).termDeadline = none → m.termDeadline = none)) :
    Frame w (w.modifyEntry name f) :=
  { Frame.refl w with handles := sameHandles_modifyEntry hf }

theorem frame_requestRestart (name : String) : Frame w (w.requestRestart env name) := by
  unfold requestRestart
  cases hm : w.procs.lookup name with
  | none => exact Frame.refl w
  | some m =>
      have hentry := entry_of_lookup hm
      cases hpid : m.pid with
      | none =>
          simp only [hpid]
          refine { Frame.refl w with handles := sameHandles_setEntry ?_ ?_ ?_ }
          · rw [hentry]
          · rw [hentry]
            exact hpid.symm
          · rw [hentry]
            exact fun _ h => h
      | some pid =>
          simp only [hpid]
          have hsignal (e : Effect) : (w.emit e).entry name = w.entry name := rfl
          have hhandles : SameHandles (w.emit (.signal env.now pid .term))
              ((w.emit (.signal env.now pid .term)).setEntry name (m.restarting env.now)) := by
            refine sameHandles_setEntry ?_ ?_ (fun _ hnone => by cases hnone)
            · rw [hsignal, hentry]
              rfl
            · rw [hsignal, hentry]
              rfl
          exact ⟨⟨hhandles.back, hhandles.forth⟩, rfl, rfl, rfl, rfl, Or.inr ⟨_, _, _, rfl⟩⟩

/-- The calls of a thread outside the locked section. -/
theorem perform_frame (hmain : .main ∉ op.uses) (hsection : ∀ apps, op ≠ .lockedSection apps) :
    Frame w (perform paths crates env w op).1 := by
  cases op with
  | lockedSection apps => exact absurd rfl (hsection apps)
  | requestRestart name => exact frame_requestRestart name
  | setHealth name health => exact frame_modifyEntry fun m => ⟨rfl, rfl, id⟩
  | setStatusLine name line => exact frame_modifyEntry fun m => ⟨rfl, rfl, id⟩
  | setResources name cpuPct rssBytes => exact frame_modifyEntry fun m => ⟨rfl, rfl, id⟩
  | put jam bin targetTriple => exact Frame.of_map (f := id)
  | write s => exact Frame.of_map (f := s.exec env.now) (g := id)
  | setShuttingDown => exact absurd rfl hmain
  | takeChildren => exact absurd rfl hmain
  | signal pid sig => exact absurd rfl hmain
  | waitTimeout pid => exact absurd rfl hmain
  | waitExit pid => exact absurd rfl hmain
  | removePidfiles => exact absurd rfl hmain
  | readPidfile name => exact absurd rfl hmain
  | removePidfile name => exact absurd rfl hmain
  | pidAlive pid => exact absurd rfl hmain
  | sleep => exact absurd rfl hmain
  | _ => exact Frame.refl w

theorem perform_disk (hmain : .main ∉ op.uses) (hsection : ∀ apps, op ≠ .lockedSection apps)
    (hput : ∀ jam bin targetTriple, op ≠ .put jam bin targetTriple) :
    (perform paths crates env w op).1.host.disk = w.host.disk := by
  cases op with
  | lockedSection apps => exact absurd rfl (hsection apps)
  | put jam bin targetTriple => exact absurd rfl (hput jam bin targetTriple)
  | requestRestart name =>
      simp only [perform, requestRestart]
      cases w.procs.lookup name with
      | none => rfl
      | some m => cases hpid : m.pid <;> simp only [hpid] <;> rfl
  | setShuttingDown => exact absurd rfl hmain
  | takeChildren => exact absurd rfl hmain
  | signal pid sig => exact absurd rfl hmain
  | waitTimeout pid => exact absurd rfl hmain
  | waitExit pid => exact absurd rfl hmain
  | removePidfiles => exact absurd rfl hmain
  | removePidfile name => exact absurd rfl hmain
  | _ => rfl

theorem perform_held (hmain : .main ∉ op.uses) (h : w.Held) :
    (perform paths crates env w op).1.Held := by
  rcases op.section_cases with ⟨apps, rfl⟩ | hsection
  · exact h.lockedSection apps
  · have hframe : Frame w (perform paths crates env w op).1 := perform_frame hmain hsection
    exact h.of_sameHandles hframe.handles (.of_eq hframe.processes) hframe.taken

theorem perform_daemon (paths : Paths) (crates : Crates) (env : Env) (w : World) (op : Call) :
    (perform paths crates env w op).1.daemon = w.daemon := by
  cases op with
  | requestRestart name => exact (frame_requestRestart name).daemon
  | lockedSection apps => exact lockedSection_daemon w apps
  | waitTimeout pid =>
      simp only [perform, waitTimeout]
      split <;> rfl
  | removePidfiles => exact emits_daemon _ _ _
  | _ => rfl

/-- Only writing statements touch a table other than the events. -/
theorem perform_quiet (paths : Paths) (crates : Crates) (env : Env) (w : World) {op : Call}
    (h : op.statement = none) :
    (perform paths crates env w op).1.host.registry.quiet = w.host.registry.quiet := by
  cases op with
  | write s => cases h
  | requestRestart name => exact World.requestRestart_quiet env w name
  | lockedSection apps => exact World.lockedSection_quiet w apps
  | takeChildren => exact Host.apply_quiet _ _
  | signal pid sig => exact Host.apply_quiet _ _
  | waitTimeout pid => exact World.waitTimeout_quiet w pid
  | waitExit pid => exact Host.apply_quiet _ _
  | removePidfiles => exact World.emits_quiet _ _ _
  | removePidfile name => exact Host.apply_quiet _ _
  | _ => rfl

/-! ## No app is forgotten -/

theorem keys_of_quiet {r r' : Registry} (hquiet : r'.quiet = r.quiet) :
    r'.app.keys = r.app.keys :=
  congr_of_quiet (·.app.keys) (fun _ => rfl) hquiet

theorem keys_apply (h : Host) (e : Effect) :
    (h.apply e).registry.app.keys = h.registry.app.keys :=
  keys_of_quiet (Host.apply_quiet h e)

theorem keys_exec (st : Statement) (now : ℤ) {r : Registry} {name : String}
    (h : name ∈ r.app.keys) : name ∈ (st.exec now r).app.keys := by
  cases st with
  | upsertApp u => exact (AList.mem_insert _).2 (Or.inr h)
  | updateAppConfig app c => exact Table.keys_modify _ _ _ h
  | setAppArtifact app hash => exact Table.keys_modify _ _ _ h
  | setDesired app status => exact Table.keys_modify _ _ _ h
  | addTrustedBuilder pubkey =>
      simp only [Statement.exec, addTrustedBuilder]
      split <;> exact h
  | _ => exact h

/-- No call forgets an app. -/
theorem keys_perform (paths : Paths) (crates : Crates) (env : Env) (w : World) (op : Call)
    {name : String} (h : name ∈ w.host.registry.app.keys) :
    name ∈ (perform paths crates env w op).1.host.registry.app.keys := by
  cases hst : op.statement with
  | none =>
      rw [keys_of_quiet (perform_quiet paths crates env w hst)]
      exact h
  | some st =>
      cases op with
      | write s => exact keys_exec s env.now h
      | _ => cases hst

end Api

end Nockd
