import Mathlib.Data.List.TakeWhile
import Nockd.Daemon.SingleWriter

/-!
# Shutting down

`stop_all` takes the children out of the map and waits for each of them. If no
section starts an instance after that, no process of the daemon is left when
`stop_all` returns. A pass reads the flag before it takes the lock, so a pass
that read it before the shutdown began can enter its section after the
children were taken, and start an instance that nobody waits for.
-/

namespace Nockd

namespace Daemon

open Api Config Interleaving Registry Store Supervisor

/-! ## The calls of `stop_all` once it has the children -/

/-- The calls of `terminateAll`. -/
def Ends : Call → Prop
  | .signal _ _ => True
  | .waitTimeout _ => True
  | .waitExit _ => True
  | .removePidfiles => True
  | _ => False

/-- The child `pid` has not exited yet. -/
def StillTaken (pid : Pid) : ∀ op : Call, op.Reply → Prop
  | .waitTimeout q, exited => q = pid → exited = false
  | _, _ => True

/-- The program waits for the exit of `pid` before it returns. -/
abbrev WaitsFor (pid : Pid) (p : Proc Unit) : Prop :=
  p.AwaitsCall (StillTaken pid) fun op => op = .waitExit pid

theorem terminateAll_only (children : List (Pid × Pid)) :
    (terminateAll children).Only Ends := by
  refine Program.Only.bind (Program.Only.forEach fun _ => only_must trivial) fun _ => ?_
  refine Program.Only.bind (Program.Only.forEach fun _ => ?_) fun _ => only_must trivial
  refine Program.Only.bind (only_must trivial) fun exited => ?_
  cases exited with
  | true => trivial
  | false => exact Program.Only.bind (only_must trivial) fun _ => only_must trivial

theorem terminateAll_waitsFor {children : List (Pid × Pid)} {c : Pid × Pid}
    (hc : c ∈ children) : WaitsFor c.2 (terminateAll children) := by
  refine Program.Awaits.bind_right (Program.only_true _)
    (Program.NoThrow.forEach fun _ _ _ => trivial) fun _ => ?_
  refine Program.AwaitsCall.bind _ (Program.AwaitsCall.forEach hc (fun d => ?_) ?_)
  · rintro (_ | _) _
    · exact fun _ _ _ _ => trivial
    · trivial
  · refine Or.inr ⟨trivial, fun exited hexited => ?_⟩
    rw [hexited rfl]
    exact Or.inr ⟨trivial, fun _ _ => Or.inl rfl⟩

/-- The calls of `stop_all`. -/
def Stops (op : Call) : Prop := Ends op ∨ op = .setShuttingDown ∨ op = .takeChildren

theorem stopAll_only : stopAll.Only Stops := by
  have hends (children : List (Pid × Pid)) : (terminateAll children).Only Stops :=
    (terminateAll_only children).mono fun _ => Or.inl
  exact ⟨Or.inr (Or.inl rfl),
    fun _ => ⟨Or.inr (Or.inr rfl), fun children => hends children, fun _ => trivial⟩,
    fun _ => trivial⟩

theorem Stops.statement {op : Call} (hop : Stops op) : op.statement = none := by
  rcases hop with hop | rfl | rfl
  · cases op <;> first | rfl | exact hop.elim
  · rfl
  · rfl

/-- The main thread keeps to the calls of a shutdown. -/
theorem stops_act {paths : Paths} {crates : Crates} {s s' : Sys} {a : Action}
    (h : Sys.Step paths crates s a s') (hstop : ∀ p, s.stopping = some p → p.Only Stops) :
    ∀ p, s'.stopping = some p → p.Only Stops := by
  cases h with
  | beginStop hnone =>
      rintro p ⟨⟩
      exact stopAll_only
  | stop env op next hp hopen =>
      rintro p ⟨⟩
      exact (hstop _ hp).2.1 _
  | _ => exact hstop

/-- Only the writing statements of threads change a table other than the events. -/
theorem Sys.Step.registry {paths : Paths} {crates : Crates} {s s' : Sys} {a : Action}
    (h : Sys.Step paths crates s a s') (hstop : ∀ p, s.stopping = some p → p.Only Stops) :
    s'.world.host.registry.quiet = s.world.host.registry.quiet ∨
      ∃ i env st next, a = .run i env ∧ s.threads[i]? = some (.call (.write st) next) ∧
        s'.world.host.registry = st.exec env.now s.world.host.registry := by
  cases h with
  | run i env op next ht hopen =>
      cases hst : op.statement with
      | none => exact Or.inl (perform_quiet paths crates env s.world hst)
      | some st =>
          cases op with
          | write st' =>
              cases hst
              exact Or.inr ⟨i, env, st, next, rfl, ht, rfl⟩
          | _ => cases hst
  | stop env op next hp hopen =>
      exact Or.inl (perform_quiet paths crates env s.world (hstop _ hp).1.statement)
  | _ => exact Or.inl rfl

/-- What a call of a shutdown does to the host. -/
def StopEffect (paths : Paths) (op : Call) : Effect → Prop
  | .signal _ _ _ => True
  | .wait _ => True
  | .takeChildren => True
  | .remove file => op = .removePidfiles ∧ ∃ name, file = resolve (paths.pidFile name)
  | _ => False

/-- The calls of a shutdown act on the host through their effects only. -/
theorem stops_effects (paths : Paths) (crates : Crates) (env : Env) (w : World) {op : Call}
    (hop : Stops op) :
    ∃ added : List Effect,
      (perform paths crates env w op).1.host = added.foldl Host.apply w.host ∧
        ∀ e ∈ added, StopEffect paths op e := by
  have hone {e : Effect} (he : StopEffect paths op e) :
      ∃ added : List Effect, w.host.apply e = added.foldl Host.apply w.host ∧
        ∀ e ∈ added, StopEffect paths op e := ⟨[e], rfl, by simpa using he⟩
  rcases hop with hop | rfl | rfl
  · cases op with
    | signal pid sig => exact hone (e := .signal _ _ _) trivial
    | waitExit pid => exact hone (e := .wait _) trivial
    | waitTimeout pid =>
        simp only [perform, World.waitTimeout]
        split
        · exact hone (e := .wait _) trivial
        · exact ⟨[], rfl, by simp⟩
    | removePidfiles =>
        refine ⟨(env.order w.procs.keys).map fun name => .remove (resolve (paths.pidFile name)),
          ?_, List.forall_mem_map.2 fun name _ => ⟨rfl, name, rfl⟩⟩
        rw [List.foldl_map]
        exact (List.foldl_hom World.host fun _ _ => rfl).symm
    | _ => exact hop.elim
  · exact ⟨[], rfl, by simp⟩
  · exact hone (e := .takeChildren) trivial

/-! ## The log -/

def isSpawn : Effect → Bool
  | .spawn _ _ => true
  | _ => false

/-- The spawns in the log after the children have been taken. -/
def spawnedAfterTake (log : List Effect) : List Effect :=
  (log.dropWhile (· ≠ .takeChildren)).filter isSpawn

theorem spawnedAfterTake_append (log : List Effect) {e : Effect} (h : isSpawn e = false) :
    spawnedAfterTake (log ++ [e]) = spawnedAfterTake log := by
  unfold spawnedAfterTake
  rw [List.dropWhile_append]
  split
  case isTrue hempty =>
    rw [List.isEmpty_iff.1 hempty]
    by_cases he : e = .takeChildren
    · simp [he, isSpawn]
    · simp [he]
  case isFalse => simp [h]

theorem spawnedAfterTake_of_not_mem {log : List Effect} (h : .takeChildren ∉ log) :
    spawnedAfterTake log = [] := by
  have hdrop : log.dropWhile (· ≠ .takeChildren) = [] := by
    refine List.dropWhile_eq_nil_iff.2 fun e he => ?_
    exact decide_eq_true fun heq => h (heq ▸ he)
  unfold spawnedAfterTake
  rw [hdrop]
  rfl

variable {paths : Paths} {crates : Crates} {env : Env} {w w' w₀ : World}

/-- The children have been taken, and nothing was spawned since. -/
structure TakenLog (log : List Effect) : Prop where
  taken : .takeChildren ∈ log
  quiet : spawnedAfterTake log = []

theorem TakenLog.append {log : List Effect} (h : TakenLog log) {e : Effect}
    (he : isSpawn e = false) : TakenLog (log ++ [e]) :=
  ⟨List.mem_append_left _ h.taken, (spawnedAfterTake_append log he).trans h.quiet⟩

theorem TakenLog.frame (h : TakenLog w.host.log) (hframe : Frame w w') :
    TakenLog w'.host.log := by
  rcases hframe.signals with hlog | ⟨t, pid, sig, hlog⟩
  · rw [hlog]
    exact h
  · rw [hlog]
    exact h.append rfl

theorem not_mem_log_of_frame (h : .takeChildren ∉ w.host.log) (hframe : Frame w w') :
    .takeChildren ∉ w'.host.log := by
  rcases hframe.signals with hlog | ⟨t, pid, sig, hlog⟩ <;> simp [hlog, h]

/-- A section does not take children. -/
theorem not_mem_log_of_section (h : .takeChildren ∉ w.host.log) (apps : List AppRow) :
    .takeChildren ∉ (w.lockedSection paths env apps).host.log := by
  refine (World.lockedSection_moves w apps).keep
    (P := fun w' => .takeChildren ∉ w'.host.log) ?_ h
  intro w₁ w₂ hmove hw₁
  cases hmove with
  | spawn app pid bin url =>
      refine World.writePidfile_keep (P := fun h => Effect.takeChildren ∉ h.log) ?_ fun node => ?_
      · simpa using hw₁
      · simpa using hw₁
  | _ => simpa using hw₁

/-! ## Taking the children -/

/-- The map holds no child, and whatever runs was taken out of it. -/
structure Emptied (w : World) : Prop where
  idle : ∀ name m, w.procs.lookup name = some m → m.child = none
  taken : ∀ pid launch, w.host.Runs pid launch → pid ∈ w.taken
  started : ∀ pid ∈ w.taken, ∃ app, w.StartedFor pid app

theorem Emptied.held (h : Emptied w) : w.Held := by
  have hnone {name : String} {m : Managed} {pid : Pid} (hm : w.procs.lookup name = some m)
      (hchild : m.child = some pid) : False := by
    rw [h.idle name m hm] at hchild
    cases hchild
  exact ⟨fun name m pid hm hc => (hnone hm hc).elim, fun name m pid hm hc => (hnone hm hc).elim,
    h.started, fun name m pid hm hc => (hnone hm hc).elim⟩

theorem Emptied.of_sameHandles (h : Emptied w) (hhandles : World.SameHandles w w')
    (hprocesses : World.ProcessesKept w w') (htaken : w'.taken = w.taken) : Emptied w' := by
  constructor
  · intro name m' hm'
    cases hchild : m'.child with
    | none => rfl
    | some pid =>
        obtain ⟨m, hm, hc, -, -⟩ := hhandles.back name m' pid hm' hchild
        rw [h.idle name m hm] at hc
        cases hc
  · intro pid launch hruns
    rw [htaken]
    exact h.taken pid launch (hprocesses.ran pid launch hruns)
  · intro pid hpid
    rw [htaken] at hpid
    obtain ⟨app, happ⟩ := h.started pid hpid
    exact ⟨app, hprocesses.kept pid app happ (Or.inr hpid)⟩

theorem takeChildren_snd (env : Env) (w : World) :
    (w.takeChildren env).1.taken = (w.takeChildren env).2.map Prod.snd := rfl

theorem emptied_takeChildren (hheld : w.Held) (htracked : w.Tracked) (hnone : w.taken = []) :
    Emptied (w.takeChildren env).1 := by
  constructor
  · intro name m' hm'
    have hlookup : (w.takeChildren env).1.procs.lookup name = if name ∈ env.order w.procs.keys
        then (w.procs.lookup name).map fun m =>
          if m.pid.isSome then { m with child := none } else m
        else w.procs.lookup name :=
          Table.lookup_foldl_modify (World.nodup_order_keys env w) _ _ _
    rw [hlookup] at hm'
    split at hm'
    case isTrue =>
      obtain ⟨m, hm, rfl⟩ := Option.map_eq_some_iff.1 hm'
      cases hchild : m.child with
      | none =>
          split
          · rfl
          · exact hchild
      | some pid => simp [hheld.pidOfChild name m pid hm hchild]
    case isFalse hname =>
      rw [World.mem_order_keys, hm'] at hname
      exact absurd rfl hname
  · intro pid launch hruns
    have hby := (htracked pid launch hruns).resolve_right (by simp [hnone])
    obtain ⟨m, hm, hchild⟩ := hby
    rw [takeChildren_snd]
    refine List.mem_map.2 ⟨(pid, pid), List.mem_filterMap.2 ⟨launch.app, ?_, ?_⟩, rfl⟩
    · rw [World.mem_order_keys, hm]
      rfl
    · simp [hm, hchild, hheld.pidOfChild _ m pid hm hchild]
  · intro pid hpid
    rw [takeChildren_snd] at hpid
    obtain ⟨c, hc, rfl⟩ := List.mem_map.1 hpid
    obtain ⟨name, -, hname⟩ := List.mem_filterMap.1 hc
    obtain ⟨m, hm, hpair⟩ := Option.bind_eq_some_iff.1 hname
    obtain ⟨p, -, hpair⟩ := Option.bind_eq_some_iff.1 hpair
    obtain ⟨q, hchild, hpair⟩ := Option.bind_eq_some_iff.1 hpair
    cases hpair
    exact ⟨name, hheld.started name m q hm hchild⟩

/-- What the calls of `terminateAll` do to processes and children. -/
theorem ends_perform (paths : Paths) (crates : Crates) (env : Env) {op : Call} (hop : Ends op)
    (h : Emptied w) :
    Emptied (perform paths crates env w op).1 ∧
      ∀ pid ∈ (perform paths crates env w op).1.taken, pid ∈ w.taken ∧ op ≠ .waitExit pid ∧
        StillTaken pid op (perform paths crates env w op).2 := by
  have hcollect (pid : Pid) : Emptied (w.collectTaken pid) := by
    refine ⟨h.idle, fun q launch hruns => ?_, fun q hq => ?_⟩
    · have hne : q ≠ pid := by
        rintro rfl
        simp [Host.Runs, World.collectTaken] at hruns
      refine List.mem_filter.2 ⟨h.taken q launch ?_, decide_eq_true hne⟩
      simpa [Host.Runs, World.collectTaken, Function.update_of_ne hne] using hruns
    · obtain ⟨hmem, hne⟩ := List.mem_filter.1 hq
      obtain ⟨app, launch, exit, hp, happ⟩ := h.started q hmem
      refine ⟨app, launch, exit, ?_, happ⟩
      simpa [World.collectTaken, Function.update_of_ne (of_decide_eq_true hne)] using hp
  have htaken {pid q : Pid} (hq : q ∈ (w.collectTaken pid).taken) : q ∈ w.taken ∧ q ≠ pid := by
    obtain ⟨hmem, hne⟩ := List.mem_filter.1 hq
    exact ⟨hmem, of_decide_eq_true hne⟩
  cases op with
  | signal pid sig => exact ⟨⟨h.idle, h.taken, h.started⟩, fun q hq => ⟨hq, by simp, trivial⟩⟩
  | waitExit pid =>
      refine ⟨hcollect pid, fun q hq => ⟨(htaken hq).1, ?_, trivial⟩⟩
      rintro ⟨⟩
      exact (htaken hq).2 rfl
  | waitTimeout pid =>
      simp only [perform, World.waitTimeout]
      split
      · refine ⟨hcollect pid, fun q hq => ⟨(htaken hq).1, by simp, ?_⟩⟩
        exact fun heq => absurd heq.symm (htaken hq).2
      · exact ⟨h, fun q hq => ⟨hq, by simp, fun _ => rfl⟩⟩
  | removePidfiles =>
      have hsame (names : List String) (w' : World) (h' : Emptied w' ∧ w'.taken = w.taken) :
          Emptied (names.foldl (fun w name => w.emit (.remove (resolve (paths.pidFile name)))) w')
            ∧ (names.foldl (fun w name => w.emit (.remove (resolve (paths.pidFile name))))
              w').taken = w.taken := by
        induction names generalizing w' with
        | nil => exact h'
        | cons name names ih => exact ih _ ⟨⟨h'.1.idle, h'.1.taken, h'.1.started⟩, h'.2⟩
      obtain ⟨hemptied, heq⟩ := hsame (env.order w.procs.keys) w ⟨h, rfl⟩
      refine ⟨hemptied, fun q hq => ⟨?_, by simp, trivial⟩⟩
      exact heq ▸ hq
  | _ => exact hop.elim

theorem ends_log {op : Call} (hop : Ends op) (h : TakenLog w.host.log) :
    TakenLog (perform paths crates env w op).1.host.log := by
  obtain ⟨added, hhost, heffects⟩ := stops_effects paths crates env w (Or.inl hop)
  rw [hhost]
  refine Host.foldl_apply_keep (P := fun h => TakenLog h.log) (fun _ e he hlog => ?_) h heffects
  exact hlog.append (by cases e <;> trivial)

/-! ## Runs -/

namespace Sys

/-- Before the children are taken a section sees all live apps, and after that
no app of its snapshot is due to start. -/
def OrderlyStop (s : Sys) : Action → Prop :=
  s.AtSection fun env apps =>
    if .takeChildren ∈ s.world.host.log then ∀ app ∈ apps, ¬ s.world.Due env app
    else ∀ name ∈ s.world.liveNames, name ∈ apps.map (·.name)

instance (s : Sys) (a : Action) : Decidable (s.OrderlyStop a) :=
  inferInstanceAs (Decidable (s.AtSection _ a))

end Sys

/-- The daemon before `stop_all` takes the children. -/
structure Serving (s : Sys) : Prop where
  tidy : Tidy s
  log : .takeChildren ∉ s.world.host.log
  stopping : s.stopping = none ∨ s.stopping = some stopAll ∨ s.stopping = some stopChildren

/-- The daemon from then on. -/
structure Stopping (s : Sys) : Prop where
  lawful : Lawful Call.uses Call.learns PlainFact s.threads
  emptied : Emptied s.world
  log : TakenLog s.world.host.log
  waits : ∃ p, s.stopping = some p ∧ p.Only Ends ∧ ∀ pid ∈ s.world.taken, WaitsFor pid p

variable {s s' : Sys} {a : Action}

theorem Emptied.section (h : Emptied w) {apps : List AppRow} (hlog : TakenLog w.host.log)
    (hnodup : (apps.map (·.name)).Nodup) (hdue : ∀ app ∈ apps, ¬ w.Due env app) :
    Emptied (w.lockedSection paths env apps) ∧
      TakenLog (w.lockedSection paths env apps).host.log := by
  refine (World.lockedSection_moves w apps).keep
    (P := fun w' => Emptied w' ∧ TakenLog w'.host.log) ?_ ⟨h, hlog⟩
  rintro w₁ w₂ hmove ⟨hw₁, hlog₁⟩
  cases hmove with
  | spawn app pid bin url happ hstart => exact absurd (hstart hnodup) (hdue app happ)
  | wait name m child status hm hchild =>
      rw [hw₁.idle name m hm] at hchild
      cases hchild
  | update app m happ hchild hpid hterm =>
      exact ⟨hw₁.of_sameHandles (World.sameHandles_setEntry hchild hpid hterm) (.of_eq rfl) rfl,
        hlog₁⟩
  | drop name m hm hname =>
      refine ⟨⟨fun other m' hm' => ?_, hw₁.taken, hw₁.started⟩, hlog₁⟩
      by_cases hother : other = name
      · rw [hother] at hm'
        simp at hm'
      · exact hw₁.idle other m' (by rwa [← AList.lookup_erase_ne hother])
  | _ => exact ⟨⟨hw₁.idle, hw₁.taken, hw₁.started⟩, hlog₁.append rfl⟩

/-- The calls of a shutdown up to the one that takes the children. -/
theorem Serving.stop {op : Call} {next : Except String op.Reply → Proc Unit} (h : Serving s)
    (hp : s.stopping = some (.call op next)) :
    let s' : Sys :=
      { s with
        world := (perform paths crates env s.world op).1
        stopping := some (next (.ok (perform paths crates env s.world op).2)) }
    Serving s' ∨ Stopping s' := by
  rcases h.stopping with hnone | hall | hchildren
  · rw [hnone] at hp
    cases hp
  · rw [hall] at hp
    cases hp
    left
    exact ⟨h.tidy.of_sameHandles h.tidy.lawful (World.sameHandles_of_procs rfl) (.of_eq rfl) rfl,
      h.log, Or.inr (Or.inr rfl)⟩
  · rw [hchildren] at hp
    cases hp
    right
    refine ⟨h.tidy.lawful, emptied_takeChildren h.tidy.held h.tidy.tracked h.tidy.taken, ?_, ?_⟩
    · refine ⟨List.mem_append_right _ (List.mem_singleton_self _), ?_⟩
      exact (spawnedAfterTake_append s.world.host.log rfl).trans
        (spawnedAfterTake_of_not_mem h.log)
    · refine ⟨_, rfl, terminateAll_only _, fun pid hpid => ?_⟩
      obtain ⟨c, hc, rfl⟩ := List.mem_map.1 hpid
      exact terminateAll_waitsFor hc

theorem Serving.step (h : Serving s) (hstep : Sys.Step paths crates s a s')
    (horderly : s.OrderlyStop a) : Serving s' ∨ Stopping s' := by
  have hlive : s.SeesLive a := horderly.mono fun env apps hlog => by rwa [if_neg h.log] at hlog
  by_cases hstop : ∀ env, a ≠ .stop env
  · left
    refine ⟨h.tidy.step hstep hlive hstop, ?_, ?_⟩
    · cases hstep with
      | run i env op next ht hopen =>
          rcases op.section_cases with ⟨apps, rfl⟩ | hsection
          · exact not_mem_log_of_section h.log apps
          · exact not_mem_log_of_frame h.log
              (perform_frame (lawful_main h.tidy.lawful ht) hsection)
      | stop env => exact absurd rfl (hstop env)
      | _ => exact h.log
    · cases hstep with
      | beginStop => exact Or.inr (Or.inl rfl)
      | stop env => exact absurd rfl (hstop env)
      | _ => exact h.stopping
  · obtain ⟨env, rfl⟩ := not_forall_not.1 hstop
    cases hstep with
    | stop env op next hp hopen => exact h.stop hp

theorem Stopping.of_sameHandles {world : World} {threads : List Thread} (h : Stopping s)
    (hlawful : Lawful Call.uses Call.learns PlainFact threads)
    (hhandles : World.SameHandles s.world world)
    (hprocesses : World.ProcessesKept s.world world) (htaken : world.taken = s.world.taken)
    (hlog : TakenLog world.host.log) : Stopping { s with world, threads } where
  lawful := hlawful
  emptied := h.emptied.of_sameHandles hhandles hprocesses htaken
  log := hlog
  waits := by
    obtain ⟨p, hp, honly, hwaits⟩ := h.waits
    exact ⟨p, hp, honly, fun pid hpid => hwaits pid (htaken ▸ hpid)⟩

theorem Stopping.step (h : Stopping s) (hstep : Sys.Step paths crates s a s')
    (horderly : s.OrderlyStop a) : Stopping s' := by
  have hrefl : World.SameHandles s.world s.world := World.sameHandles_of_procs rfl
  cases hstep with
  | arrive r =>
      exact h.of_sameHandles (h.lawful.append (plain_facts r) (handler_obeys r)) hrefl (.of_eq rfl)
        rfl h.log
  | run i env op next ht hopen =>
      rcases op.section_cases with ⟨apps, rfl⟩ | hsection
      · have hquiet : s.AtSection (fun env apps => ∀ app ∈ apps, ¬ s.world.Due env app)
            (.run i env) := horderly.mono fun env apps hlog => by rwa [if_pos h.log.taken] at hlog
        have hdue := hquiet apps (Sys.section?_eq ht)
        have hsection : Emptied (s.world.lockedSection paths env apps) ∧
            TakenLog (s.world.lockedSection paths env apps).host.log :=
          h.emptied.section h.log (h.lawful.good ht (.snapshot apps) rfl) hdue
        obtain ⟨hemptied, hlog⟩ := hsection
        have htaken : (s.world.lockedSection paths env apps).taken = s.world.taken :=
          World.lockedSection_taken _ _
        obtain ⟨p, hp, honly, hwaits⟩ := h.waits
        exact ⟨lawful_run h.lawful ht, hemptied, hlog, p, hp, honly,
          fun pid hpid => hwaits pid (htaken ▸ hpid)⟩
      · have hframe : Frame s.world (perform paths crates env s.world op).1 :=
          perform_frame (lawful_main h.lawful ht) hsection
        exact h.of_sameHandles (lawful_run h.lawful ht) hframe.handles
          (.of_eq hframe.processes) hframe.taken (h.log.frame hframe)
  | fail i message op next ht hfallible =>
      exact h.of_sameHandles (h.lawful.set_error ht) hrefl (.of_eq rfl) rfl h.log
  | exit pid status launch hp =>
      exact h.of_sameHandles h.lawful (World.sameHandles_of_procs rfl)
        (World.processesKept_exit hp) rfl h.log
  | collect pid hexit htaken hchild =>
      exact h.of_sameHandles h.lawful (World.sameHandles_of_procs rfl)
        (World.processesKept_collect htaken hchild) rfl h.log
  | foreign pid hfree =>
      exact h.of_sameHandles h.lawful (World.sameHandles_of_procs rfl)
        (World.processesKept_foreign hfree) rfl h.log
  | beginStop hnone =>
      obtain ⟨p, hp, -⟩ := h.waits
      rw [hnone] at hp
      cases hp
  | stop env op next hp hopen =>
      obtain ⟨p, hp', honly, hwaits⟩ := h.waits
      rw [hp] at hp'
      cases hp'
      obtain ⟨hemptied, htaken⟩ := ends_perform paths crates env honly.1 h.emptied
      refine ⟨h.lawful, hemptied, ends_log honly.1 h.log, _, rfl, honly.2.1 _, fun pid hpid => ?_⟩
      obtain ⟨hmem, hne, hstill⟩ := htaken pid hpid
      exact (hwaits pid hmem).step hne hstill

/-- In an orderly run nothing is spawned after the children have been taken,
and when `stop_all` has returned no instance runs. -/
theorem clean_shutdown
    (h : ReachableWhen (Sys.step paths crates) Sys.Fresh Sys.OrderlyStop s) :
    spawnedAfterTake s.world.host.log = [] ∧
      ∀ p, s.stopping = some p → p.finished = true →
        ∀ pid launch, ¬ s.world.host.Runs pid launch := by
  have hinv : Serving s ∨ Stopping s := by
    refine h.invariant (I := fun s => Serving s ∨ Stopping s) ?_ ?_
    · intro s hfresh
      exact Or.inl ⟨Tidy.of_fresh hfresh, by simp [hfresh.log], Or.inl hfresh.stopping⟩
    · intro s a s' ih horderly hs
      have hstep := Sys.step_cases hs
      exact ih.elim (fun h => h.step hstep horderly) fun h => Or.inr (h.step hstep horderly)
  rcases hinv with hserving | hstopping
  · refine ⟨spawnedAfterTake_of_not_mem hserving.log, fun p hp hfin => ?_⟩
    rcases hserving.stopping with hstop | hstop | hstop <;> rw [hstop] at hp <;> cases hp <;>
      cases hfin
  · refine ⟨hstopping.log.quiet, fun p hp hfin pid launch hruns => ?_⟩
    obtain ⟨p', hp', -, hwaits⟩ := hstopping.waits
    rw [hp] at hp'
    cases hp'
    have hwait := (hwaits pid (hstopping.emptied.taken pid launch hruns)).not_finished
    rw [hfin] at hwait
    cases hwait

section Runs

/-- The next `n` calls of `stop_all`. -/
def stopCalls (n : ℕ) : List Action := List.replicate n (.stop {})

/-- The instance does not react to SIGTERM, and a pass finds the flag set. -/
def killRun : List Action :=
  deployRun 0 1 ++ [.arrive .reconcileTick, .beginStop] ++ stopCalls 1 ++ calls 1 1 ++
    stopCalls 2 ++ [.stop { timedOut := true }, .stop {}, .exit 1 (.signal 9)] ++ stopCalls 2

theorem clean_shutdown_killRun :
    ∃ s, runWhen (Sys.step (Paths.ofRoot "/r") (Crates.plainCrates [] [])) Sys.OrderlyStop {}
        killRun = some s ∧ s.stopping.any (·.finished) = true ∧
      spawnedAfterTake s.world.host.log = [] ∧
        ∀ p, s.stopping = some p → p.finished = true →
          ∀ pid launch, ¬ s.world.host.Runs pid launch := by
  have hrun : (runWhen (Sys.step (Paths.ofRoot "/r") (Crates.plainCrates [] []))
      Sys.OrderlyStop {} killRun).map (fun s => s.stopping.any (·.finished)) = some true := by
    decide
  obtain ⟨s, hs, hfin⟩ := Option.map_eq_some_iff.1 hrun
  exact ⟨s, hs, hfin, clean_shutdown (ReachableWhen.runWhen (.start fresh_default) hs)⟩

/-- A pass reads the flag and lists the apps, `stop_all` takes the child, and
the section of the pass starts the app again. -/
def lateRun : List Action :=
  deployRun 0 1 ++ [.arrive .reconcileTick] ++ calls 1 2 ++ [.beginStop] ++ stopCalls 3 ++
    [.run 1 (launches 2), .exit 1 (.signal 15)] ++ stopCalls 2

theorem unclean_shutdown_reachable :
    ¬ ∀ (paths : Paths) (crates : Crates) (s : Sys),
      Reachable (Sys.step paths crates) Sys.Fresh s →
        spawnedAfterTake s.world.host.log = [] ∧
          ∀ p, s.stopping = some p → p.finished = true →
            ∀ pid launch, ¬ s.world.host.Runs pid launch := by
  intro h
  have hrun : (run (Sys.step (Paths.ofRoot "/r") (Crates.plainCrates [] [])) {} lateRun).map
      (fun s => (s.stopping.map (·.finished), runningApp s.world 2)) =
        some (some true, some "a") := by
    decide
  obtain ⟨s, hs, hval⟩ := Option.map_eq_some_iff.1 hrun
  obtain ⟨hstop, happ⟩ := Prod.mk.inj hval
  obtain ⟨p, hp, hfin⟩ := Option.map_eq_some_iff.1 hstop
  obtain ⟨launch, hruns, -⟩ := runs_of_runningApp happ
  exact (h _ _ s (ReachableWhen.runWhen (.start fresh_default) hs)).2 p hp hfin 2 launch hruns

end Runs

end Daemon

end Nockd
