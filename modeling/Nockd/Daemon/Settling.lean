import Nockd.Daemon.Deadlines
import Nockd.Supervisor.Progress

/-!
# Runs that settle

While nobody writes to the rows of apps or requests a restart, spawns succeed, no app exits
unasked and what is sent SIGKILL is gone by the next pass, the passes bring every app to what its
row asks for. It takes the first of these passes, one that comes `maxBackoffSecs` later or later
still, and one more. Then every pass leaves the world undisturbed.
-/

namespace Nockd

namespace Registry.Statement

open Registry

/-- The statement writes to the rows of apps. -/
def onApps : Statement → Bool
  | .upsertApp _ => true
  | .updateAppConfig _ _ => true
  | .setAppArtifact _ _ => true
  | .setDesired _ _ => true
  | _ => false

theorem exec_app {s : Statement} (h : s.onApps = false) (now : ℤ) (r : Registry) :
    (s.exec now r).app = r.app := by
  cases s with
  | upsertApp u => cases h
  | updateAppConfig name c => cases h
  | setAppArtifact name artifactHash => cases h
  | setDesired name status => cases h
  | addTrustedBuilder pubkey =>
      simp only [exec, Registry.addTrustedBuilder]
      split <;> rfl
  | _ => rfl

end Registry.Statement

namespace Supervisor

/-- The fields of an entry that are not observations. -/
def Managed.decided (m : Managed) : Core × RunState := (m.core, m.state)

theorem AtRest.of_decided {desired policy : String} {m m' : Managed}
    (h : AtRest desired policy m) (heq : m'.decided = m.decided) : AtRest desired policy m' := by
  obtain ⟨hcore, hstate⟩ := Prod.mk.inj heq
  have hchild : m'.child = m.child := congrArg Core.child hcore
  have hterm : m'.termDeadline = m.termDeadline := congrArg Core.termDeadline hcore
  have hrestarts : m'.restarts = m.restarts := congrArg Core.restarts hcore
  unfold AtRest
  rwa [hchild, hterm, hrestarts, hstate]

end Supervisor

namespace Api

open Config Registry Store Supervisor Supervisor.World

/-- The call is none by which an operator changes what an app is to do. -/
def Call.leavesApps : Call → Bool
  | .write s => !s.onApps
  | .requestRestart _ => false
  | _ => true

variable {paths : Paths} {crates : Crates} {env : Env} {w : World} {op : Call}

theorem perform_app (hmain : .main ∉ op.uses) (hleaves : op.leavesApps = true) :
    (perform paths crates env w op).1.host.registry.app = w.host.registry.app := by
  cases op with
  | write s => exact Statement.exec_app (by simpa [Call.leavesApps] using hleaves) env.now _
  | lockedSection apps =>
      exact congr_of_quiet (·.app) (fun _ => rfl) (lockedSection_quiet w apps)
  | requestRestart name => cases hleaves
  | waitTimeout pid => exact absurd rfl hmain
  | removePidfiles => exact absurd rfl hmain
  | _ => rfl

theorem lookup_modifyEntry_decided {name other : String} {f : Managed → Managed}
    (hf : ∀ m, (f m).decided = m.decided) :
    ((w.modifyEntry name f).procs.lookup other).map Managed.decided =
      (w.procs.lookup other).map Managed.decided := by
  unfold modifyEntry
  by_cases hother : other = name
  · subst hother
    rw [Table.lookup_modify, Option.map_map]
    congr 1
    exact funext hf
  · rw [Table.lookup_modify_ne _ _ hother]

theorem perform_decided (hmain : .main ∉ op.uses) (hsection : ∀ apps, op ≠ .lockedSection apps)
    (hleaves : op.leavesApps = true) (name : String) :
    ((perform paths crates env w op).1.procs.lookup name).map Managed.decided =
      (w.procs.lookup name).map Managed.decided := by
  cases op with
  | lockedSection apps => exact absurd rfl (hsection apps)
  | requestRestart name => cases hleaves
  | setHealth name health => exact lookup_modifyEntry_decided fun _ => rfl
  | setStatusLine name line => exact lookup_modifyEntry_decided fun _ => rfl
  | setResources name cpuPct rssBytes => exact lookup_modifyEntry_decided fun _ => rfl
  | takeChildren => exact absurd rfl hmain
  | waitTimeout pid => exact absurd rfl hmain
  | removePidfiles => exact absurd rfl hmain
  | _ => rfl

end Api

namespace Daemon

open Api Config Interleaving Registry Store Supervisor

/-! ## Every deadline was set by the clock -/

/-- What the entries wait for was fixed by the latest reading of the clock or before. -/
def Clocked (v : Sys × Option ℤ) : Prop :=
  ∀ name m, v.1.world.procs.lookup name = some m → ∃ c ∈ v.2, m.Dated c

variable {paths : Paths} {crates : Crates} {s s' : Sys} {a : Action} {env : Env}
  {apps : List AppRow} {app : AppRow} {w : World} {name : String}

theorem dated_entry {t : ℤ} (h : ∀ name m, w.procs.lookup name = some m → m.Dated t)
    (name : String) : (w.entry name).Dated t := by
  unfold World.entry
  cases hm : w.procs.lookup name with
  | none => exact Managed.dated_default
  | some m => exact h name m hm

theorem dated_lockedSection {t : ℤ} (h : ∀ name m, w.procs.lookup name = some m → m.Dated t)
    (hle : t ≤ env.now) (hheld : w.Held) (hnodup : (apps.map (·.name)).Nodup) :
    ∀ name m, (w.lockedSection paths env apps).procs.lookup name = some m → m.Dated env.now := by
  intro name m hm
  by_cases hname : name ∈ apps.map (·.name)
  · obtain ⟨app, happ, rfl⟩ := List.mem_map.1 hname
    rw [World.lockedSection_lookup hheld.sole hnodup happ, Option.some.injEq] at hm
    have hentry := dated_entry h app.name
    have hafter : (w.afterReap env app.name).Dated env.now := by
      rcases World.afterReap_cases env w app.name with ⟨-, hsame⟩ | ⟨-, hreaped⟩
      · rw [hsame]
        exact hentry.mono hle
      · rw [hreaped]
        exact hentry.reaped env.now hle
    exact hm ▸ hafter.driven le_rfl
  · rw [World.lockedSection_lookup_of_not_mem hname] at hm
    cases hm

theorem dated_requestRestart {t : ℤ} (h : ∀ name m, w.procs.lookup name = some m → m.Dated t)
    (hle : t ≤ env.now) (name : String) :
    ∀ other m, (w.requestRestart env name).procs.lookup other = some m → m.Dated env.now := by
  have hnow : ∀ other m, w.procs.lookup other = some m → m.Dated env.now :=
    fun other m hm => (h other m hm).mono hle
  unfold World.requestRestart
  cases hm : w.procs.lookup name with
  | none => exact hnow
  | some m =>
      have hset (w' : World) (hw' : w'.procs = w.procs) {m₁ : Managed} (hm₁ : m₁.Dated env.now) :
          ∀ other m', (w'.setEntry name m₁).procs.lookup other = some m' → m'.Dated env.now := by
        intro other m' hm'
        by_cases hother : other = name
        · subst hother
          rw [World.setEntry_procs, AList.lookup_insert, Option.some.injEq] at hm'
          exact hm' ▸ hm₁
        · rw [World.setEntry_procs, AList.lookup_insert_ne hother, hw'] at hm'
          exact hnow other m' hm'
      cases hpid : m.pid with
      | none =>
          simp only [hpid]
          exact hset w rfl ⟨(hnow name m hm).term, le_max_left _ _⟩
      | some pid =>
          simp only [hpid]
          refine hset _ rfl ⟨fun d hd => ?_, le_max_left _ _⟩
          rw [← Option.some.inj hd]

/-- `stop_all` does not begin, and the clock does not go back. -/
def Ticks (v : Sys × Option ℤ) (a : Action) : Prop :=
  a.beginsStop = false ∧ ∀ t ∈ a.now?, ∀ c ∈ v.2, c ≤ t

instance (v : Sys × Option ℤ) (a : Action) : Decidable (Ticks v a) :=
  inferInstanceAs (Decidable (_ ∧ _))

theorem Clocked.dated {v : Sys × Option ℤ} (h : Clocked v) {t : ℤ} (hle : ∀ c ∈ v.2, c ≤ t) :
    ∀ name m, v.1.world.procs.lookup name = some m → m.Dated t := by
  intro name m hm
  obtain ⟨c, hc, hdated⟩ := h name m hm
  exact hdated.mono (hle c hc)

theorem Clocked.of_sameCores {v v' : Sys × Option ℤ} (h : Clocked v)
    (hcores : World.SameCores v.1.world v'.1.world)
    (hlater : ∀ c ∈ v.2, ∃ c' ∈ v'.2, c ≤ c') : Clocked v' := by
  intro name m' hm'
  obtain ⟨m, hm, hcore⟩ := hcores.back hm'
  obtain ⟨c, hc, hdated⟩ := h name m hm
  obtain ⟨c', hc', hle⟩ := hlater c hc
  exact ⟨c', hc', (hdated.of_core hcore).mono hle⟩

theorem Clocked.step {v v' : Sys × Option ℤ} (hsupervised : Supervised v.1)
    (hnone : v.1.stopping = none) (h : Clocked v) (hs : clocked paths crates v a = some v')
    (hticks : Ticks v a) : Clocked v' := by
  obtain ⟨hs, hclock⟩ := ghostStep_eq_some hs
  -- a later reading of the clock keeps what was fixed before
  have hlater : ∀ c ∈ v.2, ∃ c' ∈ v'.2, c ≤ c' := by
    intro c hc
    rw [hclock]
    cases hnow : a.now? with
    | none => exact ⟨c, by rwa [Option.none_or], le_rfl⟩
    | some t => exact ⟨t, by rw [Option.some_or]; rfl, hticks.2 t hnow c hc⟩
  cases v' with
  | mk s' clock' =>
    cases Sys.step_cases hs with
    | run i env op next ht hopen =>
        have hclock' : clock' = some env.now := hclock
        have hdated := h.dated fun c hc => hticks.2 env.now rfl c hc
        have hmain := lawful_main hsupervised.lawful ht
        rcases op.section_cases with ⟨apps, rfl⟩ | hsection
        · intro name m hm
          refine ⟨env.now, hclock', dated_lockedSection hdated le_rfl
            hsupervised.upkeep.held ?_ name m hm⟩
          exact hsupervised.lawful.good ht (.snapshot apps) rfl
        · by_cases hrestart : ∃ name, op = .requestRestart name
          · obtain ⟨name, rfl⟩ := hrestart
            exact fun other m hm =>
              ⟨env.now, hclock', dated_requestRestart hdated le_rfl name other m hm⟩
          · exact h.of_sameCores (perform_sameCores hmain hsection
              fun name heq => hrestart ⟨name, heq⟩) hlater
    | stop env op next hp hopen =>
        rw [hnone] at hp
        cases hp
    | _ => exact h.of_sameCores (World.sameCores_of_procs rfl) hlater

theorem clocked_reachable {v : Sys × Option ℤ}
    (h : ReachableWhen (clocked paths crates) (fun v => v.1.Started ∧ v.2 = none) Ticks v) :
    Supervised v.1 ∧ v.1.stopping = none ∧ Clocked v := by
  refine h.invariant (I := fun v => Supervised v.1 ∧ v.1.stopping = none ∧ Clocked v) ?_ ?_
  · rintro v ⟨hstarted, -⟩
    refine ⟨Supervised.of_started hstarted, hstarted.stopping, fun name m hm => ?_⟩
    simp [hstarted.procs] at hm
  · rintro v a v' ⟨hsupervised, hnone, hclocked⟩ hticks hs
    have hstep := Sys.step_cases (ghostStep_eq_some hs).1
    exact ⟨hsupervised.step hstep (hstep.not_stop hnone), hstep.stopping_none hnone hticks.1,
      hclocked.step hsupervised hnone hs hticks⟩

/-! ## Calm runs -/

/-- A pass: when it was made, and what it killed. -/
abbrev Pass := ℤ × List Pid

/-- The passes so far, the latest first. -/
def passes (paths : Paths) (s : Sys) (a : Action) (ps : List Pass) : List Pass :=
  match s.sectionOf a with
  | some (env, apps) =>
      (env.now, World.killed s.world (s.world.lockedSection paths env apps)) :: ps
  | none => ps

/-- The daemon, with the passes of the run. -/
abbrev watched (paths : Paths) (crates : Crates) :
    Sys × List Pass → Action → Option (Sys × List Pass) :=
  ghostStep (Sys.step paths crates) (passes paths)

/-- Nobody changes what an app is to do, and no app exits unasked. -/
def Sys.LeavesApps (s : Sys) : Action → Prop
  | .run i _ => ∀ op ∈ s.call? i, op.leavesApps = true
  | .exit pid _ => ∀ name ∈ s.world.procs.keys, (s.world.entry name).child = some pid →
      (s.world.entry name).termDeadline.isSome = true
  | _ => True

instance (s : Sys) (a : Action) : Decidable (s.LeavesApps a) :=
  match a with
  | .run i _ => inferInstanceAs (Decidable (∀ op ∈ s.call? i, _))
  | .exit _ _ => inferInstanceAs (Decidable (∀ name ∈ s.world.procs.keys, _))
  | .arrive _ => .isTrue trivial
  | .fail _ _ => .isTrue trivial
  | .collect _ => .isTrue trivial
  | .foreign _ => .isTrue trivial
  | .beginStop => .isTrue trivial
  | .stop _ => .isTrue trivial

/-- What the latest pass killed and an app still holds has exited. -/
def KilledGone (w : World) (ps : List Pass) : Prop :=
  ∀ p ∈ ps.head?, ∀ pid ∈ p.2, ∀ name ∈ w.procs.keys, (w.entry name).child = some pid →
    w.exited pid = true

instance (w : World) (ps : List Pass) : Decidable (KilledGone w ps) :=
  inferInstanceAs (Decidable (∀ p ∈ ps.head?, _))

/-- The clock has not gone back since the latest pass or, before the first, since `since`. -/
def Onward (since : ℤ) (ps : List Pass) (now : ℤ) : Prop :=
  0 ≤ now ∧ since ≤ now ∧ ∀ p ∈ ps.head?, p.1 ≤ now

instance (since : ℤ) (ps : List Pass) (now : ℤ) : Decidable (Onward since ps now) :=
  inferInstanceAs (Decidable (_ ∧ _ ∧ _))

/-- Passes are atomic and work, the apps are left alone, and killed processes end. -/
def Calm (paths : Paths) (since : ℤ) (v : Sys × List Pass) (a : Action) : Prop :=
  v.1.Atomic a ∧ v.1.LeavesApps a ∧ v.1.AtSection (fun env apps =>
    Onward since v.2 env.now ∧ KilledGone v.1.world v.2 ∧
      ∀ app ∈ apps, v.1.world.Served paths env apps app) a

instance (paths : Paths) (since : ℤ) (v : Sys × List Pass) (a : Action) :
    Decidable (Calm paths since v a) :=
  inferInstanceAs (Decidable (_ ∧ _ ∧ _))

/-- The time of the first pass. -/
def began (ps : List Pass) : Option ℤ := ps.getLast?.map Prod.fst

/-- How many passes were made when every backoff set before them was over. -/
def late (ps : List Pass) : ℕ :=
  match began ps with
  | none => 0
  | some t => ps.countP fun p => t + maxBackoffSecs ≤ p.1

/-- Only registered apps are tracked. Every registered app is tracked and at rest, and a child
that it has runs. -/
structure Settled (w : World) : Prop where
  registered : Registered w
  rest : ∀ name record, w.host.registry.app.lookup name = some record →
    ∃ m, w.procs.lookup name = some m ∧ AtRest record.desiredStatus record.restartPolicy m ∧
      ∀ pid, m.child = some pid → ∃ launch, w.host.Runs pid launch ∧ launch.app = name

/-! ## The passes of a run -/

section Passes

variable {ps : List Pass} {p : Pass} {t : ℤ}

theorem began_cons (h : ps ≠ []) : began (p :: ps) = began ps := by
  unfold began
  rw [List.getLast?_cons_of_ne_nil h]

theorem late_singleton (p : Pass) : late [p] = 0 := by
  have hover : ¬ p.1 + maxBackoffSecs ≤ p.1 := by
    have hpos : 0 < maxBackoffSecs := by decide
    omega
  simp [late, began, hover]

theorem late_cons (hbegan : began ps = some t) (h : ps ≠ []) :
    late (p :: ps) = late ps + if t + maxBackoffSecs ≤ p.1 then 1 else 0 := by
  unfold late
  rw [began_cons h, hbegan]
  simp only [List.countP_cons, decide_eq_true_eq]

theorem exists_of_late (hbegan : began ps = some t) (hlate : 1 ≤ late ps) :
    ∃ q ∈ ps, t + maxBackoffSecs ≤ q.1 := by
  unfold late at hlate
  rw [hbegan] at hlate
  obtain ⟨q, hq, hle⟩ := List.countP_pos_iff.1 hlate
  exact ⟨q, hq, of_decide_eq_true hle⟩

theorem exists_began (h : ps ≠ []) : ∃ t, began ps = some t :=
  ⟨_, congrArg (Option.map Prod.fst) (List.getLast?_eq_some_getLast h)⟩

end Passes

/-! ## One step of a calm run -/

theorem entry_decided {w w' : World}
    (h : (w'.procs.lookup name).map Managed.decided = (w.procs.lookup name).map Managed.decided) :
    (w'.entry name).decided = (w.entry name).decided := by
  unfold World.entry
  cases hm : w.procs.lookup name with
  | none =>
      rw [hm, Option.map_none, Option.map_eq_none_iff] at h
      rw [h]
  | some m =>
      rw [hm] at h
      obtain ⟨m', hm', heq⟩ := Option.map_eq_some_iff.1 h
      rw [hm']
      exact heq

/-- The row of a registered app in a snapshot of now. -/
theorem exists_row {r : Registry} {record : AppRecord} (h : r.app.lookup name = some record) :
    ∃ app ∈ r.listApps, app.name = name ∧ app.desiredStatus = record.desiredStatus ∧
      app.restartPolicy = record.restartPolicy := by
  have hrow : r.getApp name = some (r.mapAppRow name record) :=
    congrArg (Option.map (r.mapAppRow name)) h
  exact ⟨r.mapAppRow name record, mem_listApps.2 hrow, rfl, rfl, rfl⟩

/-- What holds in every state of a calm run. -/
structure Calming (since : ℤ) (v : Sys × List Pass) : Prop where
  supervised : Supervised v.1
  stopping : v.1.stopping = none
  registered : v.2 ≠ [] → Registered v.1.world
  dated : v.2 = [] → ∀ name m, v.1.world.procs.lookup name = some m → m.Dated since
  ordered : ∀ p ∈ v.2.head?, ∀ q ∈ v.2, q.1 ≤ p.1
  nonneg : ∀ t ∈ began v.2, 0 ≤ t
  paced : ∀ t ∈ began v.2, ∀ name record, v.1.world.host.registry.app.lookup name = some record →
    (v.1.world.procs.lookup name).isSome = true ∧
      (v.1.world.entry name).Paced (t + maxBackoffSecs) record.desiredStatus
  runs : v.2 ≠ [] → ∀ name pid, (v.1.world.entry name).child = some pid →
    (v.1.world.entry name).termDeadline = none →
      ∃ launch, v.1.world.host.Runs pid launch ∧ launch.app = name
  closing : 1 ≤ late v.2 → ∀ name record, v.1.world.host.registry.app.lookup name = some record →
    AtRest record.desiredStatus record.restartPolicy (v.1.world.entry name) ∨
      ∃ pid, (v.1.world.entry name).child = some pid ∧ ∃ p ∈ v.2.head?, pid ∈ p.2
  rest : 2 ≤ late v.2 → ∀ name record, v.1.world.host.registry.app.lookup name = some record →
    AtRest record.desiredStatus record.restartPolicy (v.1.world.entry name)

variable {since : ℤ} {v v' : Sys × List Pass}

/-- A step that is no pass leaves what the entries are decided by, the rows, and the processes
of the apps that nothing terminates. -/
theorem Calming.of_same (h : Calming since v) (hsupervised : Supervised v'.1)
    (hnone : v'.1.stopping = none) (hps : v'.2 = v.2)
    (happ : v'.1.world.host.registry.app = v.1.world.host.registry.app)
    (hdecided : ∀ name, (v'.1.world.procs.lookup name).map Managed.decided =
      (v.1.world.procs.lookup name).map Managed.decided)
    (hruns : ∀ name pid launch, (v.1.world.entry name).child = some pid →
      (v.1.world.entry name).termDeadline = none → v.1.world.host.Runs pid launch →
        v'.1.world.host.Runs pid launch) : Calming since v' := by
  have hentry (name : String) := entry_decided (hdecided name)
  have hcore (name : String) : (v'.1.world.entry name).core = (v.1.world.entry name).core :=
    congrArg Prod.fst (hentry name)
  have hchild (name : String) : (v'.1.world.entry name).child = (v.1.world.entry name).child :=
    congrArg Core.child (hcore name)
  have hterm (name : String) :
      (v'.1.world.entry name).termDeadline = (v.1.world.entry name).termDeadline :=
    congrArg Core.termDeadline (hcore name)
  constructor
  case supervised => exact hsupervised
  case stopping => exact hnone
  case registered =>
    rw [hps]
    intro hne other hother
    rw [happ]
    refine h.registered hne other ?_
    rw [← Option.isSome_map (f := Managed.decided), ← hdecided, Option.isSome_map, hother]
  case dated =>
    rw [hps]
    intro hnil name m' hm'
    have hsame := hdecided name
    rw [hm'] at hsame
    obtain ⟨m, hm, heq⟩ := Option.map_eq_some_iff.1 hsame.symm
    exact (h.dated hnil name m hm).of_core (congrArg Prod.fst heq).symm
  case ordered =>
    rw [hps]
    exact h.ordered
  case nonneg =>
    rw [hps]
    exact h.nonneg
  case paced =>
    rw [hps, happ]
    intro t ht name record hrecord
    obtain ⟨hsome, hpaced⟩ := h.paced t ht name record hrecord
    refine ⟨?_, hpaced.of_core (hcore name)⟩
    rw [← Option.isSome_map (f := Managed.decided), hdecided, Option.isSome_map, hsome]
  case runs =>
    rw [hps]
    intro hne name pid hpid hnone
    rw [hchild] at hpid
    rw [hterm] at hnone
    obtain ⟨launch, hlaunch, hname⟩ := h.runs hne name pid hpid hnone
    exact ⟨launch, hruns name pid launch hpid hnone hlaunch, hname⟩
  case closing =>
    rw [hps, happ]
    intro hlate name record hrecord
    refine (h.closing hlate name record hrecord).imp (·.of_decided (hentry name)) ?_
    rintro ⟨pid, hpid, hkilled⟩
    exact ⟨pid, (hchild name).trans hpid, hkilled⟩
  case rest =>
    rw [hps, happ]
    exact fun hlate name record hrecord =>
      (h.rest hlate name record hrecord).of_decided (hentry name)

/-- The exit that a pass sees of an app was asked for. -/
theorem Calming.asked (h : Calming since v) (hne : v.2 ≠ [])
    (hexit : (v.1.world.tryWait env name (v.1.world.entry name).child).isSome = true) :
    (v.1.world.entry name).termDeadline.isSome = true := by
  by_contra hterm
  obtain ⟨status, hstatus⟩ := Option.isSome_iff_exists.1 hexit
  obtain ⟨pid, hchild, hprocess⟩ := World.tryWait_eq_some hstatus
  obtain ⟨launch, hruns, -⟩ := h.runs hne name pid hchild (by simpa using hterm)
  unfold Host.Runs at hruns
  rw [hruns] at hprocess
  cases hprocess

/-- What a pass of a calm run does. -/
structure Ticked (paths : Paths) (since : ℤ) (v v' : Sys × List Pass) (env : Env)
    (apps : List AppRow) : Prop where
  world : v'.1.world = v.1.world.lockedSection paths env apps
  passes : v'.2 = (env.now, World.killed v.1.world v'.1.world) :: v.2
  rows : apps = v.1.world.host.registry.listApps
  nodup : (apps.map (·.name)).Nodup
  onward : Onward since v.2 env.now
  gone : KilledGone v.1.world v.2
  served : ∀ app ∈ apps, v.1.world.Served paths env apps app

theorem Calming.ticked (h : Calming since v) (hs : watched paths crates v a = some v')
    (hcalm : Calm paths since v a) (hsection : v.1.sectionOf a = some (env, apps)) :
    Ticked paths since v v' env apps := by
  obtain ⟨hs, hps⟩ := ghostStep_eq_some hs
  have hstep := Sys.step_cases hs
  obtain ⟨honward, hgone, hserved⟩ := hcalm.2.2.of_sectionOf hsection
  obtain ⟨env', apps', hfound, hworld, hnodup⟩ :=
    (hstep.entries h.supervised (hstep.not_stop h.stopping)).resolve_right
      fun hother => by rw [hsection] at hother; cases hother.1
  rw [hsection, Option.some.injEq, Prod.mk.injEq] at hfound
  obtain ⟨rfl, rfl⟩ := hfound
  refine ⟨hworld, ?_, hcalm.1.2.of_sectionOf hsection, hnodup, honward, hgone, hserved⟩
  rw [hps, Daemon.passes, hsection, hworld]

namespace Ticked

variable (ht : Ticked paths since v v' env apps) (h : Calming since v)

include ht

theorem app_eq : v'.1.world.host.registry.app = v.1.world.host.registry.app := by
  rw [ht.world]
  exact congr_of_quiet (·.app) (fun _ => rfl) (World.lockedSection_quiet _ _)

theorem registered : Registered v'.1.world := by
  rw [ht.world, ht.rows]
  exact registered_section v.1.world

theorem row {record : AppRecord}
    (hrecord : v'.1.world.host.registry.app.lookup name = some record) :
    v.1.world.host.registry.app.lookup name = some record ∧
      ∃ app ∈ apps, app.name = name ∧ app.desiredStatus = record.desiredStatus ∧
        app.restartPolicy = record.restartPolicy := by
  rw [ht.app_eq] at hrecord
  exact ⟨hrecord, ht.rows ▸ exists_row hrecord⟩

theorem now_le {p : Pass} (hordered : ∀ p ∈ v.2.head?, ∀ q ∈ v.2, q.1 ≤ p.1) (hp : p ∈ v.2) :
    p.1 ≤ env.now := by
  cases hps : v.2 with
  | nil => simp [hps] at hp
  | cons q ps =>
      have hhead : q ∈ v.2.head? := by rw [hps]; rfl
      exact (hordered q hhead p hp).trans (ht.onward.2.2 q hhead)

theorem ordered (hordered : ∀ p ∈ v.2.head?, ∀ q ∈ v.2, q.1 ≤ p.1) :
    ∀ p ∈ v'.2.head?, ∀ q ∈ v'.2, q.1 ≤ p.1 := by
  rw [ht.passes]
  rintro p hp q hq
  obtain rfl := Option.some.inj hp
  rcases List.mem_cons.1 hq with rfl | hq
  · exact le_rfl
  · exact ht.now_le hordered hq

include h

theorem nonneg : ∀ t ∈ began v'.2, 0 ≤ t := by
  intro t hbegan
  rw [ht.passes] at hbegan
  by_cases hnil : v.2 = []
  · rw [hnil] at hbegan
    obtain rfl := Option.some.inj hbegan
    exact ht.onward.1
  · rw [began_cons hnil] at hbegan
    exact h.nonneg t hbegan

theorem runs (hchild : (v'.1.world.entry name).child = some pid) :
    ∃ launch, v'.1.world.host.Runs pid launch ∧ launch.app = name := by
  rw [ht.world] at hchild ⊢
  by_cases hname : name ∈ apps.map (·.name)
  · obtain ⟨app, happ, rfl⟩ := List.mem_map.1 hname
    exact World.lockedSection_child_runs h.supervised.upkeep ht.nodup happ
      (ht.served app happ).1 hchild
  · rw [World.entry, World.lockedSection_lookup_of_not_mem hname] at hchild
    cases hchild

theorem paced (hbegan : t ∈ began v'.2) {record : AppRecord}
    (hrecord : v'.1.world.host.registry.app.lookup name = some record) :
    (v'.1.world.procs.lookup name).isSome = true ∧
      (v'.1.world.entry name).Paced (t + maxBackoffSecs) record.desiredStatus := by
  have hheld := h.supervised.upkeep.held
  obtain ⟨hbefore, app, happ, rfl, hdesired, -⟩ := ht.row hrecord
  rw [ht.world, ← hdesired]
  refine ⟨by rw [World.lockedSection_lookup hheld.sole ht.nodup happ]; rfl, ?_⟩
  rw [ht.passes] at hbegan
  by_cases hnil : v.2 = []
  · rw [hnil] at hbegan
    obtain rfl := Option.some.inj hbegan
    exact World.lockedSection_dated_paced hheld ht.nodup happ (ht.served app happ)
      (dated_entry (h.dated hnil) app.name) ht.onward.2.1 ht.onward.1
  · rw [began_cons hnil] at hbegan
    refine World.lockedSection_paced hheld ht.nodup happ (ht.served app happ) ?_
      (add_nonneg (h.nonneg t hbegan) (by decide)) (h.asked hnil)
    rw [hdesired]
    exact (h.paced t hbegan app.name record hbefore).2

omit h in
theorem late_pos_of_two (hlate : 2 ≤ late v'.2) : 1 ≤ late v.2 := by
  rw [ht.passes] at hlate
  by_cases hnil : v.2 = []
  · rw [hnil, late_singleton] at hlate
    cases hlate
  · obtain ⟨t, hbegan⟩ := exists_began hnil
    rw [late_cons hbegan hnil] at hlate
    split at hlate <;> omega

/-- A late pass leaves an app at rest, or it finds a child alive past its deadline. -/
theorem overdue (hlate : 1 ≤ late v'.2) {record : AppRecord}
    (hrecord : v'.1.world.host.registry.app.lookup name = some record) :
    AtRest record.desiredStatus record.restartPolicy (v'.1.world.entry name) ∨
      ∃ pid, (v.1.world.entry name).child = some pid ∧
        v.1.world.tryWait env name (some pid) = none ∧
        (v'.1.world.entry name).child = some pid ∧
        ∃ d ∈ (v.1.world.entry name).termDeadline, d ≤ env.now := by
  have hupkeep := h.supervised.upkeep
  obtain ⟨hbefore, app, happ, rfl, hdesired, hpolicy⟩ := ht.row hrecord
  by_cases hnil : v.2 = []
  · rw [ht.passes, hnil, late_singleton] at hlate
    cases hlate
  · obtain ⟨t, hbegan⟩ := exists_began hnil
    -- the pass comes after every bound set before
    have hnow : t + maxBackoffSecs ≤ env.now := by
      have hbegan' : began v'.2 = some t := by rw [ht.passes, began_cons hnil, hbegan]
      obtain ⟨q, hq, hle⟩ := exists_of_late hbegan' hlate
      rw [ht.passes] at hq
      rcases List.mem_cons.1 hq with rfl | hq
      · exact hle
      · exact hle.trans (ht.now_le h.ordered hq)
    have hpaced := (h.paced t hbegan app.name record hbefore).2
    rw [← hdesired] at hpaced
    rw [← hdesired, ← hpolicy, ht.world]
    exact World.lockedSection_atRest hupkeep.held ht.nodup happ (ht.served app happ)
      hupkeep.coherent hpaced (add_nonneg (h.nonneg t hbegan) (by decide)) (h.asked hnil) hnow

theorem closing (hlate : 1 ≤ late v'.2) {record : AppRecord}
    (hrecord : v'.1.world.host.registry.app.lookup name = some record) :
    AtRest record.desiredStatus record.restartPolicy (v'.1.world.entry name) ∨
      ∃ pid, (v'.1.world.entry name).child = some pid ∧ ∃ p ∈ v'.2.head?, pid ∈ p.2 := by
  refine (ht.overdue h hlate hrecord).imp_right ?_
  rintro ⟨pid, hchild, hwait, hstill, d, hd, hle⟩
  obtain ⟨added, hlog, hkill⟩ := World.lockedSection_kills h.supervised.upkeep.held
    (World.lookup_of_entry hchild) hchild (by rwa [hchild]) hd hle
  refine ⟨pid, hstill, _, by rw [ht.passes]; rfl, ?_⟩
  rw [ht.world]
  exact World.mem_killed hlog hkill

/-- The second late pass finds what the one before it killed gone. -/
theorem rest (hlate : 2 ≤ late v'.2) {record : AppRecord}
    (hrecord : v'.1.world.host.registry.app.lookup name = some record) :
    AtRest record.desiredStatus record.restartPolicy (v'.1.world.entry name) := by
  refine (ht.overdue h (one_le_two.trans hlate) hrecord).resolve_right ?_
  rintro ⟨pid, hchild, hwait, -, d, hd, -⟩
  obtain ⟨hbefore, app, happ, rfl, -⟩ := ht.row hrecord
  rcases h.closing (ht.late_pos_of_two hlate) app.name record hbefore with
    hrest | ⟨q, hq, p, hp, hkilled⟩
  · rw [hrest.1] at hd
    cases hd
  · rw [hchild] at hq
    obtain rfl := Option.some.inj hq
    have hkey : app.name ∈ v.1.world.procs.keys :=
      AList.mem_keys.1 (AList.lookup_isSome.1 (by rw [World.lookup_of_entry hchild]; rfl))
    have hexited := ht.gone p hp pid hkilled app.name hkey hchild
    unfold World.tryWait at hwait
    rw [(ht.served app happ).1, if_neg Bool.false_ne_true, Option.bind_some] at hwait
    rw [World.exited, hwait] at hexited
    cases hexited

end Ticked

theorem Calming.section (h : Calming since v) (hsupervised : Supervised v'.1)
    (hnone : v'.1.stopping = none) (ht : Ticked paths since v v' env apps) : Calming since v' where
  supervised := hsupervised
  stopping := hnone
  registered := fun _ => ht.registered
  dated := fun hnil => by rw [ht.passes] at hnil; cases hnil
  ordered := ht.ordered h.ordered
  nonneg := ht.nonneg h
  paced := fun _ hbegan _ _ hrecord => ht.paced h hbegan hrecord
  runs := fun _ _ _ hchild _ => ht.runs h hchild
  closing := fun hlate _ _ hrecord => ht.closing h hlate hrecord
  rest := fun hlate _ _ hrecord => ht.rest h hlate hrecord

theorem not_lockedSection {i : ℕ} {op : Call} {next : Except String op.Reply → Thread}
    (ht : s.threads[i]? = some (.call op next)) (hsection : s.sectionOf (.run i env) = none) :
    ∀ apps, op ≠ .lockedSection apps := by
  rintro apps rfl
  rw [Sys.sectionOf_of_section (Sys.section?_eq ht)] at hsection
  cases hsection

theorem runs_setProcess_ne {pid q : Pid} {launch : Launch} (hne : pid ≠ q)
    (h : w.host.Runs pid launch) (p : Option Process) :
    (w.setProcess q p).host.Runs pid launch := by
  unfold Host.Runs at h ⊢
  rw [← h]
  exact Function.update_of_ne hne _ _

/-- Outside the sections an instance that nothing terminates goes on running. -/
theorem Sys.Step.runs_on (hstep : Sys.Step paths crates s a s') (hs : Supervised s)
    (hstop : ∀ env, a ≠ .stop env) (hsection : s.sectionOf a = none) (hleaves : s.LeavesApps a)
    {pid : Pid} {launch : Launch} (hchild : (s.world.entry name).child = some pid)
    (hterm : (s.world.entry name).termDeadline = none) (hruns : s.world.host.Runs pid launch) :
    s'.world.host.Runs pid launch := by
  have hlookup := World.lookup_of_entry hchild
  cases hstep with
  | run i env op next ht hopen =>
      have hframe : Frame s.world (perform paths crates env s.world op).1 :=
        perform_frame (lawful_main hs.lawful ht) (not_lockedSection ht hsection)
      unfold Host.Runs at hruns ⊢
      rwa [hframe.processes]
  | exit q status launch' hp =>
      refine runs_setProcess_ne ?_ hruns _
      rintro rfl
      have hkey : name ∈ s.world.procs.keys :=
        AList.mem_keys.1 (AList.lookup_isSome.1 (by rw [hlookup]; rfl))
      have hasked := hleaves name hkey hchild
      rw [hterm] at hasked
      cases hasked
  | collect q hexit htaken hheld =>
      refine runs_setProcess_ne ?_ hruns _
      rintro rfl
      exact hheld name ⟨_, hlookup, hchild⟩
  | foreign q hfree =>
      refine runs_setProcess_ne ?_ hruns _
      rintro rfl
      exact Option.some_ne_none _ (hruns.symm.trans hfree.2.2)
  | stop env => exact absurd rfl (hstop env)
  | _ => exact hruns

/-- Outside the sections the rows of apps and what the entries are decided by stay. -/
theorem Sys.Step.stays (hstep : Sys.Step paths crates s a s') (hs : Supervised s)
    (hstop : ∀ env, a ≠ .stop env) (hsection : s.sectionOf a = none) (hleaves : s.LeavesApps a) :
    s'.world.host.registry.app = s.world.host.registry.app ∧
      ∀ name, (s'.world.procs.lookup name).map Managed.decided =
        (s.world.procs.lookup name).map Managed.decided := by
  cases hstep with
  | run i env op next ht hopen =>
      have hmain := lawful_main hs.lawful ht
      have hop : op.leavesApps = true := hleaves op (Sys.call?_eq ht)
      exact ⟨perform_app hmain hop, perform_decided hmain (not_lockedSection ht hsection) hop⟩
  | stop env => exact absurd rfl (hstop env)
  | _ => exact ⟨rfl, fun _ => rfl⟩

theorem Calming.step (h : Calming since v) (hs : watched paths crates v a = some v')
    (hcalm : Calm paths since v a) : Calming since v' := by
  obtain ⟨hs', hps⟩ := ghostStep_eq_some hs
  have hstep := Sys.step_cases hs'
  have hstop := hstep.not_stop h.stopping
  have hsupervised := h.supervised.step hstep hstop
  have hnone := hstep.stopping_none h.stopping hcalm.1.1
  cases hsection : v.1.sectionOf a with
  | some found =>
      obtain ⟨env, apps⟩ := found
      exact h.section hsupervised hnone (h.ticked hs hcalm hsection)
  | none =>
      obtain ⟨happ, hdecided⟩ := hstep.stays h.supervised hstop hsection hcalm.2.1
      refine h.of_same hsupervised hnone ?_ happ hdecided fun name pid launch hchild hterm hruns =>
        hstep.runs_on h.supervised hstop hsection hcalm.2.1 hchild hterm hruns
      rw [hps, Daemon.passes, hsection]

/-! ## Where calm runs end -/

theorem late_ne_nil {ps : List Pass} (h : 1 ≤ late ps) : ps ≠ [] := by
  rintro rfl
  cases h

theorem Calming.settled (h : Calming since v) (hlate : 2 ≤ late v.2) : Settled v.1.world := by
  have hne := late_ne_nil (one_le_two.trans hlate)
  obtain ⟨t, hbegan⟩ := exists_began hne
  refine ⟨h.registered hne, fun name record hrecord => ?_⟩
  have hrest := h.rest hlate name record hrecord
  obtain ⟨m, hm⟩ := Option.isSome_iff_exists.1 (h.paced t hbegan name record hrecord).1
  have hentry := World.entry_of_lookup hm
  rw [hentry] at hrest
  refine ⟨m, hm, hrest, fun pid hchild => ?_⟩
  exact h.runs hne name pid (hentry ▸ hchild) (hentry ▸ hrest.1)

/-- A pass finds nothing to do in a settled world. -/
theorem Settled.quiescent (h : Settled w) (env : Env) :
    w.Quiescent env w.host.registry.listApps := by
  refine ⟨fun name hname => name_mem_listApps.2 (h.registered name hname), fun app happ => ?_⟩
  obtain ⟨record, hrecord, hrow⟩ := Option.map_eq_some_iff.1 (mem_listApps.1 happ)
  obtain ⟨m, hm, hrest, hruns⟩ := h.rest app.name record hrecord
  refine ⟨m, hm, ?_, ?_⟩
  · cases hchild : m.child with
    | none => simp [World.tryWait]
    | some pid =>
        obtain ⟨launch, hlaunch, -⟩ := hruns pid hchild
        unfold Host.Runs at hlaunch
        simp [World.tryWait, hlaunch]
  · refine AtRest.idles ?_ env
    rw [← hrow]
    exact hrest

/-- Let nobody write to the rows of apps or request a restart from some state on, let no app exit
unasked, let passes be atomic, see exits and start what they are due, and let what one of them
killed be gone when the next is made. Once two passes were made that came `maxBackoffSecs` after
the first one or later, every app is at rest with the instance it has, and no pass changes
anything. -/
theorem settles {s₀ : Sys} {clock : Option ℤ}
    (h₀ : ReachableWhen (clocked paths crates) (fun v => v.1.Started ∧ v.2 = none) Ticks
      (s₀, clock))
    (hsince : ∀ c ∈ clock, c ≤ since)
    (h : ReachableWhen (watched paths crates) (fun v => v = (s₀, [])) (Calm paths since) v)
    (hlate : 2 ≤ late v.2) :
    Settled v.1.world ∧ ∀ env, World.Undisturbed v.1.world
      (v.1.world.lockedSection paths env v.1.world.host.registry.listApps) := by
  have hcalming : Calming since v := by
    refine h.invariant (I := Calming since) ?_ fun v a v' ih hcalm hs => ih.step hs hcalm
    rintro v rfl
    obtain ⟨hsupervised, hnone, hclocked⟩ := clocked_reachable h₀
    exact {
      supervised := hsupervised
      stopping := hnone
      registered := fun hne => absurd rfl hne
      dated := fun _ => hclocked.dated hsince
      ordered := nofun
      nonneg := nofun
      paced := nofun
      runs := fun hne => absurd rfl hne
      closing := nofun
      rest := nofun }
  have hsettled := hcalming.settled hlate
  have hupkeep := hcalming.supervised.upkeep
  exact ⟨hsettled, fun env => (World.undisturbed_lockedSection_iff hupkeep.held
    hupkeep.coherent (nodup_listApps _)).2 (hsettled.quiescent env)⟩

section Runs

/-- Three passes: one that finds the instance asked to restart, one that kills it, and one that
starts the next. -/
def calmRun : List Action :=
  [.arrive .reconcileTick] ++ callsAt 0 2 3 ++ [.arrive .reconcileTick] ++ callsAt 60 3 3 ++
    [.exit 1 (.code 0), .arrive .reconcileTick] ++ callsAt 61 4 2 ++
      [.run 4 { launches 2 with now := 61 }]

theorem settles_calmRun :
    ∃ v₀ v, runWhen (clocked (Paths.ofRoot "/r") (Crates.plainCrates [] [])) Ticks ({}, none)
        askedRun = some v₀ ∧
      runWhen (watched (Paths.ofRoot "/r") (Crates.plainCrates [] []))
        (Calm (Paths.ofRoot "/r") 0) (v₀.1, []) calmRun = some v ∧
      v.2 = [(61, []), (60, [1]), (0, [])] ∧ Settled v.1.world ∧
      ∀ env, World.Undisturbed v.1.world
        (v.1.world.lockedSection (Paths.ofRoot "/r") env v.1.world.host.registry.listApps) := by
  have hrun : (runWhen (clocked (Paths.ofRoot "/r") (Crates.plainCrates [] [])) Ticks ({}, none)
      askedRun).map (fun v₀ => (v₀.2, (runWhen
        (watched (Paths.ofRoot "/r") (Crates.plainCrates [] [])) (Calm (Paths.ofRoot "/r") 0)
          (v₀.1, []) calmRun).map (·.2))) =
        some (some 0, some [(61, []), (60, [1]), (0, [])]) := by
    decide
  obtain ⟨v₀, hv₀, hval⟩ := Option.map_eq_some_iff.1 hrun
  obtain ⟨hclock, hcalm⟩ := Prod.mk.inj hval
  obtain ⟨v, hv, hpasses⟩ := Option.map_eq_some_iff.1 hcalm
  have hlate : 2 ≤ late v.2 := by
    rw [hpasses]
    decide
  refine ⟨v₀, v, hv₀, hv, hpasses, @settles _ _ _ _ v₀.1 v₀.2
    (ReachableWhen.runWhen (.start ⟨fresh_default.started, rfl⟩) hv₀) (fun c hc => ?_)
    (ReachableWhen.runWhen (.start rfl) hv) hlate⟩
  rw [hclock] at hc
  exact (Option.some.inj hc).ge

end Runs

/-! ## Passes that change nothing -/

/-- In every state that the daemon reaches before `stop_all` begins, a pass leaves the world
undisturbed if and only if exactly the apps of its snapshot are tracked and each of them idles. -/
theorem undisturbed_iff (h : Reachable (Sys.step paths crates) Sys.Started s)
    (hsection : s.sectionOf a = some (env, apps)) (hs : s.step paths crates a = some s')
    (hstop : s'.stopping = none) :
    World.Undisturbed s.world s'.world ↔ World.Quiescent env s.world apps := by
  have hstep := Sys.step_cases hs
  obtain ⟨hbefore, hnot⟩ := hstep.of_not_stopping hstop
  have hsupervised := supervised_reachable h hbefore
  rcases hstep.entries hsupervised hnot with ⟨env', apps', hfound, hworld, hnodup⟩ | ⟨hnone, -⟩
  · rw [hsection, Option.some.injEq, Prod.mk.injEq] at hfound
    obtain ⟨rfl, rfl⟩ := hfound
    rw [hworld]
    exact World.undisturbed_lockedSection_iff hsupervised.upkeep.held hsupervised.upkeep.coherent
      hnodup
  · rw [hsection] at hnone
    cases hnone

section Runs

/-- A second pass for the running app, up to its section. -/
def idleRun : List Action := deployRun 0 1 ++ [.arrive .reconcileTick] ++ calls 1 2

theorem undisturbed_iff_idleRun :
    ∃ s s', run (Sys.step (Paths.ofRoot "/r") (Crates.plainCrates [] [])) {} idleRun = some s ∧
      s.step (Paths.ofRoot "/r") (Crates.plainCrates [] []) (.run 1 {}) = some s' ∧
      World.Undisturbed s.world s'.world := by
  have hrun : (run (Sys.step (Paths.ofRoot "/r") (Crates.plainCrates [] [])) {} idleRun).map
      (fun s => ((s.section? 1).map fun apps => decide (World.Quiescent {} s.world apps),
        (s.step (Paths.ofRoot "/r") (Crates.plainCrates [] []) (.run 1 {})).map
          fun s' => s'.stopping.isNone)) = some (some true, some true) := by
    decide
  obtain ⟨s, hs, hval⟩ := Option.map_eq_some_iff.1 hrun
  obtain ⟨hsection, hstep⟩ := Prod.mk.inj hval
  obtain ⟨apps, happs, hquiescent⟩ := Option.map_eq_some_iff.1 hsection
  obtain ⟨s', hs', hnone⟩ := Option.map_eq_some_iff.1 hstep
  exact ⟨s, s', hs, hs', (undisturbed_iff (ReachableWhen.runWhen (.start fresh_default.started) hs)
    (Sys.sectionOf_of_section happs _) hs' (Option.isNone_iff_eq_none.1 hnone)).2
    (of_decide_eq_true hquiescent)⟩

end Runs

end Daemon

end Nockd
