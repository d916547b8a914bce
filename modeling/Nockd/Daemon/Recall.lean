import Nockd.Daemon.Backoff
import Nockd.Daemon.Policy

/-!
# Bringing an app back

A deploy, a restart, a reload and a rollback set their app to run and then ask for its
restart. From there on the app is owed an instance: its entry has no child and
no deadline of a crash, or it has a child whose exit will count as asked for. The next pass whose
spawn succeeds starts the app, unless its policy is "never" and its counter is up.
-/

namespace Nockd

namespace Daemon

open Api Config Interleaving Registry Store Supervisor

namespace Sys

/-- The action is this call. -/
def Makes (s : Sys) (op : Call) : Action → Prop
  | .run i _ => s.call? i = some op
  | _ => False

instance (s : Sys) (op : Call) (a : Action) : Decidable (s.Makes op a) :=
  match a with
  | .run i _ => inferInstanceAs (Decidable (s.call? i = some op))
  | .arrive _ => .isFalse id
  | .fail _ _ => .isFalse id
  | .exit _ _ => .isFalse id
  | .collect _ => .isFalse id
  | .foreign _ => .isFalse id
  | .beginStop => .isFalse id
  | .stop _ => .isFalse id

/-- Passes are atomic, and nobody stops the app. -/
def Undisturbed (name : String) (s : Sys) (a : Action) : Prop :=
  s.Atomic a ∧ ¬ s.Makes (.write (.setDesired name "stopped")) a

instance (name : String) (s : Sys) (a : Action) : Decidable (s.Undisturbed name a) :=
  inferInstanceAs (Decidable (_ ∧ _))

end Sys

/-- The action is a call of thread `i`. -/
def Action.isRun (i : ℕ) : Action → Bool
  | .run j _ => j = i
  | _ => false

/-- What a request has led to: its handler has still to ask for the restart, or the
app is owed an instance from a time on, or a pass has started one. -/
inductive Debt where
  | asking
  | owed (since : ℤ)
  | met
deriving DecidableEq

/-- The debt after an action, when thread `i` is the handler. A spawn that fails puts the
time off, and every further request for the app renews the debt. -/
def Debt.follow (paths : Paths) (name : String) (i : ℕ) (s : Sys) (a : Action) (debt : Debt) :
    Debt :=
  match s.sectionOf a with
  | some (env, apps) =>
    match debt, apps.find? (·.name = name) with
    | .owed d, some app =>
      if s.world.Due env app then
        if s.world.spawnOk paths env apps app then .met
        else .owed (env.now + backoffSecs ((s.world.entry name).restarts + 1))
      else .owed d
    | debt, _ => debt
  | none => if s.Requests name a ∧ (debt ≠ .asking ∨ a.isRun i = true) then .owed 0 else debt

/-- The daemon, with the debt of thread `i`. -/
abbrev owing (paths : Paths) (crates : Crates) (name : String) (i : ℕ) :
    Sys × Debt → Action → Option (Sys × Debt) :=
  ghostStep (Sys.step paths crates) (Debt.follow paths name i)

variable {paths : Paths} {crates : Crates} {name : String} {s s' s₀ s₁ : Sys} {a : Action}
  {env : Env} {apps : List AppRow} {app : AppRow} {w w' : World} {r : Registry} {d : ℤ} {i : ℕ}

/-! ## Rows of apps that are to run -/

def Wanted (name : String) (r : Registry) : Prop :=
  ∀ row, r.app.lookup name = some row → row.desiredStatus ≠ "stopped"

theorem Wanted.of_quiet {r' : Registry} (h : Wanted name r) (hquiet : r'.quiet = r.quiet) :
    Wanted name r' := by
  have hlookup : r'.app.lookup name = r.app.lookup name :=
    congr_of_quiet (·.app.lookup name) (fun _ => rfl) hquiet
  intro row hrow
  exact h row (hlookup ▸ hrow)

theorem Wanted.modify (h : Wanted name r) {other : String} {f : AppRecord → AppRecord}
    (hf : other = name → ∀ row, row.desiredStatus ≠ "stopped" →
      (f row).desiredStatus ≠ "stopped") :
    Wanted name { r with app := Table.modify r.app other f } := by
  intro row hrow
  by_cases hname : name = other
  · subst hname
    rw [Table.lookup_modify, Option.map_eq_some_iff] at hrow
    obtain ⟨row', hrow', rfl⟩ := hrow
    exact hf rfl row' (h row' hrow')
  · rw [Table.lookup_modify_ne _ _ hname] at hrow
    exact h row hrow

theorem wanted_upsert (u : AppUpsert) (now : ℤ) (h : u.name = name ∨ Wanted name r) :
    Wanted name (r.upsertApp now u) := by
  intro row hrow
  by_cases hname : name = u.name
  · subst hname
    simp only [upsertApp, AList.lookup_insert, Option.some.injEq] at hrow
    rw [← hrow]
    exact (by decide : "running" ≠ "stopped")
  · simp only [upsertApp, AList.lookup_insert_ne hname] at hrow
    exact h.resolve_left (Ne.symm hname) row hrow

theorem Wanted.exec (h : Wanted name r) {st : Statement} (hst : st ≠ .setDesired name "stopped")
    (now : ℤ) : Wanted name (st.exec now r) := by
  cases st with
  | upsertApp u => exact wanted_upsert u now (Or.inr h)
  | updateAppConfig other c => exact h.modify fun _ _ hrow => hrow
  | setAppArtifact other hash => exact h.modify fun _ _ hrow => hrow
  | setDesired other desired =>
      refine h.modify ?_
      rintro rfl row - rfl
      exact hst rfl
  | addTrustedBuilder pubkey =>
      intro row hrow
      simp only [Statement.exec, addTrustedBuilder] at hrow
      split at hrow
      · exact h row hrow
      · exact h row hrow
  | _ => exact h

theorem wanted_of_wakes {op : Call} (h : op.wakes name) (paths : Paths) (crates : Crates)
    (env : Env) (w : World) : Wanted name (perform paths crates env w op).1.host.registry := by
  cases op with
  | write st =>
      cases st with
      | upsertApp u => exact wanted_upsert u env.now (Or.inl h)
      | setDesired other desired =>
          obtain ⟨rfl, hdesired⟩ := h
          intro row hrow
          simp only [perform, World.mapRegistry, Statement.exec, Registry.setDesired,
            Table.lookup_modify, Option.map_eq_some_iff] at hrow
          obtain ⟨row', -, rfl⟩ := hrow
          exact hdesired
      | _ => exact h.elim
  | _ => exact h.elim

theorem Wanted.perform (h : Wanted name w.host.registry) {op : Call}
    (hop : op ≠ .write (.setDesired name "stopped")) (paths : Paths) (crates : Crates) (env : Env) :
    Wanted name (perform paths crates env w op).1.host.registry := by
  cases hst : op.statement with
  | none => exact h.of_quiet (perform_quiet paths crates env w hst)
  | some st =>
      cases op with
      | write st => exact h.exec (fun heq => hop (heq ▸ rfl)) env.now
      | _ => cases hst

theorem Sys.Step.wanted (hstep : Sys.Step paths crates s a s') (hstop : ∀ env, a ≠ .stop env)
    (hnot : ¬ s.Makes (.write (.setDesired name "stopped")) a)
    (h : Wanted name s.world.host.registry) : Wanted name s'.world.host.registry := by
  cases hstep with
  | run i env op next ht hopen =>
      refine h.perform ?_ paths crates env
      rintro rfl
      exact hnot (by rw [Sys.Makes, Sys.call?, ht])
  | stop env => exact absurd rfl (hstop env)
  | _ => exact h

/-! ## Waiting for the start -/

/-- The app has no child and its deadline is `d`, or its child has been asked to
make place for a new one. -/
def Waiting (d : ℤ) (m : Managed) : Prop :=
  m.child = none ∧ m.backoffUntil = d ∨
    m.child.isSome = true ∧ m.restartRequested = true ∧ d = 0

theorem Waiting.of_core {m m' : Managed} (h : Waiting d m) (hcore : m'.core = m.core) :
    Waiting d m' := by
  have hchild : m'.child = m.child := congrArg Core.child hcore
  have hbackoff : m'.backoffUntil = m.backoffUntil := congrArg Core.backoffUntil hcore
  have hrestart : m'.restartRequested = m.restartRequested := congrArg Core.restartRequested hcore
  unfold Waiting
  rw [hchild, hbackoff, hrestart]
  exact h

/-- What the first sweep makes of a waiting entry. -/
theorem Waiting.afterReap (h : Waiting d (w.entry name)) (env : Env) :
    Waiting d (w.afterReap env name) ∧
      (w.afterReap env name).restarts = (w.entry name).restarts := by
  rcases h with ⟨hchild, hbackoff⟩ | ⟨hchild, hrestart, rfl⟩
  · rw [World.afterReap_of_no_child hchild]
    exact ⟨Or.inl ⟨hchild, hbackoff⟩, rfl⟩
  · unfold World.afterReap World.entry at *
    cases hm : w.procs.lookup name with
    | none =>
        rw [hm] at hchild
        cases hchild
    | some m =>
        simp only [hm, Option.getD_some] at hchild hrestart ⊢
        split
        · rw [Managed.reaped, if_pos hrestart]
          exact ⟨Or.inl ⟨rfl, rfl⟩, rfl⟩
        · exact ⟨Or.inr ⟨hchild, hrestart, rfl⟩, rfl⟩

theorem waiting_requested (h : w.Coherent) (env : Env) (name : String) :
    Waiting 0 ((w.requestRestart env name).entry name) := by
  obtain ⟨hbackoff, -, -, hrestart⟩ := requestRestart_entry h env name
  cases hchild : ((w.requestRestart env name).entry name).child with
  | none => exact Or.inl ⟨hchild, hbackoff⟩
  | some pid => exact Or.inr ⟨by rw [hchild]; rfl, hrestart (by rw [hchild]; rfl), rfl⟩

/-- A section that does not start the app leaves it waiting. -/
theorem Waiting.section (h : Waiting d (w.entry app.name)) (paths : Paths) (hheld : w.Held)
    (hnodup : (apps.map (·.name)).Nodup) (happ : app ∈ apps)
    (hnot : ¬(w.Due env app ∧ w.spawnOk paths env apps app = true)) :
    Waiting (if w.Due env app then
        env.now + backoffSecs ((w.entry app.name).restarts + 1) else d)
      ((w.lockedSection paths env apps).entry app.name) := by
  obtain ⟨hreaped, hrestarts⟩ := h.afterReap env
  rw [World.lockedSection_entry hheld hnodup happ]
  by_cases hdue : w.Due env app
  · rw [if_pos hdue, World.driven_startable hdue]
    cases hresult : (w.reached paths env apps app.name).launchResult paths env app with
    | ok pid => exact absurd ⟨hdue, by rw [World.spawnOk, hresult]; rfl⟩ hnot
    | error e => exact Or.inl ⟨hdue.2.1, by simp only [Managed.spawnFailed, hrestarts]⟩
  · rw [if_neg hdue]
    obtain ⟨hchild, -, hbackoff, hrestart⟩ := World.driven_of_not_startable hdue
      ((w.reached paths env apps app.name).launchResult paths env app)
    unfold Waiting
    rw [hchild, hbackoff, hrestart]
    exact hreaped

/-! ## The invariant -/

theorem Sys.Requests.unique {other : String} (h : s.Requests name a)
    (hother : s.Requests other a) : name = other := by
  cases a with
  | run i env =>
      have heq : some (Call.requestRestart name) = some (.requestRestart other) :=
        h.symm.trans hother
      cases heq
      rfl
  | _ => exact h.elim

/-- A run in which a pass sees all rows of now sees all live apps. -/
theorem seesLive_of_atomic (hpassing : Passing s) (hatomic : s.Atomic a) : s.SeesLive a := by
  refine hatomic.2.mono ?_
  rintro env apps rfl name hname
  rw [name_mem_listApps]
  refine hpassing.registered name ?_
  rw [World.liveNames, List.mem_filter] at hname
  exact AList.lookup_isSome.2 (AList.mem_keys.2 hname.1)

/-- What holds in a run with atomic passes on a host without other instances. -/
structure Orderly (s : Sys) : Prop where
  passing : Passing s
  tidy : Tidy s

theorem Orderly.step (h : Orderly s) (hstep : Sys.Step paths crates s a s')
    (hatomic : s.Atomic a) : Orderly s' where
  passing := h.passing.step hstep hatomic
  tidy := h.tidy.step hstep (seesLive_of_atomic h.passing hatomic)
    (hstep.not_stop h.passing.stopping)

theorem orderly_reachable (h : ReachableWhen (Sys.step paths crates) Sys.Fresh Sys.Atomic s) :
    Orderly s :=
  h.invariant (fun _ hfresh => ⟨Passing.of_started hfresh.started, Tidy.of_fresh hfresh⟩)
    fun _ _ _ ih hatomic hs => ih.step (Sys.step_cases hs) hatomic

theorem entry_of_unregistered (h : Registered w) (hname : name ∉ w.host.registry.app.keys) :
    w.entry name = {} := by
  rw [World.entry, not_mem_of_untracked h hname]
  rfl

/-- What a step does to a thread that is in flight. -/
theorem Sys.Step.thread (hstep : Sys.Step paths crates s a s') {t : Thread}
    (ht : s.threads[i]? = some t) :
    s'.threads[i]? = some t ∨
      (∃ env op next, a = .run i env ∧ t = .call op next ∧
        s'.world = (perform paths crates env s.world op).1 ∧
        s'.threads[i]? = some (next (.ok (perform paths crates env s.world op).2))) ∨
      ∃ message op next, a = .fail i message ∧ t = .call op next ∧ op.fallible = true ∧
        s'.threads[i]? = some (next (.error message)) := by
  have hlt : i < s.threads.length := (List.getElem?_eq_some_iff.1 ht).1
  cases hstep with
  | arrive r => exact Or.inl (by rw [List.getElem?_append_left hlt, ht])
  | run j env op next hj hopen =>
      by_cases hij : j = i
      · subst hij
        rw [hj] at ht
        cases ht
        exact Or.inr (Or.inl ⟨env, op, next, rfl, rfl, rfl, List.getElem?_set_self hlt⟩)
      · exact Or.inl (by rw [List.getElem?_set_ne hij, ht])
  | fail j message op next hj hfallible =>
      by_cases hij : j = i
      · subst hij
        rw [hj] at ht
        cases ht
        exact Or.inr (Or.inr ⟨message, op, next, rfl, rfl, hfallible, List.getElem?_set_self hlt⟩)
      · exact Or.inl (by rw [List.getElem?_set_ne hij, ht])
  | _ => exact Or.inl ht

theorem sectionOf_of_requests (h : s.Requests name a) : s.sectionOf a = none := by
  cases a with
  | run j env =>
      have hcall : s.call? j = some (.requestRestart name) := h
      unfold Sys.call? at hcall
      rw [Sys.sectionOf_run, Option.map_eq_none_iff, Sys.section?]
      split at hcall
      case h_1 ht =>
        cases hcall
        rw [ht]
      case h_2 => cases hcall
  | _ => exact h.elim

/-- The debt begins with the request of thread `i`. -/
theorem follow_eq_asking {debt : Debt} :
    Debt.follow paths name i s a debt = .asking ↔
      debt = .asking ∧ ¬(s.Requests name a ∧ a.isRun i = true) := by
  cases hsection : s.sectionOf a with
  | none =>
      unfold Debt.follow
      rw [hsection]
      by_cases hasking : debt = .asking
      · by_cases hrequest : s.Requests name a ∧ a.isRun i = true <;> simp [hasking, hrequest]
      · simp only [hasking, ne_eq, not_false_eq_true, true_or, and_true, false_and, iff_false]
        split_ifs
        · exact not_false
        · exact hasking
  | some x =>
      have hrequest : ¬ s.Requests name a := by
        intro h
        rw [sectionOf_of_requests h] at hsection
        cases hsection
      unfold Debt.follow
      rw [hsection]
      cases debt with
      | owed d =>
          cases hfind : x.2.find? (·.name = name) with
          | none => simp [hfind]
          | some app =>
              simp only [hfind, reduceCtorEq, false_and, iff_false]
              split_ifs <;> exact not_false
      | _ => simp [hrequest]

/-- An app whose entry holds no child has no instance that runs. -/
theorem Tidy.gone (h : Tidy s) (hchild : (s.world.entry name).child = none) :
    ∀ pid launch, s.world.host.Runs pid launch → launch.app ≠ name := by
  rintro pid launch hruns rfl
  obtain ⟨m, hm, hpid⟩ := (h.tracked pid launch hruns).resolve_right (by simp [h.taken])
  rw [World.entry_of_lookup hm, hpid] at hchild
  cases hchild

/-- As long as thread `i` has to ask it will, for an app that is then to run; as
long as the app is owed an instance, it waits for one. -/
structure Recalling (name : String) (i : ℕ) (v : Sys × Debt) : Prop where
  orderly : Orderly v.1
  asking : v.2 = .asking → ∃ t, v.1.threads[i]? = some t ∧
    t.Via (Call.wakes name) (Call.restarts name) (Wanted name v.1.world.host.registry)
  wanted : v.2 ≠ .asking → Wanted name v.1.world.host.registry
  waiting : ∀ d, v.2 = .owed d → Waiting d (v.1.world.entry name)

variable {v v' : Sys × Debt}

/-- The thread that makes the first request has set the app to run. -/
theorem Recalling.wanted_of_asks (h : Recalling name i v) (hasking : v.2 = .asking)
    (hrequest : v.1.Requests name a) (hrun : a.isRun i = true) :
    Wanted name v.1.world.host.registry := by
  obtain ⟨t, ht, hvia⟩ := h.asking hasking
  cases a with
  | run j env =>
      obtain rfl : j = i := by simpa [Action.isRun] using hrun
      have hcall : v.1.call? j = some (.requestRestart name) := hrequest
      rw [Sys.call?, ht] at hcall
      cases t with
      | call op next =>
          cases hcall
          rcases hvia with ⟨-, hwanted⟩ | ⟨hnot, -⟩
          · exact hwanted
          · exact absurd rfl hnot
      | _ => cases hcall
  | _ => exact hrequest.elim

theorem Recalling.asking_step (h : Recalling name i v) (hasking : v.2 = .asking)
    (hstep : Sys.Step paths crates v.1 a s') (hnot : ¬(v.1.Requests name a ∧ a.isRun i = true))
    (hkept : Wanted name v.1.world.host.registry → Wanted name s'.world.host.registry) :
    ∃ t, s'.threads[i]? = some t ∧
      t.Via (Call.wakes name) (Call.restarts name) (Wanted name s'.world.host.registry) := by
  obtain ⟨t, ht, hvia⟩ := h.asking hasking
  rcases hstep.thread ht with hsame | ⟨env, op, next, rfl, rfl, hworld, hnext⟩ |
    ⟨message, op, next, rfl, rfl, hfallible, hnext⟩
  · exact ⟨t, hsame, hvia.mono hkept⟩
  · rcases hvia with ⟨hop, -⟩ | ⟨-, hok, -⟩
    · cases hop
      exact absurd ⟨by rw [Sys.Requests, Sys.call?, ht], by simp [Action.isRun]⟩ hnot
    · refine ⟨_, hnext, (hok _).mono ?_⟩
      rintro (hwanted | hwakes)
      · exact hkept hwanted
      · rw [hworld]
        exact wanted_of_wakes hwakes paths crates env v.1.world
  · rcases hvia with ⟨hop, -⟩ | ⟨-, -, herror⟩
    · cases hop
      cases hfallible
    · exact ⟨_, hnext, (herror message).mono hkept⟩

/-- After a section the app is still owed an instance only if it has not been started. -/
theorem Recalling.waiting_section (h : Recalling name i v)
    (hguard : v.1.Undisturbed name a) (hsection : v.1.sectionOf a = some (env, apps))
    (hnodup : (apps.map (·.name)).Nodup)
    (hd : Debt.follow paths name i v.1 a v.2 = .owed d) :
    Waiting d ((v.1.world.lockedSection paths env apps).entry name) := by
  have hpassing := h.orderly.passing
  rw [Debt.follow, hsection] at hd
  cases hdebt : v.2 with
  | asking => simp [hdebt] at hd
  | met => simp [hdebt] at hd
  | owed d' =>
      have hwaiting := h.waiting d' hdebt
      cases hfind : apps.find? (·.name = name) with
      | none =>
          simp only [hdebt, hfind, Debt.owed.injEq] at hd
          have hname : name ∉ apps.map (·.name) := by
            intro hmem
            obtain ⟨app, happ, rfl⟩ := List.mem_map.1 hmem
            exact absurd (List.find?_eq_none.1 hfind app happ) (by simp)
          have hbefore : v.1.world.entry name = {} := by
            refine entry_of_unregistered hpassing.registered ?_
            rwa [hguard.1.2.of_sectionOf hsection, name_mem_listApps] at hname
          rw [entry_of_not_mem hname, ← hbefore, ← hd]
          exact hwaiting
      | some app =>
          simp only [hdebt, hfind] at hd
          have happ := List.mem_of_find?_eq_some hfind
          obtain rfl : app.name = name := by simpa using List.find?_some hfind
          by_cases hdue : v.1.world.Due env app
          · have hok : ¬ v.1.world.spawnOk paths env apps app = true := by
              intro hok
              rw [if_pos hdue, if_pos hok] at hd
              cases hd
            rw [if_pos hdue, if_neg hok, Debt.owed.injEq] at hd
            have hwait := hwaiting.section paths hpassing.supervised.upkeep.held hnodup happ
              fun h => hok h.2
            rwa [if_pos hdue, hd] at hwait
          · rw [if_neg hdue, Debt.owed.injEq] at hd
            have hwait := hwaiting.section paths hpassing.supervised.upkeep.held hnodup
              happ fun h => hdue h.1
            rwa [if_neg hdue, hd] at hwait

theorem Recalling.waiting_step (h : Recalling name i v) (hstep : Sys.Step paths crates v.1 a s')
    (hguard : v.1.Undisturbed name a) (hd : Debt.follow paths name i v.1 a v.2 = .owed d) :
    Waiting d (s'.world.entry name) := by
  have hpassing := h.orderly.passing
  rcases hstep.entries hpassing.supervised (hstep.not_stop hpassing.stopping) with
    ⟨env, apps, hsection, hworld, hnodup⟩ |
    ⟨hsection, ⟨env, other, hother, hworld⟩ | ⟨hother, hcores⟩⟩
  · rw [hworld]
    exact h.waiting_section hguard hsection hnodup hd
  · rw [hworld]
    simp only [Debt.follow, hsection] at hd
    split at hd
    case isTrue hrequest =>
      cases hd
      rw [hrequest.1.unique hother]
      exact waiting_requested hpassing.supervised.upkeep.coherent env other
    case isFalse hrequest =>
      have hname : name ≠ other := by
        rintro rfl
        exact hrequest ⟨hother, Or.inl fun hasking => by simp [hasking] at hd⟩
      rw [requestRestart_entry_ne env _ hname]
      exact h.waiting d hd
  · simp only [Debt.follow, hsection] at hd
    rw [if_neg fun hrequest => hother name hrequest.1] at hd
    exact (h.waiting d hd).of_core (hcores.entry name)

theorem Recalling.step (h : Recalling name i v) (hs : owing paths crates name i v a = some v')
    (hguard : v.1.Undisturbed name a) : Recalling name i v' := by
  obtain ⟨hs, hdebt⟩ := ghostStep_eq_some hs
  have hstep := Sys.step_cases hs
  have hkept := hstep.wanted (hstep.not_stop h.orderly.passing.stopping) hguard.2
  refine ⟨h.orderly.step hstep hguard.1, fun hasking => ?_, fun hasking => hkept ?_, fun d hd => ?_⟩
  · obtain ⟨hbefore, hnot⟩ := follow_eq_asking.1 (hdebt.symm.trans hasking)
    exact h.asking_step hbefore hstep hnot hkept
  · by_cases hbefore : v.2 = .asking
    · obtain ⟨hrequest, hrun⟩ : v.1.Requests name a ∧ a.isRun i = true := by
        by_contra hnot
        exact hasking (hdebt.trans (follow_eq_asking.2 ⟨hbefore, hnot⟩))
      exact h.wanted_of_asks hbefore hrequest hrun
    · exact h.wanted hbefore
  · exact h.waiting_step hstep hguard (hdebt.symm.trans hd)

/-! ## The start -/

/-- The pass can collect the exit of the app's earlier child, and the policy does
not keep the app down. -/
def Returns (env : Env) (w : World) (app : AppRow) : Prop :=
  ((w.entry app.name).child = none ∨ env.tryWaitErr app.name = false) ∧
    ¬(app.restartPolicy = "never" ∧ 0 < (w.entry app.name).restarts)

instance (env : Env) (w : World) (app : AppRow) : Decidable (Returns env w app) :=
  inferInstanceAs (Decidable (_ ∧ _))

/-- The first sweep leaves an entry without a child, if it can collect the exit. -/
theorem afterReap_child_of_gone (hheld : w.Held)
    (hgone : ∀ pid launch, w.host.Runs pid launch → launch.app ≠ name) :
    (w.afterReap env name).child = none ↔
      (w.entry name).child = none ∨ env.tryWaitErr name = false := by
  cases hc : (w.entry name).child with
  | none => simp [World.afterReap_of_no_child hc, hc]
  | some pid =>
      have hm := World.lookup_of_entry hc
      obtain ⟨launch, exit, hp, happ, -⟩ := hheld.started name _ pid hm hc
      have hexit : exit ≠ none := by
        rintro rfl
        exact hgone pid launch hp happ
      obtain ⟨status, rfl⟩ := Option.ne_none_iff_exists'.1 hexit
      unfold World.afterReap
      simp only [hm, World.tryWait, hc, reduceCtorEq, false_or]
      by_cases herr : env.tryWaitErr name = true
      · simp [herr, hc]
      · simp [herr, hp]

/-- A waiting app whose time has come is due. -/
theorem due_of_waiting (h : Waiting d (w.entry app.name)) (hheld : w.Held)
    (hrunning : app.desiredStatus ≠ "stopped")
    (hgone : ∀ pid launch, w.host.Runs pid launch → launch.app ≠ app.name) (hnow : d ≤ env.now) :
    w.Due env app ↔ Returns env w app := by
  obtain ⟨hreaped, hrestarts⟩ := h.afterReap env
  unfold Returns
  rw [← afterReap_child_of_gone hheld hgone, ← hrestarts]
  constructor
  · intro hdue
    exact ⟨hdue.2.1, hdue.2.2.1⟩
  · rintro ⟨hchild, hpolicy⟩
    refine ⟨hrunning, hchild, hpolicy, ?_⟩
    rcases hreaped with ⟨-, hbackoff⟩ | ⟨hsome, -⟩
    · exact hbackoff ▸ hnow
    · rw [hchild] at hsome
      cases hsome

/-- A pass that owes the app an instance, and whose spawn succeeds. -/
theorem Recalling.returns_once (h : Recalling name i v) (hd : v.2 = .owed d)
    (hatomic : v.1.Atomic a) (hsection : v.1.sectionOf a = some (env, apps)) (happ : app ∈ apps)
    (hname : app.name = name)
    (hgone : ∀ pid launch, v.1.world.host.Runs pid launch → launch.app ≠ name)
    (hnow : d ≤ env.now) (hok : v.1.world.spawnOk paths env apps app = true)
    (hs : v.1.step paths crates a = some s') :
    (∃! pid, ∃ launch, launch.app = name ∧ s'.world.host.Runs pid launch) ↔
      Returns env v.1.world app := by
  subst hname
  have hstep := Sys.step_cases hs
  have hpassing := h.orderly.passing
  have hheld := hpassing.supervised.upkeep.held
  have hrunning : app.desiredStatus ≠ "stopped" := by
    rw [hatomic.2.of_sectionOf hsection, mem_listApps] at happ
    obtain ⟨row, hrow, happ⟩ := Option.map_eq_some_iff.1 happ
    rw [← happ]
    exact h.wanted (by rw [hd]; exact Debt.noConfusion) row hrow
  rw [← due_of_waiting (h.waiting d hd) hheld hrunning hgone hnow]
  rcases hstep.entries hpassing.supervised (hstep.not_stop hpassing.stopping) with
    ⟨env', apps', hsection', hworld, hnodup⟩ | ⟨hnone, -⟩
  · rw [hsection] at hsection'
    cases hsection'
    constructor
    · rintro ⟨pid, ⟨launch, hname, hruns⟩, -⟩
      by_contra hdue
      rw [hworld] at hruns
      refine World.lockedSection_not_starts hnodup (fun row hrow hrow' => ?_)
        ⟨pid, launch, hname, hruns, fun hbefore => hgone pid launch hbefore hname⟩
      rw [World.eq_of_name_eq hnodup happ hrow hrow']
      exact hdue
    · intro hdue
      obtain ⟨pid, launch, hname, hruns, -⟩ :=
        World.lockedSection_starts hheld hnodup happ hdue hok
      rw [← hworld] at hruns
      refine ⟨pid, ⟨launch, hname, hruns⟩, ?_⟩
      rintro pid' ⟨launch', hname', hruns'⟩
      exact (h.orderly.step hstep hatomic).tidy.oneWriter pid' pid launch' launch hruns' hruns
        (hname'.trans hname.symm)
  · rw [hsection] at hnone
    cases hnone

theorem recalling_reachable (h : ReachableWhen (Sys.step paths crates) Sys.Fresh Sys.Atomic s₀)
    {req : Request} (hreq : req.recalls name)
    (harrive : s₀.step paths crates (.arrive req) = some s₁)
    (hrun : ReachableWhen (owing paths crates name s₀.threads.length) (· = (s₁, .asking))
      (fun v a => v.1.Undisturbed name a) v) : Recalling name s₀.threads.length v := by
  refine hrun.invariant (I := Recalling name _) ?_ fun v a v' ih hguard hs => ih.step hs hguard
  rintro _ rfl
  refine ⟨(orderly_reachable h).step (Sys.step_cases harrive) ⟨rfl, trivial⟩, fun _ => ?_,
    fun hne => absurd rfl hne, fun d hd => by cases hd⟩
  cases harrive
  exact ⟨req.handler paths crates, by simp, (handler_recalls hreq).mono False.elim⟩

/-- A deploy, restart, reload or rollback of an app that has succeeded has made the daemon
owe the app an instance. Once the earlier process has exited, the next pass
whose spawn succeeds leaves exactly one instance, if and only if it can collect that exit and
the policy does not keep the app down. -/
theorem recalled_app_returns (h : ReachableWhen (Sys.step paths crates) Sys.Fresh Sys.Atomic s₀)
    {req : Request} (hreq : req.recalls name)
    (harrive : s₀.step paths crates (.arrive req) = some s₁)
    (hrun : ReachableWhen (owing paths crates name s₀.threads.length) (· = (s₁, .asking))
      (fun v a => v.1.Undisturbed name a) v) :
    (∀ resp, v.1.threads[s₀.threads.length]? = some (.pure resp) → v.2 ≠ .asking) ∧
      ∀ d a env apps app s', v.2 = .owed d → v.1.Atomic a → v.1.sectionOf a = some (env, apps) →
        app ∈ apps → app.name = name →
        (∀ pid launch, v.1.world.host.Runs pid launch → launch.app ≠ name) → d ≤ env.now →
        v.1.world.spawnOk paths env apps app = true → v.1.step paths crates a = some s' →
          ((∃! pid, ∃ launch, launch.app = name ∧ s'.world.host.Runs pid launch) ↔
            Returns env v.1.world app) := by
  have hrecalling := recalling_reachable h hreq harrive hrun
  constructor
  · intro resp hdone hasking
    -- a thread that has returned asks for nothing more
    obtain ⟨t, ht, hvia⟩ := hrecalling.asking hasking
    rw [hdone] at ht
    cases ht
    exact hvia
  · intro d a env apps app s' hd hatomic hsection happ hname hgone hnow hok hs
    exact hrecalling.returns_once hd hatomic hsection happ hname hgone hnow hok hs

section Runs

/-- The instance of `a`, deployed under a policy, crashes, and a pass records that. -/
def crashedUnder (policy : String) : List Action :=
  [.arrive (.deploy { name := "a", targetTriple := "t", binB64 := "a", restart := policy })] ++
    calls 0 10 ++ [.run 0 (launches 1), .exit 1 (.code 7), .arrive .reconcileTick] ++ calls 1 3

abbrev owingA : ℕ → Sys × Debt → Action → Option (Sys × Debt) :=
  owing (Paths.ofRoot "/r") (Crates.plainCrates [] []) "a"

/-- The restart of `a`, up to the section of its own pass. -/
def recallRun : List Action := calls 2 6

/-- The restart of `a`, and the next pass up to its section. -/
def recalledRun : List Action :=
  recallRun ++ [.run 2 (launches 2), .arrive .reconcileTick] ++ calls 3 2

/-- Under "always" the restart's own pass can start `a`, and under "never" the next
pass could. -/
theorem recall_run {policy : String} {as : List Action} {j : ℕ}
    (h : policy = "always" ∧ as = recallRun ∧ j = 2 ∨
      policy = "never" ∧ as = recalledRun ∧ j = 3) :
    ∃ s₀ s₁ v apps app s', runWhen stepA Sys.Atomic {} (crashedUnder policy) = some s₀ ∧
      s₀.threads.length = 2 ∧ stepA s₀ (.arrive (.restart "a")) = some s₁ ∧
      runWhen (owingA 2) (fun v a => v.1.Undisturbed "a" a) (s₁, .asking) as = some v ∧
      v.2 = .owed 0 ∧ v.1.Atomic (.run j (launches 2)) ∧
      v.1.sectionOf (.run j (launches 2)) = some (launches 2, apps) ∧ app ∈ apps ∧
      app.name = "a" ∧ (v.1.world.entry "a").child = none ∧
      v.1.world.spawnOk (Paths.ofRoot "/r") (launches 2) apps app = true ∧
      stepA v.1 (.run j (launches 2)) = some s' ∧
      (Returns (launches 2) v.1.world app ↔ policy = "always") ∧
      (policy = "never" → v.1.answer? 2 = some .ok) := by
  have hrun : (runWhen stepA Sys.Atomic {} (crashedUnder policy)).bind (fun s₀ =>
      (stepA s₀ (.arrive (.restart "a"))).bind fun s₁ =>
        (runWhen (owingA 2) (fun v a => v.1.Undisturbed "a" a) (s₁, .asking) as).bind fun v =>
          (stepA v.1 (.run j (launches 2))).map fun _ =>
            (decide (s₀.threads.length = 2) && decide (v.2 = .owed 0) &&
              decide (v.1.Atomic (.run j (launches 2))) &&
              decide ((v.1.world.entry "a").child = none) &&
              decide (policy = "never" → v.1.answer? 2 = some .ok),
              (v.1.section? j).any fun apps => apps.any fun app => app.name = "a" &&
                v.1.world.spawnOk (Paths.ofRoot "/r") (launches 2) apps app &&
                decide (Returns (launches 2) v.1.world app ↔ policy = "always"))) =
        some (true, true) := by
    rcases h with ⟨rfl, rfl, rfl⟩ | ⟨rfl, rfl, rfl⟩ <;> decide
  obtain ⟨s₀, hs₀, hrun⟩ := Option.bind_eq_some_iff.1 hrun
  obtain ⟨s₁, hs₁, hrun⟩ := Option.bind_eq_some_iff.1 hrun
  obtain ⟨v, hv, hrun⟩ := Option.bind_eq_some_iff.1 hrun
  obtain ⟨s', hs', hval⟩ := Option.map_eq_some_iff.1 hrun
  obtain ⟨hbools, hrows⟩ := Prod.mk.inj hval
  simp only [Bool.and_eq_true, decide_eq_true_eq] at hbools
  obtain ⟨⟨⟨⟨hlength, hdebt⟩, hatomic⟩, hchild⟩, hanswer⟩ := hbools
  obtain ⟨apps, happs, hany⟩ := (Option.any_eq_true _ _).1 hrows
  obtain ⟨app, happ, hrow⟩ := List.any_eq_true.1 hany
  simp only [Bool.and_eq_true, decide_eq_true_eq] at hrow
  have hsection := Sys.sectionOf_of_section happs (launches 2)
  exact ⟨s₀, s₁, v, apps, app, s', hs₀, hlength, hs₁, hv, hdebt, hatomic, hsection, happ, hrow.1.1,
    hchild, hrow.1.2, hs', hrow.2, hanswer⟩

theorem recalled_app_returns_restart :
    ∃ s₀ s₁ v s', runWhen stepA Sys.Atomic {} (crashedUnder "always") = some s₀ ∧
      stepA s₀ (.arrive (.restart "a")) = some s₁ ∧
      runWhen (owingA 2) (fun v a => v.1.Undisturbed "a" a) (s₁, .asking) recallRun = some v ∧
      stepA v.1 (.run 2 (launches 2)) = some s' ∧
      ∃! pid, ∃ launch, launch.app = "a" ∧ s'.world.host.Runs pid launch := by
  obtain ⟨s₀, s₁, v, apps, app, s', hs₀, hlength, hs₁, hv, hdebt, hatomic, hsection, happ, hname,
    hchild, hok, hs', hreturns, -⟩ := recall_run (Or.inl ⟨rfl, rfl, rfl⟩)
  have hreach₀ : ReachableWhen stepA Sys.Fresh Sys.Atomic s₀ :=
    ReachableWhen.runWhen (.start fresh_default) hs₀
  have hreach : ReachableWhen (owingA s₀.threads.length) (· = (s₁, .asking))
      (fun v a => v.1.Undisturbed "a" a) v := by
    rw [hlength]
    exact ReachableWhen.runWhen (.start rfl) hv
  have hreq : (Request.restart "a").recalls "a" := rfl
  have hgone := (recalling_reachable hreach₀ hreq hs₁ hreach).orderly.tidy.gone hchild
  have hlaw := (recalled_app_returns hreach₀ hreq hs₁ hreach).2 0 _ _ apps app s' hdebt hatomic
    hsection happ hname hgone (le_refl 0) hok hs'
  exact ⟨s₀, s₁, v, s', hs₀, hs₁, hv, hs', hlaw.2 (hreturns.2 rfl)⟩

/-- Under "never" a restart after a crash has succeeded, and starts nothing. -/
theorem never_recalled :
    ¬ ∀ (paths : Paths) (crates : Crates) (name : String) (req : Request) (s₀ s₁ : Sys)
        (v : Sys × Debt) (resp : Response),
      ReachableWhen (Sys.step paths crates) Sys.Fresh Sys.Atomic s₀ →
      req.recalls name → s₀.step paths crates (.arrive req) = some s₁ →
      ReachableWhen (owing paths crates name s₀.threads.length) (· = (s₁, .asking))
        (fun v a => v.1.Undisturbed name a) v →
      v.1.threads[s₀.threads.length]? = some (.pure resp) →
      ∀ d a env apps app s', v.2 = .owed d → v.1.Atomic a → v.1.sectionOf a = some (env, apps) →
        app ∈ apps → app.name = name →
        (∀ pid launch, v.1.world.host.Runs pid launch → launch.app ≠ name) → d ≤ env.now →
        env.tryWaitErr name = false → v.1.world.spawnOk paths env apps app = true →
        v.1.step paths crates a = some s' →
          ∃! pid, ∃ launch, launch.app = name ∧ s'.world.host.Runs pid launch := by
  intro h
  obtain ⟨s₀, s₁, v, apps, app, s', hs₀, hlength, hs₁, hv, hdebt, hatomic, hsection, happ,
    hname, hchild, hok, hs', hreturns, hanswer⟩ := recall_run (Or.inr ⟨rfl, rfl, rfl⟩)
  have hreach₀ : ReachableWhen stepA Sys.Fresh Sys.Atomic s₀ :=
    ReachableWhen.runWhen (.start fresh_default) hs₀
  have hreach : ReachableWhen (owingA s₀.threads.length) (· = (s₁, .asking))
      (fun v a => v.1.Undisturbed "a" a) v := by
    rw [hlength]
    exact ReachableWhen.runWhen (.start rfl) hv
  have hreq : (Request.restart "a").recalls "a" := rfl
  have hrecalling := recalling_reachable hreach₀ hreq hs₁ hreach
  have hgone := hrecalling.orderly.tidy.gone hchild
  have hdone : v.1.threads[s₀.threads.length]? = some (.pure .ok) :=
    hlength ▸ Sys.answer?_eq_some (hanswer rfl)
  have honce := h _ _ "a" _ s₀ s₁ v .ok hreach₀ hreq hs₁ hreach hdone 0 _ _ apps app s' hdebt
    hatomic hsection happ hname hgone (le_refl 0) rfl hok hs'
  have hreturned : Returns (launches 2) v.1.world app :=
    (hrecalling.returns_once hdebt hatomic hsection happ hname hgone (le_refl 0) hok hs').1 honce
  exact absurd (hreturns.1 hreturned) (by decide)

end Runs

end Daemon

end Nockd
