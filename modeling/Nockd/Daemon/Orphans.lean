import Nockd.Daemon.Crash

/-!
# Whom the cleanup signals

A pidfile says no more than a number, and its process may have ended long ago. The cleanup
spares everything but what earlier daemons left as long as no probe that decides over a
signal is answered by anything else, and no process appears under a number between that
answer and the signal.
-/

namespace Nockd

namespace Daemon

open Api Config Interleaving Registry Store Supervisor

/-- The pids that the pidfiles of a cleanup have turned out to name, with the app. -/
abbrev Named : Type := List (String × Pid)

/-- The process was started by an earlier daemon, for each app whose pidfile names the pid. -/
def LeftBehind (daemon : ℕ) (named : Named) (pid : Pid) (p : Process) : Prop :=
  ∃ launch ∈ p.launch, launch.daemon < daemon ∧ ∀ n ∈ named, n.2 = pid → launch.app = n.1

instance (daemon : ℕ) (named : Named) (pid : Pid) (p : Process) :
    Decidable (LeftBehind daemon named pid p) :=
  inferInstanceAs (Decidable (∃ launch ∈ p.launch, _ ∧ _))

/-- `kill` with this pid reaches one process at most, and only one that was left behind. -/
def Spared (w : World) (named : Named) (pid : Pid) : Prop :=
  0 < pid ∧ pid < 2 ^ 31 ∧ ∀ p ∈ w.host.processes pid, LeftBehind w.daemon named pid p

instance (w : World) (named : Named) (pid : Pid) : Decidable (Spared w named pid) :=
  inferInstanceAs (Decidable (_ ∧ _ ∧ _))

namespace Lives

variable (paths : Paths) (crates : Crates)

/-- A daemon that will die at some point, or a cleanup that begins, on any host. -/
def Opening (v : Lives × Named) : Prop :=
  v.2 = [] ∧ ((∃ s, v.1 = .first s) ∨ ∃ w, v.1 = .boot w cleanupOrphans)

/-- What the pidfile that is read next names. -/
def readNext (env : Env) : Lives → Named
  | .boot w (.call (.readPidfile name) _) =>
    ((perform paths crates env w (.readPidfile name)).2.bind readPid).toList.map (name, ·)
  | _ => []

def follow : Lives → LivesAction → Named → Named
  | l, .call env, named => readNext paths crates env l ++ named
  | _, _, named => named

/-- The next call is a signal to the pid. -/
def sends (pid : Pid) : Proc Unit → Bool
  | .call (.signal q _) _ => q = pid
  | _ => false

/-- Nothing but what was left behind answers a probe that a signal depends on, and no
process appears under the number that is signalled next. -/
def spares (v : Lives × Named) (a : LivesAction) : Bool :=
  match v.1, a with
  | .boot w (.call (.pidAlive pid) next), .call env =>
    sends pid (next (.ok true)) && w.pidAlive env pid → Spared w v.2 pid
  | .boot _ p, .act (.foreign pid) => !sends pid p
  | _, _ => true

/-- The next signal goes to a pid that a pidfile named, and to nothing but what was
left behind. -/
def Harmless (v : Lives × Named) : Prop :=
  ∀ w p pid, v.1 = .boot w p → sends pid p → (∃ n ∈ v.2, n.2 = pid) ∧ Spared w v.2 pid

end Lives

variable {paths : Paths} {crates : Crates} {env : Env} {w w' : World} {named : Named} {pid : Pid}

/-- A process that ends stays what it is, and one that is collected is gone. -/
theorem Spared.kept (h : Spared w named pid) (hdaemon : w'.daemon = w.daemon)
    (hkept : ∀ p' ∈ w'.host.processes pid, ∃ p ∈ w.host.processes pid, p.launch = p'.launch) :
    Spared w' named pid := by
  refine ⟨h.1, h.2.1, fun p' hp' => ?_⟩
  obtain ⟨p, hp, hlaunch⟩ := hkept p' hp'
  obtain ⟨launch, hmem, hleft⟩ := h.2.2 p hp
  exact ⟨launch, hlaunch ▸ hmem, hdaemon ▸ hleft⟩

/-- The outside changes nothing at a number under which no process appears. -/
theorem outside_kept {a : Action} (hw' : outside w a = some w') (hforeign : a ≠ .foreign pid) :
    w'.daemon = w.daemon ∧
      ∀ p' ∈ w'.host.processes pid, ∃ p ∈ w.host.processes pid, p.launch = p'.launch := by
  have hset {q : Pid} {r : Option Process} (hr : q = pid → ∀ p' ∈ r,
      ∃ p ∈ w.host.processes pid, p.launch = p'.launch) :
      ∀ p' ∈ (w.setProcess q r).host.processes pid,
        ∃ p ∈ w.host.processes pid, p.launch = p'.launch := by
    intro p' hp'
    by_cases hq : q = pid
    · subst hq
      exact hr rfl p' (by simpa [World.setProcess] using hp')
    · refine ⟨p', ?_, rfl⟩
      simpa [World.setProcess, Function.update_of_ne (Ne.symm hq)] using hp'
  cases a with
  | exit q status =>
      simp only [outside, World.exits] at hw'
      split at hw'
      case h_1 launch hq =>
        cases hw'
        refine ⟨rfl, hset fun hpid p' hp' => ?_⟩
        cases hp'
        exact ⟨{ launch }, hpid ▸ hq, rfl⟩
      case h_2 => cases hw'
  | collect q =>
      simp only [outside, World.collects] at hw'
      split at hw'
      case isTrue =>
        cases hw'
        exact ⟨rfl, hset fun _ p' hp' => by cases hp'⟩
      case isFalse => cases hw'
  | foreign q =>
      simp only [outside, World.appears] at hw'
      split at hw'
      case isTrue =>
        cases hw'
        exact ⟨rfl, hset fun hpid => absurd (hpid ▸ rfl) hforeign⟩
      case isFalse => cases hw'
  | _ => cases hw'

/-- What the cleanup keeps to in each state. -/
structure Sparing (w : World) (named : Named) (p : Proc Unit) : Prop where
  harmless : Lives.Harmless (.boot w p, named)
  granted : ∃ held, p.Granted Signals Answers held
  read : ∃ known, (∀ pid ∈ known, ∃ n ∈ named, n.2 = pid) ∧ SignalsRead known p

theorem sends_iff {p : Proc Unit} :
    Lives.sends pid p = true ↔ ∃ sig next, p = .call (.signal pid sig) next := by
  constructor
  · intro h
    unfold Lives.sends at h
    split at h
    case h_1 q sig next =>
      cases of_decide_eq_true h
      exact ⟨sig, next, rfl⟩
    case h_2 => cases h
  · rintro ⟨sig, next, rfl⟩
    exact decide_eq_true rfl

theorem Sparing.boot (w : World) (named : Named) : Sparing w named cleanupOrphans where
  harmless := by
    rintro w p pid heq hsends
    cases heq
    cases hsends
  granted := ⟨_, cleanupOrphans_asks⟩
  read := ⟨∅, by simp, cleanupOrphans_read⟩

/-- A step of the outside, under no number that is signalled next. -/
theorem Sparing.outside {p : Proc Unit} (h : Sparing w named p) {a : Action}
    (hw' : outside w a = some w')
    (hguard : Lives.spares (.boot w p, named) (.act a) = true) : Sparing w' named p where
  harmless := by
    rintro w₁ p₁ pid heq hsends
    cases heq
    obtain ⟨hnamed, hspared⟩ := h.harmless w p pid rfl hsends
    have hforeign : a ≠ .foreign pid := by
      rintro rfl
      simp [Lives.spares, hsends] at hguard
    obtain ⟨hdaemon, hkept⟩ := outside_kept hw' hforeign
    exact ⟨hnamed, hspared.kept hdaemon hkept⟩
  granted := h.granted
  read := h.read

theorem Sparing.failCall {op : Call} {next : Except String op.Reply → Proc Unit}
    (h : Sparing w named (.call op next)) (message : String) :
    Sparing w named (next (.error message)) where
  harmless := by
    rintro w₁ p₁ pid heq hsends
    cases heq
    obtain ⟨held, hgranted⟩ := h.granted
    obtain ⟨sig, next', hnext⟩ := sends_iff.1 hsends
    have hnone := hgranted.2.2 message
    rw [hnext] at hnone
    exact (hnone.1 pid rfl).elim
  granted := by
    obtain ⟨held, hgranted⟩ := h.granted
    exact ⟨_, hgranted.2.2 message⟩
  read := h.read.imp fun _ hread => ⟨hread.1, hread.2.2.2 message⟩

theorem mem_follow {l : Lives} {a : LivesAction} {n : String × Pid} (h : n ∈ named) :
    n ∈ l.follow paths crates a named := by
  unfold Lives.follow
  split
  · exact List.mem_append_right _ h
  · exact h

/-- What a call of the cleanup reads is noted. -/
theorem named_of_readFrom {op : Call} {next : Except String op.Reply → Proc Unit}
    (h : pid ∈ readFrom op (perform paths crates env w op).2) :
    ∃ n ∈ (Lives.boot w (.call op next)).follow paths crates (.call env) named, n.2 = pid := by
  cases op with
  | readPidfile name =>
      refine ⟨(name, pid), List.mem_append_left _ ?_, rfl⟩
      exact List.mem_map_of_mem (Option.mem_toList.2 h)
  | _ => cases h

theorem Sparing.call {op : Call} {next : Except String op.Reply → Proc Unit}
    (h : Sparing w named (.call op next))
    (hguard : Lives.spares (.boot w (.call op next), named) (.call env) = true) :
    Sparing (perform paths crates env w op).1
      ((Lives.boot w (.call op next)).follow paths crates (.call env) named)
      (next (.ok (perform paths crates env w op).2)) := by
  obtain ⟨held, hgranted⟩ := h.granted
  obtain ⟨known, hknown, hread⟩ := h.read
  have hnamed : ∀ pid ∈ known ∪ readFrom op (perform paths crates env w op).2,
      ∃ n ∈ (Lives.boot w (.call op next)).follow paths crates (.call env) named, n.2 = pid := by
    rintro pid (hpid | hpid)
    · obtain ⟨n, hn, hn2⟩ := hknown pid hpid
      exact ⟨n, mem_follow hn, hn2⟩
    · exact named_of_readFrom hpid
  refine ⟨?_, ⟨_, hgranted.2.1 _⟩, ⟨_, hnamed, hread.2.1 _⟩⟩
  rintro w₁ p₁ pid heq hsends
  cases heq
  obtain ⟨sig, next', hnext⟩ := sends_iff.1 hsends
  have hsig := hgranted.2.1 (perform paths crates env w op).2
  have hpid := hread.2.1 (perform paths crates env w op).2
  rw [hnext] at hsig hpid
  refine ⟨hnamed pid (hpid.1 rfl), ?_⟩
  -- only the answer of a probe allows a signal
  have hanswers := hsig.1 pid rfl
  cases op with
  | pidAlive q =>
      obtain ⟨halive, rfl⟩ := hanswers
      have hsends' : Lives.sends q (next (.ok true)) = true := by
        rwa [halive] at hsends
      have hguard := of_decide_eq_true hguard
      exact hguard (Bool.and_eq_true_iff.2 ⟨hsends', halive⟩)
  | _ => exact hanswers.elim

namespace Lives

/-- What holds of a cleanup; the daemon after it is no longer one. -/
def Careful (v : Lives × Named) : Prop := ∀ w p, v.1 = .boot w p → Sparing w v.2 p

variable {v v' : Lives × Named}

theorem Careful.step (h : Careful v) {a : LivesAction} (hguard : spares v a = true)
    (hs : ghostStep (step paths crates) (follow paths crates) v a = some v') : Careful v' := by
  obtain ⟨hstep, hnamed⟩ := ghostStep_eq_some hs
  obtain ⟨l, named⟩ := v
  obtain ⟨l', named'⟩ := v'
  dsimp only at hstep hnamed
  subst hnamed
  rintro w' p' rfl
  cases l with
  | first s =>
      cases a with
      | crash a n =>
          obtain ⟨s', -, heq⟩ := Option.map_eq_some_iff.1 hstep
          cases heq
          exact Sparing.boot _ _
      | act a => simp [Lives.step] at hstep
      | _ => cases hstep
  | boot w p =>
      have hbefore : Sparing w named p := h w p rfl
      cases a with
      | act a =>
          obtain ⟨w₁, hw₁, heq⟩ := Option.map_eq_some_iff.1 hstep
          cases heq
          exact hbefore.outside hw₁ hguard
      | call env =>
          obtain ⟨⟨w₁, p₁⟩, hturn, heq⟩ := Option.map_eq_some_iff.1 hstep
          cases heq
          obtain ⟨op, next, rfl, -, rfl, rfl⟩ := Sys.turn_eq_some hturn
          exact hbefore.call hguard
      | failCall message =>
          obtain ⟨p₁, hfail, heq⟩ := Option.map_eq_some_iff.1 hstep
          cases heq
          obtain ⟨op, next, rfl, -, rfl⟩ := Sys.failTurn_eq_some hfail
          exact hbefore.failCall message
      | serve =>
          simp only [Lives.step] at hstep
          split at hstep <;> cases hstep
      | crash a n => cases hstep
  | second s =>
      cases a with
      | act a => simp [Lives.step] at hstep
      | _ => cases hstep

end Lives

/-- In a run in which nothing but what earlier daemons left answers the probes that
decide over a signal, and no process appears under a number that is signalled next, the
cleanup signals nothing else: neither a group nor a process that has the number now. -/
theorem spares_bystanders {v : Lives × Named}
    (h : ReachableWhen (ghostStep (Lives.step paths crates) (Lives.follow paths crates))
      Lives.Opening (fun v a => Lives.spares v a = true) v) : Lives.Harmless v := by
  have hcareful : Lives.Careful v := by
    refine h.invariant ?_ fun v a v' ih hguard hs => ih.step hguard hs
    rintro ⟨l, named⟩ ⟨-, ⟨s, rfl⟩ | ⟨w, rfl⟩⟩ w' p' heq
    · cases heq
    · cases heq
      exact Sparing.boot w named
  intro w p pid heq hsends
  exact (hcareful w p heq).harmless w p pid rfl hsends

section Runs

/-- The daemon dies with an instance running. -/
def dyingRun : List LivesAction :=
  acts (deployRun 0 1) ++ [.crash (.arrive .reconcileTick) 0]

/-- The pid that the cleanup signals next, with the process that has it. -/
def aimed (pid : Pid) : Lives → Option (Option Process)
  | .boot w p => if Lives.sends pid p then some (w.host.processes pid) else none
  | _ => none

theorem boot_of_aimed {l : Lives} {p : Option Process} (h : aimed pid l = some p) :
    ∃ w next, l = .boot w next ∧ Lives.sends pid next = true ∧ w.host.processes pid = p := by
  unfold aimed at h
  split at h
  case h_1 w next =>
    split at h
    case isTrue hsends =>
      cases h
      exact ⟨w, next, rfl, hsends, rfl⟩
    case isFalse => cases h
  case h_2 => cases h

theorem opening_first : Lives.Opening (.first {}, []) := ⟨rfl, Or.inl ⟨{}, rfl⟩⟩

/-- The instance that the dead daemon left is found and signalled. -/
theorem spares_bystanders_dyingRun :
    ∃ v, runWhen (ghostStep (Lives.step (Paths.ofRoot "/r") (Crates.plainCrates [] []))
        (Lives.follow (Paths.ofRoot "/r") (Crates.plainCrates [] [])))
        (fun v a => Lives.spares v a = true) (.first {}, []) (dyingRun ++ sweepCalls 3) = some v ∧
      ((aimed 1 v.1).join.bind (·.launch)).map (·.app) = some "a" ∧ Lives.Harmless v := by
  have hrun : (runWhen (ghostStep (Lives.step (Paths.ofRoot "/r") (Crates.plainCrates [] []))
      (Lives.follow (Paths.ofRoot "/r") (Crates.plainCrates [] [])))
      (fun v a => Lives.spares v a = true) (.first {}, []) (dyingRun ++ sweepCalls 3)).map
        (fun v => ((aimed 1 v.1).join.bind (·.launch)).map (·.app)) = some (some "a") := by
    decide
  obtain ⟨v, hv, happ⟩ := Option.map_eq_some_iff.1 hrun
  exact ⟨v, hv, happ, spares_bystanders (ReachableWhen.runWhen (.start opening_first) hv)⟩

/-- The instance ends, and its number goes to a process that is not ours. -/
def reusedRun : List LivesAction :=
  dyingRun ++ acts [.exit 1 (.code 0), .collect 1, .foreign 1] ++ sweepCalls 2 ++
    [.call { alive := fun _ => true }]

theorem bystander_signalled :
    ¬ ∀ (paths : Paths) (crates : Crates) (v : Lives × Named),
      Reachable (ghostStep (Lives.step paths crates) (Lives.follow paths crates))
        Lives.Opening v → Lives.Harmless v := by
  intro h
  have hrun : (run (ghostStep (Lives.step (Paths.ofRoot "/r") (Crates.plainCrates [] []))
      (Lives.follow (Paths.ofRoot "/r") (Crates.plainCrates [] []))) (.first {}, [])
      reusedRun).map (fun v => aimed 1 v.1) = some (some (some { launch := none })) := by
    decide
  obtain ⟨⟨l, named⟩, hv, haimed⟩ := Option.map_eq_some_iff.1 hrun
  obtain ⟨w, p, rfl, hsends, hp⟩ := boot_of_aimed haimed
  have hharmless := h _ _ _ (ReachableWhen.runWhen (.start opening_first) hv)
  obtain ⟨-, -, -, hleft⟩ := hharmless w p 1 rfl hsends
  obtain ⟨launch, hlaunch, -⟩ := hleft _ hp
  cases hlaunch

end Runs

end Daemon

end Nockd
