import Nockd.Api.Discipline
import Nockd.Supervisor.Pidfile

/-!
# Cleaning up after an earlier daemon

Before it serves, a daemon reads the pidfile of every registered app, asks the
processes that are still there to exit, removes the pidfiles, and after a
grace period kills those that have not gone.

Two predicates follow one process through the cleanup. As long as it runs,
`Reads` says that its pidfile is still to be read and will not be removed before,
and `Checks` that it is going to be tested once more and killed if it is
still there.
-/

namespace Nockd

namespace Api

open Config Interleaving Registry Store Supervisor

/-- Ask the process that a pidfile names to exit, if it is alive. -/
def termOrphan (contents : Option Bytes) (killed : List Pid) : Proc (List Pid) :=
  match contents.bind readPid with
  | some pid => do
    if ← must (.pidAlive pid) then
      must (.signal pid .term)
      pure (killed ++ [pid])
    else pure killed
  | none => pure killed

/-- Read the pidfile of each app and remove it. -/
def sweepOrphans : List AppRow → List Pid → Proc (List Pid)
  | [], killed => pure killed
  | app :: apps, killed => do
    let contents ← must (.readPidfile app.name)
    let killed ← termOrphan contents killed
    must (.removePidfile app.name)
    sweepOrphans apps killed

/-- `pids.iter().all(|p| !pid_alive(*p))`, which stops at the first that is
alive. -/
def allGone : List Pid → Proc Bool
  | [] => pure true
  | pid :: pids => do
    if ← must (.pidAlive pid) then pure false else allGone pids

/-- Poll until all pids are gone, a number of rounds at most. -/
def waitForExit : ℕ → List Pid → Proc Unit
  | 0, _ => pure ()
  | rounds + 1, pids => do
    if ← allGone pids then
      pure ()
    else
      must .sleep
      waitForExit rounds pids

def killStragglers (pids : List Pid) : Proc Unit :=
  Program.forEach pids fun pid => do
    if ← must (.pidAlive pid) then must (.signal pid .kill) else pure ()

/-- `Supervisor::cleanup_orphans`. -/
def cleanupOrphans : Proc Unit := do
  match ← Program.outcome .listApps with
  | .error _ => pure ()
  | .ok apps => do
    let killed ← sweepOrphans apps []
    if killed = [] then
      pure ()
    else
      waitForExit (graceSecs * 5).toNat killed
      killStragglers killed

/-! ## The calls of a cleanup -/

def Cleans : Call → Prop
  | .listApps => True
  | .readPidfile _ => True
  | .removePidfile _ => True
  | .pidAlive _ => True
  | .signal _ _ => True
  | .sleep => True
  | _ => False

theorem termOrphan_only (contents : Option Bytes) (killed : List Pid) :
    (termOrphan contents killed).Only Cleans := by
  unfold termOrphan
  cases contents.bind readPid with
  | none => trivial
  | some pid =>
      refine Program.Only.bind (only_must trivial) fun alive => ?_
      cases alive with
      | true => exact ⟨trivial, fun _ => trivial, fun _ => trivial⟩
      | false => trivial

theorem sweepOrphans_only (apps : List AppRow) (killed : List Pid) :
    (sweepOrphans apps killed).Only Cleans := by
  induction apps generalizing killed with
  | nil => trivial
  | cons app apps ih =>
      refine Program.Only.bind (only_must trivial) fun contents => ?_
      refine (termOrphan_only contents killed).bind fun killed => ?_
      exact Program.Only.bind (only_must trivial) fun _ => ih killed

/-- The calls of a wait. -/
def Polls : Call → Prop
  | .pidAlive _ => True
  | .sleep => True
  | _ => False

theorem Polls.cleans {op : Call} (h : Polls op) : Cleans op := by
  cases op <;> trivial

theorem allGone_only (pids : List Pid) : (allGone pids).Only Polls := by
  induction pids with
  | nil => trivial
  | cons pid pids ih =>
      refine Program.Only.bind (only_must trivial) fun alive => ?_
      cases alive with
      | true => trivial
      | false => exact ih

theorem waitForExit_only (rounds : ℕ) (pids : List Pid) :
    (waitForExit rounds pids).Only Polls := by
  induction rounds with
  | zero => trivial
  | succ rounds ih =>
      refine (allGone_only pids).bind fun gone => ?_
      cases gone with
      | true => trivial
      | false => exact Program.Only.bind (only_must trivial) fun _ => ih

theorem killStragglers_only (pids : List Pid) : (killStragglers pids).Only Cleans := by
  refine Program.Only.forEach fun pid => Program.Only.bind (only_must trivial) fun alive => ?_
  cases alive with
  | true => exact only_must trivial
  | false => trivial

theorem cleanupOrphans_only : cleanupOrphans.Only Cleans := by
  refine ⟨trivial, fun apps => ?_, fun _ => trivial⟩
  refine (sweepOrphans_only apps []).bind fun killed => ?_
  split
  · trivial
  · refine ((waitForExit_only _ killed).mono fun _ => Polls.cleans).bind fun _ => ?_
    exact killStragglers_only killed

/-! ## What is asked before a signal -/

/-- The call sends a signal to the pid. -/
def Signals (pid : Pid) : Call → Prop
  | .signal q _ => q = pid
  | _ => False

/-- The reply says that the pid is alive. -/
def Answers : ∀ op : Call, op.Reply → Pid → Prop
  | .pidAlive q, alive, pid => alive = true ∧ q = pid
  | _, _, _ => False

/-- Each signal is sent right after its pid has been found alive. -/
abbrev Asks (p : Proc α) : Prop := p.Granted Signals Answers fun _ => False

theorem termOrphan_asks (contents : Option Bytes) (killed : List Pid) :
    Asks (termOrphan contents killed) := by
  unfold termOrphan
  cases contents.bind readPid with
  | none => trivial
  | some pid =>
      refine ⟨fun _ => False.elim, fun alive => ?_, fun _ => trivial⟩
      cases alive with
      | true => exact ⟨fun _ hpid => ⟨rfl, hpid⟩, fun _ => trivial, fun _ => trivial⟩
      | false => trivial

theorem sweepOrphans_asks (apps : List AppRow) (killed : List Pid) :
    Asks (sweepOrphans apps killed) := by
  induction apps generalizing killed with
  | nil => trivial
  | cons app apps ih =>
      refine ⟨fun _ => False.elim, fun contents => ?_, fun _ => trivial⟩
      refine (termOrphan_asks contents killed).bind fun killed => ?_
      exact ⟨fun _ => False.elim, fun _ => ih killed, fun _ => trivial⟩

theorem waitForExit_asks (rounds : ℕ) (pids : List Pid) : Asks (waitForExit rounds pids) :=
  (waitForExit_only rounds pids).granted fun _ op hop => by cases op <;> simp_all [Polls, Signals]

theorem killStragglers_asks (pids : List Pid) : Asks (killStragglers pids) := by
  refine Program.Granted.forEach fun pid => ⟨fun _ => False.elim, fun alive => ?_, fun _ => trivial⟩
  cases alive with
  | true => exact ⟨fun _ hpid => ⟨rfl, hpid⟩, fun _ => trivial, fun _ => trivial⟩
  | false => trivial

theorem cleanupOrphans_asks : Asks cleanupOrphans := by
  refine ⟨fun _ => False.elim, fun apps => ?_, fun _ => trivial⟩
  refine (sweepOrphans_asks apps []).bind fun killed => ?_
  split
  · trivial
  · exact (waitForExit_asks _ killed).bind fun _ => killStragglers_asks killed

/-- The pid that a call signals. -/
def signalled : Call → Set Pid
  | .signal pid _ => {pid}
  | _ => ∅

/-- The pid that a pidfile turns out to name. -/
def readFrom : ∀ op : Call, op.Reply → Set Pid
  | .readPidfile _, contents => {pid | contents.bind readPid = some pid}
  | _, _ => ∅

/-- Only pids that were known or have been read are signalled. -/
abbrev SignalsRead (known : Set Pid) (p : Proc α) : Prop := p.Obeys signalled readFrom known

variable {known : Set Pid}

theorem sweepOrphans_read {apps : List AppRow} {killed : List Pid} {f : List Pid → Proc Unit}
    (hf : ∀ killed known, {pid | pid ∈ killed} ⊆ known → SignalsRead known (f killed))
    (hkilled : {pid | pid ∈ killed} ⊆ known) :
    SignalsRead known (sweepOrphans apps killed >>= f) := by
  induction apps generalizing killed known with
  | nil => exact hf killed known hkilled
  | cons app apps ih =>
      refine ⟨Set.empty_subset _, fun contents => ?_, fun _ => trivial⟩
      change SignalsRead _ ((termOrphan contents killed >>= fun killed =>
        must (.removePidfile app.name) >>= fun _ => sweepOrphans apps killed) >>= f)
      have hrest {known' : Set Pid} (hsub : known ⊆ known') (more : List Pid)
          (hmore : {pid | pid ∈ more} ⊆ known') : SignalsRead known'
          (must (.removePidfile app.name) >>= fun _ =>
            sweepOrphans apps (killed ++ more) >>= f) := by
        refine ⟨Set.empty_subset _, fun _ => ih fun pid hpid => Or.inl ?_, fun _ => trivial⟩
        exact (List.mem_append.1 hpid).elim (fun h => hsub (hkilled h)) fun h => hmore h
      have hnone {known' : Set Pid} (hsub : known ⊆ known') : SignalsRead known'
          (must (.removePidfile app.name) >>= fun _ => sweepOrphans apps killed >>= f) := by
        have := hrest hsub [] (by simp)
        rwa [List.append_nil] at this
      unfold termOrphan
      cases hread : contents.bind readPid with
      | none => exact hnone Set.subset_union_left
      | some pid =>
          have hpid : pid ∈ known ∪ readFrom (.readPidfile app.name) contents := Or.inr hread
          refine ⟨Set.empty_subset _, fun alive => ?_, fun _ => trivial⟩
          cases alive with
          | false => exact hnone fun q hq => Or.inl (Or.inl hq)
          | true =>
              refine ⟨Set.singleton_subset_iff.2 (Or.inl hpid), fun _ => ?_, fun _ => trivial⟩
              refine hrest (fun q hq => Or.inl (Or.inl (Or.inl hq))) [pid] ?_
              exact fun q hq => Or.inl (Or.inl ((List.mem_singleton.1 hq).symm ▸ hpid))

theorem waitForExit_read (rounds : ℕ) (pids : List Pid) :
    SignalsRead known (waitForExit rounds pids) :=
  (waitForExit_only rounds pids).obeys fun op hop => by cases op <;> first | rfl | cases hop

theorem killStragglers_read {killed : List Pid} (h : {pid | pid ∈ killed} ⊆ known) :
    SignalsRead known (killStragglers killed) := by
  unfold killStragglers
  induction killed generalizing known with
  | nil => trivial
  | cons pid killed ih =>
      have hpid : pid ∈ known := h List.mem_cons_self
      have hrest : {pid | pid ∈ killed} ⊆ known := fun q hq => h (List.mem_cons_of_mem pid hq)
      refine ⟨Set.empty_subset _, fun alive => ?_, fun _ => trivial⟩
      cases alive with
      | false => exact ih fun q hq => Or.inl (hrest hq)
      | true =>
          refine ⟨Set.singleton_subset_iff.2 (Or.inl hpid), fun _ => ?_, fun _ => trivial⟩
          exact ih fun q hq => Or.inl (Or.inl (hrest hq))

theorem cleanupOrphans_read : SignalsRead ∅ cleanupOrphans := by
  refine ⟨Set.empty_subset _, fun apps => ?_, fun _ => trivial⟩
  refine sweepOrphans_read (fun killed known hkilled => ?_) (by simp)
  split
  · trivial
  · exact (waitForExit_read _ killed).bind fun _ => killStragglers_read hkilled

/-! ## One process through the cleanup -/

section Orphan

variable (app : String) (pid : Pid)

/-- What the calls answer while the process runs. -/
def Seen : ∀ op : Call, op.Reply → Prop
  | .listApps, apps => app ∈ apps.map (·.name)
  | .pidAlive q, alive => q = pid → alive = true
  | _, _ => True

/-- The process will be tested once more, and killed. -/
abbrev Checks (p : Proc Unit) : Prop :=
  p.AwaitsCall (Seen app pid) fun op => op = .signal pid .kill

/-- The call reads the pidfile, and a pid found there will be checked. -/
def Finds : ∀ op : Call, (Except String op.Reply → Proc Unit) → Prop
  | .readPidfile name, next => name = app ∧
      ∀ text, readPid text = some pid → Checks app pid (next (.ok (some text)))
  | _, _ => False

/-- The pidfile of the process will be read, and is not removed before. -/
abbrev Reads (p : Proc Unit) : Prop :=
  p.Awaits (fun op => op ≠ .removePidfile app) (Seen app pid) (Finds app pid)

variable {app pid}

theorem allGone_noThrow (pids : List Pid) : (allGone pids).NoThrow (Seen app pid) := by
  induction pids with
  | nil => trivial
  | cons q pids ih =>
      intro alive _
      cases alive with
      | true => trivial
      | false => exact ih

theorem waitForExit_noThrow (rounds : ℕ) (pids : List Pid) :
    (waitForExit rounds pids).NoThrow (Seen app pid) := by
  induction rounds with
  | zero => trivial
  | succ rounds ih =>
      refine (allGone_noThrow pids).bind fun gone => ?_
      cases gone with
      | true => trivial
      | false => exact fun _ _ => ih

/-- A pid in the list of the killed is checked at the end. -/
theorem killed_checks {killed : List Pid} (h : pid ∈ killed) (rounds : ℕ) :
    Checks app pid (waitForExit rounds killed >>= fun _ => killStragglers killed) := by
  refine Program.Awaits.bind_right (Program.only_true _) (waitForExit_noThrow rounds killed)
    fun _ => Program.AwaitsCall.forEach h (fun q => ?_) ?_
  · intro alive _
    cases alive with
    | true => exact fun _ _ => trivial
    | false => trivial
  · refine Or.inr ⟨trivial, fun alive halive => ?_⟩
    rw [halive rfl]
    exact Or.inl rfl

/-- What is awaited from the removal of the first pidfile on is awaited of the sweep. -/
theorem sweepOrphans_awaits {safe : Call → Prop} {allowed : ∀ op : Call, op.Reply → Prop}
    {goal : ∀ op : Call, (Except String op.Reply → Proc Unit) → Prop} {a : AppRow}
    {apps : List AppRow} {killed : List Pid} {f : List Pid → Proc Unit}
    (hsafe : ∀ op, (∀ name, op ≠ .removePidfile name) → safe op)
    (hrest : ∀ more, ((must (.removePidfile a.name) >>= fun _ =>
      sweepOrphans apps (killed ++ more)) >>= f).Awaits safe allowed goal) :
    (sweepOrphans (a :: apps) killed >>= f).Awaits safe allowed goal := by
  refine Or.inr ⟨hsafe _ (by simp), fun contents _ => ?_⟩
  have hnone := hrest []
  rw [List.append_nil] at hnone
  change ((termOrphan contents killed >>= fun killed => must (.removePidfile a.name) >>=
    fun _ => sweepOrphans apps killed) >>= f).Awaits safe allowed goal
  unfold termOrphan
  cases contents.bind readPid with
  | none => exact hnone
  | some q =>
      refine Or.inr ⟨hsafe _ (by simp), fun alive _ => ?_⟩
      cases alive with
      | false => exact hnone
      | true => exact Or.inr ⟨hsafe _ (by simp), fun _ _ => hrest [q]⟩

theorem sweepOrphans_checks {apps : List AppRow} {killed : List Pid} {f : List Pid → Proc Unit}
    (hf : ∀ killed, pid ∈ killed → Checks app pid (f killed)) (h : pid ∈ killed) :
    Checks app pid (sweepOrphans apps killed >>= f) := by
  induction apps generalizing killed with
  | nil => exact hf killed h
  | cons a apps ih =>
      refine sweepOrphans_awaits (fun _ _ => trivial) fun more => Or.inr ⟨trivial, fun _ _ => ?_⟩
      exact ih (List.mem_append_left more h)

theorem sweepOrphans_reads {apps : List AppRow} {killed : List Pid} {f : List Pid → Proc Unit}
    (hf : ∀ killed, pid ∈ killed → Checks app pid (f killed))
    (happ : app ∈ apps.map (·.name)) : Reads app pid (sweepOrphans apps killed >>= f) := by
  induction apps generalizing killed with
  | nil => cases happ
  | cons a apps ih =>
      by_cases hname : a.name = app
      · refine Or.inl ⟨hname, fun text htext => ?_⟩
        change Checks app pid ((termOrphan (some text) killed >>= fun killed =>
          must (.removePidfile a.name) >>= fun _ => sweepOrphans apps killed) >>= f)
        unfold termOrphan
        rw [Option.bind_some, htext]
        refine Or.inr ⟨trivial, fun alive halive => ?_⟩
        rw [halive rfl]
        refine Or.inr ⟨trivial, fun _ _ => Or.inr ⟨trivial, fun _ _ => ?_⟩⟩
        exact sweepOrphans_checks hf (List.mem_append_right killed (List.mem_singleton_self pid))
      · have hrest : app ∈ apps.map (·.name) :=
          (List.mem_cons.1 happ).resolve_left (Ne.symm hname)
        refine sweepOrphans_awaits (fun op hop => hop app) fun more =>
          Or.inr ⟨by simpa using hname, fun _ _ => ih hrest⟩

/-- The pidfile of every registered app is read. -/
theorem cleanupOrphans_reads : Reads app pid cleanupOrphans := by
  refine Or.inr ⟨by simp, fun apps happ => ?_⟩
  refine sweepOrphans_reads (fun killed hkilled => ?_) happ
  rw [if_neg (List.ne_nil_of_mem hkilled)]
  exact killed_checks hkilled _

end Orphan

/-! ## What the cleanup removes -/

/-- The list of the apps, if that is what the call answers, names the app. -/
def Lists (app : String) : ∀ op : Call, op.Reply → Prop
  | .listApps, apps => app ∈ apps.map (·.name)
  | _, _ => True

/-- The pidfile of the app will be removed. -/
abbrev Removes (app : String) (p : Proc Unit) : Prop :=
  p.AwaitsCall (Lists app) fun op => op = .removePidfile app

theorem sweepOrphans_removes {app : String} {apps : List AppRow} {killed : List Pid}
    {f : List Pid → Proc Unit} (happ : app ∈ apps.map (·.name)) :
    Removes app (sweepOrphans apps killed >>= f) := by
  induction apps generalizing killed with
  | nil => cases happ
  | cons a apps ih =>
      refine sweepOrphans_awaits (fun _ _ => trivial) fun more => ?_
      rcases List.mem_cons.1 happ with rfl | hrest
      · exact Or.inl rfl
      · exact Or.inr ⟨trivial, fun _ _ => ih hrest⟩

/-- The pidfile of every registered app is removed, whatever it says. -/
theorem cleanupOrphans_removes {app : String} : Removes app cleanupOrphans :=
  Or.inr ⟨trivial, fun _ happ => sweepOrphans_removes happ⟩

end Api

end Nockd
