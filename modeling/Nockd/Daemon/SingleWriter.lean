import Nockd.Api.Frame
import Nockd.Crates.Plain
import Nockd.Daemon.System

/-!
# One writer per app

While `stop_all` has not begun, a run in which every section sees all live apps keeps each
running instance tracked, and so no app has two running instances. A section
that works on a snapshot from before an app's first deploy drops the app's
entry while its instance runs on, and the next pass starts a second one.
-/

namespace Nockd

namespace Daemon

open Api Config Interleaving Registry Store Supervisor

/-- What is good for a thread to know. -/
def PlainFact : Fact → Prop
  | .snapshot apps => (apps.map (·.name)).Nodup
  | .main => False
  | _ => True

theorem plain_facts (r : Request) : ∀ f ∈ r.facts, PlainFact f := by
  cases r <;> simp [Request.facts, PlainFact]

theorem plain_learns (paths : Paths) (crates : Crates) (env : Env) (w : World) (op : Call) :
    ∀ f ∈ op.learns (perform paths crates env w op).2, PlainFact f := by
  intro f hf
  rcases learns_cases hf with ⟨hash, rfl⟩ | ⟨apps, rfl⟩
  · trivial
  · cases op with
    | listApps =>
        cases hf
        exact nodup_listApps _
    | put jam bin targetTriple => cases hf
    | previousArtifact name current =>
        obtain ⟨_, -, h⟩ := hf
        cases h
    | _ => exact hf.elim

/-- The handles are in order and no child has been taken. -/
structure Tidy (s : Sys) : Prop where
  lawful : Lawful Call.uses Call.learns PlainFact s.threads
  held : s.world.Held
  tracked : s.world.Tracked
  taken : s.world.taken = []

namespace Sys

/-- A section runs on a snapshot that names every app whose entry holds a
running child. -/
def SeesLive (s : Sys) : Action → Prop :=
  s.AtSection fun _ apps => ∀ name ∈ s.world.liveNames, name ∈ apps.map (·.name)

instance (s : Sys) (a : Action) : Decidable (s.SeesLive a) :=
  inferInstanceAs (Decidable (s.AtSection _ a))

end Sys

variable {paths : Paths} {crates : Crates} {s s' : Sys}

theorem Tidy.of_fresh (h : s.Fresh) : Tidy s where
  lawful := by simp [Lawful, h.threads]
  held := by
    constructor <;> simp [h.procs, h.taken]
  tracked := fun pid launch hruns => absurd hruns (h.quiet pid launch)
  taken := h.taken

theorem Tidy.of_sameHandles (h : Tidy s)
    (hlawful : Lawful Call.uses Call.learns PlainFact s'.threads)
    (hhandles : World.SameHandles s.world s'.world)
    (hprocesses : World.ProcessesKept s.world s'.world)
    (htaken : s'.world.taken = s.world.taken) : Tidy s' where
  lawful := hlawful
  held := h.held.of_sameHandles hhandles hprocesses htaken
  tracked := h.tracked.of_sameHandles hhandles hprocesses htaken
  taken := htaken.trans h.taken

theorem lawful_run {i : ℕ} {env : Env} {op : Call} {next : Except String op.Reply → Thread}
    (h : Lawful Call.uses Call.learns PlainFact s.threads)
    (ht : s.threads[i]? = some (.call op next)) :
    Lawful Call.uses Call.learns PlainFact
      (s.threads.set i (next (.ok (perform paths crates env s.world op).2))) :=
  h.set_ok ht (plain_learns paths crates env s.world op)

theorem lawful_main {i : ℕ} {op : Call} {next : Except String op.Reply → Thread}
    (h : Lawful Call.uses Call.learns PlainFact s.threads)
    (ht : s.threads[i]? = some (.call op next)) : .main ∉ op.uses :=
  fun hmain => h.good ht .main hmain

/-- The moves of threads, processes and the outside, and the begin of a shutdown. -/
theorem Tidy.step {a : Action} (h : Tidy s) (hstep : Sys.Step paths crates s a s')
    (hlive : s.SeesLive a) (hstop : ∀ env, a ≠ .stop env) : Tidy s' := by
  cases hstep with
  | arrive r =>
      exact h.of_sameHandles (h.lawful.append (plain_facts r) (handler_obeys r))
        (World.sameHandles_of_procs rfl) (.of_eq rfl) rfl
  | run i env op next ht hopen =>
      have hmain : .main ∉ op.uses := lawful_main h.lawful ht
      rcases op.section_cases with ⟨apps, rfl⟩ | hsection
      · exact
          { lawful := lawful_run h.lawful ht
            held := h.held.lockedSection apps
            tracked := h.tracked.lockedSection h.held (hlive apps (Sys.section?_eq ht))
            taken := (World.lockedSection_taken _ _).trans h.taken }
      · have hframe : Frame s.world (perform paths crates env s.world op).1 :=
          perform_frame hmain hsection
        exact h.of_sameHandles (lawful_run h.lawful ht) hframe.handles
          (.of_eq hframe.processes) hframe.taken
  | fail i message op next ht hfallible =>
      exact h.of_sameHandles (h.lawful.set_error ht) (World.sameHandles_of_procs rfl)
        (.of_eq rfl) rfl
  | exit pid status launch hp =>
      exact h.of_sameHandles h.lawful (World.sameHandles_of_procs rfl)
        (World.processesKept_exit hp) rfl
  | collect pid hexit htaken hchild =>
      exact h.of_sameHandles h.lawful (World.sameHandles_of_procs rfl)
        (World.processesKept_collect htaken hchild) rfl
  | foreign pid hfree =>
      exact h.of_sameHandles h.lawful (World.sameHandles_of_procs rfl)
        (World.processesKept_foreign hfree) rfl
  | beginStop hnone => exact ⟨h.lawful, h.held, h.tracked, h.taken⟩
  | stop env op next hp hopen => exact absurd rfl (hstop env)

/-- Two running instances of one app are the same process. -/
def OneWriter (w : World) : Prop :=
  ∀ pid pid' launch launch', w.host.Runs pid launch → w.host.Runs pid' launch' →
    launch.app = launch'.app → pid = pid'

theorem Tidy.oneWriter (h : Tidy s) : OneWriter s.world := by
  have hheld {pid : Pid} {launch : Launch} (hruns : s.world.host.Runs pid launch) :
      s.world.HeldBy pid launch.app :=
    (h.tracked pid launch hruns).resolve_right (by simp [h.taken])
  intro pid pid' launch launch' hruns hruns' happ
  obtain ⟨m, hm, hchild⟩ := hheld hruns
  obtain ⟨m', hm', hchild'⟩ := hheld hruns'
  rw [happ, hm'] at hm
  cases hm
  exact Option.some.inj (hchild.symm.trans hchild')

/-- As long as every section sees all live apps and `stop_all` has not begun,
no app has two running instances. -/
theorem oneWriter_of_seesLive
    (h : ReachableWhen (Sys.step paths crates) Sys.Fresh Sys.SeesLive s)
    (hstop : s.stopping = none) : OneWriter s.world := by
  have htidy : s.stopping = none → Tidy s := by
    refine h.invariant (I := fun s => s.stopping = none → Tidy s) ?_ ?_
    · exact fun s hfresh _ => Tidy.of_fresh hfresh
    · intro s a s' ih hlive hs hnone
      have hstep := Sys.step_cases hs
      obtain ⟨hbefore, hstop⟩ := hstep.of_not_stopping hnone
      exact (ih hbefore).step hstep hlive hstop
  exact (htidy hstop).oneWriter

/-! ## Runs on one app -/

section Runs

/-- The host answers a spawn with this pid. -/
def launches (pid : Pid) : Env := { launch := fun _ => .started pid }

def deployA : Request := .deploy { name := "a", targetTriple := "t", binB64 := "a" }

/-- Thread `i` makes its next `n` calls. -/
def calls (i n : ℕ) : List Action := List.replicate n (.run i {})

/-- The deploy of `a` up to the locked section, and the section. -/
def deployRun (i : ℕ) (pid : Pid) : List Action :=
  [.arrive deployA] ++ calls i 10 ++ [.run i (launches pid)]

/-- The app of a running process. -/
def runningApp (w : World) (pid : Pid) : Option String :=
  match w.host.processes pid with
  | some { launch := some launch, exit := none } => some launch.app
  | _ => none

theorem runs_of_runningApp {w : World} {pid : Pid} {app : String}
    (h : runningApp w pid = some app) : ∃ launch, w.host.Runs pid launch ∧ launch.app = app := by
  unfold runningApp at h
  split at h
  case h_1 launch hp => exact ⟨launch, hp, Option.some.inj h⟩
  case h_2 => cases h

theorem fresh_default : Sys.Fresh {} :=
  ⟨rfl, rfl, rfl, rfl, rfl, rfl, fun _ _ h => by cases h⟩

/-- The instance crashes, is reaped, and started again after its backoff. -/
def crashRun : List Action :=
  deployRun 0 1 ++ [.exit 1 (.code 7), .arrive .reconcileTick] ++ calls 1 3 ++
    [.arrive .reconcileTick] ++ calls 2 2 ++ [.run 2 { launches 2 with now := 60 }]

theorem oneWriter_crashRun :
    ∃ s, runWhen (Sys.step (Paths.ofRoot "/r") (Crates.plainCrates [] [])) Sys.SeesLive {}
        crashRun = some s ∧ runningApp s.world 2 = some "a" ∧ OneWriter s.world := by
  have hrun : (runWhen (Sys.step (Paths.ofRoot "/r") (Crates.plainCrates [] [])) Sys.SeesLive {}
      crashRun).map (fun s => (s.stopping.isNone, runningApp s.world 2)) =
        some (true, some "a") := by
    decide
  obtain ⟨s, hs, hval⟩ := Option.map_eq_some_iff.1 hrun
  obtain ⟨hnone, happ⟩ := Prod.mk.inj hval
  exact ⟨s, hs, happ, oneWriter_of_seesLive (ReachableWhen.runWhen (.start fresh_default) hs)
    (Option.isNone_iff_eq_none.1 hnone)⟩

/-- A pass lists the apps before the first deploy of `a` and enters its section
after it; the next pass finds no entry for `a`. -/
def staleRun : List Action :=
  [.arrive .reconcileTick] ++ calls 0 2 ++ deployRun 1 1 ++ calls 0 1 ++
    [.arrive .reconcileTick] ++ calls 2 2 ++ [.run 2 (launches 2)]

theorem two_writers_reachable :
    ¬ ∀ (paths : Paths) (crates : Crates) (s : Sys),
      Reachable (Sys.step paths crates) Sys.Fresh s → s.stopping = none →
        OneWriter s.world := by
  intro h
  have hrun : (run (Sys.step (Paths.ofRoot "/r") (Crates.plainCrates [] [])) {} staleRun).map
      (fun s => (s.stopping.isNone, runningApp s.world 1, runningApp s.world 2)) =
        some (true, some "a", some "a") := by
    decide
  obtain ⟨s, hs, hval⟩ := Option.map_eq_some_iff.1 hrun
  obtain ⟨hnone, hrest⟩ := Prod.mk.inj hval
  obtain ⟨hfirst, hsecond⟩ := Prod.mk.inj hrest
  obtain ⟨launch, hruns, happ⟩ := runs_of_runningApp hfirst
  obtain ⟨launch', hruns', happ'⟩ := runs_of_runningApp hsecond
  have hone := h _ _ s (ReachableWhen.runWhen (.start fresh_default) hs)
    (Option.isNone_iff_eq_none.1 hnone)
  exact absurd (hone 1 2 launch launch' hruns hruns' (happ.trans happ'.symm)) (by decide)

end Runs

end Daemon

end Nockd
