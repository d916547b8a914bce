import Nockd.Api.Call
import Nockd.Supervisor.Section

/-!
# The process map and the process table

`Held` says that every child handle stands for an unreaped process that was
started for the app of its entry; it holds whatever happens. `Tracked` says
the converse for running processes: each is the child of its app's entry, or
among the children that were taken out of the map. It is lost when an entry with a
running child is dropped.
-/

namespace Nockd

namespace Supervisor

namespace World

open Api Config Registry Store

variable {paths : Paths} {env : Env} {apps : List AppRow} {w₀ : World}

/-- The process of `pid` was started for `app`, and its exit has not been
collected. -/
def StartedFor (w : World) (pid : Pid) (app : String) : Prop :=
  ∃ launch exit, w.host.processes pid = some { launch := some launch, exit } ∧
    launch.app = app ∧ launch.row.name = app

structure Held (w : World) : Prop where
  pidOfChild : ∀ name m pid, w.procs.lookup name = some m → m.child = some pid →
    m.pid = some pid
  started : ∀ name m pid, w.procs.lookup name = some m → m.child = some pid →
    w.StartedFor pid name
  taken : ∀ pid ∈ w.taken, ∃ app, w.StartedFor pid app
  apart : ∀ name m pid, w.procs.lookup name = some m → m.child = some pid → pid ∉ w.taken

/-- The process of `pid` runs for the app, and the app's entry holds it. -/
def HeldBy (w : World) (pid : Pid) (name : String) : Prop :=
  ∃ m, w.procs.lookup name = some m ∧ m.child = some pid

def Tracked (w : World) : Prop :=
  ∀ pid launch, w.host.Runs pid launch → w.HeldBy pid launch.app ∨ pid ∈ w.taken

/-- The apps whose entries hold a running child. -/
def liveNames (w : World) : List String :=
  w.procs.keys.filter fun name =>
    ((w.procs.lookup name).bind (·.child)).any fun pid =>
      (w.host.processes pid).any fun p => p.exit.isNone

theorem mem_liveNames {w : World} {name : String} {pid : Pid} {launch : Launch}
    (hheld : w.HeldBy pid name) (hruns : w.host.Runs pid launch) : name ∈ w.liveNames := by
  obtain ⟨m, hm, hchild⟩ := hheld
  unfold liveNames
  rw [List.mem_filter]
  constructor
  · rw [← AList.mem_keys, ← AList.lookup_isSome, hm]
    rfl
  · unfold Host.Runs at hruns
    simp [hm, hchild, hruns]

/-! ## Steps that keep the handles -/

/-- Entries may change, come or go, but those that hold a child keep it and its
termination, if there is one. -/
structure SameHandles (w w' : World) : Prop where
  back : ∀ name m' pid, w'.procs.lookup name = some m' → m'.child = some pid →
    ∃ m, w.procs.lookup name = some m ∧ m.child = some pid ∧ m.pid = m'.pid ∧
      (m'.termDeadline = none → m.termDeadline = none)
  forth : ∀ name m pid, w.procs.lookup name = some m → m.child = some pid →
    w'.HeldBy pid name

theorem SameHandles.heldBy_iff {w w' : World} (h : SameHandles w w') (pid : Pid)
    (name : String) : w'.HeldBy pid name ↔ w.HeldBy pid name := by
  constructor
  · rintro ⟨m', hm', hchild⟩
    obtain ⟨m, hm, hc, -, -⟩ := h.back name m' pid hm' hchild
    exact ⟨m, hm, hc⟩
  · rintro ⟨m, hm, hchild⟩
    exact h.forth name m pid hm hchild

/-- The process table loses no child and its launches stay; a process that runs
has run before. -/
structure ProcessesKept (w w' : World) : Prop where
  kept : ∀ pid app, w.StartedFor pid app → (∃ name, w.HeldBy pid name) ∨ pid ∈ w.taken →
    w'.StartedFor pid app
  ran : ∀ pid launch, w'.host.Runs pid launch → w.host.Runs pid launch

theorem ProcessesKept.of_eq {w w' : World} (h : w'.host.processes = w.host.processes) :
    ProcessesKept w w' := by
  constructor
  · intro pid app hstarted _
    unfold StartedFor at hstarted ⊢
    rwa [h]
  · intro pid launch hruns
    unfold Host.Runs at hruns ⊢
    rwa [← h]

theorem Held.of_sameHandles {w w' : World} (h : w.Held) (hhandles : SameHandles w w')
    (hprocesses : ProcessesKept w w') (htaken : w'.taken = w.taken) : w'.Held := by
  constructor
  · intro name m' pid hm' hchild
    obtain ⟨m, hm, hc, hp, -⟩ := hhandles.back name m' pid hm' hchild
    rw [← hp]
    exact h.pidOfChild name m pid hm hc
  · intro name m' pid hm' hchild
    obtain ⟨m, hm, hc, -, -⟩ := hhandles.back name m' pid hm' hchild
    exact hprocesses.kept pid name (h.started name m pid hm hc) (Or.inl ⟨name, m, hm, hc⟩)
  · intro pid hpid
    rw [htaken] at hpid
    obtain ⟨app, happ⟩ := h.taken pid hpid
    exact ⟨app, hprocesses.kept pid app happ (Or.inr hpid)⟩
  · intro name m' pid hm' hchild
    obtain ⟨m, hm, hc, -, -⟩ := hhandles.back name m' pid hm' hchild
    rw [htaken]
    exact h.apart name m pid hm hc

theorem Tracked.of_sameHandles {w w' : World} (h : w.Tracked) (hhandles : SameHandles w w')
    (hprocesses : ProcessesKept w w') (htaken : w'.taken = w.taken) : w'.Tracked := by
  intro pid launch hruns
  rw [hhandles.heldBy_iff, htaken]
  exact h pid launch (hprocesses.ran pid launch hruns)

theorem sameHandles_of_procs {w w' : World} (h : w'.procs = w.procs) : SameHandles w w' := by
  constructor
  · intro name m' pid hm' hchild
    exact ⟨m', by rwa [← h], hchild, rfl, id⟩
  · intro name m pid hm hchild
    exact ⟨m, by rwa [h], hchild⟩

theorem entry_of_lookup {w : World} {name : String} {m : Managed}
    (h : w.procs.lookup name = some m) : w.entry name = m := by
  unfold entry
  rw [h]
  rfl

theorem lookup_of_entry {w : World} {name : String} {pid : Pid}
    (h : (w.entry name).child = some pid) : w.procs.lookup name = some (w.entry name) := by
  unfold entry at h ⊢
  cases hm : w.procs.lookup name with
  | none => simp [hm] at h
  | some m => rfl

theorem sameHandles_setEntry {w : World} {name : String} {m : Managed}
    (hchild : m.child = (w.entry name).child) (hpid : m.pid = (w.entry name).pid)
    (hterm : m.child.isSome = true → m.termDeadline = none →
      (w.entry name).termDeadline = none) :
    SameHandles w (w.setEntry name m) := by
  constructor
  · intro other m' pid hm' hc
    rw [setEntry_procs] at hm'
    by_cases h : other = name
    · subst h
      rw [AList.lookup_insert, Option.some.injEq] at hm'
      subst hm'
      have hterm' := hterm (by rw [hc]; rfl)
      rw [hchild] at hc
      exact ⟨_, lookup_of_entry hc, hc, hpid.symm, hterm'⟩
    · rw [AList.lookup_insert_ne h] at hm'
      exact ⟨m', hm', hc, rfl, id⟩
  · intro other m' pid hm' hc
    unfold HeldBy
    rw [setEntry_procs]
    by_cases h : other = name
    · subst h
      exact ⟨m, AList.lookup_insert _, by rw [hchild, entry_of_lookup hm', hc]⟩
    · exact ⟨m', by rw [AList.lookup_insert_ne h, hm'], hc⟩

theorem sameHandles_modifyEntry {w : World} {name : String} {f : Managed → Managed}
    (hf : ∀ m, (f m).child = m.child ∧ (f m).pid = m.pid ∧
      ((f m).termDeadline = none → m.termDeadline = none)) :
    SameHandles w (w.modifyEntry name f) := by
  unfold modifyEntry Table.modify
  cases hm : w.procs.lookup name with
  | none => exact sameHandles_of_procs rfl
  | some m =>
      exact sameHandles_setEntry (m := f m) (by rw [entry_of_lookup hm, (hf m).1])
        (by rw [entry_of_lookup hm, (hf m).2.1])
        (fun _ => by rw [entry_of_lookup hm]; exact (hf m).2.2)

/-! ## The moves of a section -/

theorem writePidfile_procs (w : World) (name : String) (pid : Pid) :
    (w.writePidfile paths env name pid).procs = w.procs := by
  unfold writePidfile
  cases env.pidfileWrite name <;> rfl

theorem writePidfile_taken (w : World) (name : String) (pid : Pid) :
    (w.writePidfile paths env name pid).taken = w.taken := by
  unfold writePidfile
  cases env.pidfileWrite name <;> rfl

theorem writePidfile_daemon (w : World) (name : String) (pid : Pid) :
    (w.writePidfile paths env name pid).daemon = w.daemon := by
  unfold writePidfile
  cases env.pidfileWrite name <;> rfl

theorem writePidfile_processes (w : World) (name : String) (pid : Pid) :
    (w.writePidfile paths env name pid).host.processes = w.host.processes := by
  exact writePidfile_keep (P := fun h => h.processes = w.host.processes) rfl fun _ => rfl

/-- A child is held by one entry only. -/
theorem Held.unique {w : World} (h : w.Held) {name name' : String} {pid : Pid}
    (hheld : w.HeldBy pid name) (hheld' : w.HeldBy pid name') : name = name' := by
  obtain ⟨m, hm, hchild⟩ := hheld
  obtain ⟨m', hm', hchild'⟩ := hheld'
  obtain ⟨launch, exit, hp, happ, -⟩ := h.started name m pid hm hchild
  obtain ⟨launch', exit', hp', happ', -⟩ := h.started name' m' pid hm' hchild'
  rw [hp] at hp'
  cases hp'
  exact happ.symm.trans happ'

/-- Every child handle is in one entry: a handle cannot be copied. -/
def SoleHolders (w : World) : Prop :=
  ∀ pid name name', w.HeldBy pid name → w.HeldBy pid name' → name = name'

theorem Held.sole {w : World} (h : w.Held) : w.SoleHolders := fun _ _ _ => h.unique

/-- The world after a child's exit was collected and its entry reaped. -/
theorem wait_lookup {w : World} {name other : String} {m m' : Managed} {child pid : Pid}
    (hm' : (((w.emit (.wait child)).setEntry name (m.reaped env.now)).procs.lookup other) =
      some m') (hchild : m'.child = some pid) :
    other ≠ name ∧ w.procs.lookup other = some m' := by
  rw [setEntry_procs, emit_procs] at hm'
  by_cases h : other = name
  · subst h
    rw [AList.lookup_insert, Option.some.injEq] at hm'
    rw [← hm', Managed.reaped_child] at hchild
    cases hchild
  · rw [AList.lookup_insert_ne h] at hm'
    exact ⟨h, hm'⟩

theorem Held.wait {w : World} (h : w.Held) {name : String} {m : Managed} {child : Pid}
    (hm : w.procs.lookup name = some m) (hchild : m.child = some child) :
    ((w.emit (.wait child)).setEntry name (m.reaped env.now)).Held := by
  have hkeep {pid : Pid} {app : String} (hne : pid ≠ child) (hs : w.StartedFor pid app) :
      ((w.emit (.wait child)).setEntry name (m.reaped env.now)).StartedFor pid app := by
    obtain ⟨launch, exit, hp, happ⟩ := hs
    exact ⟨launch, exit, by simpa [Function.update_of_ne hne] using hp, happ⟩
  constructor
  · intro other m' pid hm' hc
    exact h.pidOfChild other m' pid (wait_lookup hm' hc).2 hc
  · intro other m' pid hm' hc
    obtain ⟨hne, hother⟩ := wait_lookup hm' hc
    refine hkeep ?_ (h.started other m' pid hother hc)
    rintro rfl
    exact hne (h.unique ⟨m', hother, hc⟩ ⟨m, hm, hchild⟩)
  · intro pid hpid
    obtain ⟨app, happ⟩ := h.taken pid hpid
    refine ⟨app, hkeep ?_ happ⟩
    rintro rfl
    exact h.apart name m pid hm hchild hpid
  · intro other m' pid hm' hc
    exact h.apart other m' pid (wait_lookup hm' hc).2 hc

/-- The entries after a spawn. -/
theorem spawn_lookup {w : World} {name other : String} {e : Effect} {now : ℤ} {pid : Pid}
    {m' : Managed}
    (hm' : (((w.emit e).setEntry name ((w.entry name).spawned now pid)).writePidfile paths
      env name pid).procs.lookup other = some m') :
    other = name ∧ m' = (w.entry name).spawned now pid ∨
      other ≠ name ∧ w.procs.lookup other = some m' := by
  rw [writePidfile_procs, setEntry_procs, emit_procs] at hm'
  by_cases h : other = name
  · subst h
    rw [AList.lookup_insert, Option.some.injEq] at hm'
    exact Or.inl ⟨rfl, hm'.symm⟩
  · rw [AList.lookup_insert_ne h] at hm'
    exact Or.inr ⟨h, hm'⟩

theorem spawn_processes {w : World} {name : String} {now : ℤ} {pid : Pid} {launch : Launch} :
    (((w.emit (.spawn pid launch)).setEntry name
      ((w.entry name).spawned now pid)).writePidfile paths env name pid).host.processes =
        Function.update w.host.processes pid (some { launch := some launch }) := by
  rw [writePidfile_processes]
  rfl

theorem StartedFor.ne_free {w : World} {pid free : Pid} {app : String}
    (h : w.StartedFor pid app) (hfree : w.host.processes free = none) : pid ≠ free := by
  rintro rfl
  obtain ⟨launch, exit, hp, -⟩ := h
  rw [hfree] at hp
  cases hp

theorem Held.spawn {w : World} (h : w.Held) {name : String} {pid : Pid} {launch : Launch}
    (hfree : w.host.processes pid = none)
    (hlaunch : launch.app = name ∧ launch.row.name = name) :
    (((w.emit (.spawn pid launch)).setEntry name
      ((w.entry name).spawned env.now pid)).writePidfile paths env name pid).Held := by
  have hkeep {q : Pid} {app : String} (hs : w.StartedFor q app) :
      (((w.emit (.spawn pid launch)).setEntry name
        ((w.entry name).spawned env.now pid)).writePidfile paths env name pid).StartedFor
          q app := by
    obtain ⟨launch', exit, hp, happ⟩ := id hs
    refine ⟨launch', exit, ?_, happ⟩
    rw [spawn_processes, Function.update_of_ne (hs.ne_free hfree), hp]
  have htaken : (((w.emit (.spawn pid launch)).setEntry name
      ((w.entry name).spawned env.now pid)).writePidfile paths env name pid).taken =
        w.taken := writePidfile_taken _ _ _
  constructor
  · intro other m' q hm' hc
    rcases spawn_lookup hm' with ⟨-, rfl⟩ | ⟨-, hother⟩
    · exact hc
    · exact h.pidOfChild other m' q hother hc
  · intro other m' q hm' hc
    rcases spawn_lookup hm' with ⟨rfl, rfl⟩ | ⟨-, hother⟩
    · cases hc
      exact ⟨launch, none, by rw [spawn_processes, Function.update_self], hlaunch⟩
    · exact hkeep (h.started other m' q hother hc)
  · intro q hq
    rw [htaken] at hq
    obtain ⟨app, happ⟩ := h.taken q hq
    exact ⟨app, hkeep happ⟩
  · intro other m' q hm' hc
    rw [htaken]
    rcases spawn_lookup hm' with ⟨-, rfl⟩ | ⟨-, hother⟩
    · cases hc
      intro hpid
      obtain ⟨app, happ⟩ := h.taken pid hpid
      exact happ.ne_free hfree rfl
    · exact h.apart other m' q hother hc

/-- A move keeps the handles in order. -/
theorem Held.move {w w' : World} (h : w.Held) (hmove : Move paths env apps w₀ w w') :
    w'.Held := by
  cases hmove with
  | wait name m child status hm hchild hexit => exact h.wait hm hchild
  | drop name m hm hname =>
      have hsub {other : String} {m' : Managed}
          (hm' : (w.procs.erase name).lookup other = some m') :
          w.procs.lookup other = some m' := by
        by_cases hother : other = name
        · rw [hother, AList.lookup_erase] at hm'
          cases hm'
        · rwa [AList.lookup_erase_ne hother] at hm'
      exact ⟨fun other m' pid hm' => h.pidOfChild other m' pid (hsub hm'),
        fun other m' pid hm' => h.started other m' pid (hsub hm'), h.taken,
        fun other m' pid hm' => h.apart other m' pid (hsub hm')⟩
  | update app m happ hchild hpid hterm =>
      exact h.of_sameHandles (sameHandles_setEntry hchild hpid hterm) (.of_eq rfl) rfl
  | spawn app pid bin url happ hdue hidle hfree hbin hjam =>
      exact h.spawn hfree.2.2 ⟨rfl, rfl⟩
  | _ => exact h.of_sameHandles (sameHandles_of_procs rfl) (.of_eq rfl) rfl

/-! ## Running processes stay tracked -/

/-- Running processes are tracked, and the apps that the snapshot does not name
hold none. -/
structure Keeping (apps : List AppRow) (w : World) : Prop where
  tracked : w.Tracked
  idle : ∀ name, name ∉ apps.map (·.name) → ∀ pid launch, w.HeldBy pid name →
    ¬ w.host.Runs pid launch

theorem Keeping.of_sameHandles {w w' : World} (h : Keeping apps w)
    (hhandles : SameHandles w w') (hprocesses : w'.host.processes = w.host.processes)
    (htaken : w'.taken = w.taken) : Keeping apps w' := by
  constructor
  · exact h.tracked.of_sameHandles hhandles (.of_eq hprocesses) htaken
  · intro name hname pid launch hheld hruns
    unfold Host.Runs at hruns
    rw [hprocesses] at hruns
    exact h.idle name hname pid launch ((hhandles.heldBy_iff pid name).1 hheld) hruns

theorem Keeping.move {w w' : World} (hheld : w.Held) (h : Keeping apps w)
    (hmove : Move paths env apps w₀ w w') : Keeping apps w' := by
  cases hmove with
  | wait name m child status hm hchild hexit =>
      have hran {pid : Pid} {launch : Launch} (hruns :
          ((w.emit (.wait child)).setEntry name (m.reaped env.now)).host.Runs pid launch) :
          pid ≠ child ∧ w.host.Runs pid launch := by
        have hne : pid ≠ child := by
          rintro rfl
          simp [Host.Runs] at hruns
        exact ⟨hne, by simpa [Host.Runs, Function.update_of_ne hne] using hruns⟩
      constructor
      · intro pid launch hruns
        obtain ⟨hne, hbefore⟩ := hran hruns
        refine (h.tracked pid launch hbefore).imp_left ?_
        rintro ⟨m', hm', hc⟩
        have hother : launch.app ≠ name := by
          intro heq
          rw [heq, hm] at hm'
          cases hm'
          exact hne (Option.some.inj (hc.symm.trans hchild))
        exact ⟨m', by rw [setEntry_procs, emit_procs, AList.lookup_insert_ne hother, hm'], hc⟩
      · rintro other hname pid launch ⟨m', hm', hc⟩ hruns
        exact h.idle other hname pid launch ⟨m', (wait_lookup hm' hc).2, hc⟩ (hran hruns).2
  | drop name m hm hname =>
      constructor
      · intro pid launch hruns
        refine (h.tracked pid launch hruns).imp_left fun hby => ?_
        have hother : launch.app ≠ name := by
          intro heq
          exact h.idle name hname pid launch (heq ▸ hby) hruns
        obtain ⟨m', hm', hc⟩ := hby
        exact ⟨m', by rw [← hm']; exact AList.lookup_erase_ne hother, hc⟩
      · rintro other hother pid launch ⟨m', hm', hc⟩ hruns
        refine h.idle other hother pid launch ⟨m', ?_, hc⟩ hruns
        by_cases hsame : other = name
        · rw [hsame, AList.lookup_erase] at hm'
          cases hm'
        · rwa [AList.lookup_erase_ne hsame] at hm'
  | update app m happ hchild hpid hterm =>
      exact h.of_sameHandles (sameHandles_setEntry hchild hpid hterm) rfl rfl
  | spawn app pid bin url happ hdue hidle hfree hbin hjam =>
      constructor
      · intro q launch hruns
        rw [writePidfile_taken]
        unfold Host.Runs at hruns
        rw [spawn_processes] at hruns
        unfold HeldBy
        rw [writePidfile_procs, setEntry_procs, emit_procs]
        by_cases hq : q = pid
        · subst hq
          rw [Function.update_self] at hruns
          cases hruns
          exact Or.inl ⟨_, AList.lookup_insert _, rfl⟩
        · rw [Function.update_of_ne hq] at hruns
          refine (h.tracked q launch hruns).imp_left ?_
          rintro ⟨m', hm', hc⟩
          have hother : launch.app ≠ app.name := by
            intro heq
            rw [heq] at hm'
            rw [entry_of_lookup hm', hc] at hidle
            cases hidle
          exact ⟨m', by rw [AList.lookup_insert_ne hother, hm'], hc⟩
      · rintro other hother q launch ⟨m', hm', hc⟩ hruns
        rcases spawn_lookup hm' with ⟨rfl, -⟩ | ⟨-, hbefore⟩
        · exact hother (List.mem_map_of_mem happ)
        · have hne := (hheld.started other m' q hbefore hc).ne_free hfree.2.2
          unfold Host.Runs at hruns
          rw [spawn_processes, Function.update_of_ne hne] at hruns
          exact h.idle other hother q launch ⟨m', hbefore, hc⟩ hruns
  | _ => exact h.of_sameHandles (sameHandles_of_procs rfl) rfl rfl

theorem Held.lockedSection {w : World} (h : w.Held) (apps : List AppRow) :
    (w.lockedSection paths env apps).Held :=
  (lockedSection_moves w apps).keep (fun _ _ hmove h => h.move hmove) h

theorem Move.taken {w w' : World} (h : Move paths env apps w₀ w w') : w'.taken = w.taken := by
  cases h with
  | spawn => exact writePidfile_taken _ _ _
  | _ => rfl

theorem Move.daemon {w w' : World} (h : Move paths env apps w₀ w w') :
    w'.daemon = w.daemon := by
  cases h with
  | spawn app => exact writePidfile_daemon _ _ _
  | _ => rfl

/-- What runs after a move has run before it, or this daemon has just started it for a row of
the snapshot that was due. -/
theorem Move.runs {w w' : World} (h : Move paths env apps w₀ w w') {pid : Pid} {launch : Launch}
    (hruns : w'.host.Runs pid launch) :
    w.host.Runs pid launch ∨ launch.daemon = w.daemon ∧ ∃ app ∈ apps, launch.app = app.name ∧
      ((apps.map (·.name)).Nodup → w₀.Due env app) := by
  cases h with
  | wait name m child => exact Or.inl (w.host.runs_apply_wait hruns)
  | spawn app q bin url happ hdue =>
      have hspawned : (w.host.apply (.spawn q (w.host.launchOf paths w.daemon app url
          bin))).Runs pid launch := by
        unfold Host.Runs at hruns ⊢
        rwa [spawn_processes] at hruns
      rcases w.host.runs_apply_spawn hspawned with ⟨-, rfl⟩ | hran
      · exact Or.inr ⟨rfl, app, happ, rfl, hdue⟩
      · exact Or.inl hran
  | _ => exact Or.inl hruns

theorem lockedSection_taken (w : World) (apps : List AppRow) :
    (w.lockedSection paths env apps).taken = w.taken :=
  (lockedSection_moves w apps).keep (P := fun w' => w'.taken = w.taken)
    (fun _ _ hmove h => hmove.taken.trans h) rfl

theorem lockedSection_daemon (w : World) (apps : List AppRow) :
    (w.lockedSection paths env apps).daemon = w.daemon :=
  (lockedSection_moves w apps).keep (P := fun w' => w'.daemon = w.daemon)
    (fun _ _ hmove h => hmove.daemon.trans h) rfl

/-- A section whose snapshot names every live app keeps running processes
tracked. -/
theorem Tracked.lockedSection {w : World} (hheld : w.Held) (h : w.Tracked)
    {apps : List AppRow} (hlive : ∀ name ∈ w.liveNames, name ∈ apps.map (·.name)) :
    (w.lockedSection paths env apps).Tracked := by
  have hkeeping : Keeping apps w := by
    refine ⟨h, fun name hname pid launch hby hruns => ?_⟩
    exact hname (hlive name (mem_liveNames hby hruns))
  exact ((lockedSection_moves w apps).keep (P := fun w => w.Held ∧ Keeping apps w)
    (fun _ _ hmove h => ⟨h.1.move hmove, h.2.move h.1 hmove⟩) ⟨hheld, hkeeping⟩).2.tracked

end World

end Supervisor

end Nockd
