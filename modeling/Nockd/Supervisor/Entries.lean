import Nockd.Api.Frame
import Nockd.Supervisor.Rounds

/-!
# The fields of an entry

Five fields of an entry are written by the reap, the stop, the spawn and the
restart request, and they have to agree: an entry has a pid exactly when it holds a child, a
termination is pending only while it does, and a requested restart is a pending termination.
`Coherent` says so of one entry; each way in which the code writes an entry keeps it.

The calls that only record observations leave the `core` of every entry alone, which is
what the supervisor decides by.
-/

namespace Nockd

namespace Supervisor

open Config Registry

/-- The fields that the supervisor decides by. -/
structure Core where
  child : Option Pid
  pid : Option Pid
  restarts : UInt32
  backoffUntil : ℤ
  termDeadline : Option ℤ
  restartRequested : Bool
deriving DecidableEq, Repr

namespace Managed

def core (m : Managed) : Core :=
  { child := m.child, pid := m.pid, restarts := m.restarts, backoffUntil := m.backoffUntil
    termDeadline := m.termDeadline, restartRequested := m.restartRequested }

structure Coherent (m : Managed) : Prop where
  pid : m.pid = m.child
  restart : m.restartRequested = true → m.termDeadline.isSome = true
  term : m.termDeadline.isSome = true → m.child.isSome = true

variable {m m' : Managed} {env : Env}

theorem Coherent.of_core (h : m.Coherent) (hcore : m'.core = m.core) : m'.Coherent := by
  have hchild : m'.child = m.child := congrArg Core.child hcore
  have hpid : m'.pid = m.pid := congrArg Core.pid hcore
  have hterm : m'.termDeadline = m.termDeadline := congrArg Core.termDeadline hcore
  have hrestart : m'.restartRequested = m.restartRequested :=
    congrArg Core.restartRequested hcore
  constructor
  · rw [hchild, hpid, h.pid]
  · rw [hrestart, hterm]
    exact h.restart
  · rw [hterm, hchild]
    exact h.term

theorem coherent_default : Coherent {} := ⟨rfl, nofun, nofun⟩

/-- Without a child no termination and no restart is pending. -/
theorem Coherent.idle_fields (h : m.Coherent) (hchild : m.child = none) :
    m.pid = none ∧ m.termDeadline = none ∧ m.restartRequested = false := by
  have hterm : m.termDeadline = none := by
    by_contra hsome
    have := h.term (Option.isSome_iff_ne_none.2 hsome)
    rw [hchild] at this
    cases this
  refine ⟨h.pid.trans hchild, hterm, ?_⟩
  by_contra hrestart
  have := h.restart (by simpa using hrestart)
  rw [hterm] at this
  cases this

/-- An entry with neither child nor pending termination is coherent. -/
theorem coherent_of_idle (hpid : m.pid = none) (hchild : m.child = none)
    (hterm : m.termDeadline = none) (hrestart : m.restartRequested = false) : m.Coherent :=
  ⟨hpid.trans hchild.symm, fun h => absurd h (by simp [hrestart]),
    fun h => absurd h (by simp [hterm])⟩

theorem coherent_reaped (m : Managed) (now : ℤ) : (m.reaped now).Coherent := by
  unfold Managed.reaped
  split
  case isTrue => exact coherent_of_idle rfl rfl rfl rfl
  case isFalse hrestart =>
    split
    case isTrue => exact coherent_of_idle rfl rfl rfl (by simpa using hrestart)
    case isFalse hterm =>
      exact coherent_of_idle rfl rfl (by simpa using hterm) (by simpa using hrestart)

theorem Coherent.restarting (h : m.Coherent) {pid : Pid} (hpid : m.pid = some pid) (now : ℤ) :
    (m.restarting now).Coherent :=
  ⟨h.pid, fun _ => rfl, fun _ => by
    change m.child.isSome = true
    rw [← h.pid, hpid]
    rfl⟩

theorem Coherent.driven (h : m.Coherent) (env : Env) (app : AppRow)
    (result : Except String Pid) : (World.driven env app result m).Coherent := by
  unfold World.driven
  split
  · split
    case isTrue hchild =>
      split
      · exact ⟨h.pid, fun _ => rfl, fun _ => hchild⟩
      · exact h
    case isFalse hchild =>
      have hnone : m.child = none := by simpa using hchild
      obtain ⟨hpid, -, hrestart⟩ := h.idle_fields hnone
      exact coherent_of_idle hpid hnone rfl hrestart
  · split
    · exact h.of_core rfl
    case isFalse hchild =>
      split
      · exact h.of_core rfl
      · split
        · exact h.of_core rfl
        · cases result with
          | ok pid => exact ⟨rfl, nofun, nofun⟩
          | error e =>
              have hnone : m.child = none := by simpa using hchild
              obtain ⟨hpid, hterm, hrestart⟩ := h.idle_fields hnone
              exact coherent_of_idle hpid hnone hterm hrestart

end Managed

namespace World

variable {paths : Paths} {env : Env} {apps : List AppRow} {w w' : World}

def Coherent (w : World) : Prop :=
  ∀ name m, w.procs.lookup name = some m → m.Coherent

theorem Coherent.entry (h : w.Coherent) (name : String) : (w.entry name).Coherent := by
  unfold World.entry
  cases hm : w.procs.lookup name with
  | none => exact Managed.coherent_default
  | some m => exact h name m hm

/-- The entries are as before, but for one. -/
theorem Coherent.of_lookup_ne (h : w.Coherent) (name : String)
    (hne : ∀ other, other ≠ name → w'.procs.lookup other = w.procs.lookup other)
    (hname : ∀ m, w'.procs.lookup name = some m → m.Coherent) : w'.Coherent := by
  intro other m hm
  by_cases hother : other = name
  · subst hother
    exact hname m hm
  · rw [hne other hother] at hm
    exact h other m hm

theorem Coherent.round (h : w.Coherent) (r : Round) :
    (r.apply paths env apps w).Coherent := by
  refine h.of_lookup_ne r.app (fun other hne => Round.lookup_ne hne) fun m hm => ?_
  cases r with
  | reap name =>
      simp only [Round.apply, Round.app, reap_lookup] at hm
      obtain ⟨m₀, hm₀, rfl⟩ := Option.map_eq_some_iff.1 hm
      split
      · exact Managed.coherent_reaped m₀ env.now
      · exact h name m₀ hm₀
  | drop name =>
      simp only [Round.apply, Round.app] at hm
      by_cases hname : name ∈ apps.map (·.name)
      · rw [dropRemoved_lookup hname] at hm
        exact h name m hm
      · have hdrop : w.dropRemoved paths env apps name = w ∨
            (w.dropRemoved paths env apps name).procs.lookup name = none := by
          unfold dropRemoved
          rw [if_neg hname]
          cases hlookup : w.procs.lookup name with
          | none => exact Or.inl rfl
          | some m₀ => cases hpid : m₀.pid <;> simp [hpid]
        rcases hdrop with hsame | hnone
        · rw [hsame] at hm
          exact h name m hm
        · rw [hnone] at hm
          cases hm
  | drive app =>
      simp only [Round.apply, Round.app, drive_lookup, Option.some.injEq] at hm
      rw [← hm]
      exact (h.entry app.name).driven env app _

theorem Coherent.lockedSection (h : w.Coherent) (apps : List AppRow) :
    (w.lockedSection paths env apps).Coherent := by
  rw [lockedSection_eq_rounds]
  exact rounds_keep h (fun w' r _ hw' => hw'.round r) (List.append_nil _).symm

theorem Coherent.requestRestart (h : w.Coherent) (env : Env) (name : String) :
    (w.requestRestart env name).Coherent := by
  unfold World.requestRestart
  cases hm : w.procs.lookup name with
  | none => exact h
  | some m =>
      have hset (w' : World) (hw' : w'.procs = w.procs) {m' : Managed} (hm' : m'.Coherent) :
          (w'.setEntry name m').Coherent := by
        refine h.of_lookup_ne name (fun other hne => ?_) fun m₀ hm₀ => ?_
        · rw [setEntry_procs, AList.lookup_insert_ne hne, hw']
        · rw [setEntry_procs, AList.lookup_insert, Option.some.injEq] at hm₀
          exact hm₀ ▸ hm'
      have hcoherent := h name m hm
      cases hpid : m.pid with
      | none =>
          simp only [hpid]
          refine hset w rfl ⟨?_, hcoherent.restart, hcoherent.term⟩
          exact hpid ▸ hcoherent.pid
      | some pid =>
          simp only [hpid]
          exact hset _ rfl (hcoherent.restarting hpid env.now)

/-! ## Calls that only record what they see -/

/-- The cores of all entries are as before. -/
def SameCores (w w' : World) : Prop :=
  ∀ name, (w'.procs.lookup name).map Managed.core = (w.procs.lookup name).map Managed.core

theorem sameCores_of_procs (h : w'.procs = w.procs) : SameCores w w' := fun name => by rw [h]

theorem sameCores_modifyEntry {name : String} {f : Managed → Managed}
    (hf : ∀ m, (f m).core = m.core) : SameCores w (w.modifyEntry name f) := by
  intro other
  unfold modifyEntry
  by_cases hother : other = name
  · subst hother
    rw [Table.lookup_modify, Option.map_map]
    congr 1
    exact funext hf
  · rw [Table.lookup_modify_ne _ _ hother]

theorem SameCores.back (h : SameCores w w') {name : String} {m' : Managed}
    (hm' : w'.procs.lookup name = some m') :
    ∃ m, w.procs.lookup name = some m ∧ m'.core = m.core := by
  have hcore := h name
  rw [hm'] at hcore
  obtain ⟨m, hm, heq⟩ := Option.map_eq_some_iff.1 hcore.symm
  exact ⟨m, hm, heq.symm⟩

theorem SameCores.entry (h : SameCores w w') (name : String) :
    (w'.entry name).core = (w.entry name).core := by
  have hcore := h name
  unfold World.entry
  cases hm : w.procs.lookup name with
  | none =>
      rw [hm, Option.map_none, Option.map_eq_none_iff] at hcore
      rw [hcore]
  | some m =>
      rw [hm] at hcore
      obtain ⟨m', hm', heq⟩ := Option.map_eq_some_iff.1 hcore
      rw [hm']
      exact heq

theorem Coherent.of_sameCores (h : w.Coherent) (hcores : SameCores w w') : w'.Coherent := by
  intro name m' hm'
  obtain ⟨m, hm, hcore⟩ := hcores.back hm'
  exact (h name m hm).of_core hcore

end World

end Supervisor

namespace Api

open Config Registry Store Supervisor Supervisor.World

variable {paths : Paths} {crates : Crates} {env : Env} {w : World} {op : Call}

/-- Apart from sections and restart requests, the calls of a thread only record
what they see. -/
theorem perform_sameCores (hmain : .main ∉ op.uses)
    (hsection : ∀ apps, op ≠ .lockedSection apps) (hrestart : ∀ name, op ≠ .requestRestart name) :
    SameCores w (perform paths crates env w op).1 := by
  cases op with
  | lockedSection apps => exact absurd rfl (hsection apps)
  | requestRestart name => exact absurd rfl (hrestart name)
  | setHealth name health => exact sameCores_modifyEntry fun _ => rfl
  | setStatusLine name line => exact sameCores_modifyEntry fun _ => rfl
  | setResources name cpuPct rssBytes => exact sameCores_modifyEntry fun _ => rfl
  | takeChildren => exact absurd rfl hmain
  | waitTimeout pid => exact absurd rfl hmain
  | removePidfiles => exact absurd rfl hmain
  | _ => exact sameCores_of_procs rfl

/-- A call of a thread records what it sees, requests a restart or is a
section. -/
theorem perform_coherent (hmain : .main ∉ op.uses) (h : w.Coherent) :
    (perform paths crates env w op).1.Coherent := by
  rcases op.section_cases with ⟨apps, rfl⟩ | hsection
  · exact h.lockedSection apps
  · by_cases hrestart : ∃ name, op = .requestRestart name
    · obtain ⟨name, rfl⟩ := hrestart
      exact h.requestRestart env name
    · exact h.of_sameCores (perform_sameCores hmain hsection
        fun name heq => hrestart ⟨name, heq⟩)

end Api

end Nockd
