import Nockd.Supervisor.Attempts
import Nockd.Supervisor.Deadlines

/-!
# Passes that change nothing

A section leaves a world undisturbed when it has no effect on the host and keeps every entry, up
to the observations that the branch for stopped apps clears. It does so exactly when every entry
idles: the app shows what its row asks for, or it waits for a deadline that is still to come.
-/

namespace Nockd

namespace Supervisor

open Config Registry

namespace Managed

/-- The entry without the observations that the branch for stopped apps clears. -/
def bare (m : Managed) : Managed := { m with health := .unknown, statusLine := none }

theorem core_of_bare {m m' : Managed} (h : m'.bare = m.bare) : m'.core = m.core := by
  change m'.bare.core = m.bare.core
  rw [h]

theorem state_of_bare {m m' : Managed} (h : m'.bare = m.bare) : m'.state = m.state := by
  change m'.bare.state = m.bare.state
  rw [h]

end Managed

namespace World

structure Undisturbed (w w' : World) : Prop where
  host : w'.host = w.host
  entries : ∀ name,
    (w'.procs.lookup name).map Managed.bare = (w.procs.lookup name).map Managed.bare

/-- A pass at this time that sees no exit of the app's child has nothing to do for the app. -/
def Idles (env : Env) (app : AppRow) (m : Managed) : Prop :=
  (∀ d ∈ m.termDeadline, env.now < d) ∧
    if app.desiredStatus = "stopped" then
      m.child.isSome = true ∧ m.termDeadline.isSome = true ∨ m.child = none ∧ m.state = .stopped
    else if m.child.isSome then
      m.state = if m.termDeadline.isSome then .stopping else .running
    else if app.restartPolicy = "never" ∧ 0 < m.restarts then m.state = .crashed
    else env.now < m.backoffUntil ∧ m.state = .backoff

/-- Only apps of the snapshot are tracked, all of them are, and all of them idle. -/
structure Quiescent (env : Env) (w : World) (apps : List AppRow) : Prop where
  named : ∀ name, (w.procs.lookup name).isSome = true → name ∈ apps.map (·.name)
  idle : ∀ app ∈ apps, ∃ m, w.procs.lookup app.name = some m ∧
    w.tryWait env app.name m.child = none ∧ Idles env app m

instance (env : Env) (app : AppRow) (m : Managed) : Decidable (Idles env app m) :=
  inferInstanceAs (Decidable (_ ∧ _))

instance (env : Env) (w : World) (apps : List AppRow) : Decidable (Quiescent env w apps) :=
  decidable_of_iff ((∀ name ∈ w.procs.keys, name ∈ apps.map (·.name)) ∧
      ∀ app ∈ apps, ∃ m ∈ w.procs.lookup app.name,
        w.tryWait env app.name m.child = none ∧ Idles env app m)
    ⟨fun h => ⟨fun name hname => h.1 name (AList.mem_keys.1 (AList.lookup_isSome.1 hname)), h.2⟩,
      fun h => ⟨fun name hname => h.named name (AList.lookup_isSome.2 (AList.mem_keys.2 hname)),
        h.idle⟩⟩

variable {paths : Paths} {env : Env} {w w' : World} {apps : List AppRow} {app : AppRow}
  {m : Managed} {name : String}

theorem Undisturbed.refl : Undisturbed w w := ⟨rfl, fun _ => rfl⟩

theorem Undisturbed.trans {w'' : World} (h : Undisturbed w w') (h' : Undisturbed w' w'') :
    Undisturbed w w'' :=
  ⟨h'.host.trans h.host, fun name => (h'.entries name).trans (h.entries name)⟩

/-! ## A quiescent world is left undisturbed -/

theorem foldl_fixed {γ : Type} {f : World → γ → World} {xs : List γ}
    (h : ∀ x ∈ xs, f w x = w) : xs.foldl f w = w := by
  induction xs with
  | nil => rfl
  | cons x xs ih =>
      rw [List.foldl_cons, h x List.mem_cons_self]
      exact ih fun y hy => h y (List.mem_cons_of_mem x hy)

theorem reap_of_idle (hm : w.procs.lookup name = some m)
    (hwait : w.tryWait env name m.child = none) (hterm : ∀ d ∈ m.termDeadline, env.now < d) :
    w.reap paths env name = w := by
  have hdue : ¬ m.termDeadline.any (· ≤ env.now) = true := by
    rw [Option.any_eq_true]
    rintro ⟨d, hd, hle⟩
    exact absurd (of_decide_eq_true hle) (not_le.2 (hterm d hd))
  unfold reap
  simp only [hm, hwait, if_neg hdue]
  cases m.child <;> rfl

theorem driven_of_idles (hcoherent : m.Coherent) (h : Idles env app m)
    (result : Except String Pid) : (driven env app result m).bare = m.bare := by
  obtain ⟨-, h⟩ := h
  unfold driven
  split
  case isTrue hstopped =>
    rw [if_pos hstopped] at h
    rcases h with ⟨hchild, hterm⟩ | ⟨hchild, hstate⟩
    · have hsome : ¬ m.termDeadline.isNone = true := by
        rw [Option.isNone_iff_eq_none]
        exact Option.isSome_iff_ne_none.1 hterm
      rw [if_pos hchild, if_neg hsome]
    · obtain ⟨-, hterm, -⟩ := hcoherent.idle_fields hchild
      rw [if_neg (by simp [hchild])]
      simp [Managed.bare, Managed.idle, ← hstate, ← hterm]
  case isFalse hrunning =>
    rw [if_neg hrunning] at h
    split
    case isTrue hchild =>
      rw [if_pos hchild] at h
      simp [Managed.bare, ← h]
    case isFalse hchild =>
      rw [if_neg hchild] at h
      split
      case isTrue hpolicy =>
        rw [if_pos hpolicy] at h
        simp [Managed.bare, ← h]
      case isFalse hpolicy =>
        rw [if_neg hpolicy] at h
        rw [if_pos h.1]
        simp [Managed.bare, ← h.2]

theorem not_startable_of_idles (h : Idles env app m) : ¬ Startable env app m := by
  rintro ⟨hrunning, hchild, hpolicy, hbackoff⟩
  obtain ⟨-, h⟩ := h
  rw [if_neg hrunning, if_neg (by simp [hchild]), if_neg hpolicy] at h
  exact absurd h.1 (not_lt.2 hbackoff)

/-- Driving an idle app has no effect on the host. -/
theorem drive_host_of_idles (hm : w.procs.lookup app.name = some m) (h : Idles env app m) :
    (w.drive paths env app).host = w.host := by
  have hnot := not_startable_of_idles h
  obtain ⟨-, h⟩ := h
  unfold drive
  simp only [hm, Option.getD_some]
  split
  case isTrue hstopped =>
    rw [if_pos hstopped] at h
    unfold driveStopped
    split
    case isTrue hchild =>
      have hterm := (h.resolve_right fun hnone => by simp [hnone.1] at hchild).2
      rw [if_neg (by simpa [Option.isSome_iff_ne_none] using hterm)]
      rfl
    case isFalse => rfl
  case isFalse hrunning =>
    split
    · rfl
    case isFalse hchild =>
      split
      · rfl
      case isFalse hpolicy =>
        split
        · rfl
        case isFalse hbackoff =>
          exact absurd ⟨hrunning, by simpa using hchild, hpolicy, not_lt.1 hbackoff⟩ hnot

theorem undisturbed_drive (hcoherent : w.Coherent) (hm : w.procs.lookup app.name = some m)
    (h : Idles env app m) : Undisturbed w (w.drive paths env app) := by
  refine ⟨drive_host_of_idles hm h, fun name => ?_⟩
  by_cases hname : name = app.name
  · subst hname
    rw [drive_lookup, entry_of_lookup hm, hm, Option.map_some, Option.map_some,
      driven_of_idles (hcoherent _ m hm) h]
  · rw [drive_lookup_ne hname]

theorem undisturbed_drives (hcoherent : w.Coherent) (hnodup : (apps.map (·.name)).Nodup)
    (h : ∀ app ∈ apps, ∃ m, w.procs.lookup app.name = some m ∧ Idles env app m) :
    Undisturbed w (apps.foldl (drive paths env) w) := by
  induction apps generalizing w with
  | nil => exact .refl
  | cons app apps ih =>
      rw [List.map_cons, List.nodup_cons] at hnodup
      obtain ⟨m, hm, hidle⟩ := h app List.mem_cons_self
      refine (undisturbed_drive hcoherent hm hidle).trans (ih ?_ hnodup.2 fun row hrow => ?_)
      · exact @Coherent.round paths env [] w hcoherent (.drive app)
      · have hne : row.name ≠ app.name := fun heq =>
          hnodup.1 (heq ▸ List.mem_map_of_mem hrow)
        rw [drive_lookup_ne hne]
        exact h row (List.mem_cons_of_mem app hrow)

theorem Quiescent.undisturbed (h : Quiescent env w apps) (hcoherent : w.Coherent)
    (hnodup : (apps.map (·.name)).Nodup) :
    Undisturbed w (w.lockedSection paths env apps) := by
  have hreaped : w.reapedAll paths env = w := by
    refine foldl_fixed fun name hname => ?_
    rw [mem_order_keys] at hname
    obtain ⟨app, happ, rfl⟩ := List.mem_map.1 (h.named name hname)
    obtain ⟨m, hm, hwait, hidle⟩ := h.idle app happ
    exact reap_of_idle hm hwait hidle.1
  have hswept : w.swept paths env apps = w := by
    unfold swept
    rw [hreaped]
    refine foldl_fixed fun name hname => ?_
    rw [mem_order_keys] at hname
    unfold dropRemoved
    rw [if_pos (h.named name hname)]
  rw [lockedSection_eq_foldl, hswept]
  refine undisturbed_drives hcoherent hnodup fun app happ => ?_
  obtain ⟨m, hm, -, hidle⟩ := h.idle app happ
  exact ⟨m, hm, hidle⟩

/-! ## A world left undisturbed is quiescent -/

/-- An entry does not come out of a reap as it was. -/
theorem bare_driven_reaped_ne (hchild : m.child.isSome = true) (result : Except String Pid) :
    (driven env app result (m.reaped env.now)).bare ≠ m.bare := by
  intro heq
  have hcore := Managed.core_of_bare heq
  by_cases hstart : Startable env app (m.reaped env.now)
  · rw [driven_startable hstart] at hcore
    cases result with
    | error e =>
        have hnone : (m.reaped env.now).child = m.child := congrArg Core.child hcore
        rw [Managed.reaped_child] at hnone
        rw [← hnone] at hchild
        cases hchild
    | ok pid =>
        have hrestart : false = m.restartRequested := congrArg Core.restartRequested hcore
        have hterm : none = m.termDeadline := congrArg Core.termDeadline hcore
        have hrestarts : (m.reaped env.now).restarts = m.restarts := congrArg Core.restarts hcore
        -- neither a restart nor a stop was pending, so the exit was counted
        unfold Managed.reaped at hrestarts
        simp [← hrestart, ← hterm] at hrestarts
  · have hnone := congrArg Core.child hcore
    change (driven env app result (m.reaped env.now)).child = m.child at hnone
    rw [(driven_of_not_startable hstart result).1, Managed.reaped_child] at hnone
    rw [← hnone] at hchild
    cases hchild

/-- An entry that comes out of the third sweep as it was has nothing to wait for but its own
deadlines. -/
theorem idles_of_bare_driven {result : Except String Pid}
    (hterm : ∀ d ∈ m.termDeadline, env.now < d)
    (h : (driven env app result m).bare = m.bare) : Idles env app m := by
  have hcore := Managed.core_of_bare h
  have hstate := Managed.state_of_bare h
  have hchild : (driven env app result m).child = m.child := congrArg Core.child hcore
  have hdeadline : (driven env app result m).termDeadline = m.termDeadline :=
    congrArg Core.termDeadline hcore
  have hrestarts : (driven env app result m).restarts = m.restarts := congrArg Core.restarts hcore
  refine ⟨hterm, ?_⟩
  unfold driven at hchild hstate hdeadline hrestarts
  split
  case isTrue hstopped =>
    simp only [if_pos hstopped] at hchild hstate hdeadline hrestarts
    by_cases hsome : m.child.isSome = true
    · rw [if_pos hsome] at hdeadline
      left
      refine ⟨hsome, ?_⟩
      cases hd : m.termDeadline with
      | some d => rfl
      | none => simp [hd, Managed.terminating] at hdeadline
    · rw [if_neg hsome] at hstate
      exact Or.inr ⟨by simpa using hsome, hstate.symm⟩
  case isFalse hrunning =>
    simp only [if_neg hrunning] at hchild hstate hdeadline hrestarts
    split
    case isTrue hsome =>
      rw [if_pos hsome] at hstate
      exact hstate.symm
    case isFalse hnone =>
      simp only [if_neg hnone] at hchild hstate hdeadline hrestarts
      split
      case isTrue hpolicy =>
        rw [if_pos hpolicy] at hstate
        exact hstate.symm
      case isFalse hpolicy =>
        simp only [if_neg hpolicy] at hchild hstate hdeadline hrestarts
        by_cases hbackoff : env.now < m.backoffUntil
        · rw [if_pos hbackoff] at hstate
          exact ⟨hbackoff, hstate.symm⟩
        · rw [if_neg hbackoff] at hchild hrestarts
          cases result with
          | ok pid => exact absurd (by rw [← hchild]; rfl) hnone
          | error e => simp [Managed.spawnFailed] at hrestarts

theorem Undisturbed.quiescent (hheld : w.Held) (hcoherent : w.Coherent)
    (hnodup : (apps.map (·.name)).Nodup)
    (h : Undisturbed w (w.lockedSection paths env apps)) : Quiescent env w apps := by
  refine ⟨fun name hname => ?_, fun app happ => ?_⟩
  · by_contra hmissing
    have hentry := h.entries name
    rw [lockedSection_lookup_of_not_mem hmissing] at hentry
    rw [Option.map_none, eq_comm, Option.map_eq_none_iff] at hentry
    rw [hentry] at hname
    cases hname
  · have hentry := h.entries app.name
    rw [lockedSection_lookup hheld.sole hnodup happ, Option.map_some, eq_comm] at hentry
    obtain ⟨m, hm, hbare⟩ := Option.map_eq_some_iff.1 hentry
    have hwait : w.tryWait env app.name m.child = none := by
      cases hexit : w.tryWait env app.name m.child with
      | none => rfl
      | some status =>
          obtain ⟨child, hchild, -⟩ := tryWait_eq_some hexit
          have hreaped : w.afterReap env app.name = m.reaped env.now := by
            simp [afterReap, hm, hexit]
          rw [hreaped] at hbare
          exact absurd hbare.symm (bare_driven_reaped_ne (by rw [hchild]; rfl) _)
    have hsame : w.afterReap env app.name = m := by simp [afterReap, hm, hwait]
    rw [hsame] at hbare
    refine ⟨m, hm, hwait, idles_of_bare_driven (fun d hd => ?_) hbare.symm⟩
    -- a deadline that is over would have been followed by SIGKILL
    by_contra hover
    obtain ⟨pid, hchild⟩ := Option.isSome_iff_exists.1
      ((hcoherent app.name m hm).term (by rw [Option.mem_def.1 hd]; rfl))
    have hkills : ∃ added, (w.lockedSection paths env apps).host.log = w.host.log ++ added ∧
        .signal env.now pid .kill ∈ added :=
      lockedSection_kills hheld hm hchild hwait hd (not_lt.1 hover)
    obtain ⟨added, hlog, hkill⟩ := hkills
    rw [h.host, List.self_eq_append_right] at hlog
    rw [hlog] at hkill
    cases hkill

/-- A section leaves the world as it is exactly when everything idles. -/
theorem undisturbed_lockedSection_iff (hheld : w.Held) (hcoherent : w.Coherent)
    (hnodup : (apps.map (·.name)).Nodup) :
    Undisturbed w (w.lockedSection paths env apps) ↔ Quiescent env w apps :=
  ⟨Undisturbed.quiescent hheld hcoherent hnodup, fun h => h.undisturbed hcoherent hnodup⟩

end World

end Supervisor

end Nockd
