import Nockd.Daemon.Eras

/-!
# One daemon on a data root

Any number of daemons may be started on a root, at any time. Each tries to take the lock of the
root before it does anything else; it gives up when another one has it, and the lock is free
again when the daemon that has it is over, however it ended. After that no daemon looks at
the lock. Still, the root sees daemons that live one after another.
-/

namespace Nockd

namespace Daemon

open Api Config Interleaving Registry Store Supervisor

/-- What a daemon keeps in memory. -/
structure Memory where
  procs : Table Managed := ∅
  shuttingDown : Bool := false
  taken : List Pid := []
  number : ℕ

def Memory.world (m : Memory) (h : Host) : World where
  host := h
  procs := m.procs
  shuttingDown := m.shuttingDown
  taken := m.taken
  daemon := m.number

def memory (w : World) : Memory where
  procs := w.procs
  shuttingDown := w.shuttingDown
  taken := w.taken
  number := w.daemon

/-- A process that runs `nockd serve`. -/
inductive Server where
  | starting
  /-- The lock is taken, and the registry is not open yet. -/
  | locked
  | boot (m : Memory) (p : Proc Unit)
  | serving (m : Memory) (threads : List Thread) (stopping : Option (Proc Unit))
  | over

namespace Server

/-- The process is past `acquire_single_daemon_lock`. -/
def holds : Server → Bool
  | .locked => true
  | .boot _ _ => true
  | .serving _ _ _ => true
  | _ => false

/-- What the daemon makes of the host. -/
def era (h : Host) : Server → Era
  | .boot m p => .boot (m.world h) p
  | .serving m threads stopping => .serving { world := m.world h, threads, stopping }
  | _ => .idle h

/-- The daemon makes calls. -/
def live : Server → Bool
  | .boot _ _ => true
  | .serving _ _ _ => true
  | _ => false

/-- Nothing that the daemon holds a handle of is collected by others. -/
def admits (h : Host) (a : Action) : Server → Bool
  | .boot m _ => (outside (m.world h) a).isSome
  | .serving m _ _ => (outside (m.world h) a).isSome
  | _ => true

end Server

def Era.server : Era → Server
  | .idle _ => .over
  | .boot w p => .boot (memory w) p
  | .serving s => .serving (memory s.world) s.threads s.stopping

def Era.isIdle : Era → Bool
  | .idle _ => true
  | _ => false

/-- The action is one of the daemon itself. -/
def EraAction.own : EraAction → Bool
  | .act (.exit _ _) => false
  | .act (.collect _) => false
  | .act (.foreign _) => false
  | .opens _ _ _ => false
  | _ => true

/-- A data root: the host, the daemon whose open file has the lock, and all daemons that were
ever started. -/
structure Root where
  host : Host := {}
  lock : Option ℕ := none
  daemons : List Server := []

inductive RootAction where
  | start
  /-- A daemon opens the lock file and tries to lock it. -/
  | lock (i : ℕ)
  | opens (i : ℕ) (key : Option String) (now : ℤ)
  | own (i : ℕ) (a : EraAction)
  /-- A daemon is over before it has opened the registry. -/
  | quit (i : ℕ)
  | outside (a : Action)

namespace Root

variable (paths : Paths) (crates : Crates)

/-- The open files of a daemon that is over are closed. -/
def release (r : Root) (i : ℕ) : Root :=
  { r with
    lock := if r.lock = some i then none else r.lock
    daemons := r.daemons.set i .over }

/-- A daemon has made a step. -/
def put (r : Root) (i : ℕ) (e : Era) : Root :=
  if e.isIdle then release { r with host := e.host } i
  else { r with host := e.host, daemons := r.daemons.set i e.server }

def step (r : Root) : RootAction → Option Root
  | .start => some { r with daemons := r.daemons ++ [.starting] }
  | .lock i =>
    match r.daemons[i]? with
    | some .starting =>
      if r.lock.isNone then
        some { r with lock := some i, daemons := r.daemons.set i .locked }
      else some { r with daemons := r.daemons.set i .over }
    | _ => none
  | .opens i key now =>
    match r.daemons[i]? with
    | some .locked =>
      some { r with
        host := opened r.host key now
        daemons := r.daemons.set i (.boot { number := i } cleanupOrphans) }
    | _ => none
  | .own i a => do
    let d ← r.daemons[i]?
    if d.live && a.own then ((d.era r.host).step paths crates a).map (r.put i) else none
  | .quit i =>
    match r.daemons[i]? with
    | some .starting => some (r.release i)
    | some .locked => some (r.release i)
    | _ => none
  | .outside a =>
    if r.daemons.all (Server.admits r.host a) then
      (Daemon.outside { host := r.host } a).map fun w => { r with host := w.host }
    else none

/-- No daemon has been started, and nothing of an earlier one runs. -/
structure Fresh (r : Root) : Prop where
  lock : r.lock = none
  daemons : r.daemons = []
  quiet : ∀ pid launch, ¬ r.host.Runs pid launch

/-- The daemon that has the lock. -/
def holder (r : Root) : Option Server := r.lock.bind fun i => r.daemons[i]?

/-- What the root sees of its daemons. -/
def era (r : Root) : Era :=
  match r.holder with
  | some d => d.era r.host
  | none => .idle r.host

/-- What an action is for the daemon that has the lock. -/
def eraAction : RootAction → Option EraAction
  | .opens i key now => some (.opens i key now)
  | .own _ a => some a
  | .outside a => some (.act a)
  | _ => none

/-- The daemon with the lock leaves others nothing to trip over. -/
def survivable (r : Root) (a : RootAction) : Bool :=
  (eraAction a).all (r.era.survivable paths crates)

end Root

variable {paths : Paths} {crates : Crates} {r r' : Root} {a : RootAction} {d : Server} {i j : ℕ}

/-! ## The lock and the daemons past it -/

/-- A daemon is past the lock exactly when it has it. -/
structure Root.Exclusive (r : Root) : Prop where
  holds : ∀ i d, r.daemons[i]? = some d → (d.holds = true ↔ r.lock = some i)
  alive : ∀ i, r.lock = some i → i < r.daemons.length

namespace Root

theorem Exclusive.of_fresh (h : r.Fresh) : r.Exclusive := by
  constructor
  · intro i d hd
    simp [h.daemons] at hd
  · intro i hlock
    simp [h.lock] at hlock

/-- One daemon is replaced; the lock is its own afterwards, or nobody's, or as it was. -/
theorem Exclusive.set (h : r.Exclusive) (hi : r.daemons[i]? = some d) {d' : Server}
    {lock : Option ℕ} {host : Host} (hown : d'.holds = true ↔ lock = some i)
    (hothers : ∀ j, j ≠ i → (r.lock = some j ↔ lock = some j)) :
    Exclusive { host, lock, daemons := r.daemons.set i d' } := by
  have hlt : i < r.daemons.length := (List.getElem?_eq_some_iff.1 hi).1
  constructor
  · intro j d₁ hd₁
    by_cases hj : j = i
    · subst hj
      rw [List.getElem?_set_self hlt, Option.some.injEq] at hd₁
      exact hd₁ ▸ hown
    · rw [List.getElem?_set_ne (Ne.symm hj)] at hd₁
      exact (h.holds j d₁ hd₁).trans (hothers j hj)
  · intro j hj
    rw [List.length_set]
    by_cases hji : j = i
    · exact hji ▸ hlt
    · exact h.alive j ((hothers j hji).2 hj)

theorem Exclusive.release (h : r.Exclusive) (hi : r.daemons[i]? = some d) :
    (r.release i).Exclusive := by
  refine h.set hi ⟨nofun, fun hlock => ?_⟩ fun j hj => ?_
  · split at hlock
    · cases hlock
    case isFalse hne => exact absurd hlock hne
  · split
    case isTrue hlock => simp [hlock, Ne.symm hj]
    case isFalse => rfl

theorem live_holds (h : d.live = true) : d.holds = true := by
  cases d <;> first | rfl | cases h

theorem server_holds {e : Era} : e.server.holds = !e.isIdle := by
  cases e <;> rfl

theorem Exclusive.put (h : r.Exclusive) (hi : r.daemons[i]? = some d) (hlock : r.lock = some i)
    (e : Era) : (r.put i e).Exclusive := by
  unfold Root.put
  split
  case isTrue =>
    have hhost : Exclusive { r with host := e.host } := ⟨h.holds, h.alive⟩
    exact hhost.release hi
  case isFalse hlives =>
    refine h.set hi (iff_of_true ?_ hlock) fun j _ => Iff.rfl
    rw [server_holds]
    simpa using hlives

theorem Exclusive.step (h : r.Exclusive) (hs : r.step paths crates a = some r') :
    r'.Exclusive := by
  cases a with
  | start =>
      cases hs
      constructor
      · intro i d hd
        by_cases hlt : i < r.daemons.length
        · rw [List.getElem?_append_left hlt] at hd
          exact h.holds i d hd
        · rw [List.getElem?_append_right (not_lt.1 hlt), List.getElem?_singleton] at hd
          split at hd
          · cases hd
            exact iff_of_false Bool.false_ne_true fun hlock => hlt (h.alive i hlock)
          · cases hd
      · intro i hlock
        rw [List.length_append]
        exact (h.alive i hlock).trans_le (Nat.le_add_right _ _)
  | lock i =>
      simp only [Root.step] at hs
      split at hs
      case h_1 hi =>
        have hfree : r.lock ≠ some i := fun hlock => by
          have hholds := (h.holds i _ hi).2 hlock
          cases hholds
        split at hs
        case isTrue hnone =>
          cases hs
          refine h.set hi (iff_of_true rfl rfl) fun j hj => ?_
          rw [Option.isNone_iff_eq_none.1 hnone]
          simp [Ne.symm hj]
        case isFalse =>
          cases hs
          exact h.set hi (iff_of_false Bool.false_ne_true hfree) fun j _ => Iff.rfl
      case h_2 => cases hs
  | opens i key now =>
      simp only [Root.step] at hs
      split at hs
      case h_1 hi =>
        cases hs
        exact h.set hi (iff_of_true rfl ((h.holds i _ hi).1 rfl)) fun j _ => Iff.rfl
      case h_2 => cases hs
  | own i a =>
      obtain ⟨d, hi, hs⟩ := Option.bind_eq_some_iff.1 hs
      split at hs
      case isTrue hlive =>
        obtain ⟨e, -, rfl⟩ := Option.map_eq_some_iff.1 hs
        rw [Bool.and_eq_true] at hlive
        exact h.put hi ((h.holds i d hi).1 (live_holds hlive.1)) e
      case isFalse => cases hs
  | quit i =>
      simp only [Root.step] at hs
      split at hs
      case h_1 hi =>
        cases hs
        exact h.release hi
      case h_2 hi =>
        cases hs
        exact h.release hi
      case h_3 => cases hs
  | outside a =>
      simp only [Root.step] at hs
      split at hs
      case isTrue =>
        obtain ⟨w, -, rfl⟩ := Option.map_eq_some_iff.1 hs
        exact ⟨h.holds, h.alive⟩
      case isFalse => cases hs

/-! ## What the root sees -/

theorem era_of_none (hlock : r.lock = none) : r.era = .idle r.host := by
  unfold Root.era holder
  rw [hlock]
  rfl

theorem era_of_holder (hlock : r.lock = some i) (hi : r.daemons[i]? = some d) :
    r.era = d.era r.host := by
  unfold Root.era holder
  rw [hlock, Option.bind_some, hi]

theorem era_mk {host : Host} {daemons : List Server} (hi : daemons[i]? = some d) :
    era { host, lock := some i, daemons } = d.era host :=
  era_of_holder rfl hi

/-- Daemons without the lock are not seen. -/
theorem era_of_others {daemons : List Server}
    (h : ∀ j, r.lock = some j → daemons[j]? = r.daemons[j]?) :
    Root.era { r with daemons } = r.era := by
  unfold Root.era holder
  cases hlock : r.lock with
  | none => rfl
  | some j => rw [Option.bind_some, Option.bind_some, h j hlock]

theorem era_set_other (hne : r.lock ≠ some i) (d : Server) :
    Root.era { r with daemons := r.daemons.set i d } = r.era :=
  era_of_others fun _ hj => List.getElem?_set_ne fun heq => hne (hj.trans (congrArg some heq.symm))

theorem era_release (hlock : r.lock = some i) : (r.release i).era = .idle r.host :=
  era_of_none (if_pos hlock)

theorem server_era {e : Era} (h : e.isIdle = false) : e.server.era e.host = e := by
  cases e with
  | idle h => cases h
  | boot w p => rfl
  | serving s => rfl

theorem era_put (hi : r.daemons[i]? = some d) (hlock : r.lock = some i) (e : Era) :
    (r.put i e).era = e := by
  unfold Root.put
  split
  case isTrue hidle =>
    have hera : (release { r with host := e.host } i).era = .idle e.host := era_release hlock
    rw [hera]
    cases e <;> first | rfl | cases hidle
  case isFalse hlives =>
    have hself : (r.daemons.set i e.server)[i]? = some e.server :=
      List.getElem?_set_self (List.getElem?_eq_some_iff.1 hi).1
    have hera : era { r with host := e.host, daemons := r.daemons.set i e.server } =
        e.server.era e.host := era_of_holder hlock hself
    rw [hera, server_era (by simpa using hlives)]

/-! ## Processes that come and go -/

/-- Such a step sees of a daemon only what it holds handles of. -/
theorem outside_world {m : Memory} {h : Host} {a : Action} {w : World}
    (hw : Daemon.outside { host := h } a = some w)
    (hadmits : (Daemon.outside (m.world h) a).isSome = true) :
    Daemon.outside (m.world h) a = some (m.world w.host) := by
  cases a with
  | exit pid status =>
      simp only [Daemon.outside, World.exits, Memory.world] at hw ⊢
      split at hw
      case h_1 => cases hw; rfl
      case h_2 => cases hw
  | collect pid =>
      simp only [Daemon.outside, World.collects] at hw hadmits ⊢
      split at hw
      case isTrue =>
        cases hw
        split at hadmits
        case isTrue hfree =>
          rw [if_pos hfree]
          rfl
        case isFalse => cases hadmits
      case isFalse => cases hw
  | foreign pid =>
      simp only [Daemon.outside, World.appears] at hw ⊢
      split at hw
      case isTrue hfree =>
        cases hw
        exact if_pos hfree
      case isFalse => cases hw
  | _ => cases hw

/-- The daemon's own threads have no part in it. -/
theorem step_outside {s : Sys} {a : Action} {w : World} (h : Daemon.outside s.world a = some w) :
    s.step paths crates a = some { s with world := w } := by
  cases a with
  | exit pid status => exact congrArg (Option.map fun world => ({ s with world } : Sys)) h
  | collect pid => exact congrArg (Option.map fun world => ({ s with world } : Sys)) h
  | foreign pid => exact congrArg (Option.map fun world => ({ s with world } : Sys)) h
  | _ => cases h

theorem outside_era {h : Host} {a : Action} {w : World} (hadmits : d.admits h a = true)
    (hw : Daemon.outside { host := h } a = some w) :
    (d.era h).step paths crates (.act a) = some (d.era w.host) := by
  have hidle : Era.step paths crates (.idle h) (.act a) = some (.idle w.host) :=
    congrArg (Option.map fun w : World => Era.idle w.host) hw
  cases d with
  | boot m p =>
      exact congrArg (Option.map fun w => Era.boot w p) (outside_world hw hadmits)
  | serving m threads stopping =>
      have hstep : Sys.step paths crates { world := m.world h, threads, stopping } a =
          some { world := m.world w.host, threads, stopping } :=
        step_outside (outside_world hw hadmits)
      exact congrArg (Option.map Era.serving) hstep
  | _ => exact hidle

/-! ## Each step is a step of the daemon with the lock, or of nobody -/

/-- Starting, trying the lock and giving up are not seen. -/
theorem Exclusive.unseen (h : r.Exclusive) (hs : r.step paths crates a = some r')
    (hnone : eraAction a = none) : r'.era = r.era ∧ r'.host = r.host := by
  have hfree {i : ℕ} (hi : r.daemons[i]? = some .starting) : r.lock ≠ some i := fun hlock => by
    have hholds := (h.holds i _ hi).2 hlock
    cases hholds
  cases a with
  | start =>
      cases hs
      exact ⟨era_of_others fun j hj => List.getElem?_append_left (h.alive j hj), rfl⟩
  | lock i =>
      simp only [Root.step] at hs
      split at hs
      case h_1 hi =>
        split at hs
        case isTrue hunlocked =>
          cases hs
          have hself : (r.daemons.set i .locked)[i]? = some .locked :=
            List.getElem?_set_self (List.getElem?_eq_some_iff.1 hi).1
          rw [era_mk hself, era_of_none (Option.isNone_iff_eq_none.1 hunlocked)]
          exact ⟨rfl, rfl⟩
        case isFalse =>
          cases hs
          exact ⟨era_set_other (hfree hi) .over, rfl⟩
      case h_2 => cases hs
  | quit i =>
      simp only [Root.step] at hs
      split at hs
      case h_1 hi =>
        cases hs
        refine ⟨?_, rfl⟩
        unfold Root.release
        rw [if_neg (hfree hi)]
        exact era_set_other (hfree hi) .over
      case h_2 hi =>
        cases hs
        have hlock := (h.holds i _ hi).1 rfl
        exact ⟨(era_release hlock).trans (era_of_holder hlock hi).symm, rfl⟩
      case h_3 => cases hs
  | _ => cases hnone

theorem Exclusive.seen (h : r.Exclusive) (hs : r.step paths crates a = some r') {a' : EraAction}
    (hsome : eraAction a = some a') : r.era.step paths crates a' = some r'.era := by
  cases a with
  | opens i key now =>
      cases hsome
      simp only [Root.step] at hs
      split at hs
      case h_1 hi =>
        cases hs
        have hlock := (h.holds i _ hi).1 rfl
        have hself : (r.daemons.set i (.boot { number := i } cleanupOrphans))[i]? =
            some (.boot { number := i } cleanupOrphans) :=
          List.getElem?_set_self (List.getElem?_eq_some_iff.1 hi).1
        rw [era_of_holder hlock hi, hlock, era_mk hself]
        rfl
      case h_2 => cases hs
  | own i a =>
      cases hsome
      obtain ⟨d, hi, hs⟩ := Option.bind_eq_some_iff.1 hs
      split at hs
      case isTrue hlive =>
        obtain ⟨e, he, rfl⟩ := Option.map_eq_some_iff.1 hs
        rw [Bool.and_eq_true] at hlive
        have hlock := (h.holds i d hi).1 (live_holds hlive.1)
        rw [era_of_holder hlock hi, era_put hi hlock, he]
      case isFalse => cases hs
  | outside a =>
      cases hsome
      simp only [Root.step] at hs
      split at hs
      case isTrue hadmits =>
        obtain ⟨w, hw, rfl⟩ := Option.map_eq_some_iff.1 hs
        cases hlock : r.lock with
        | none =>
            rw [era_of_none hlock]
            exact congrArg (Option.map fun w : World => Era.idle w.host) hw
        | some i =>
            obtain ⟨d, hd⟩ : ∃ d, r.daemons[i]? = some d :=
              ⟨_, List.getElem?_eq_getElem (h.alive i hlock)⟩
            rw [era_of_holder hlock hd, era_mk hd]
            exact outside_era (List.all_eq_true.1 hadmits _ (List.mem_of_getElem? hd)) hw
      case isFalse => cases hs
  | _ => cases hsome

theorem era_host (r : Root) : r.era.host = r.host := by
  unfold Root.era
  cases r.holder with
  | none => rfl
  | some d => cases d <;> rfl

end Root

open Root

/-- The runs of a root are runs of daemons that live one after another. -/
theorem root_eras {guard : Root → RootAction → Prop} {guard' : Era → EraAction → Prop}
    (himp : ∀ r a, guard r a → ∀ a' ∈ eraAction a, guard' r.era a')
    (h : ReachableWhen (Root.step paths crates) Root.Fresh guard r) :
    r.Exclusive ∧ ReachableWhen (Era.step paths crates) Era.Fresh guard' r.era := by
  refine h.simulate (I := Root.Exclusive) (fun r hfresh => ?_) fun r a r' hr hguard hs => ?_
  · refine ⟨.of_fresh hfresh, ?_⟩
    rw [era_of_none hfresh.lock]
    exact hfresh.quiet
  · refine ⟨hr.step hs, ?_⟩
    cases haction : eraAction a with
    | none => exact Or.inl (hr.unseen hs haction).1
    | some a' => exact Or.inr ⟨a', himp r a hguard a' haction, hr.seen hs haction⟩

/-- However many daemons are started on a root, and however they end, at most one is past the lock
at a time, only that one or a process from the outside changes the host, and what
the root sees is a run of daemons that live one after another. -/
theorem one_daemon_at_a_time (h : Reachable (Root.step paths crates) Root.Fresh r) :
    (∀ (i j : ℕ) (d d' : Server), r.daemons[i]? = some d → r.daemons[j]? = some d' →
        d.holds = true → d'.holds = true → i = j) ∧
      (∀ a r', r.step paths crates a = some r' → r'.host ≠ r.host → (∃ x, a = .outside x) ∨
        ∃ i d, r.daemons[i]? = some d ∧ d.holds = true ∧
          ((∃ key now, a = .opens i key now) ∨ ∃ x, a = .own i x)) ∧
      Reachable (Era.step paths crates) Era.Fresh r.era := by
  obtain ⟨hexclusive, heras⟩ : r.Exclusive ∧ Reachable (Era.step paths crates) Era.Fresh r.era :=
    root_eras (fun _ _ _ _ _ => trivial) h
  refine ⟨fun i j d d' hi hj hd hd' => ?_, fun a r' hs hhost => ?_, heras⟩
  · have hlock := (hexclusive.holds i d hi).1 hd
    rw [(hexclusive.holds j d' hj).1 hd', Option.some.injEq] at hlock
    exact hlock.symm
  · cases haction : eraAction a with
    | none => exact absurd (hexclusive.unseen hs haction).2 hhost
    | some a' =>
        cases a with
        | opens i key now =>
            simp only [Root.step] at hs
            split at hs
            case h_1 hi => exact Or.inr ⟨i, _, hi, rfl, Or.inl ⟨key, now, rfl⟩⟩
            case h_2 => cases hs
        | own i x =>
            obtain ⟨d, hi, hs⟩ := Option.bind_eq_some_iff.1 hs
            split at hs
            case isTrue hlive =>
              rw [Bool.and_eq_true] at hlive
              exact Or.inr ⟨i, d, hi, live_holds hlive.1, Or.inr ⟨x, rfl⟩⟩
            case isFalse => cases hs
        | outside x => exact Or.inl ⟨x, rfl⟩
        | _ => cases haction

/-- If every daemon that gets the lock saves the pids of what it starts and finishes its cleanup,
all instances that run on the root at a time were started by the same daemon. -/
theorem instances_of_one_daemon
    (h : ReachableWhen (Root.step paths crates) Root.Fresh
      (fun r a => r.survivable paths crates a = true) r) {pid pid' : Pid} {launch launch' : Launch}
    (hruns : r.host.Runs pid launch) (hruns' : r.host.Runs pid' launch') :
    launch.daemon = launch'.daemon := by
  have heras : ReachableWhen (Era.step paths crates) Era.Fresh
      (fun e a => e.survivable paths crates a = true) r.era :=
    (root_eras (fun r a hguard a' ha' => (Option.all_eq_true _ _).1 hguard a' ha') h).2
  have hsound : r.era.Sound paths :=
    heras.invariant (I := Era.Sound paths) (fun e hfresh => Era.Sound.of_fresh hfresh)
      fun e a e' he hguard hs => he.step hguard hs
  rw [← era_host r] at hruns hruns'
  exact hsound.oneDaemon hruns hruns'

section Runs

def owns (i : ℕ) (as : List Action) : List RootAction := as.map fun a => .own i (.act a)

/-- The cleanup of a daemon makes its next `n` calls. -/
def sweepsOf (i n : ℕ) : List RootAction := List.replicate n (.own i (.call {}))

/-- Two daemons are started at once, and one of them is refused. The other one deploys an app and
dies; a third one cleans up after it and starts the app again. -/
def rivalRun : List RootAction :=
  [.start, .start, .lock 0, .lock 1, .opens 0 (some "k") 0] ++ sweepsOf 0 1 ++ [.own 0 .serve] ++
    owns 0 (deployRun 0 1) ++ [.own 0 (.crash (.arrive .reconcileTick) 0)] ++
    [.start, .lock 2, .opens 2 (some "k") 0] ++ sweepsOf 2 5 ++ [.outside (.exit 1 (.signal 15))] ++
    sweepsOf 2 2 ++ [.outside (.collect 1)] ++ sweepsOf 2 2 ++ [.own 2 .serve] ++
    owns 2 ([.arrive .reconcileTick] ++ calls 0 2 ++ [.run 0 (launches 2)])

theorem fresh_root : Root.Fresh {} := ⟨rfl, rfl, fun _ _ => nofun⟩

theorem one_daemon_at_a_time_rivalRun :
    ∃ r, run (Root.step (Paths.ofRoot "/r") (Crates.plainCrates [] [])) {} rivalRun = some r ∧
      r.lock = some 2 ∧ r.daemons.map Server.holds = [false, false, true] ∧
      Reachable (Era.step (Paths.ofRoot "/r") (Crates.plainCrates [] [])) Era.Fresh r.era := by
  have hrun : (run (Root.step (Paths.ofRoot "/r") (Crates.plainCrates [] [])) {} rivalRun).map
      (fun r => (r.lock, r.daemons.map Server.holds)) = some (some 2, [false, false, true]) := by
    decide
  obtain ⟨r, hr, hval⟩ := Option.map_eq_some_iff.1 hrun
  obtain ⟨hlock, hholds⟩ := Prod.mk.inj hval
  exact ⟨r, hr, hlock, hholds,
    (one_daemon_at_a_time (ReachableWhen.runWhen (.start fresh_root) hr)).2.2⟩

theorem instances_of_one_daemon_rivalRun :
    ∃ r, runWhen (Root.step (Paths.ofRoot "/r") (Crates.plainCrates [] []))
        (fun r a => r.survivable (Paths.ofRoot "/r") (Crates.plainCrates [] []) a = true) {}
        rivalRun = some r ∧ ∃ launch, r.host.Runs 2 launch ∧ launch.app = "a" ∧
      launch.daemon = 2 ∧ ∀ pid launch', r.host.Runs pid launch' → launch'.daemon = 2 := by
  have hrun : (runWhen (Root.step (Paths.ofRoot "/r") (Crates.plainCrates [] []))
      (fun r a => r.survivable (Paths.ofRoot "/r") (Crates.plainCrates [] []) a = true) {}
      rivalRun).map (fun r => runningDaemon { host := r.host } 2) = some (some ("a", 2)) := by
    decide
  obtain ⟨r, hr, hval⟩ := Option.map_eq_some_iff.1 hrun
  obtain ⟨launch, hruns, happ, hdaemon⟩ := runs_of_runningDaemon hval
  refine ⟨r, hr, launch, hruns, happ, hdaemon, fun pid launch' hruns' => ?_⟩
  rw [← hdaemon]
  exact instances_of_one_daemon (ReachableWhen.runWhen (.start fresh_root) hr) hruns' hruns

end Runs

end Daemon

end Nockd
