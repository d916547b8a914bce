import Nockd.Supervisor.Attempts
import Nockd.Supervisor.Signals

/-!
# One app in a section

`View` is what a section reads of one app: its entry and row, the exit of its child, the clock,
the URL of its endpoint and what the host answers if it is spawned. The entry that the section
leaves and what can be seen of its effects for the app, `seen`, are functions of the view.
So two sections that agree on the view of an app treat it alike, whatever
the other apps do and in whatever order they come.

What concerns an app is filtered out of all that the section does: events in its name, its
starts and the signals to its process. That no other app's rounds come up with any of it
rests on the pids: each is reported by one entry, and not handed out while it is.
-/

namespace Nockd

namespace Supervisor

open Config Registry

/-- The effects of a section that can be seen: signals, starts and events. -/
inductive Seen where
  | signal (t : ℤ) (pid : Pid) (sig : Signal)
  | spawn (pid : Pid) (row : AppRow) (command : Command)
  | event (ts : ℤ) (app kind detail : String)
deriving DecidableEq, Repr

def Effect.seen : Effect → Option Seen
  | .signal t pid sig => some (.signal t pid sig)
  | .spawn pid launch => some (.spawn pid launch.row launch.command)
  | .event ts app kind detail => some (.event ts app kind detail)
  | _ => none

/-- What a section reads of one app. -/
structure View where
  now : ℤ
  eventErr : Bool
  entry : Option Managed
  /-- The exit of the entry's child that `try_wait` reports. -/
  exit : Option ExitStatus
  row : Option AppRow
  url : Option String
  /-- What the host answers to the spawn, if there is one. -/
  result : Option (Except String Pid)

/-- The app is concerned, whose processes are those of the pids `own`. -/
def Seen.concerns (name : String) (own : Pid → Bool) : Seen → Bool
  | .signal _ pid _ => own pid
  | .spawn _ row _ => row.name = name
  | .event _ app _ _ => app = name

namespace View

variable (v : View) (name : String)

/-- The entry as the first sweep leaves it. -/
def reaped : Option Managed :=
  v.entry.map fun m => if v.exit.isSome then m.reaped v.now else m

/-- The entry as the section leaves it. -/
def driven : Option Managed :=
  v.row.map fun app =>
    World.driven { now := v.now } app (v.result.getD (.error "")) (v.reaped.getD {})

def note (kind detail : String) : List Seen :=
  if v.eventErr then [] else [.event v.now name kind detail]

def signal (sig : Signal) (m : Managed) : List Seen :=
  (m.pid.map fun pid => .signal v.now pid sig).toList

def seenReap : List Seen :=
  match v.entry with
  | none => []
  | some m =>
    match m.child, v.exit with
    | some _, some status =>
      if m.restartRequested then []
      else if m.termDeadline.isSome then v.note name "stop" "stopped"
      else v.note name "crash" ("exit code " ++ toString status.codeOr)
    | _, _ => if m.termDeadline.any (· ≤ v.now) then v.signal .kill m else []

def seenDrop : List Seen :=
  if v.row.isSome then [] else (v.reaped.map (v.signal .kill)).getD []

def seenDrive (paths : Paths) : List Seen :=
  match v.row with
  | none => []
  | some app =>
    let m := v.reaped.getD {}
    if app.desiredStatus = "stopped" then
      if m.child.isSome ∧ m.termDeadline = none then
        v.signal .term m ++ v.note name "stop" "SIGTERM sent"
      else []
    else
      match v.result with
      | none => []
      | some (.ok pid) =>
        .spawn pid app (command paths app v.url) :: v.note name "start" "instance started"
      | some (.error e) => v.note name "error" ("spawn failed: " ++ e)

/-- What is seen of a section's effects for the app. -/
def seen (paths : Paths) : List Seen :=
  v.seenReap name ++ v.seenDrop ++ v.seenDrive name paths

end View

/-- The further effects of a host that can be seen. -/
def Host.Shows (h h' : Host) (l : List Seen) : Prop :=
  ∃ es, h'.log = h.log ++ es ∧ es.filterMap Effect.seen = l

section Shows

variable {h h' h'' : Host} {l l' : List Seen}

theorem Host.Shows.refl : Host.Shows h h [] := ⟨[], by simp, rfl⟩

theorem Host.Shows.trans (hshows : Host.Shows h h' l) (hshows' : Host.Shows h' h'' l') :
    Host.Shows h h'' (l ++ l') := by
  obtain ⟨es, hlog, rfl⟩ := hshows
  obtain ⟨es', hlog', rfl⟩ := hshows'
  exact ⟨es ++ es', by rw [hlog', hlog, List.append_assoc], List.filterMap_append⟩

theorem Host.shows_apply (h : Host) (e : Effect) : Host.Shows h (h.apply e) e.seen.toList :=
  ⟨[e], rfl, by cases hseen : e.seen <;> simp [hseen]⟩

/-- An effect that cannot be seen. -/
theorem Host.Shows.hidden (hshows : Host.Shows h h' l) {e : Effect} (he : e.seen = none) :
    Host.Shows h (h'.apply e) l := by
  have hboth := hshows.trans (h'.shows_apply e)
  rwa [he, Option.toList_none, List.append_nil] at hboth

theorem Host.Shows.after (hshows' : Host.Shows h' h'' l) (hshows : Host.Shows h h' []) :
    Host.Shows h h'' l := by
  simpa using hshows.trans hshows'

end Shows

namespace World

variable (paths : Paths) (env : Env) (w : World) (apps : List AppRow) (name : String)

def view : View where
  now := env.now
  eventErr := env.eventErr name
  entry := w.procs.lookup name
  exit := (w.procs.lookup name).bind fun m => w.tryWait env name m.child
  row := apps.find? (·.name = name)
  url := (apps.find? (·.name = name)).bind (w.endpointUrl env)
  result := (apps.find? (·.name = name)).bind fun app =>
    if w.Due env app then some ((w.reached paths env apps name).launchResult paths env app)
    else none

/-- The effects of those rounds that concern the app. -/
def effectsFor : World → List Round → List Effect
  | _, [] => []
  | w, r :: rs =>
    (if r.app = name then (r.apply paths env apps w).host.log.drop w.host.log.length else []) ++
      effectsFor (r.apply paths env apps w) rs

/-- The app's entry reports the pid, before the section or after it. -/
def ownPid (pid : Pid) : Bool :=
  (w.procs.lookup name).any (·.pid = some pid) ||
    ((w.lockedSection paths env apps).procs.lookup name).any (·.pid = some pid)

/-- What is seen of all the section's effects, whichever app's rounds they come from. -/
def sectionSeen : List Seen :=
  ((w.lockedSection paths env apps).host.log.drop w.host.log.length).filterMap Effect.seen

/-- What of it concerns the app. -/
def seenFor : List Seen :=
  (w.sectionSeen paths env apps).filter (Seen.concerns name (w.ownPid paths env apps name))

def Reports (w : World) (name : String) (pid : Pid) : Prop :=
  ∃ m, w.procs.lookup name = some m ∧ m.pid = some pid

/-- The pid that an entry reports is its child's, is not reported by another entry and has not
been collected. -/
structure Separate (w : World) : Prop where
  ofChild : ∀ name pid, w.HeldBy pid name → w.Reports name pid
  sole : ∀ name name' pid, w.Reports name pid → w.Reports name' pid → name = name'
  uncollected : ∀ name pid, w.Reports name pid → w.host.processes pid ≠ none

variable {paths env w apps name} {v : View}

/-! ## The rounds of one app -/

theorem effectsFor_append (rs rs' : List Round) :
    effectsFor paths env apps name w (rs ++ rs') = effectsFor paths env apps name w rs ++
      effectsFor paths env apps name (rs.foldl (Round.apply paths env apps) w) rs' := by
  induction rs generalizing w with
  | nil => rfl
  | cons r rs ih =>
      simp only [List.cons_append, effectsFor, List.foldl_cons, List.append_assoc]
      rw [ih]

theorem effectsFor_of_ne {rs : List Round} (hne : ∀ r ∈ rs, r.app ≠ name) :
    effectsFor paths env apps name w rs = [] := by
  induction rs generalizing w with
  | nil => rfl
  | cons r rs ih =>
      rw [List.forall_mem_cons] at hne
      rw [effectsFor, if_neg hne.1, ih hne.2]
      rfl

/-- Of rounds one of which concerns the app, that one's effects are seen for it. -/
theorem effectsFor_split {before after : List Round} {r : Round} {l : List Seen}
    (hbefore : ∀ r ∈ before, r.app ≠ name) (hafter : ∀ r ∈ after, r.app ≠ name)
    (hr : r.app = name)
    (hshows : Host.Shows (before.foldl (Round.apply paths env apps) w).host
      (r.apply paths env apps (before.foldl (Round.apply paths env apps) w)).host l) :
    (effectsFor paths env apps name w (before ++ r :: after)).filterMap Effect.seen = l := by
  obtain ⟨es, hlog, rfl⟩ := hshows
  rw [effectsFor_append, effectsFor_of_ne hbefore, effectsFor, if_pos hr, effectsFor_of_ne hafter,
    hlog, List.drop_left]
  simp

/-! ## What is seen of a round -/

theorem event_shows (hnow : v.now = env.now) (herr : v.eventErr = env.eventErr name)
    (kind detail : String) :
    Host.Shows w.host (w.event env name kind detail).host (v.note name kind detail) := by
  unfold event View.note
  rw [herr, hnow]
  split
  · exact .refl
  · exact w.host.shows_apply _

theorem signal_shows (hnow : v.now = env.now) (m : Managed) (sig : Signal) :
    Host.Shows w.host (match m.pid with
      | some pid => w.emit (.signal env.now pid sig)
      | none => w).host (v.signal sig m) := by
  unfold View.signal
  rw [hnow]
  cases m.pid with
  | none => exact .refl
  | some pid => exact w.host.shows_apply _

theorem escalation_shows (hnow : v.now = env.now) (m : Managed) :
    Host.Shows w.host (if m.termDeadline.any (· ≤ env.now) then
        match m.pid with
        | some pid => w.emit (.signal env.now pid .kill)
        | none => w
      else w).host (if m.termDeadline.any (· ≤ v.now) then v.signal .kill m else []) := by
  rw [hnow]
  split
  · exact signal_shows hnow m .kill
  · exact .refl

theorem reap_shows (hnow : v.now = env.now) (herr : v.eventErr = env.eventErr name)
    (hentry : w.procs.lookup name = v.entry)
    (hexit : ∀ m ∈ v.entry, w.tryWait env name m.child = v.exit) :
    Host.Shows w.host (w.reap paths env name).host (v.seenReap name) := by
  unfold reap View.seenReap
  rw [hentry]
  cases hm : v.entry with
  | none => exact .refl
  | some m =>
      simp only [hexit m hm]
      cases m.child with
      | none => exact escalation_shows hnow m
      | some child =>
          cases v.exit with
          | none => exact escalation_shows hnow m
          | some status =>
              have hreaped : Host.Shows w.host ((w.host.apply (.wait child)).apply
                  (.remove (resolve (paths.pidFile name)))) [] :=
                (Host.Shows.refl.hidden rfl).hidden rfl
              refine Host.Shows.after ?_ hreaped
              unfold reapEvent
              simp only
              split
              · exact .refl
              · split <;> exact event_shows hnow herr _ _

theorem dropRemoved_shows (hnow : v.now = env.now) (hentry : w.procs.lookup name = v.reaped)
    (hrow : name ∈ apps.map (·.name) ↔ v.row.isSome = true) :
    Host.Shows w.host (w.dropRemoved paths env apps name).host v.seenDrop := by
  unfold dropRemoved View.seenDrop
  simp only [hrow]
  split
  · exact .refl
  · rw [hentry]
    cases v.reaped with
    | none => exact .refl
    | some m =>
        refine Host.Shows.hidden ?_ rfl
        exact signal_shows (w := { w with procs := w.procs.erase name }) hnow m .kill

theorem driveStopped_shows {app : AppRow} {m : Managed} (hnow : v.now = env.now)
    (herr : v.eventErr = env.eventErr app.name) :
    Host.Shows w.host (w.driveStopped env app m).host
      (if m.child.isSome ∧ m.termDeadline = none then
        v.signal .term m ++ v.note app.name "stop" "SIGTERM sent"
      else []) := by
  unfold driveStopped
  cases hchild : m.child.isSome with
  | false => exact .refl
  | true =>
      cases hterm : m.termDeadline with
      | some d => exact .refl
      | none => exact (signal_shows hnow m .term).trans (event_shows hnow herr _ _)

theorem writePidfile_shows {h : Host} {l : List Seen} (hshows : Host.Shows h w.host l)
    (name : String) (pid : Pid) : Host.Shows h (w.writePidfile paths env name pid).host l :=
  writePidfile_keep (P := fun h' => Host.Shows h h' l) hshows fun _ => hshows.hidden rfl

/-- What is seen of a spawn. -/
theorem spawn_shows (h : Host) (daemon : ℕ) (app : AppRow) (url : Option String)
    (outcome : LaunchOutcome) :
    Host.Shows h (h.spawn paths daemon app url outcome).1
      (match (h.spawn paths daemon app url outcome).2 with
        | .ok pid => [.spawn pid app (command paths app url)]
        | .error _ => []) := by
  obtain ⟨h', hhidden, ⟨e, hresult⟩ | ⟨pid, bin, -, -, hresult⟩⟩ :=
    Host.spawn_spec (P := fun h' => Host.Shows h h' []) paths daemon app url outcome
      (fun _ _ _ hshows => hshows.hidden rfl) (fun _ _ hshows => hshows.hidden rfl)
      (fun _ _ hshows => hshows.hidden rfl) .refl
  · rw [hresult]
    exact hhidden
  · rw [hresult]
    exact Host.Shows.after (h'.shows_apply _) hhidden

theorem driveSpawn_shows {app : AppRow} {m : Managed} (hnow : v.now = env.now)
    (herr : v.eventErr = env.eventErr app.name) (hurl : w.endpointUrl env app = v.url) :
    Host.Shows w.host (w.driveSpawn paths env app m).host
      (match w.launchResult paths env app with
        | .ok pid =>
          .spawn pid app (command paths app v.url) :: v.note app.name "start" "instance started"
        | .error e => v.note app.name "error" ("spawn failed: " ++ e)) := by
  have hspawn := @spawn_shows paths w.host w.daemon app (w.endpointUrl env app)
    (env.launch app.name)
  unfold driveSpawn launchResult
  rw [← hurl]
  simp only
  split
  case h_1 host pid hresult =>
    simp only [hresult] at hspawn ⊢
    refine Host.Shows.trans (l := [_]) ?_ (event_shows hnow herr _ _)
    exact writePidfile_shows hspawn _ _
  case h_2 host e hresult =>
    simp only [hresult] at hspawn ⊢
    exact Host.Shows.after (event_shows hnow herr _ _) hspawn

theorem drive_shows {app : AppRow} (hnow : v.now = env.now)
    (herr : v.eventErr = env.eventErr app.name) (hrow : v.row = some app)
    (hentry : w.entry app.name = v.reaped.getD {}) (hurl : w.endpointUrl env app = v.url)
    (hresult : v.result = if Startable env app (w.entry app.name) then
      some (w.launchResult paths env app) else none) :
    Host.Shows w.host (w.drive paths env app).host (v.seenDrive app.name paths) := by
  unfold View.seenDrive
  rw [hrow, ← hentry]
  simp only
  by_cases hstart : Startable env app (w.entry app.name)
  · rw [drive_of_startable hstart, if_neg hstart.1, hresult, if_pos hstart]
    have hspawn := @driveSpawn_shows paths env w v app (w.entry app.name) hnow herr hurl
    cases hlaunch : w.launchResult paths env app <;> rw [hlaunch] at hspawn <;> exact hspawn
  · rw [hresult, if_neg hstart]
    have hlookup : (w.procs.lookup app.name).getD {} = w.entry app.name := rfl
    unfold drive
    simp only [hlookup]
    split
    · exact driveStopped_shows hnow herr
    case isFalse hstopped =>
      split
      · exact .refl
      case isFalse hchild =>
        split
        · exact .refl
        case isFalse hpolicy =>
          split
          · exact .refl
          case isFalse hbackoff =>
            exact absurd ⟨hstopped, by simpa using hchild, hpolicy, not_lt.1 hbackoff⟩ hstart

/-! ## The sweeps -/

/-- No round touches the endpoints. -/
theorem endpointUrl_reached (app : AppRow) :
    (w.reached paths env apps app.name).endpointUrl env app = w.endpointUrl env app := by
  have hquiet : (w.reached paths env apps app.name).host.registry.quiet =
      w.host.registry.quiet :=
    reached_keep (P := fun w' => w'.host.registry.quiet = w.host.registry.quiet) rfl
      (fun w' r hr hw' => (round_moves hr).keep (P := fun w' => w'.host.registry.quiet = _)
        (fun _ _ hmove hquiet => hmove.quiet.trans hquiet) hw') _
  unfold endpointUrl
  congr 1
  funext name
  rw [congr_of_quiet (·.getEndpoint name) (fun _ => rfl) hquiet]

theorem view_reaped :
    (w.view paths env apps name).reaped =
      (w.procs.lookup name).map fun _ => w.afterReap env name := by
  unfold View.reaped view afterReap
  cases w.procs.lookup name <;> rfl

theorem find?_name_eq_some {app : AppRow} (happ : apps.find? (·.name = name) = some app) :
    app ∈ apps ∧ app.name = name :=
  ⟨List.mem_of_find?_eq_some happ, by simpa using List.find?_some happ⟩

theorem find?_name_eq_none : apps.find? (·.name = name) = none ↔ name ∉ apps.map (·.name) := by
  simp [List.find?_eq_none]

theorem app_ne_of_not_mem {f : String → Round} (hf : ∀ other, (f other).app = other)
    {names : List String} (hname : name ∉ names) : ∀ r ∈ names.map f, r.app ≠ name := by
  rintro r hr rfl
  obtain ⟨other, hother, rfl⟩ := List.mem_map.1 hr
  rw [hf] at hname
  exact hname hother

/-- A sweep over distinct names shows what the round of the app shows. -/
theorem effectsFor_sweep {f : String → Round} (hf : ∀ other, (f other).app = other)
    {names : List String} (hnodup : names.Nodup) (hmem : name ∈ names) {l : List Seen}
    (hshows : ∀ before : List String, before.Nodup → name ∉ before →
      Host.Shows ((before.map f).foldl (Round.apply paths env apps) w).host
        ((f name).apply paths env apps
          ((before.map f).foldl (Round.apply paths env apps) w)).host l) :
    (effectsFor paths env apps name w (names.map f)).filterMap Effect.seen = l := by
  obtain ⟨before, after, rfl⟩ := List.append_of_mem hmem
  rw [List.nodup_middle, List.nodup_cons, List.mem_append, not_or] at hnodup
  obtain ⟨⟨hbefore, hafter⟩, hrest⟩ := hnodup
  rw [List.map_append, List.map_cons]
  exact effectsFor_split (app_ne_of_not_mem hf hbefore) (app_ne_of_not_mem hf hafter) (hf name)
    (hshows before hrest.of_append_left hbefore)

theorem reapSweep_seen (hsole : w.SoleHolders) :
    (effectsFor paths env apps name w ((env.order w.procs.keys).map .reap)).filterMap
      Effect.seen = (w.view paths env apps name).seenReap name := by
  by_cases hmem : name ∈ env.order w.procs.keys
  · refine effectsFor_sweep (fun _ => rfl) (nodup_order_keys env w) hmem
      fun before hnodup hbefore => ?_
    obtain ⟨hlookup, hprocesses⟩ := @reapSweep_spec paths env w hsole _ hnodup
    have hentry := hlookup name
    rw [if_neg hbefore] at hentry
    rw [List.foldl_map]
    refine reap_shows rfl rfl hentry fun m hm => ?_
    have hm' : w.procs.lookup name = some m := hm
    exact (tryWait_of_others hsole hbefore hprocesses hm').trans (by simp [view, hm'])
  · have hnone : w.procs.lookup name = none := by
      rwa [mem_order_keys, Bool.not_eq_true, Option.isSome_eq_false_iff,
        Option.isNone_iff_eq_none] at hmem
    rw [effectsFor_of_ne (app_ne_of_not_mem (fun _ => rfl) hmem)]
    simp [View.seenReap, view, hnone]

theorem drops_lookup_ne {names : List String} (hname : name ∉ names) :
    (names.foldl (dropRemoved paths env apps) w).procs.lookup name = w.procs.lookup name := by
  induction names generalizing w with
  | nil => rfl
  | cons other names ih =>
      rw [List.mem_cons, not_or] at hname
      rw [List.foldl_cons, ih hname.2, dropRemoved_lookup_ne hname.1]

theorem dropSweep_seen (hsole : w.SoleHolders) :
    (effectsFor paths env apps name (w.reapedAll paths env)
      ((env.order (w.reapedAll paths env).procs.keys).map .drop)).filterMap Effect.seen =
        (w.view paths env apps name).seenDrop := by
  have hreaped : (w.reapedAll paths env).procs.lookup name =
      (w.view paths env apps name).reaped := by
    rw [reapedAll_lookup hsole, view_reaped]
  by_cases hmem : name ∈ env.order (w.reapedAll paths env).procs.keys
  · refine effectsFor_sweep (fun _ => rfl) (nodup_order_keys env (w.reapedAll paths env)) hmem
      fun before _ hbefore => ?_
    rw [List.foldl_map]
    refine dropRemoved_shows rfl ((drops_lookup_ne hbefore).trans hreaped) ?_
    rw [← not_iff_not, ← find?_name_eq_none]
    simp [view]
  · have hnone : (w.view paths env apps name).reaped = none := by
      rwa [mem_order_keys, hreaped, Bool.not_eq_true, Option.isSome_eq_false_iff,
        Option.isNone_iff_eq_none] at hmem
    rw [effectsFor_of_ne (app_ne_of_not_mem (fun _ => rfl) hmem)]
    simp [View.seenDrop, hnone]

theorem driveSweep_seen (hsole : w.SoleHolders) (hnodup : (apps.map (·.name)).Nodup) :
    (effectsFor paths env apps name (w.swept paths env apps)
      (apps.map .drive)).filterMap Effect.seen =
        (w.view paths env apps name).seenDrive name paths := by
  cases hfind : apps.find? (·.name = name) with
  | none =>
      rw [effectsFor_of_ne]
      · simp [View.seenDrive, view, hfind]
      · rintro r hr rfl
        obtain ⟨app, happ, rfl⟩ := List.mem_map.1 hr
        exact find?_name_eq_none.1 hfind (List.mem_map_of_mem happ)
  | some app =>
      obtain ⟨happ, rfl⟩ := find?_name_eq_some hfind
      obtain ⟨after, hsplit, hbefore, hafter⟩ := eq_append_of_mem hnodup happ
      have hmap : apps.map Round.drive =
          (apps.takeWhile (·.name ≠ app.name)).map .drive ++ .drive app :: after.map .drive := by
        conv_lhs => rw [hsplit]
        rw [List.map_append, List.map_cons]
      have hdue : Startable env app ((w.reached paths env apps app.name).entry app.name) ↔
          w.Due env app := by
        rw [reached_entry hsole hnodup happ]
        rfl
      rw [hmap]
      refine effectsFor_split ?_ ?_ rfl ?_
      · rintro r hr hname
        obtain ⟨row, hrow, rfl⟩ := List.mem_map.1 hr
        exact hbefore (List.mem_map.2 ⟨row, hrow, hname⟩)
      · rintro r hr hname
        obtain ⟨row, hrow, rfl⟩ := List.mem_map.1 hr
        exact hafter (List.mem_map.2 ⟨row, hrow, hname⟩)
      · rw [List.foldl_map]
        refine drive_shows (w := w.reached paths env apps app.name) rfl rfl hfind ?_ ?_ ?_
        · rw [reached_entry hsole hnodup happ, view_reaped]
          unfold afterReap
          cases w.procs.lookup app.name <;> rfl
        · simp only [view, hfind, Option.bind_some]
          exact endpointUrl_reached app
        · simp only [view, hfind, Option.bind_some, hdue]

/-! ## The section -/

/-- What is seen of an app's rounds is decided by the view of the app. -/
theorem effectsFor_rounds (hsole : w.SoleHolders) (hnodup : (apps.map (·.name)).Nodup) :
    (effectsFor paths env apps name w (w.rounds paths env apps)).filterMap Effect.seen =
      (w.view paths env apps name).seen name paths := by
  have hreap : ((env.order w.procs.keys).map Round.reap).foldl (Round.apply paths env apps) w =
      w.reapedAll paths env := List.foldl_map
  have hdrop : ((env.order (w.reapedAll paths env).procs.keys).map Round.drop).foldl
      (Round.apply paths env apps) (w.reapedAll paths env) = w.swept paths env apps :=
    List.foldl_map
  unfold rounds View.seen
  rw [List.append_assoc, effectsFor_append, hreap, effectsFor_append, hdrop, List.filterMap_append,
    List.filterMap_append, reapSweep_seen hsole, dropSweep_seen hsole,
    driveSweep_seen hsole hnodup, List.append_assoc]

/-- So is the entry that the section leaves. -/
theorem lookup_eq_driven (hsole : w.SoleHolders) (hnodup : (apps.map (·.name)).Nodup) :
    (w.lockedSection paths env apps).procs.lookup name = (w.view paths env apps name).driven := by
  unfold View.driven
  rw [view_reaped]
  cases hfind : apps.find? (·.name = name) with
  | none =>
      rw [lockedSection_lookup_of_not_mem (find?_name_eq_none.1 hfind)]
      simp [view, hfind]
  | some app =>
      obtain ⟨happ, rfl⟩ := find?_name_eq_some hfind
      have hreaped : ((w.procs.lookup app.name).map fun _ => w.afterReap env app.name).getD {} =
          w.afterReap env app.name := by
        unfold afterReap
        cases w.procs.lookup app.name <;> rfl
      rw [lockedSection_lookup hsole hnodup happ, hreaped]
      simp only [view, hfind, Option.map_some, Option.bind_some]
      split
      case isTrue hdue => rfl
      case isFalse hdue =>
        rw [driven_congr hdue _ (.error "")]
        rfl

/-! ## The pids of the entries -/

theorem Separate.soleHolders (h : w.Separate) : w.SoleHolders :=
  fun pid name name' hheld hheld' =>
    h.sole name name' pid (h.ofChild name pid hheld) (h.ofChild name' pid hheld')

/-- Until `stop_all` begins, the pids of a daemon's entries are separate. -/
theorem Upkeep.separate (h : w.Upkeep) : w.Separate := by
  have hheld {name : String} {pid : Pid} (hreports : w.Reports name pid) : w.HeldBy pid name := by
    obtain ⟨m, hm, hpid⟩ := hreports
    exact ⟨m, hm, (h.coherent name m hm).pid.symm.trans hpid⟩
  refine ⟨?_, fun name name' pid hr hr' => h.held.unique (hheld hr) (hheld hr'), ?_⟩
  · rintro name pid ⟨m, hm, hchild⟩
    exact ⟨m, hm, (h.coherent name m hm).pid.trans hchild⟩
  · intro name pid hr
    obtain ⟨m, hm, hchild⟩ := hheld hr
    obtain ⟨launch, exit, hp, -⟩ := h.held.started name m pid hm hchild
    rw [hp]
    exact Option.some_ne_none _

/-- An entry that reports a pid after the first sweep has been left alone by it. -/
theorem reports_of_afterReap {pid : Pid} (hpid : (w.afterReap env name).pid = some pid) :
    w.Reports name pid ∧ ∀ m, w.procs.lookup name = some m →
      w.tryWait env name m.child = none := by
  unfold afterReap at hpid
  cases hm : w.procs.lookup name with
  | none => simp [hm] at hpid
  | some m =>
      simp only [hm] at hpid
      split at hpid
      · rw [Managed.reaped_pid] at hpid
        cases hpid
      case isFalse hwait =>
        refine ⟨⟨m, hm, hpid⟩, ?_⟩
        rintro m' ⟨⟩
        simpa using hwait

theorem reap_processes_of_running
    (h : ∀ m, w.procs.lookup name = some m → w.tryWait env name m.child = none) :
    (w.reap paths env name).host.processes = w.host.processes := by
  unfold reap
  cases hm : w.procs.lookup name with
  | none => rfl
  | some m =>
      simp only [h m hm]
      split
      · contradiction
      · split
        · cases m.pid <;> rfl
        · rfl

/-- The first sweep does not collect the process of an entry that reports it afterwards. -/
theorem reapedAll_uncollected (hsep : w.Separate) {pid : Pid}
    (hpid : (w.afterReap env name).pid = some pid) :
    (w.reapedAll paths env).host.processes pid ≠ none := by
  obtain ⟨hreports, hrunning⟩ := reports_of_afterReap hpid
  have hsame (names : List String) (hnodup : names.Nodup) :
      (names.foldl (reap paths env) w).host.processes pid = w.host.processes pid := by
    induction names using List.reverseRecOn with
    | nil => rfl
    | append_singleton names last ih =>
        obtain ⟨hnames, -, hlast⟩ := List.nodup_append.1 hnodup
        obtain ⟨hlookup, hprocesses⟩ := @reapSweep_spec paths env w hsep.soleHolders _ hnames
        have hfresh : last ∉ names := fun hmem => hlast last hmem last (by simp) rfl
        have hentry := hlookup last
        rw [if_neg hfresh] at hentry
        rw [List.foldl_append, List.foldl_cons, List.foldl_nil, ← ih hnames]
        by_cases hname : last = name
        · subst hname
          refine congrFun (reap_processes_of_running fun m hm => ?_) pid
          rw [hentry] at hm
          exact (tryWait_of_others hsep.soleHolders hfresh hprocesses hm).trans (hrunning m hm)
        · refine reap_processes fun ⟨m, hm, hchild⟩ => hname ?_
          rw [hentry] at hm
          exact hsep.sole _ _ pid (hsep.ofChild last pid ⟨m, hm, hchild⟩) hreports
  unfold reapedAll
  rw [hsame _ (nodup_order_keys env w)]
  exact hsep.uncollected name pid hreports

/-- Only the first sweep collects processes. -/
theorem round_uncollected (apps : List AppRow) {r : Round} (hr : ∀ name, r ≠ .reap name) {pid : Pid}
    (hp : w.host.processes pid ≠ none) :
    (r.apply paths env apps w).host.processes pid ≠ none := by
  refine (@Round.acts paths env apps w r).keep
    (P := fun h => h.processes pid ≠ none) (fun h e he hp => ?_) hp
  cases e with
  | wait q =>
      obtain ⟨m, hreap, -⟩ := he
      exact absurd hreap (hr _)
  | spawn q launch =>
      rw [Host.apply_spawn_processes]
      by_cases hq : pid = q
      · rw [hq, Function.update_self]
        exact Option.some_ne_none _
      · rwa [Function.update_of_ne hq]
  | _ => exact hp

theorem reached_uncollected (hsep : w.Separate) {pid : Pid} (other : String)
    (hpid : (w.afterReap env name).pid = some pid) :
    (w.reached paths env apps other).host.processes pid ≠ none := by
  have hreaped : (w.reapedAll paths env).host.processes pid ≠ none :=
    reapedAll_uncollected hsep hpid
  have hswept : (w.swept paths env apps).host.processes pid ≠ none :=
    List.foldlRecOn (motive := fun w' => w'.host.processes pid ≠ none) _ _ hreaped
      fun w' hw' app _ => round_uncollected (w := w') apps (r := .drop app) nofun hw'
  exact List.foldlRecOn (motive := fun w' => w'.host.processes pid ≠ none) _ _ hswept
    fun w' hw' row _ => round_uncollected (w := w') apps (r := .drive row) nofun hw'

/-- The third sweep gives an entry no pid but that of the instance it starts. -/
theorem driven_pid {app : AppRow} {result : Except String Pid} {m : Managed} {pid : Pid}
    (hpid : (driven env app result m).pid = some pid) :
    m.pid = some pid ∨ result = .ok pid := by
  by_cases hstart : Startable env app m
  · rw [driven_startable hstart] at hpid
    cases result with
    | ok q => exact Or.inr (congrArg Except.ok (Option.some.inj hpid))
    | error e => exact Or.inl hpid
  · refine Or.inl ?_
    unfold driven at hpid
    split at hpid
    · split at hpid
      · split at hpid <;> exact hpid
      · exact hpid
    case isFalse hrunning =>
      split at hpid
      · exact hpid
      case isFalse hchild =>
        split at hpid
        · exact hpid
        case isFalse hpolicy =>
          split at hpid
          · exact hpid
          case isFalse hbackoff =>
            exact absurd ⟨hrunning, by simpa using hchild, hpolicy, not_lt.1 hbackoff⟩ hstart

/-- The process that another entry still reports after the first sweep is not the app's. -/
theorem ownPid_of_other (hsep : w.Separate) (hnodup : (apps.map (·.name)).Nodup) {other : String}
    (hne : other ≠ name) {pid : Pid} (hpid : (w.afterReap env other).pid = some pid) :
    w.ownPid paths env apps name pid = false := by
  have hother := (reports_of_afterReap hpid).1
  have hbefore (hreports : w.Reports name pid) : False :=
    hne (hsep.sole other name pid hother hreports)
  refine Bool.eq_false_iff.2 fun hown => ?_
  rcases Bool.or_eq_true_iff.1 hown with hown | hown <;>
    obtain ⟨m, hm, hmpid⟩ := (Option.any_eq_true _ _).1 hown
  · exact hbefore ⟨m, hm, of_decide_eq_true hmpid⟩
  · by_cases hname : name ∈ apps.map (·.name)
    · obtain ⟨app, happ, rfl⟩ := List.mem_map.1 hname
      rw [lockedSection_lookup hsep.soleHolders hnodup happ, Option.some.injEq] at hm
      subst hm
      rcases driven_pid (of_decide_eq_true hmpid) with hsame | hstarted
      · exact hbefore (reports_of_afterReap hsame).1
      · -- the host hands out no pid that a process still has
        unfold launchResult at hstarted
        rcases @spawn_cases paths (w.reached paths env apps app.name).host _ app _ _ with
          ⟨e, herror, -⟩ | ⟨q, launch, hq, hfree, -⟩
        · rw [herror] at hstarted
          cases hstarted
        · rw [hq] at hstarted
          cases hstarted
          exact reached_uncollected hsep app.name hpid hfree
    · rw [lockedSection_lookup_of_not_mem hname] at hm
      cases hm

/-! ## What concerns an app comes from its own rounds -/

theorem mem_note {x : Seen} {kind detail : String} (hx : x ∈ v.note name kind detail) :
    x = .event v.now name kind detail := by
  unfold View.note at hx
  split at hx
  · cases hx
  · exact List.mem_singleton.1 hx

theorem mem_signal {x : Seen} {sig : Signal} {m : Managed} (hx : x ∈ v.signal sig m) :
    ∃ pid, m.pid = some pid ∧ x = .signal v.now pid sig := by
  unfold View.signal at hx
  rw [Option.mem_toList, Option.map_eq_some_iff] at hx
  obtain ⟨pid, hpid, rfl⟩ := hx
  exact ⟨pid, hpid, rfl⟩

/-- What is seen of an app's rounds: signals to the process that its entry reports after the
first sweep, its start and events in its name. -/
theorem mem_seen {x : Seen} (hx : x ∈ (w.view paths env apps name).seen name paths) :
    (∃ t pid sig, (w.afterReap env name).pid = some pid ∧ x = .signal t pid sig) ∨
      (∃ pid row command, row.name = name ∧ x = .spawn pid row command) ∨
      ∃ ts kind detail, x = .event ts name kind detail := by
  have hnote {kind detail : String}
      (hx : x ∈ (w.view paths env apps name).note name kind detail) :
      ∃ ts kind detail, x = .event ts name kind detail := ⟨_, _, _, mem_note hx⟩
  rcases List.mem_append.1 hx with hx | hdrive
  · rcases List.mem_append.1 hx with hreap | hdrop
    · unfold View.seenReap at hreap
      have hentry : (w.view paths env apps name).entry = w.procs.lookup name := rfl
      cases hm : w.procs.lookup name with
      | none => simp [hentry, hm] at hreap
      | some m =>
          have hexit : (w.view paths env apps name).exit = w.tryWait env name m.child := by
            simp [view, hm]
          simp only [hentry, hm, hexit] at hreap
          split at hreap
          · split at hreap
            · cases hreap
            · split at hreap <;> exact Or.inr (Or.inr (hnote hreap))
          case h_2 hnone =>
            split at hreap
            · obtain ⟨pid, hpid, rfl⟩ := mem_signal hreap
              have hwait : w.tryWait env name m.child = none := by
                cases hstatus : w.tryWait env name m.child with
                | none => rfl
                | some status =>
                    obtain ⟨child, hchild, -⟩ := tryWait_eq_some hstatus
                    exact (hnone child status hchild hstatus).elim
              exact Or.inl ⟨_, pid, _, by simpa [afterReap, hm, hwait] using hpid, rfl⟩
            · cases hreap
    · unfold View.seenDrop at hdrop
      rw [view_reaped] at hdrop
      split at hdrop
      · cases hdrop
      · cases hm : w.procs.lookup name with
        | none => simp [hm] at hdrop
        | some m =>
            simp only [hm, Option.map_some, Option.getD_some] at hdrop
            obtain ⟨pid, hpid, rfl⟩ := mem_signal hdrop
            exact Or.inl ⟨_, pid, _, hpid, rfl⟩
  · unfold View.seenDrive at hdrive
    have hreaped : (w.view paths env apps name).reaped.getD {} = w.afterReap env name := by
      rw [view_reaped]
      unfold afterReap
      cases w.procs.lookup name <;> rfl
    have hrow : (w.view paths env apps name).row = apps.find? (·.name = name) := rfl
    cases hfind : apps.find? (·.name = name) with
    | none => simp [hrow, hfind] at hdrive
    | some app =>
        have happ := (find?_name_eq_some hfind).2
        simp only [hrow, hfind, hreaped] at hdrive
        split at hdrive
        · split at hdrive
          · rcases List.mem_append.1 hdrive with hterm | hstop
            · obtain ⟨pid, hpid, rfl⟩ := mem_signal hterm
              exact Or.inl ⟨_, pid, _, hpid, rfl⟩
            · exact Or.inr (Or.inr (hnote hstop))
          · cases hdrive
        · split at hdrive
          · cases hdrive
          · rcases List.mem_cons.1 hdrive with rfl | hstart
            · exact Or.inr (Or.inl ⟨_, _, _, happ, rfl⟩)
            · exact Or.inr (Or.inr (hnote hstart))
          · exact Or.inr (Or.inr (hnote hdrive))

theorem concerns_own {x : Seen} (hx : x ∈ (w.view paths env apps name).seen name paths) :
    x.concerns name (w.ownPid paths env apps name) = true := by
  rcases mem_seen hx with ⟨t, pid, sig, hpid, rfl⟩ | ⟨pid, row, command, hname, rfl⟩ |
    ⟨ts, kind, detail, rfl⟩
  · obtain ⟨⟨m, hm, hmpid⟩, -⟩ := reports_of_afterReap hpid
    simp [Seen.concerns, ownPid, hm, hmpid]
  · simp [Seen.concerns, hname]
  · simp [Seen.concerns]

theorem concerns_other (hsep : w.Separate) (hnodup : (apps.map (·.name)).Nodup) {other : String}
    (hne : other ≠ name) {x : Seen} (hx : x ∈ (w.view paths env apps other).seen other paths) :
    x.concerns name (w.ownPid paths env apps name) = false := by
  rcases mem_seen hx with ⟨t, pid, sig, hpid, rfl⟩ | ⟨pid, row, command, hname, rfl⟩ |
    ⟨ts, kind, detail, rfl⟩
  · exact ownPid_of_other hsep hnodup hne hpid
  · simp [Seen.concerns, hname, hne]
  · simp [Seen.concerns, hne]

/-- If the rounds of the others show nothing that `P` picks, it picks from all the rounds what
it picks from those of the app. -/
theorem filter_rounds (name : String) {P : Seen → Bool} {rs : List Round}
    (hothers : ∀ other, other ≠ name →
      ∀ x ∈ (effectsFor paths env apps other w rs).filterMap Effect.seen, P x = false) :
    (((rs.foldl (Round.apply paths env apps) w).host.log.drop w.host.log.length).filterMap
        Effect.seen).filter P =
      ((effectsFor paths env apps name w rs).filterMap Effect.seen).filter P := by
  have hadds (w : World) (rs : List Round) : ∃ es,
      (rs.foldl (Round.apply paths env apps) w).host.log = w.host.log ++ es := by
    induction rs generalizing w with
    | nil => exact ⟨[], by simp⟩
    | cons r rs ih =>
        obtain ⟨es, hlog, -⟩ := (@Round.acts paths env apps w r).adds (P := fun _ => True)
          fun _ _ _ => trivial
        obtain ⟨es', hlog'⟩ := ih (r.apply paths env apps w)
        exact ⟨es ++ es', by rw [List.foldl_cons, hlog', hlog, List.append_assoc]⟩
  induction rs generalizing w with
  | nil => simp [effectsFor]
  | cons r rs ih =>
      obtain ⟨es, hlog⟩ := hadds w [r]
      obtain ⟨es', hlog'⟩ := hadds (r.apply paths env apps w) rs
      rw [List.foldl_cons, List.foldl_nil] at hlog
      have hhead : (r.apply paths env apps w).host.log.drop w.host.log.length = es := by
        rw [hlog, List.drop_left]
      have htail : (rs.foldl (Round.apply paths env apps) (r.apply paths env apps w)).host.log.drop
          w.host.log.length = es ++ es' := by
        rw [hlog', hlog, List.append_assoc, List.drop_left]
      have hrest := ih (w := r.apply paths env apps w) fun other hne x hx =>
        hothers other hne x (by
          rw [effectsFor, List.filterMap_append]
          exact List.mem_append_right _ hx)
      rw [hlog', List.drop_left] at hrest
      rw [List.foldl_cons, htail, effectsFor, hhead, List.filterMap_append, List.filter_append,
        List.filterMap_append, List.filter_append, hrest]
      congr 1
      split
      · rfl
      case isFalse hname =>
        rw [List.filterMap_nil, List.filter_nil, List.filter_eq_nil_iff]
        intro x hx
        rw [hothers r.app hname x (by
          rw [effectsFor, if_pos rfl, hhead, List.filterMap_append]
          exact List.mem_append_left _ hx)]
        exact Bool.false_ne_true

/-- What is seen of a section for an app is decided by the view of the app. -/
theorem seenFor_eq (hsep : w.Separate) (hnodup : (apps.map (·.name)).Nodup) :
    w.seenFor paths env apps name = (w.view paths env apps name).seen name paths := by
  have hrounds (other : String) := @effectsFor_rounds paths env w apps other hsep.soleHolders hnodup
  unfold seenFor sectionSeen
  rw [lockedSection_eq_rounds, filter_rounds name fun other hne x hx =>
    concerns_other hsep hnodup hne (hrounds other ▸ hx), hrounds]
  exact List.filter_eq_self.2 fun x => concerns_own

section Runs

/-- The row of a new app. -/
def rowOf (name : String) : AppRow :=
  { name, artifactHash := "h", kernelHash := "k", endpoint := none, restartPolicy := "always"
    args := [], statePath := "", desiredStatus := "running", adminAddr := none
    statusCmd := none, statusLabel := none, port := none, manifestPath := none, icon := none
    verifiedStatus := none, createdAt := 0, updatedAt := 0 }

/-- The child of `a` runs past its deadline, and the child of `b` has exited. -/
def crowded : World :=
  { host := { processes := fun pid =>
      if pid = 1 then some { launch := none }
      else if pid = 2 then some { launch := none, exit := some (.code 1) } else none }
    procs := (AList.insert "a" { child := some 1, pid := some 1, termDeadline := some 0 }
      (AList.insert "b" { child := some 2, pid := some 2 } ∅) : Table Managed) }

/-- The same without `b`. -/
def lonely : World := { crowded with procs := crowded.procs.erase "b" }

theorem lookup_crowded {m : Managed} (hm : crowded.procs.lookup name = some m) :
    name = "a" ∧ m.child = some 1 ∧ m.pid = some 1 ∨
      name = "b" ∧ m.child = some 2 ∧ m.pid = some 2 := by
  unfold crowded at hm
  by_cases ha : name = "a"
  · subst ha
    rw [AList.lookup_insert] at hm
    cases hm
    exact Or.inl ⟨rfl, rfl, rfl⟩
  · rw [AList.lookup_insert_ne ha] at hm
    by_cases hb : name = "b"
    · subst hb
      rw [AList.lookup_insert] at hm
      cases hm
      exact Or.inr ⟨rfl, rfl, rfl⟩
    · rw [AList.lookup_insert_ne hb] at hm
      cases hm

theorem separate_of_crowded {w : World} (hprocesses : w.host.processes = crowded.host.processes)
    (hprocs : ∀ name m, w.procs.lookup name = some m → crowded.procs.lookup name = some m) :
    w.Separate := by
  refine ⟨?_, ?_, ?_⟩
  · rintro name pid ⟨m, hm, hchild⟩
    refine ⟨m, hm, ?_⟩
    rcases lookup_crowded (hprocs name m hm) with ⟨-, hc, hp⟩ | ⟨-, hc, hp⟩ <;>
      rw [hp, ← hc, hchild]
  · rintro name name' pid ⟨m, hm, hpid⟩ ⟨m', hm', hpid'⟩
    rcases lookup_crowded (hprocs name m hm) with ⟨rfl, -, hp⟩ | ⟨rfl, -, hp⟩ <;>
      rcases lookup_crowded (hprocs name' m' hm') with ⟨rfl, -, hp'⟩ | ⟨rfl, -, hp'⟩ <;>
      rw [hpid] at hp <;> rw [hpid'] at hp' <;> cases hp <;> first | rfl | cases hp'
  · rintro name pid ⟨m, hm, hpid⟩
    rw [hprocesses]
    rcases lookup_crowded (hprocs name m hm) with ⟨-, -, hp⟩ | ⟨-, -, hp⟩ <;>
      rw [hpid] at hp <;> cases hp <;> simp [crowded]

theorem separate_crowded : crowded.Separate := separate_of_crowded rfl fun _ _ hm => hm

theorem separate_lonely : lonely.Separate := by
  refine separate_of_crowded rfl fun name m hm => ?_
  by_cases hb : name = "b"
  · rw [hb] at hm
    cases hm
  · rwa [← AList.lookup_erase_ne hb]

/-- The view of an app that is not due has nothing of the apps before it. -/
theorem view_of_not_due {paths : Paths} {env : Env} {w : World} {apps : List AppRow} {app : AppRow}
    (hrow : apps.find? (·.name = name) = some app) (hdue : ¬ w.Due env app) :
    w.view paths env apps name =
      { now := env.now, eventErr := env.eventErr name, entry := w.procs.lookup name
        exit := (w.procs.lookup name).bind fun m => w.tryWait env name m.child
        row := some app, url := w.endpointUrl env app, result := none } := by
  unfold view
  simp only [hrow, Option.bind_some, if_neg hdue]

end Runs

end World

end Supervisor

end Nockd
