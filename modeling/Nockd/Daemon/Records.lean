import Nockd.Daemon.Shutdown
import Nockd.Store.Stock
import Nockd.Supervisor.Pidfile

/-!
# Instances on record

A later daemon knows of an instance only what the disk says: its app is
registered, and the app's pidfile names it. In a run whose sections record what they start,
every running instance is on record, also when the daemon is cut off inside a
section, unless that is right after a spawn.
-/

namespace Nockd

namespace Daemon

open Api Config Interleaving Registry Store Supervisor

/-- The app of the instance is registered, and its pid is one the host gives. -/
structure Known (h : Host) (pid : Pid) (launch : Launch) : Prop where
  pos : 0 < pid
  lt : pid < 2 ^ 31
  registered : launch.app ∈ h.registry.app.keys

/-- The pidfile of the app names the instance. -/
def OnFile (paths : Paths) (h : Host) (pid : Pid) (launch : Launch) : Prop :=
  ((h.disk (resolve (paths.pidFile launch.app))).map (·.bytes)).bind readPid = some pid

/-- Every running instance was started by the daemon `d` and is on record. -/
def Recorded (paths : Paths) (d : ℕ) (h : Host) : Prop :=
  ∀ pid launch, h.Runs pid launch →
    launch.daemon = d ∧ Known h pid launch ∧ OnFile paths h pid launch

variable {paths : Paths} {env : Env} {d : ℕ} {h h' : Host}

theorem Known.mono {pid : Pid} {launch : Launch} (hk : Known h pid launch)
    (hkeys : ∀ name ∈ h.registry.app.keys, name ∈ h'.registry.app.keys) :
    Known h' pid launch :=
  ⟨hk.pos, hk.lt, hkeys _ hk.registered⟩

/-- Nothing new runs, no app is lost, and the pidfiles of what runs are as
before. -/
theorem Recorded.of_same (hr : Recorded paths d h)
    (hran : ∀ pid launch, h'.Runs pid launch → h.Runs pid launch)
    (hkeys : ∀ name ∈ h.registry.app.keys, name ∈ h'.registry.app.keys)
    (hfile : ∀ pid launch, h'.Runs pid launch →
      h'.disk (resolve (paths.pidFile launch.app)) =
        h.disk (resolve (paths.pidFile launch.app))) : Recorded paths d h' := by
  intro pid launch hruns
  obtain ⟨hdaemon, hknown, honFile⟩ := hr pid launch (hran pid launch hruns)
  refine ⟨hdaemon, hknown.mono hkeys, ?_⟩
  unfold OnFile
  rw [hfile pid launch hruns]
  exact honFile

theorem Recorded.of_idle (hidle : ∀ pid launch, ¬ h.Runs pid launch) : Recorded paths d h :=
  fun pid launch hruns => absurd hruns (hidle pid launch)

/-! ## Effects -/

/-- An effect that is no spawn starts nothing. -/
theorem runs_of_apply {e : Effect} (he : isSpawn e = false) {pid : Pid} {launch : Launch}
    (hruns : (h.apply e).Runs pid launch) : h.Runs pid launch := by
  cases e with
  | spawn q launch' => cases he
  | wait q => exact h.runs_apply_wait hruns
  | _ => exact hruns

/-- An effect on the file that no running instance has its pidfile in. -/
theorem Recorded.apply (hr : Recorded paths d h) {e : Effect} (he : isSpawn e = false)
    (hfile : ∀ pid launch, h.Runs pid launch →
      (h.apply e).disk (resolve (paths.pidFile launch.app)) =
        h.disk (resolve (paths.pidFile launch.app))) : Recorded paths d (h.apply e) :=
  hr.of_same (fun _ _ => runs_of_apply he) (fun _ hname => by rwa [keys_apply])
    fun pid launch hruns => hfile pid launch (runs_of_apply he hruns)

/-- A spawn, and the write of its pidfile, which no other running instance has its
pid in. -/
theorem Recorded.spawn (hr : Recorded paths d h) {pid : Pid} {launch : Launch}
    {node : FileNode} (hfree : h.FreePid pid) (hdaemon : launch.daemon = d)
    (hregistered : launch.app ∈ h.registry.app.keys) (hnode : readPid node.bytes = some pid)
    (hother : ∀ q l, h.Runs q l →
      resolve (paths.pidFile l.app) ≠ resolve (paths.pidFile launch.app)) :
    Recorded paths d ((h.apply (.spawn pid launch)).apply
      (.write (resolve (paths.pidFile launch.app)) node)) := by
  have hkeys : ∀ name ∈ h.registry.app.keys, name ∈ ((h.apply (.spawn pid launch)).apply
      (.write (resolve (paths.pidFile launch.app)) node)).registry.app.keys := by
    intro name hname
    rwa [keys_apply, keys_apply]
  have hfile (file : File) : ((h.apply (.spawn pid launch)).apply
      (.write (resolve (paths.pidFile launch.app)) node)).disk file =
        h.disk.set (resolve (paths.pidFile launch.app)) (some node) file := rfl
  intro q l hruns
  unfold OnFile
  rcases Host.runs_apply_spawn h (runs_of_apply (e := .write _ node) rfl hruns) with
    ⟨rfl, rfl⟩ | hran
  · refine ⟨hdaemon, ⟨hfree.1, hfree.2.1, hkeys _ hregistered⟩, ?_⟩
    rw [hfile, Disk.set_self, Option.map_some, Option.bind_some, hnode]
  · obtain ⟨hl, hknown, honFile⟩ := hr q l hran
    refine ⟨hl, hknown.mono hkeys, ?_⟩
    rw [hfile, Disk.set_of_ne _ _ (hother q l hran)]
    exact honFile

/-- Effects that touch no file and start nothing. -/
def Harmless : Effect → Prop
  | .spawn _ _ => False
  | .write _ _ => False
  | .remove _ => False
  | _ => True

theorem Recorded.harmless (hr : Recorded paths d h) {e : Effect} (he : Harmless e) :
    Recorded paths d (h.apply e) := by
  cases e <;> first | exact he.elim | exact hr.apply rfl fun _ _ _ => rfl

/-! ## Cuts -/

/-- However many of the effects are made, what the host then is satisfies `P`,
except right after a spawn. -/
def CutSafe (P : Host → Prop) (h : Host) (added : List Effect) : Prop :=
  ∀ n, ((added.take n).getLast?.all fun e => !isSpawn e) = true →
    P ((added.take n).foldl Host.apply h)

theorem CutSafe.nil {P : Host → Prop} (hp : P h) : CutSafe P h [] := by
  intro n _
  simpa using hp

theorem CutSafe.append {P : Host → Prop} {added : List Effect} {e : Effect}
    (hcut : CutSafe P h added)
    (he : isSpawn e = false → P ((added.foldl Host.apply h).apply e)) :
    CutSafe P h (added ++ [e]) := by
  intro n hlast
  by_cases hn : n ≤ added.length
  · rw [List.take_append_of_le_length hn] at hlast ⊢
    exact hcut n hlast
  · rw [List.take_of_length_le (by simp; omega)] at hlast ⊢
    rw [List.foldl_append]
    exact he (by simpa using hlast)

theorem CutSafe.full {P : Host → Prop} {added : List Effect} (hcut : CutSafe P h added)
    (hall : ∀ e ∈ added, isSpawn e = false) : P (added.foldl Host.apply h) := by
  have hlast := hcut added.length
  rw [List.take_length] at hlast
  refine hlast ((Option.all_eq_true _ _).2 fun e he => ?_)
  simp [hall e (List.mem_of_getLast? he)]

/-- Whatever keeps `P` one effect at a time keeps it at every cut. -/
theorem CutSafe.of_forall {P : Host → Prop} {Q : Effect → Prop}
    (hkeep : ∀ h e, Q e → P h → P (h.apply e)) {added : List Effect} (hp : P h)
    (hall : ∀ e ∈ added, Q e) : CutSafe P h added :=
  fun _ _ => Host.foldl_apply_keep hkeep hp fun e he => hall e (List.mem_of_mem_take he)

/-- The host has gone on by effects that are safe to cut. -/
def Reaches (P : Host → Prop) (h h' : Host) : Prop :=
  ∃ added, h' = added.foldl Host.apply h ∧ CutSafe P h added

theorem Reaches.refl {P : Host → Prop} (hp : P h) : Reaches P h h := ⟨[], rfl, .nil hp⟩

theorem Reaches.apply {P : Host → Prop} (hreach : Reaches P h h') {e : Effect}
    (he : isSpawn e = false → P (h'.apply e)) : Reaches P h (h'.apply e) := by
  obtain ⟨added, rfl, hcut⟩ := hreach
  exact ⟨added ++ [e], by simp [List.foldl_append], hcut.append he⟩

/-- The effects are those that the log has gained. -/
theorem Reaches.cutSafe {P : Host → Prop} (hreach : Reaches P h h') :
    CutSafe P h (h'.log.drop h.log.length) := by
  obtain ⟨added, rfl, hcut⟩ := hreach
  rw [Host.foldl_apply_log, List.drop_left]
  exact hcut

/-! ## One section -/

/-- The pidfile of the app is that of no other registered app. -/
def OwnPidfile (paths : Paths) (h : Host) (name : String) : Prop :=
  ∀ other ∈ h.registry.app.keys,
    resolve (paths.pidFile other) = resolve (paths.pidFile name) → other = name

instance (paths : Paths) (h : Host) (name : String) : Decidable (OwnPidfile paths h name) :=
  inferInstanceAs (Decidable (∀ other ∈ h.registry.app.keys, _ → _))

/-- What a section must find to keep the records: no child has been taken, or
there is none left and no app is to be started. Its pidfiles are apart, and the
pids of what it starts get written. -/
structure RecordsPids (paths : Paths) (env : Env) (apps : List AppRow) (w : World) : Prop where
  nodup : (apps.map (·.name)).Nodup
  registered : ∀ app ∈ apps, app.name ∈ w.host.registry.app.keys
  phase : w.taken = [] ∨ (∀ name m, w.procs.lookup name = some m → m.child = none) ∧
    ∀ app ∈ apps, ¬ w.Due env app
  own : ∀ name ∈ w.procs.keys ++ apps.map (·.name), OwnPidfile paths w.host name
  write : ∀ app ∈ apps, w.Due env app → env.pidfileWrite app.name = .done

variable {apps : List AppRow} {w w' w₀ : World}

/-- The host in a section that began in `w₀`. -/
structure OnTrack (paths : Paths) (apps : List AppRow) (w₀ : World) (h : Host) : Prop where
  keys : h.registry.app.keys = w₀.host.registry.app.keys
  waited : ∀ pid ∈ w₀.taken, ∀ launch, h.Runs pid launch → launch.app ∈ apps.map (·.name)
  recorded : Recorded paths w₀.daemon h
  reaches : Reaches (Recorded paths w₀.daemon) w₀.host h

theorem OnTrack.apply (ht : OnTrack paths apps w₀ h) {e : Effect} (he : isSpawn e = false)
    (hfile : ∀ pid launch, h.Runs pid launch →
      (h.apply e).disk (resolve (paths.pidFile launch.app)) =
        h.disk (resolve (paths.pidFile launch.app))) : OnTrack paths apps w₀ (h.apply e) where
  keys := (keys_apply h e).trans ht.keys
  waited := fun pid hpid launch hruns => ht.waited pid hpid launch (runs_of_apply he hruns)
  recorded := ht.recorded.apply he hfile
  reaches := ht.reaches.apply fun _ => ht.recorded.apply he hfile

/-- The section that began in `w₀` has come as far as `w`. -/
structure Recording (paths : Paths) (apps : List AppRow) (w₀ w : World) : Prop where
  held : w.Held
  keeping : World.Keeping apps w
  taken : w.taken = w₀.taken
  daemon : w.daemon = w₀.daemon
  host : OnTrack paths apps w₀ w.host

/-- An app without a child has no running instance, or it is one that `stop_all`
waits for. -/
theorem Recording.idle (hr : Recording paths apps w₀ w) {name : String}
    (hidle : ∀ m, w.procs.lookup name = some m → m.child = none) {pid : Pid} {launch : Launch}
    (hruns : w.host.Runs pid launch) : launch.app ≠ name ∨ pid ∈ w₀.taken := by
  rcases hr.keeping.tracked pid launch hruns with ⟨m, hm, hchild⟩ | htaken
  · left
    rintro rfl
    rw [hidle m hm] at hchild
    cases hchild
  · exact Or.inr (hr.taken ▸ htaken)

/-- A section removes the pidfile of no running instance. -/
theorem Recording.unlink (hcond : RecordsPids paths env apps w₀)
    (hr : Recording paths apps w₀ w) {name : String} {m : Managed}
    (hm : w₀.procs.lookup name = some m)
    (hwhy : name ∉ apps.map (·.name) ∨ m.child.isSome = true)
    (hidle : ∀ m, w.procs.lookup name = some m → m.child = none) :
    OnTrack paths apps w₀ (w.host.apply (.remove (resolve (paths.pidFile name)))) := by
  refine hr.host.apply rfl fun pid launch hruns => Disk.set_of_ne _ _ fun hfile => ?_
  have hname : launch.app = name := by
    refine hcond.own name (List.mem_append_left _ ?_) launch.app ?_ hfile
    · rw [← AList.mem_keys, ← AList.lookup_isSome, hm]
      rfl
    · exact hr.host.keys ▸ (hr.host.recorded pid launch hruns).2.1.registered
  have htaken := (hr.idle hidle hruns).resolve_left (not_not.2 hname)
  rcases hcond.phase with hnone | ⟨hempty, -⟩
  · rw [hnone] at htaken
    cases htaken
  · rcases hwhy with hdropped | hchild
    · exact hdropped (hname ▸ hr.host.waited pid htaken launch hruns)
    · rw [hempty name m hm] at hchild
      cases hchild

/-- A section that starts an instance puts it on record. -/
theorem Recording.spawn (hcond : RecordsPids paths env apps w₀)
    (hr : Recording paths apps w₀ w) {app : AppRow} {pid : Pid} {launch : Launch}
    (happ : app ∈ apps) (hdue : w₀.Due env app) (hidle : (w.entry app.name).child = none)
    (hfree : w.host.FreePid pid) (hlaunch : launch.app = app.name ∧ launch.daemon = w.daemon) :
    OnTrack paths apps w₀ (((w.emit (.spawn pid launch)).setEntry app.name
      ((w.entry app.name).spawned env.now pid)).writePidfile paths env app.name pid).host := by
  have hnone : w₀.taken = [] := hcond.phase.resolve_right fun h => h.2 app happ hdue
  have hchild (m : Managed) (hm : w.procs.lookup app.name = some m) : m.child = none := by
    rw [World.entry_of_lookup hm] at hidle
    exact hidle
  have hother {q : Pid} {l : Launch} (hruns : w.host.Runs q l) : l.app ≠ app.name :=
    (hr.idle hchild hruns).resolve_right (by simp [hnone])
  have hkeys : (w.host.apply (.spawn pid launch)).registry.app.keys =
      w₀.host.registry.app.keys := (keys_apply _ _).trans hr.host.keys
  have hrecorded (node : FileNode) (hnode : node.bytes = World.pidText pid env.now) :
      Recorded paths w₀.daemon ((w.host.apply (.spawn pid launch)).apply
        (.write (resolve (paths.pidFile app.name)) node)) := by
    rw [← hlaunch.1]
    refine hr.host.recorded.spawn hfree (hlaunch.2.trans hr.daemon) ?_ ?_ fun q l hruns hfile => ?_
    · rw [hr.host.keys, hlaunch.1]
      exact hcond.registered app happ
    · rw [hnode]
      exact readPid_pidText (hfree.2.1.trans (by decide)) env.now
    · rw [hlaunch.1] at hfile
      refine hother hruns (hcond.own app.name ?_ l.app ?_ hfile)
      · exact List.mem_append_right _ (List.mem_map_of_mem happ)
      · exact hr.host.keys ▸ (hr.host.recorded q l hruns).2.1.registered
  unfold World.writePidfile
  rw [hcond.write app happ hdue]
  refine ⟨(keys_apply _ _).trans hkeys, ?_, hrecorded _ rfl, ?_⟩
  · simp [hnone]
  · exact (hr.host.reaches.apply fun h => by cases h).apply fun _ => hrecorded _ rfl

theorem Recording.move (hcond : RecordsPids paths env apps w₀)
    (hr : Recording paths apps w₀ w) (hmove : World.Move paths env apps w₀ w w') :
    Recording paths apps w₀ w' := by
  refine ⟨hr.held.move hmove, hr.keeping.move hr.held hmove, hmove.taken.trans hr.taken,
    hmove.daemon.trans hr.daemon, ?_⟩
  cases hmove with
  | signal => exact hr.host.apply rfl fun _ _ _ => rfl
  | event => exact hr.host.apply rfl fun _ _ _ => rfl
  | wait => exact hr.host.apply rfl fun _ _ _ => rfl
  | drop => exact hr.host
  | update => exact hr.host
  | unlink name m hm hwhy hidle => exact hr.unlink hcond hm hwhy hidle
  | createDir => exact hr.host.apply rfl fun _ _ _ => rfl
  | stage app =>
      exact hr.host.apply rfl fun _ launch _ =>
        Disk.set_of_ne _ _ (paths.pidFile_ne_stagedJam launch.app app.name)
  | openLog app =>
      exact hr.host.apply rfl fun _ launch _ =>
        Disk.set_of_ne _ _ (paths.pidFile_ne_logFile launch.app app.name)
  | spawn app pid bin url happ hdue hidle hfree =>
      exact hr.spawn hcond happ (hdue hcond.nodup) hidle hfree ⟨rfl, rfl⟩

/-- A section keeps the records, wherever it is cut. -/
theorem section_recording (hcond : RecordsPids paths env apps w) (hheld : w.Held)
    (hkeeping : World.Keeping apps w) (hwaited : ∀ pid ∈ w.taken, ∀ launch,
      w.host.Runs pid launch → launch.app ∈ apps.map (·.name))
    (hrecorded : Recorded paths w.daemon w.host) :
    Recording paths apps w (w.lockedSection paths env apps) :=
  (World.lockedSection_moves w apps).keep (P := Recording paths apps w)
    (fun _ _ hmove hr => hr.move hcond hmove)
    ⟨hheld, hkeeping, rfl, rfl, rfl, hwaited, hrecorded, .refl hrecorded⟩

/-! ## Other calls -/

theorem perform_pidFile {crates : Crates} {op : Call} (hmain : .main ∉ op.uses)
    (hsection : ∀ apps, op ≠ .lockedSection apps) (name : String) :
    (perform paths crates env w op).1.host.disk (resolve (paths.pidFile name)) =
      w.host.disk (resolve (paths.pidFile name)) := by
  by_cases hput : ∃ jam bin targetTriple, op = .put jam bin targetTriple
  · obtain ⟨jam, bin, targetTriple, rfl⟩ := hput
    exact putAll_of_ne (paths.pidFile_ne_binPath name _) (paths.pidFile_ne_jamPath name _)
  · rw [perform_disk hmain hsection fun jam bin targetTriple heq => hput ⟨_, _, _, heq⟩]

/-- A step of the daemon keeps the records, wherever it is cut. -/
structure KeepsRecords (paths : Paths) (w w' : World) : Prop where
  daemon : w'.daemon = w.daemon
  recorded : Recorded paths w.daemon w'.host
  cut : CutSafe (Recorded paths w.daemon) w.host (w'.host.log.drop w.host.log.length)

theorem Recording.keepsRecords (hr : Recording paths apps w w') : KeepsRecords paths w w' :=
  ⟨hr.daemon, hr.host.recorded, hr.host.reaches.cutSafe⟩

theorem keepsRecords_call {crates : Crates} {op : Call} (hmain : .main ∉ op.uses)
    (hsection : ∀ apps, op ≠ .lockedSection apps) (hr : Recorded paths w.daemon w.host) :
    KeepsRecords paths w (perform paths crates env w op).1 := by
  have hframe : Frame w (perform paths crates env w op).1 := perform_frame hmain hsection
  refine ⟨hframe.daemon, hr.of_same (fun pid launch hruns => ?_)
    (fun name => keys_perform paths crates env w op)
    (fun _ launch _ => perform_pidFile hmain hsection launch.app), ?_⟩
  · unfold Host.Runs at hruns ⊢
    rwa [← hframe.processes]
  · rcases hframe.signals with hlog | ⟨t, pid, sig, hlog⟩
    · rw [hlog, List.drop_length]
      exact .nil hr
    · rw [hlog, List.drop_left]
      exact .of_forall (Q := Harmless) (fun _ _ he hr => hr.harmless he) hr (by simp [Harmless])

theorem KeepsRecords.refl (hr : Recorded paths w.daemon w.host) : KeepsRecords paths w w := by
  refine ⟨rfl, hr, ?_⟩
  rw [List.drop_length]
  exact .nil hr

/-- A process ends or comes from the outside. -/
theorem keepsRecords_setProcess {pid : Pid} {p : Option Process}
    (hprocesses : World.ProcessesKept w (w.setProcess pid p))
    (hr : Recorded paths w.daemon w.host) : KeepsRecords paths w (w.setProcess pid p) := by
  refine ⟨rfl, hr.of_same hprocesses.ran (fun _ h => h) (fun _ _ _ => rfl), ?_⟩
  have hlog : (w.setProcess pid p).host.log = w.host.log := rfl
  rw [hlog, List.drop_length]
  exact .nil hr

/-- Nothing runs any more when `stop_all` removes the pidfiles. -/
theorem keepsRecords_stop (crates : Crates) {op : Call} (hop : Stops op)
    (hidle : op = .removePidfiles → ∀ pid launch, ¬ w.host.Runs pid launch)
    (hr : Recorded paths w.daemon w.host) :
    KeepsRecords paths w (perform paths crates env w op).1 := by
  obtain ⟨added, hhost, heffects⟩ := stops_effects paths crates env w hop
  have hcut : CutSafe (Recorded paths w.daemon) w.host added := by
    by_cases hremove : op = .removePidfiles
    · have hnone : CutSafe (fun h => ∀ pid launch, ¬ h.Runs pid launch) w.host added :=
        .of_forall (Q := (isSpawn · = false))
          (fun _ _ he hnone pid launch hruns => hnone pid launch (runs_of_apply he hruns))
          (hidle hremove) fun e he => by have h := heffects e he; cases e <;> trivial
      exact fun n hlast => .of_idle (hnone n hlast)
    · refine .of_forall (Q := Harmless) (fun _ _ he hr => hr.harmless he) hr fun e he => ?_
      have heffect := heffects e he
      cases e with
      | remove file => exact absurd heffect.1 hremove
      | _ => trivial
  refine ⟨perform_daemon paths crates env w op, ?_, ?_⟩
  · rw [hhost]
    refine hcut.full fun e he => ?_
    have heffect := heffects e he
    cases e <;> trivial
  · rw [hhost, Host.foldl_apply_log, List.drop_left]
    exact hcut

/-! ## Runs -/

theorem runningApp_of_runs {pid : Pid} {launch : Launch} (h : w.host.Runs pid launch) :
    runningApp w pid = some launch.app := by
  unfold Host.Runs at h
  simp [runningApp, h]

namespace Sys

/-- A section sees the apps of all running instances, their pidfiles are apart,
and the pidfile of every app it starts gets written. -/
def SavesPids (paths : Paths) (s : Sys) (a : Action) : Prop :=
  s.OrderlyStop a ∧ s.AtSection (fun env apps =>
    (∀ name ∈ s.world.taken.filterMap (runningApp s.world), name ∈ apps.map (·.name)) ∧
      (∀ name ∈ s.world.procs.keys ++ apps.map (·.name), OwnPidfile paths s.world.host name) ∧
      ∀ app ∈ apps, s.world.Due env app → env.pidfileWrite app.name = .done) a

instance (paths : Paths) (s : Sys) (a : Action) : Decidable (s.SavesPids paths a) :=
  inferInstanceAs (Decidable (_ ∧ s.AtSection _ a))

end Sys

/-- What is good for a thread to know while the apps are those of `h`. -/
def RegisteredFact (h : Host) : Fact → Prop
  | .snapshot apps => ∀ app ∈ apps, app.name ∈ h.registry.app.keys
  | _ => True

theorem RegisteredFact.mono (hkeys : ∀ name ∈ h.registry.app.keys, name ∈ h'.registry.app.keys)
    {f : Fact} (hf : RegisteredFact h f) : RegisteredFact h' f := by
  cases f with
  | snapshot apps => exact fun app happ => hkeys _ (hf app happ)
  | _ => trivial

theorem registered_learns (paths : Paths) (crates : Crates) (env : Env) (w : World) (op : Call) :
    ∀ f ∈ op.learns (perform paths crates env w op).2, RegisteredFact w.host f := by
  intro f hf
  rcases learns_cases hf with ⟨hash, rfl⟩ | ⟨apps, rfl⟩
  · trivial
  · cases op with
    | listApps =>
        cases hf
        exact fun app happ => name_mem_listApps.1 (List.mem_map_of_mem happ)
    | put jam bin targetTriple => cases hf
    | previousArtifact name current =>
        obtain ⟨_, -, h⟩ := hf
        cases h
    | _ => exact hf.elim

theorem terminateAll_last (children : List (Pid × Pid)) :
    (terminateAll children).Last (· = .removePidfiles) := by
  refine Program.Last.bind_right (Program.Only.forEach fun _ => only_must (by simp)) fun _ => ?_
  refine Program.Last.bind_right (Program.Only.forEach fun _ => ?_) fun _ =>
    ⟨fun _ _ => rfl, fun _ => trivial⟩
  refine Program.Only.bind (only_must (by simp)) fun exited => ?_
  cases exited with
  | true => trivial
  | false => exact Program.Only.bind (only_must (by simp)) fun _ => only_must (by simp)

theorem stopAll_last : stopAll.Last (· = .removePidfiles) :=
  ⟨nofun, fun _ => ⟨nofun, terminateAll_last⟩⟩

/-- The daemon, with everything that runs on record. -/
structure Remembered (paths : Paths) (s : Sys) : Prop where
  phase : Serving s ∨ Stopping s
  known : Lawful Call.uses Call.learns (RegisteredFact s.world.host) s.threads
  recorded : Recorded paths s.world.daemon s.world.host
  stops : ∀ p, s.stopping = some p → p.Only Stops ∧ p.Last (· = .removePidfiles)

variable {crates : Crates} {s s' : Sys} {a : Action}

theorem Remembered.of_fresh (h : s.Fresh) : Remembered paths s where
  phase := Or.inl ⟨Tidy.of_fresh h, by simp [h.log], Or.inl h.stopping⟩
  known := by simp [Lawful, h.threads]
  recorded := .of_idle h.quiet
  stops := by simp [h.stopping]

theorem Remembered.lawful (h : Remembered paths s) :
    Lawful Call.uses Call.learns PlainFact s.threads :=
  h.phase.elim (·.tidy.lawful) (·.lawful)

/-- The section of a thread. -/
theorem Remembered.section (h : Remembered paths s) {i : ℕ}
    {next : Except String Unit → Thread}
    (ht : s.threads[i]? = some (.call (.lockedSection apps) next))
    (hguard : s.SavesPids paths (.run i env)) :
    KeepsRecords paths s.world (s.world.lockedSection paths env apps) := by
  have horderly := hguard.1 apps (Sys.section?_eq ht)
  obtain ⟨htaken, hown, hwrite⟩ := hguard.2 apps (Sys.section?_eq ht)
  have hnodup := h.lawful.good ht (.snapshot apps) rfl
  have hregistered := h.known.good ht (.snapshot apps) rfl
  have hwaited : ∀ pid ∈ s.world.taken, ∀ launch, s.world.host.Runs pid launch →
      launch.app ∈ apps.map (·.name) := fun pid hpid launch hruns =>
    htaken _ (List.mem_filterMap.2 ⟨pid, hpid, runningApp_of_runs hruns⟩)
  suffices hrecording : Recording paths apps s.world (s.world.lockedSection paths env apps) from
    hrecording.keepsRecords
  rcases h.phase with hserving | hstopping
  · simp only [if_neg hserving.log] at horderly
    refine section_recording ⟨hnodup, hregistered, Or.inl hserving.tidy.taken, hown, hwrite⟩
      hserving.tidy.held ⟨hserving.tidy.tracked, ?_⟩ hwaited h.recorded
    exact fun name hname pid launch hby hruns =>
      hname (horderly name (World.mem_liveNames hby hruns))
  · simp only [if_pos hstopping.log.taken] at horderly
    refine section_recording ⟨hnodup, hregistered, Or.inr ⟨hstopping.emptied.idle, horderly⟩,
      hown, hwrite⟩ hstopping.emptied.held ⟨?_, ?_⟩ hwaited h.recorded
    · exact fun pid launch hruns => Or.inr (hstopping.emptied.taken pid launch hruns)
    · rintro name hname pid launch ⟨m, hm, hchild⟩ hruns
      rw [hstopping.emptied.idle name m hm] at hchild
      cases hchild

/-- The pidfiles are removed only after everything has been waited for. -/
theorem Remembered.idle (h : Remembered paths s)
    {next : Except String Unit → Proc Unit}
    (hp : s.stopping = some (.call .removePidfiles next)) :
    ∀ pid launch, ¬ s.world.host.Runs pid launch := by
  rcases h.phase with hserving | hstopping
  · rcases hserving.stopping with hstop | hstop | hstop <;> rw [hstop] at hp <;> cases hp
  · obtain ⟨p, hp', -, hwaits⟩ := hstopping.waits
    rw [hp] at hp'
    cases hp'
    intro pid launch hruns
    have hwait := hwaits pid (hstopping.emptied.taken pid launch hruns)
    have hrest : WaitsFor pid (next (.ok ())) := hwait.step (by simp) trivial
    have hfin := ((h.stops _ hp).2.1 rfl ()).symm.trans hrest.not_finished
    cases hfin

theorem Remembered.of_keepsRecords {world : World} {threads : List Thread}
    {stopping : Option (Proc Unit)} (hkeeps : KeepsRecords paths s.world world)
    (hphase : Serving ⟨world, threads, stopping⟩ ∨ Stopping ⟨world, threads, stopping⟩)
    (hknown : Lawful Call.uses Call.learns (RegisteredFact world.host) threads)
    (hstops : ∀ p, stopping = some p → p.Only Stops ∧ p.Last (· = .removePidfiles)) :
    Remembered paths ⟨world, threads, stopping⟩ ∧ KeepsRecords paths s.world world := by
  refine ⟨⟨hphase, hknown, ?_, hstops⟩, hkeeps⟩
  rw [hkeeps.daemon]
  exact hkeeps.recorded

theorem Remembered.step (h : Remembered paths s) (hstep : Sys.Step paths crates s a s')
    (hguard : s.SavesPids paths a) :
    Remembered paths s' ∧ KeepsRecords paths s.world s'.world := by
  have hphase : Serving s' ∨ Stopping s' :=
    h.phase.elim (·.step hstep hguard.1) fun hs => Or.inr (hs.step hstep hguard.1)
  cases hstep with
  | arrive r =>
      refine Remembered.of_keepsRecords (.refl h.recorded) hphase
        (h.known.append ?_ (handler_obeys r)) h.stops
      cases r <;> simp [Request.facts, RegisteredFact]
  | run i env op next ht hopen =>
      refine Remembered.of_keepsRecords ?_ hphase ?_ h.stops
      · rcases op.section_cases with ⟨apps, rfl⟩ | hsection
        · exact h.section ht hguard
        · exact keepsRecords_call (lawful_main h.lawful ht) hsection h.recorded
      · exact (h.known.set_ok ht (registered_learns paths crates env s.world op)).mono fun _ hf =>
          hf.mono fun _ => keys_perform paths crates env s.world op
  | fail i message op next ht hfallible =>
      exact Remembered.of_keepsRecords (.refl h.recorded) hphase (h.known.set_error ht) h.stops
  | exit pid status launch hp =>
      exact Remembered.of_keepsRecords (keepsRecords_setProcess
        (World.processesKept_exit hp) h.recorded) hphase h.known h.stops
  | collect pid hexit htaken hchild =>
      exact Remembered.of_keepsRecords (keepsRecords_setProcess
        (World.processesKept_collect htaken hchild) h.recorded) hphase h.known h.stops
  | foreign pid hfree =>
      exact Remembered.of_keepsRecords (keepsRecords_setProcess
        (World.processesKept_foreign hfree) h.recorded) hphase h.known h.stops
  | beginStop hnone =>
      refine Remembered.of_keepsRecords (.refl h.recorded) hphase h.known ?_
      rintro p ⟨⟩
      exact ⟨stopAll_only, stopAll_last⟩
  | stop env op next hp hopen =>
      obtain ⟨honly, hlast⟩ := h.stops _ hp
      refine Remembered.of_keepsRecords (keepsRecords_stop crates honly.1 ?_ h.recorded)
        hphase ?_ ?_
      · rintro rfl
        exact h.idle hp
      · exact h.known.mono fun _ hf => hf.mono fun _ => keys_perform paths crates env s.world op
      · rintro p ⟨⟩
        exact ⟨honly.2.1 _, hlast.2 _⟩

end Daemon

end Nockd
