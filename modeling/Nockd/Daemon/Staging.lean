import Nockd.Daemon.Shutdown
import Nockd.Store.Stock

/-!
# What was deployed is what runs

A section starts an app from the stored files of its artifact: it executes
`bin`, and stages the kernel into the working directory if the artifact has one. For an
artifact without a kernel the staging is a no-op, and the working directory
keeps the `out.jam` it had, which may be the kernel of an earlier artifact.
-/

namespace Nockd

namespace Daemon

open Api Config Interleaving Registry Store Supervisor

variable {root : String} {crates : Crates} {env : Env} {w : World}

/-! ## What a section starts -/

/-- The instance was started from the stored files of its row. -/
structure StartsFrom (paths : Paths) (d : Disk) (apps : List AppRow) (launch : Launch) : Prop where
  row : launch.row ∈ apps
  app : launch.app = launch.row.name
  executed : (d (binFile paths launch.row.artifactHash)).map (·.bytes) = some launch.executed
  kernel : ∀ jam, d (jamFile paths launch.row.artifactHash) = some jam →
    launch.outJam = some jam.bytes
  noKernel : d (jamFile paths launch.row.artifactHash) = none →
    launch.outJam = (d (resolve (paths.stagedJam launch.app))).map (·.bytes)

/-- If the effect is a spawn, `P` holds of what it starts. -/
def OnSpawn (P : Launch → Prop) : Effect → Prop
  | .spawn _ launch => P launch
  | _ => True

/-- The section has come so far from a host with disk `d`. -/
structure Starting (paths : Paths) (apps : List AppRow) (h h' : Host) : Prop where
  artifacts : SameArtifacts paths h.disk h'.disk
  staged : ∀ app ∈ apps, h.disk (jamFile paths app.artifactHash) = none →
    h'.disk (resolve (paths.stagedJam app.name)) = h.disk (resolve (paths.stagedJam app.name))
  adds : Host.Adds (OnSpawn (StartsFrom paths h.disk apps)) h h'

variable {apps : List AppRow} {h h' : Host}

/-- An effect that does not touch the files, and is no spawn. -/
theorem Starting.apply {paths : Paths} (hs : Starting paths apps h h') {e : Effect}
    (hdisk : (h'.apply e).disk = h'.disk)
    (he : OnSpawn (StartsFrom paths h.disk apps) e) : Starting paths apps h (h'.apply e) where
  artifacts := by
    rw [hdisk]
    exact hs.artifacts
  staged := by
    rw [hdisk]
    exact hs.staged
  adds := hs.adds.apply he

theorem Starting.set {paths : Paths} (hs : Starting paths apps h h') {e : Effect} {file : File}
    {node : Option FileNode} (hdisk : (h'.apply e).disk = h'.disk.set file node)
    (hartifacts : ∀ hash : String, Config.Plain hash.toList →
      file ≠ binFile paths hash ∧ file ≠ jamFile paths hash)
    (hstaged : ∀ app ∈ apps, h.disk (jamFile paths app.artifactHash) = none →
      file ≠ resolve (paths.stagedJam app.name))
    (he : OnSpawn (StartsFrom paths h.disk apps) e) : Starting paths apps h (h'.apply e) where
  artifacts := by
    rw [hdisk]
    exact hs.artifacts.set hartifacts
  staged := by
    intro app happ hnone
    rw [hdisk, Disk.set_of_ne _ _ (hstaged app happ hnone).symm]
    exact hs.staged app happ hnone
  adds := hs.adds.apply he

theorem Starting.pidFile {paths : Paths} (hs : Starting paths apps h h') (name : String)
    {e : Effect} {node : Option FileNode}
    (hdisk : (h'.apply e).disk = h'.disk.set (resolve (paths.pidFile name)) node)
    (he : OnSpawn (StartsFrom paths h.disk apps) e) : Starting paths apps h (h'.apply e) :=
  hs.set hdisk (fun hash _ => ⟨paths.pidFile_ne_binPath name hash,
    paths.pidFile_ne_jamPath name hash⟩)
    (fun app _ _ => paths.pidFile_ne_stagedJam name app.name) he

theorem Starting.createDir {paths : Paths} (hs : Starting paths apps h h') {dir : File}
    (hdir : ∀ hash : String, Config.Plain hash.toList →
      dir ≠ binFile paths hash ∧ dir ≠ jamFile paths hash) :
    Starting paths apps h (h'.apply (.createDir dir)) where
  artifacts := hs.artifacts.makeDir hdir
  staged := hs.staged
  adds := hs.adds.apply trivial

/-- The names of the snapshot are plain, and so are its hashes. -/
structure PlainRows (apps : List AppRow) : Prop where
  nodup : (apps.map (·.name)).Nodup
  name : ∀ app ∈ apps, Config.Plain app.name.toList
  hash : ∀ app ∈ apps, Config.Plain app.artifactHash.toList

theorem PlainRows.eq_of_name (hrows : PlainRows apps) {app other : AppRow} (happ : app ∈ apps)
    (hother : other ∈ apps) (h : app.name = other.name) : app = other :=
  List.inj_on_of_nodup_map hrows.nodup happ hother h

theorem stagedJam_ne {app hash : String} (happ : Config.Plain app.toList)
    (hhash : Config.Plain hash.toList) :
    resolve ((Paths.ofRoot root).stagedJam app) ≠ binFile (Paths.ofRoot root) hash ∧
      resolve ((Paths.ofRoot root).stagedJam app) ≠ jamFile (Paths.ofRoot root) hash := by
  unfold binFile jamFile
  rw [resolve_stagedJam root happ, resolve_binPath root hhash, resolve_jamPath root hhash]
  simp

/-- The directories of a plain name are not the files of an artifact. -/
theorem stateDirs_ne {app hash : String} (happ : Config.Plain app.toList)
    (hhash : Config.Plain hash.toList) {dir : File}
    (hdir : dir ∈ (Paths.ofRoot root).stateDirs app) :
    dir ≠ binFile (Paths.ofRoot root) hash ∧ dir ≠ jamFile (Paths.ofRoot root) hash := by
  rw [stateDirs_ofRoot root happ, List.mem_pair] at hdir
  unfold binFile jamFile
  rw [resolve_binPath root hhash, resolve_jamPath root hhash]
  rcases hdir with rfl | rfl <;> simp

theorem stagedJam_inj {app other : String} (happ : Config.Plain app.toList)
    (hother : Config.Plain other.toList)
    (h : resolve ((Paths.ofRoot root).stagedJam app) =
      resolve ((Paths.ofRoot root).stagedJam other)) : app = other := by
  rw [resolve_stagedJam root happ, resolve_stagedJam root hother] at h
  simpa [String.toList_inj] using h

theorem Starting.move {w₀ w₁ w₂ : World} (hrows : PlainRows apps)
    (hs : Starting (Paths.ofRoot root) apps h w₁.host)
    (hmove : World.Move (Paths.ofRoot root) env apps w₀ w₁ w₂) :
    Starting (Paths.ofRoot root) apps h w₂.host := by
  cases hmove with
  | signal => exact hs.apply rfl trivial
  | event => exact hs.apply rfl trivial
  | wait => exact hs.apply rfl trivial
  | drop => exact hs
  | update => exact hs
  | unlink name => exact hs.pidFile name rfl trivial
  | createDir app dir happ hdir =>
      exact hs.createDir fun hash hhash => stateDirs_ne (hrows.name app happ) hhash hdir
  | openLog app node happ hnone =>
      exact hs.set rfl (fun hash _ => ⟨Paths.logFile_ne_binPath _ app.name hash,
        Paths.logFile_ne_jamPath _ app.name hash⟩)
        (fun other _ _ => Paths.logFile_ne_stagedJam _ app.name other.name) trivial
  | stage app jam node happ hjam =>
      refine hs.set rfl (fun hash hhash => stagedJam_ne (hrows.name app happ) hhash) ?_ trivial
      intro other hother hnone hfile
      have hname := stagedJam_inj (hrows.name app happ) (hrows.name other hother) hfile
      rw [← hrows.eq_of_name happ hother hname,
        ← (hs.artifacts _ (hrows.hash app happ)).2.1] at hnone
      exact absurd (hjam.symm.trans hnone) (by simp)
  | spawn app pid bin url happ hdue hidle hfree hbin hjam =>
      obtain ⟨⟨hbinSame, -⟩, ⟨hjamSame, -⟩⟩ := hs.artifacts _ (hrows.hash app happ)
      have hstarts : StartsFrom (Paths.ofRoot root) h.disk apps
          (w₁.host.launchOf (Paths.ofRoot root) w₁.daemon app url bin) := by
        refine ⟨happ, rfl, ?_, fun jam hstored => ?_, fun hnone => ?_⟩
        · exact congrArg (Option.map (·.bytes)) (hbinSame.symm.trans hbin)
        · have hfile := (hjam jam (hjamSame.trans hstored)).resolve_right
            (Paths.logFile_ne_jamPath _ _ _)
          exact congrArg (Option.map (·.bytes)) hfile
        · exact congrArg (Option.map (·.bytes)) (hs.staged app happ hnone)
      have hspawned := hs.apply (e := .spawn pid
        (w₁.host.launchOf (Paths.ofRoot root) w₁.daemon app url bin)) rfl hstarts
      exact World.writePidfile_keep (P := Starting (Paths.ofRoot root) apps h) hspawned
        fun node => hspawned.pidFile app.name rfl trivial

theorem section_starting (root : String) (env : Env) (w : World) (hrows : PlainRows apps) :
    Starting (Paths.ofRoot root) apps w.host
      (w.lockedSection (Paths.ofRoot root) env apps).host :=
  (World.lockedSection_moves w apps).keep
    (P := fun w' => Starting (Paths.ofRoot root) apps w.host w'.host)
    (fun _ _ hmove hs => hs.move hrows hmove) ⟨.refl, fun _ _ _ => rfl, .refl _⟩

/-! ## The store and the registry over a run -/

/-- Every artifact is whole, and the registry names stored artifacts only. -/
structure Stock (paths : Paths) (bundles : Bundles) (h : Host) : Prop where
  whole : ∀ hash : String, Config.Plain hash.toList → Whole paths bundles h.disk hash
  apps : ∀ name row, h.registry.app.lookup name = some row →
    Config.Plain name.toList ∧ Stored paths h.disk row.artifactHash
  history : ∀ e ∈ h.registry.deployHistory, Stored paths h.disk e.artifactHash

/-- What is good for a thread to know while the disk is `d`. -/
def StockFact (paths : Paths) (d : Disk) : Fact → Prop
  | .hash hash => Stored paths d hash
  | .name name => Config.Plain name.toList
  | .snapshot apps => PlainRows apps
  | .main => False
  | _ => True

theorem StockFact.mono {paths : Paths} {d d' : Disk}
    (hstored : ∀ hash, Stored paths d hash → Stored paths d' hash) {f : Fact}
    (hf : StockFact paths d f) : StockFact paths d' f := by
  cases f with
  | hash hash => exact hstored hash hf
  | _ => exact hf

variable {paths : Paths} {bundles : Bundles}

theorem Stock.congr (hstock : Stock paths bundles h)
    (hsame : SameArtifacts paths h.disk h'.disk)
    (hregistry : h'.registry.quiet = h.registry.quiet) :
    Stock paths bundles h' := by
  have happ : h'.registry.app = h.registry.app := congr_of_quiet (·.app) (fun _ => rfl) hregistry
  have hhistory : h'.registry.deployHistory = h.registry.deployHistory :=
    congr_of_quiet (·.deployHistory) (fun _ => rfl) hregistry
  constructor
  · exact fun hash hplain => (hstock.whole hash hplain).of_files (hsame hash hplain)
  · intro name row hrow
    rw [happ] at hrow
    exact (hstock.apps name row hrow).imp_right (·.congr hsame)
  · intro e he
    rw [hhistory] at he
    exact (hstock.history e he).congr hsame

theorem lookup_modify_cases {V : Type} {t : Table V} {k name : String} {f : V → V} {v : V}
    (hv : (Table.modify t k f).lookup name = some v) :
    ∃ v₀, t.lookup name = some v₀ ∧ (v = v₀ ∨ v = f v₀) := by
  by_cases hname : name = k
  · subst hname
    rw [Table.lookup_modify] at hv
    obtain ⟨v₀, hv₀, rfl⟩ := Option.map_eq_some_iff.1 hv
    exact ⟨v₀, hv₀, Or.inr rfl⟩
  · rw [Table.lookup_modify_ne _ _ hname] at hv
    exact ⟨v, hv, Or.inl rfl⟩

/-- A statement that uses good facts only keeps the stock. -/
theorem Stock.write (hstock : Stock paths bundles w.host) {st : Statement}
    (huses : ∀ f ∈ Call.uses (.write st), StockFact paths w.host.disk f) :
    Stock paths bundles (w.mapRegistry (st.exec env.now)).host := by
  refine ⟨hstock.whole, ?_, ?_⟩
  · intro name row hrow
    have hupdate {app : String} {f : AppRecord → AppRecord}
        (hrow : (Table.modify w.host.registry.app app f).lookup name = some row)
        (hf : ∀ row, (f row).artifactHash = row.artifactHash ∨
          Stored paths w.host.disk (f row).artifactHash) :
        Config.Plain name.toList ∧ Stored paths w.host.disk row.artifactHash := by
      obtain ⟨row₀, hrow₀, rfl | rfl⟩ := lookup_modify_cases hrow
      · exact hstock.apps name _ hrow₀
      · obtain ⟨hplain, hstored⟩ := hstock.apps name row₀ hrow₀
        exact ⟨hplain, (hf row₀).elim (fun heq => heq ▸ hstored) id⟩
    cases st with
    | upsertApp u =>
        have hname : StockFact paths w.host.disk (.name u.name) := huses _ (by simp [Call.uses])
        have hhash : StockFact paths w.host.disk (.hash u.artifactHash) :=
          huses _ (by simp [Call.uses])
        change (AList.insert u.name _ w.host.registry.app).lookup name = some row at hrow
        by_cases heq : name = u.name
        · subst heq
          rw [AList.lookup_insert, Option.some.injEq] at hrow
          subst hrow
          exact ⟨hname, hhash⟩
        · rw [AList.lookup_insert_ne heq] at hrow
          exact hstock.apps name row hrow
    | updateAppConfig app c => exact hupdate hrow fun _ => Or.inl rfl
    | setAppArtifact app hash =>
        exact hupdate hrow fun _ => Or.inr (huses (.hash hash) (by simp [Call.uses]))
    | setDesired app status => exact hupdate hrow fun _ => Or.inl rfl
    | addTrustedBuilder pubkey =>
        refine hstock.apps name row ?_
        have happ : (w.host.registry.addTrustedBuilder env.now pubkey).app =
            w.host.registry.app := by
          unfold addTrustedBuilder
          split <;> rfl
        exact happ ▸ hrow
    | _ => exact hstock.apps name row hrow
  · intro e he
    cases st with
    | recordDeploy name hash =>
        rcases List.mem_append.1 he with he | he
        · exact hstock.history e he
        · rw [List.mem_singleton.1 he]
          exact huses (.hash hash) (by simp [Call.uses])
    | addTrustedBuilder pubkey =>
        refine hstock.history e ?_
        have hhistory : (w.host.registry.addTrustedBuilder env.now pubkey).deployHistory =
            w.host.registry.deployHistory := by
          unfold addTrustedBuilder
          split <;> rfl
        exact hhistory ▸ he
    | _ => exact hstock.history e he

/-- A put of the bundle of its hash. -/
theorem Stock.put {jam : Option Bytes} {bin : Bytes} {hash : String}
    (hstock : Stock (Paths.ofRoot root) bundles w.host) (hplain : Config.Plain hash.toList)
    (hbundle : bundles hash = some (jam, bin)) :
    let d' := putAll (Paths.ofRoot root) hash jam bin w.host.disk
    Stock (Paths.ofRoot root) bundles { w.host with disk := d' } ∧
      Stored (Paths.ofRoot root) d' hash ∧
      ∀ other, Stored (Paths.ofRoot root) w.host.disk other →
        Stored (Paths.ofRoot root) d' other := by
  intro d'
  obtain ⟨hwhole, hbin⟩ := putAll_whole (hstock.whole hash hplain) hbundle
  have hsame {other : String} (hother : Config.Plain other.toList) (hne : other ≠ hash) :
      w.host.disk.SameAt d' (binFile (Paths.ofRoot root) other) ∧
        w.host.disk.SameAt d' (jamFile (Paths.ofRoot root) other) := by
    have hfile {file : File} (h : file = binFile (Paths.ofRoot root) other ∨
        file = jamFile (Paths.ofRoot root) other) : w.host.disk.SameAt d' file := by
      obtain ⟨hb, hj⟩ := artifactFiles_ne hplain hother hne.symm h
      exact ⟨putAll_of_ne hb hj, by rw [putAll_dirs]⟩
    exact ⟨hfile (Or.inl rfl), hfile (Or.inr rfl)⟩
  have hstored (other : String) (h : Stored (Paths.ofRoot root) w.host.disk other) :
      Stored (Paths.ofRoot root) d' other := by
    refine ⟨h.1, ?_⟩
    by_cases hne : other = hash
    · rw [hne]
      exact hbin
    · rw [(hsame h.1 hne).1.1]
      exact h.2
  refine ⟨⟨fun other hother => ?_, fun name row hrow => ?_, fun e he => ?_⟩, ⟨hplain, hbin⟩,
    hstored⟩
  · by_cases hne : other = hash
    · rw [hne]
      exact hwhole
    · exact (hstock.whole other hother).of_files (hsame hother hne)
  · exact (hstock.apps name row hrow).imp_right (hstored _)
  · exact hstored _ (hstock.history e he)

/-- A reply about a host in stock teaches good facts. -/
theorem Stock.learns (crates : Crates) (env : Env) {op : Call} (hstock : Stock paths bundles w.host)
    (hput : ∀ jam bin targetTriple, op ≠ .put jam bin targetTriple) :
    ∀ f ∈ op.learns (perform paths crates env w op).2, StockFact paths w.host.disk f := by
  intro f hf
  cases op with
  | put jam bin targetTriple => exact absurd rfl (hput jam bin targetTriple)
  | listApps =>
      cases hf
      have hrow {app : AppRow} (happ : app ∈ w.host.registry.listApps) :
          Config.Plain app.name.toList ∧ Stored paths w.host.disk app.artifactHash := by
        obtain ⟨record, hrecord, hmap⟩ := Option.map_eq_some_iff.1 (mem_listApps.1 happ)
        have hhash : record.artifactHash = app.artifactHash := congrArg AppRow.artifactHash hmap
        rw [← hhash]
        exact hstock.apps app.name record hrecord
      exact ⟨nodup_listApps _, fun app happ => (hrow happ).1, fun app happ => (hrow happ).2.1⟩
  | previousArtifact name current =>
      obtain ⟨hash, hprev, rfl⟩ := hf
      simp only [perform] at hprev
      split at hprev
      · cases hprev
      · obtain ⟨e, he, rfl⟩ := Option.map_eq_some_iff.1 hprev
        exact hstock.history e (List.mem_reverse.1 (List.mem_of_find?_eq_some he))
  | _ => exact hf.elim

/-! ## Runs -/

/-- A shutdown leaves the artifacts and the tables alone, and starts nothing. -/
theorem stops_perform (paths : Paths) (crates : Crates) (env : Env) (w : World) {op : Call}
    (hop : Stops op) :
    SameArtifacts paths w.host.disk (perform paths crates env w op).1.host.disk ∧
      (perform paths crates env w op).1.host.registry.quiet = w.host.registry.quiet ∧
      ∀ P, Host.Adds (OnSpawn P) w.host (perform paths crates env w op).1.host := by
  obtain ⟨added, hhost, heffects⟩ := stops_effects paths crates env w hop
  refine ⟨?_, perform_quiet paths crates env w hop.statement, fun P => ⟨added, ?_, fun e he => ?_⟩⟩
  · rw [hhost]
    refine Host.foldl_apply_keep (P := fun h => SameArtifacts paths w.host.disk h.disk)
      (fun h e he hsame => ?_) .refl heffects
    cases e with
    | remove file =>
        obtain ⟨-, name, rfl⟩ := he
        exact hsame.set fun hash _ =>
          ⟨paths.pidFile_ne_binPath name hash, paths.pidFile_ne_jamPath name hash⟩
    | _ => first | exact hsame | exact he.elim
  · rw [hhost, Host.foldl_apply_log]
  · have heffect := heffects e he
    cases e <;> trivial

/-- Deployed names are plain, and every bundle that is put is the one its hash
stands for. -/
def bundlesApart (crates : Crates) (bundles : Bundles) (s : Sys) : Action → Bool
  | .arrive (.deploy req) => Config.Plain req.name.toList
  | .run i _ =>
    match s.threads[i]? with
    | some (.call (.put jam bin targetTriple) _) =>
      bundles (computeHashes crates.blake3 jam bin targetTriple).artifactHash = some (jam, bin)
    | _ => true
  | _ => true

structure Stocked (paths : Paths) (bundles : Bundles) (s : Sys) : Prop where
  lawful : Lawful Call.uses Call.learns (StockFact paths s.world.host.disk) s.threads
  stock : Stock paths bundles s.world.host
  stopping : ∀ p, s.stopping = some p → p.Only Stops

/-- The instance runs the bundle of its hash. A kernel is staged if there is
one, and otherwise `out.jam` is what the host `h` had there. -/
def RunsBundle (paths : Paths) (bundles : Bundles) (h : Host) (launch : Launch) : Prop :=
  ∃ jam bin, bundles launch.row.artifactHash = some (jam, bin) ∧ launch.executed = bin ∧
    (∀ j, jam = some j → launch.outJam = some j) ∧
    (jam = none →
      launch.outJam = (h.disk (resolve (paths.stagedJam launch.app))).map (·.bytes))

theorem Stock.runsBundle (hstock : Stock paths bundles h) (hrows : PlainRows apps)
    {launch : Launch} (hstart : StartsFrom paths h.disk apps launch) :
    RunsBundle paths bundles h launch := by
  obtain ⟨bin, hbin, hexecuted⟩ := Option.map_eq_some_iff.1 hstart.executed
  rcases hstock.whole _ (hrows.hash _ hstart.row) with ⟨hnone, -⟩ | ⟨jam, b, hb, hcomplete, hjam⟩
  · rw [Disk.pathExists_eq_false, hbin] at hnone
    cases hnone.1
  · refine ⟨jam, b, hb, ?_, fun j hj => ?_, fun hnone =>
      hstart.noKernel (Disk.pathExists_eq_false.1 (hjam hnone)).1⟩
    · rw [hcomplete.1] at hbin
      cases hbin
      exact hexecuted.symm
    · obtain ⟨node, hnode, rfl⟩ := Option.map_eq_some_iff.1 (hcomplete.2 j hj)
      exact hstart.kernel node hnode

variable {s s' : Sys} {a : Action}

/-- A step that only changes processes or threads. -/
theorem Stocked.of_host {world : World} {threads : List Thread} (hs : Stocked paths bundles s)
    (hlawful : Lawful Call.uses Call.learns (StockFact paths s.world.host.disk) threads)
    (hdisk : world.host.disk = s.world.host.disk)
    (hregistry : world.host.registry.quiet = s.world.host.registry.quiet) :
    Stocked paths bundles { s with world, threads } where
  lawful := by
    rw [← hdisk] at hlawful
    exact hlawful
  stock := hs.stock.congr (.of_eq hdisk) hregistry
  stopping := hs.stopping

/-- The calls of a thread. -/
theorem Stocked.run {i : ℕ} {op : Call} {next : Except String op.Reply → Thread}
    (hblake : ∀ b, Config.Plain (crates.blake3 b).toList)
    (hs : Stocked (Paths.ofRoot root) bundles s) (ht : s.threads[i]? = some (.call op next))
    (hguard : bundlesApart crates bundles s (.run i env) = true) :
    let w' := (perform (Paths.ofRoot root) crates env s.world op).1
    Stocked (Paths.ofRoot root) bundles
        { s with
          world := w'
          threads := s.threads.set i
            (next (.ok (perform (Paths.ofRoot root) crates env s.world op).2)) } ∧
      Host.Adds (OnSpawn (RunsBundle (Paths.ofRoot root) bundles s.world.host))
        s.world.host w'.host := by
  intro w'
  have hgood := hs.lawful.good ht
  have hmain : .main ∉ op.uses := fun h => hgood .main h
  -- what the disk keeps of the stock, the threads may go on using
  have hlawful (hstored : ∀ hash, Stored (Paths.ofRoot root) s.world.host.disk hash →
        Stored (Paths.ofRoot root) w'.host.disk hash)
      (hlearns : ∀ f ∈ op.learns (perform (Paths.ofRoot root) crates env s.world op).2,
        StockFact (Paths.ofRoot root) w'.host.disk f) :
      Lawful Call.uses Call.learns (StockFact (Paths.ofRoot root) w'.host.disk)
        (s.threads.set i (next (.ok (perform (Paths.ofRoot root) crates env s.world op).2))) :=
    (hs.lawful.mono fun _ hf => hf.mono hstored).set_ok ht hlearns
  by_cases hput : ∃ jam bin targetTriple, op = .put jam bin targetTriple
  · obtain ⟨jam, bin, targetTriple, rfl⟩ := hput
    have hbundle : bundles (computeHashes crates.blake3 jam bin targetTriple).artifactHash =
        some (jam, bin) := by
      simp only [bundlesApart, ht] at hguard
      exact of_decide_eq_true hguard
    have hplain : Config.Plain
        (computeHashes crates.blake3 jam bin targetTriple).artifactHash.toList := by
      rw [computeHashes_artifactHash]
      exact hblake _
    obtain ⟨hstock, hnew, hstored⟩ := hs.stock.put hplain hbundle
    refine ⟨⟨hlawful hstored ?_, hstock, hs.stopping⟩, .of_log rfl⟩
    rintro f ⟨⟩
    exact hnew
  have hput' : ∀ jam bin targetTriple, op ≠ .put jam bin targetTriple :=
    fun jam bin targetTriple heq => hput ⟨jam, bin, targetTriple, heq⟩
  have hlearns := hs.stock.learns crates env hput'
  rcases op.section_cases with ⟨apps, rfl⟩ | hsection
  · have hrows : PlainRows apps := hgood (.snapshot apps) rfl
    have hstart := section_starting root env s.world hrows
    refine ⟨⟨hlawful (fun _ h => h.congr hstart.artifacts) fun f hf => hf.elim, ?_,
      hs.stopping⟩, ?_⟩
    · exact hs.stock.congr hstart.artifacts (World.lockedSection_quiet _ _)
    · refine hstart.adds.mono fun e he => ?_
      cases e with
      | spawn pid launch => exact hs.stock.runsBundle hrows he
      | _ => trivial
  · have hdisk : w'.host.disk = s.world.host.disk := perform_disk hmain hsection hput'
    have hframe : Frame s.world w' := perform_frame hmain hsection
    refine ⟨⟨hlawful (fun _ h => by rwa [hdisk]) (by rwa [hdisk]), ?_, hs.stopping⟩, ?_⟩
    · cases op with
      | write st => exact hs.stock.write hgood
      | _ => exact hs.stock.congr (.of_eq hdisk) (perform_quiet _ _ _ _ rfl)
    · rcases hframe.signals with hlog | ⟨t, pid, sig, hlog⟩
      · exact .of_log hlog
      · exact ⟨[_], hlog, by simp [OnSpawn]⟩

theorem Stocked.step (hblake : ∀ b, Config.Plain (crates.blake3 b).toList)
    (hs : Stocked (Paths.ofRoot root) bundles s)
    (hstep : Sys.Step (Paths.ofRoot root) crates s a s')
    (hguard : bundlesApart crates bundles s a = true) :
    Stocked (Paths.ofRoot root) bundles s' ∧
      Host.Adds (OnSpawn (RunsBundle (Paths.ofRoot root) bundles s.world.host))
        s.world.host s'.world.host := by
  have hstops := stops_act hstep hs.stopping
  cases hstep with
  | arrive r =>
      refine ⟨hs.of_host (hs.lawful.append ?_ (handler_obeys r)) rfl rfl, .refl _⟩
      cases r with
      | deploy req =>
          rintro f (rfl | rfl | rfl)
          · trivial
          · trivial
          · exact of_decide_eq_true (p := Config.Plain req.name.toList) hguard
      | _ => simp [Request.facts, StockFact]
  | run i env op next ht hopen => exact hs.run hblake ht hguard
  | fail i message op next ht hfallible =>
      exact ⟨hs.of_host (hs.lawful.set_error ht) rfl rfl, .refl _⟩
  | exit pid status launch hp => exact ⟨hs.of_host hs.lawful rfl rfl, .of_log rfl⟩
  | collect pid hexit htaken hchild => exact ⟨hs.of_host hs.lawful rfl rfl, .of_log rfl⟩
  | foreign pid hfree => exact ⟨hs.of_host hs.lawful rfl rfl, .of_log rfl⟩
  | beginStop hnone =>
      exact ⟨⟨hs.lawful, hs.stock, hstops⟩, .refl _⟩
  | stop env op next hp hopen =>
      have honly := hs.stopping _ hp
      obtain ⟨hsame, hquiet, hadds⟩ := stops_perform (Paths.ofRoot root) crates env s.world
        honly.1
      refine ⟨⟨?_, hs.stock.congr hsame hquiet, hstops⟩, hadds _⟩
      exact hs.lawful.mono fun _ hf => hf.mono fun _ h => h.congr hsame

/-- Whatever a step starts runs the bundle of its hash. -/
theorem deployed_runs (hblake : ∀ b, Config.Plain (crates.blake3 b).toList)
    (h : ReachableWhen (Sys.step (Paths.ofRoot root) crates)
      (fun s => s.Fresh ∧ Stock (Paths.ofRoot root) bundles s.world.host)
      (fun s a => bundlesApart crates bundles s a = true) s)
    (hguard : bundlesApart crates bundles s a = true)
    (hs : s.step (Paths.ofRoot root) crates a = some s') {added : List Effect}
    (hlog : s'.world.host.log = s.world.host.log ++ added) :
    ∀ pid launch, .spawn pid launch ∈ added →
      RunsBundle (Paths.ofRoot root) bundles s.world.host launch := by
  have hstocked : Stocked (Paths.ofRoot root) bundles s := by
    refine h.invariant (I := Stocked (Paths.ofRoot root) bundles) ?_ ?_
    · rintro s ⟨hfresh, hstock⟩
      exact ⟨by simp [Lawful, hfresh.threads], hstock, by simp [hfresh.stopping]⟩
    · exact fun s a s' ih hguard hs => (ih.step hblake (Sys.step_cases hs) hguard).1
  obtain ⟨added', hlog', hall⟩ := (hstocked.step hblake (Sys.step_cases hs) hguard).2
  have hadded : added = added' := List.append_cancel_left (hlog.symm.trans hlog')
  intro pid launch hspawn
  exact hall _ (hadded ▸ hspawn)

section Runs

def stagingCrates : Crates := Crates.plainCrates [] []

/-- A deploy of `a` with a kernel, and one without. -/
def deployKernel : Request :=
  .deploy { name := "a", targetTriple := "t", binB64 := "a", jamB64 := some "k" }

def deployBare : Request := .deploy { name := "a", targetTriple := "t", binB64 := "b" }

def kernelHash : String :=
  (computeHashes stagingCrates.blake3 (some [0x6b]) [0x61] "t").artifactHash

def bareHash : String := (computeHashes stagingCrates.blake3 none [0x62] "t").artifactHash

def stagingBundles : Bundles := fun hash =>
  if hash = kernelHash then some (some [0x6b], [0x61])
  else if hash = bareHash then some (none, [0x62])
  else none

theorem fresh_stock :
    Sys.Fresh {} ∧ Stock (Paths.ofRoot "/r") stagingBundles ({} : Sys).world.host := by
  refine ⟨fresh_default, fun _ _ => Or.inl ⟨rfl, rfl⟩, fun name row hrow => ?_, ?_⟩
  · simp at hrow
  · simp

/-- The app with the kernel is replaced by the one without; the last pass is
about to start the second. -/
def bareRun : List Action :=
  [.arrive deployKernel] ++ calls 0 10 ++ [.run 0 (launches 1), .arrive deployBare] ++
    calls 1 11 ++ [.exit 1 (.signal 15), .arrive .reconcileTick] ++ calls 2 2

/-- The hash, the executed bytes and the working directory's kernel of a spawn. -/
def spawned : Effect → Option (String × Bytes × Option Bytes)
  | .spawn _ launch => some (launch.row.artifactHash, launch.executed, launch.outJam)
  | _ => none

theorem deployed_runs_bareRun :
    ∃ s s' added, runWhen (Sys.step (Paths.ofRoot "/r") stagingCrates)
        (fun s a => bundlesApart stagingCrates stagingBundles s a = true) {} bareRun = some s ∧
      s.step (Paths.ofRoot "/r") stagingCrates (.run 2 (launches 2)) = some s' ∧
      s'.world.host.log = s.world.host.log ++ added ∧
      added.filterMap spawned = [(bareHash, [0x62], some [0x6b])] ∧
      ∀ pid launch, .spawn pid launch ∈ added →
        RunsBundle (Paths.ofRoot "/r") stagingBundles s.world.host launch := by
  have hrun : ((runWhen (Sys.step (Paths.ofRoot "/r") stagingCrates)
      (fun s a => bundlesApart stagingCrates stagingBundles s a = true) {} bareRun).bind fun s =>
        (s.step (Paths.ofRoot "/r") stagingCrates (.run 2 (launches 2))).map fun s' =>
          (bundlesApart stagingCrates stagingBundles s (.run 2 (launches 2)),
            decide (s.world.host.log <+: s'.world.host.log),
            decide ((s'.world.host.log.drop s.world.host.log.length).filterMap spawned =
              [(bareHash, [0x62], some [0x6b])]))) =
      some (true, true, true) := by
    decide +kernel
  obtain ⟨s, hs, hnext⟩ := Option.bind_eq_some_iff.1 hrun
  obtain ⟨s', hs', hval⟩ := Option.map_eq_some_iff.1 hnext
  obtain ⟨hguard, hrest⟩ := Prod.mk.inj hval
  obtain ⟨hextends, hspawned⟩ := Prod.mk.inj hrest
  have hlog := (List.prefix_iff_eq_append.1 (of_decide_eq_true hextends)).symm
  exact ⟨s, s', _, hs, hs', hlog, of_decide_eq_true hspawned,
    deployed_runs (Crates.plainCrates_blake3_plain _ _)
      (ReachableWhen.runWhen (.start fresh_stock) hs) hguard hs' hlog⟩

/-- The instance runs the bundle of its hash, and sees no kernel of another
artifact. -/
def RunsOnly (bundles : Bundles) (launch : Launch) : Prop :=
  ∃ jam bin, bundles launch.row.artifactHash = some (jam, bin) ∧ launch.executed = bin ∧
    (∀ j, jam = some j → launch.outJam = some j) ∧
    (jam = none → ∀ other j b, other ≠ launch.row.artifactHash →
      bundles other = some (some j, b) → launch.outJam ≠ some j)

theorem kernel_left_behind :
    ¬ ∀ (root : String) (crates : Crates) (bundles : Bundles) (s : Sys),
      (∀ b, Config.Plain (crates.blake3 b).toList) →
      ReachableWhen (Sys.step (Paths.ofRoot root) crates)
        (fun s => s.Fresh ∧ Stock (Paths.ofRoot root) bundles s.world.host)
        (fun s a => bundlesApart crates bundles s a = true) s →
      ∀ pid launch, .spawn pid launch ∈ s.world.host.log → RunsOnly bundles launch := by
  intro h
  have hrun : (runWhen (Sys.step (Paths.ofRoot "/r") stagingCrates)
      (fun s a => bundlesApart stagingCrates stagingBundles s a = true) {}
      (bareRun ++ [.run 2 (launches 2)])).map (fun s => decide
        ((bareHash, [0x62], some [0x6b]) ∈ s.world.host.log.filterMap spawned)) = some true := by
    decide +kernel
  obtain ⟨s, hs, hval⟩ := Option.map_eq_some_iff.1 hrun
  obtain ⟨e, he, hspawned⟩ := List.mem_filterMap.1 (of_decide_eq_true hval)
  cases e with
  | spawn pid launch =>
      obtain ⟨hhash, hrest⟩ := Prod.mk.inj (Option.some.inj hspawned)
      obtain ⟨-, hjam⟩ := Prod.mk.inj hrest
      obtain ⟨jam, bin, hbundle, -, -, hnone⟩ := h "/r" stagingCrates stagingBundles s
        (Crates.plainCrates_blake3_plain _ _) (ReachableWhen.runWhen (.start fresh_stock) hs)
        pid launch he
      have hbare : stagingBundles bareHash = some (none, [0x62]) := by decide +kernel
      have hkernel : stagingBundles kernelHash = some (some [0x6b], [0x61]) := by
        decide +kernel
      rw [hhash, hbare] at hbundle
      cases hbundle
      refine hnone rfl kernelHash [0x6b] [0x61] ?_ hkernel hjam
      rw [hhash]
      decide +kernel
  | _ => cases hspawned

end Runs

end Daemon

end Nockd
