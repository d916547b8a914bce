import Nockd.Api.References
import Nockd.Daemon.Staging

/-!
# No reference dangles

The tables have no foreign keys, and a handler may stop after any of its calls. What keeps
the references valid is the order of the calls in a deploy: first the files,
then the artifact row, then the row of the app and its history. No row of the artifact table
and no binary of the store is ever removed.

A put takes any two paths that exist for its files, though, and a directory will do: the state
directory of an app may lead through the path of a binary, if it is deployed under such a name.
-/

namespace Nockd

namespace Daemon

open Api Config Interleaving Registry Store Supervisor

/-- The artifact has a row, and a binary that may be executed. -/
structure Backed (paths : Paths) (h : Host) (hash : String) : Prop where
  row : (h.registry.artifact.lookup hash).isSome = true
  bin : Runnable paths h.disk hash

/-- What holds of every artifact hash in the app table and in the history. -/
structure Marked (P : String → Prop) (r : Registry) : Prop where
  apps : ∀ name row, r.app.lookup name = some row → P row.artifactHash
  history : ∀ e ∈ r.deployHistory, P e.artifactHash

/-- No reference of the app table and of the history dangles. -/
def Linked (paths : Paths) (h : Host) : Prop := Marked (Backed paths h) h.registry

/-- Artifact rows and binaries are still there. -/
structure Grown (paths : Paths) (h h' : Host) : Prop where
  rows : ∀ hash, (h.registry.artifact.lookup hash).isSome = true →
    (h'.registry.artifact.lookup hash).isSome = true
  bins : BinsKept paths h.disk h'.disk

/-- What a thread may know about a hash is that its binary is in the store. -/
def BinFact (paths : Paths) (d : Disk) : Fact → Prop
  | .hash hash => Runnable paths d hash
  | .main => False
  | _ => True

/-- A put does not take a directory for the binary. -/
def findsBinary (paths : Paths) (crates : Crates) (s : Sys) : Action → Bool
  | .run i _ =>
    match s.threads[i]? with
    | some (.call (.put jam bin targetTriple) _) =>
      let hash := (computeHashes crates.blake3 jam bin targetTriple).artifactHash
      !(has paths hash s.world.host.disk && s.world.host.disk.dirs (binFile paths hash))
    | _ => true
  | _ => true

variable {paths : Paths} {crates : Crates} {env : Env} {apps : List AppRow} {h h' : Host}
  {w : World} {s s' : Sys} {a : Action} {hash : String} {P : String → Prop} {r r' : Registry}

theorem Backed.mono (hb : Backed paths h hash) (hgrown : Grown paths h h') :
    Backed paths h' hash :=
  ⟨hgrown.rows hash hb.row, hgrown.bins.runnable hb.bin⟩

theorem BinFact.mono {d d' : Disk} {f : Fact} (hf : BinFact paths d f)
    (hkept : BinsKept paths d d') : BinFact paths d' f := by
  cases f with
  | hash hash => exact hkept.runnable hf
  | _ => exact hf

theorem grown_of_quiet (hquiet : h'.registry.quiet = h.registry.quiet)
    (hbins : BinsKept paths h.disk h'.disk) : Grown paths h h' := by
  have hartifact : h'.registry.artifact = h.registry.artifact :=
    congr_of_quiet (·.artifact) (fun _ => rfl) hquiet
  exact ⟨fun hash hrow => by rwa [hartifact], hbins⟩

/-! ## Statements -/

theorem Marked.mono {Q : String → Prop} (h : Marked P r) (himp : ∀ hash, P hash → Q hash) :
    Marked Q r :=
  ⟨fun name row hrow => himp _ (h.apps name row hrow), fun e he => himp _ (h.history e he)⟩

theorem Marked.of_quiet (h : Marked P r) (hquiet : r'.quiet = r.quiet) : Marked P r' := by
  have happ : r'.app = r.app := congr_of_quiet (·.app) (fun _ => rfl) hquiet
  have hhistory : r'.deployHistory = r.deployHistory :=
    congr_of_quiet (·.deployHistory) (fun _ => rfl) hquiet
  exact ⟨happ ▸ h.apps, hhistory ▸ h.history⟩

theorem Marked.modify {name : String} {f : AppRecord → AppRecord} (h : Marked P r)
    (hf : ∀ row, P row.artifactHash → P (f row).artifactHash) :
    Marked P { r with app := Table.modify r.app name f } := by
  refine ⟨fun other row hrow => ?_, h.history⟩
  obtain ⟨row₀, hrow₀, rfl | rfl⟩ := lookup_modify_cases hrow
  · exact h.apps other _ hrow₀
  · exact hf row₀ (h.apps other row₀ hrow₀)

theorem Marked.exec (h : Marked P r) {st : Statement} (now : ℤ)
    (hneeds : ∀ hash ∈ Call.needs (.write st), P hash) : Marked P (st.exec now r) := by
  cases st with
  | upsertApp u =>
      refine ⟨fun name row hrow => ?_, h.history⟩
      change (AList.insert u.name _ r.app).lookup name = some row at hrow
      by_cases heq : name = u.name
      · subst heq
        rw [AList.lookup_insert, Option.some.injEq] at hrow
        subst hrow
        exact hneeds u.artifactHash rfl
      · rw [AList.lookup_insert_ne heq] at hrow
        exact h.apps name row hrow
  | updateAppConfig app c => exact h.modify fun _ => id
  | setAppArtifact app hash => exact h.modify fun _ _ => hneeds hash rfl
  | setDesired app status => exact h.modify fun _ => id
  | recordDeploy name hash =>
      refine ⟨h.apps, fun e he => ?_⟩
      rcases List.mem_append.1 he with he | he
      · exact h.history e he
      · rw [List.mem_singleton.1 he]
        exact hneeds hash rfl
  | addTrustedBuilder pubkey =>
      simp only [Statement.exec, addTrustedBuilder]
      split
      · exact h
      · exact ⟨h.apps, h.history⟩
  | _ => exact ⟨h.apps, h.history⟩

theorem Marked.previous (h : Marked P r) {name current hash : String}
    (hprev : r.previousArtifact name current = some hash) : P hash := by
  obtain ⟨e, he, rfl⟩ := Option.map_eq_some_iff.1 hprev
  exact h.history e (List.mem_reverse.1 (List.mem_of_find?_eq_some he))

theorem Marked.listed (h : Marked P r) {app : AppRow} (happ : app ∈ r.listApps) :
    P app.artifactHash := by
  obtain ⟨record, hrecord, hmap⟩ := Option.map_eq_some_iff.1 (mem_listApps.1 happ)
  have hhash : record.artifactHash = app.artifactHash := congrArg AppRow.artifactHash hmap
  exact hhash ▸ h.apps app.name record hrecord

/-- No statement removes an artifact row. -/
theorem rows_exec (st : Statement) (now : ℤ) {r : Registry}
    (hrow : (r.artifact.lookup hash).isSome = true) :
    ((st.exec now r).artifact.lookup hash).isSome = true := by
  rw [AList.lookup_isSome] at hrow ⊢
  cases st with
  | putArtifact rec provenance => exact (AList.mem_insert _).2 (Or.inr hrow)
  | setArtifactVerification other status builder =>
      exact Table.keys_modify _ _ _ (AList.mem_keys.1 hrow)
  | addTrustedBuilder pubkey =>
      simp only [Statement.exec, addTrustedBuilder]
      split <;> exact hrow
  | _ => exact hrow

/-! ## Binaries -/

theorem section_binsKept
    (hmode : ∀ hash node, w.host.disk (binFile paths hash) = some node → node.mode = 0o755) :
    BinsKept paths w.host.disk (w.lockedSection paths env apps).host.disk := by
  refine (World.lockedSection_moves w apps).keep
    (P := fun w' => BinsKept paths w.host.disk w'.host.disk) ?_ (.refl hmode)
  intro w₁ w₂ hmove hkept
  cases hmove with
  | unlink name => exact hkept.set fun hash => paths.pidFile_ne_binPath name hash
  | createDir => exact ⟨hkept.kept, hkept.mode⟩
  | openLog app node => exact hkept.set fun hash => paths.logFile_ne_binPath app.name hash
  | stage app jam node => exact hkept.set fun hash => paths.stagedJam_ne_binPath app.name hash
  | spawn app pid bin url =>
      exact World.writePidfile_keep (P := fun h => BinsKept paths w.host.disk h.disk) hkept
        fun node => hkept.set fun hash => paths.pidFile_ne_binPath app.name hash
  | _ => exact hkept

theorem stops_binsKept {op : Call} (hop : Stops op)
    (hmode : ∀ hash node, w.host.disk (binFile paths hash) = some node → node.mode = 0o755) :
    BinsKept paths w.host.disk (perform paths crates env w op).1.host.disk := by
  obtain ⟨added, hhost, heffects⟩ := stops_effects paths crates env w hop
  rw [hhost]
  refine Host.foldl_apply_keep (P := fun h => BinsKept paths w.host.disk h.disk)
    (fun h e he hkept => ?_) (.refl hmode) heffects
  cases e with
  | remove file =>
      obtain ⟨-, name, rfl⟩ := he
      exact hkept.set fun hash => paths.pidFile_ne_binPath name hash
  | _ => first | exact hkept | exact he.elim

/-! ## Runs -/

structure Anchored (paths : Paths) (s : Sys) : Prop where
  lawful : Lawful Call.uses Call.learns (BinFact paths s.world.host.disk) s.threads
  grounded : Lawful Call.needs Call.shows
    (fun hash => (s.world.host.registry.artifact.lookup hash).isSome = true) s.threads
  linked : Linked paths s.world.host
  mode : ∀ hash node, s.world.host.disk (binFile paths hash) = some node → node.mode = 0o755
  stopping : ∀ p, s.stopping = some p → p.Only Stops

/-- The call is not a put whose binary is a directory. -/
def Unhindered (paths : Paths) (crates : Crates) (w : World) (op : Call) : Prop :=
  ∀ jam bin targetTriple, op = .put jam bin targetTriple → w.host.disk.dirs (binFile paths
    (computeHashes crates.blake3 jam bin targetTriple).artifactHash) = false

/-- A put that is made finds a binary or a path that it can write. -/
theorem unhindered_of_finds {i : ℕ} {op : Call} {next : Except String op.Reply → Thread}
    (ht : s.threads[i]? = some (.call op next))
    (hopen : enabled paths crates env s.world op = true)
    (hfinds : findsBinary paths crates s (.run i env) = true) :
    Unhindered paths crates s.world op := by
  rintro jam bin targetTriple rfl
  simp only [findsBinary, ht] at hfinds
  simp only [enabled, writable, Bool.or_eq_true, Bool.and_eq_true] at hopen
  rcases hopen with hhas | ⟨hbin, -⟩
  · simpa [hhas] using hfinds
  · simpa using hbin

/-- What a call of a thread does to artifact rows and binaries. -/
theorem Anchored.grown (hs : Anchored paths s) {op : Call} (hmain : .main ∉ op.uses)
    (hdir : Unhindered paths crates s.world op) :
    Grown paths s.world.host (perform paths crates env s.world op).1.host := by
  by_cases hput : ∃ jam bin targetTriple, op = .put jam bin targetTriple
  · obtain ⟨jam, bin, targetTriple, rfl⟩ := hput
    exact ⟨fun _ hrow => hrow, (putAll_binsKept hs.mode (hdir _ _ _ rfl) jam bin).1⟩
  rcases op.section_cases with ⟨apps, rfl⟩ | hsection
  · exact grown_of_quiet (World.lockedSection_quiet _ _) (section_binsKept hs.mode)
  · have hdisk : (perform paths crates env s.world op).1.host.disk = s.world.host.disk :=
      perform_disk hmain hsection fun jam bin targetTriple heq => hput ⟨jam, bin, targetTriple, heq⟩
    have hbins : BinsKept paths s.world.host.disk
        (perform paths crates env s.world op).1.host.disk := by
      rw [hdisk]
      exact .refl hs.mode
    cases op with
    | write st => exact ⟨fun hash => rows_exec st env.now, hbins⟩
    | _ => exact grown_of_quiet (perform_quiet _ _ _ _ rfl) hbins

/-- What a call uses and needs is backed. -/
theorem Anchored.backed (hs : Anchored paths s) {i : ℕ} {op : Call}
    {next : Except String op.Reply → Thread} (ht : s.threads[i]? = some (.call op next)) :
    ∀ hash ∈ op.needs, Backed paths s.world.host hash :=
  fun hash hneeds => ⟨hs.grounded.good ht hash hneeds, hs.lawful.good ht _ (uses_of_needs hneeds)⟩

theorem Linked.mono (hl : Linked paths h) (hgrown : Grown paths h h')
    (hquiet : h'.registry.quiet = h.registry.quiet) : Linked paths h' := by
  have hmarked : Marked (Backed paths h) h'.registry := hl.of_quiet hquiet
  exact hmarked.mono fun hash hb => hb.mono hgrown

/-- What a reply tells is good to know. -/
theorem Anchored.learns (hs : Anchored paths s) {op : Call}
    (hdir : Unhindered paths crates s.world op) :
    ∀ f ∈ op.learns (perform paths crates env s.world op).2,
      BinFact paths (perform paths crates env s.world op).1.host.disk f := by
  intro f hf
  cases op with
  | put jam bin targetTriple =>
      cases hf
      exact (putAll_binsKept hs.mode (hdir _ _ _ rfl) jam bin).2
  | listApps =>
      cases hf
      trivial
  | previousArtifact name current =>
      obtain ⟨hash, hprev, rfl⟩ := hf
      simp only [perform] at hprev
      split at hprev
      · cases hprev
      · exact (hs.linked.previous hprev).bin
  | _ => exact hf.elim

theorem Anchored.run (hs : Anchored paths s) {i : ℕ} {op : Call}
    {next : Except String op.Reply → Thread} (ht : s.threads[i]? = some (.call op next))
    (hdir : Unhindered paths crates s.world op) :
    Anchored paths
      { s with
        world := (perform paths crates env s.world op).1
        threads := s.threads.set i (next (.ok (perform paths crates env s.world op).2)) } := by
  have hmain : .main ∉ op.uses := fun h => hs.lawful.good ht .main h
  have hgrown : Grown paths s.world.host (perform paths crates env s.world op).1.host :=
    hs.grown hmain hdir
  refine ⟨?_, ?_, ?_, hgrown.bins.mode, hs.stopping⟩
  · exact (hs.lawful.mono fun f hf => hf.mono hgrown.bins).set_ok ht (hs.learns hdir)
  · refine (hs.grounded.mono fun hash => hgrown.rows hash).set_ok ht fun hash hshown => ?_
    cases op with
    | write st =>
        cases st with
        | putArtifact rec provenance =>
            cases hshown
            simp [perform, World.mapRegistry, Statement.exec, putArtifact]
        | _ => exact hshown.elim
    | previousArtifact name current =>
        have hprev : (if env.queryErr then none
            else s.world.host.registry.previousArtifact name current) = some hash := hshown
        split at hprev
        · cases hprev
        · exact (hs.linked.previous hprev).row
    | _ => exact hshown.elim
  · cases op with
    | write st =>
        have hmarked : Marked (Backed paths s.world.host)
            (st.exec env.now s.world.host.registry) := hs.linked.exec env.now (hs.backed ht)
        exact hmarked.mono fun hash hb => hb.mono hgrown
    | _ => exact hs.linked.mono hgrown (perform_quiet _ _ _ _ rfl)

theorem Anchored.step (hs : Anchored paths s) (hfinds : findsBinary paths crates s a = true)
    (hstep : Sys.Step paths crates s a s') : Anchored paths s' := by
  have hstops := stops_act hstep hs.stopping
  cases hstep with
  | arrive r =>
      refine ⟨hs.lawful.append ?_ (handler_obeys r), hs.grounded.append (by simp)
        (handler_grounded r), hs.linked, hs.mode, hs.stopping⟩
      cases r <;> simp [Request.facts, BinFact]
  | run i env op next ht hopen => exact hs.run ht (unhindered_of_finds ht hopen hfinds)
  | fail i message op next ht hfallible =>
      exact ⟨hs.lawful.set_error ht, hs.grounded.set_error ht, hs.linked, hs.mode, hs.stopping⟩
  | stop env op next hp hopen =>
      have honly := hs.stopping _ hp
      have hquiet : (perform paths crates env s.world op).1.host.registry.quiet = _ :=
        perform_quiet paths crates env s.world honly.1.statement
      have hgrown := grown_of_quiet hquiet (stops_binsKept honly.1 hs.mode)
      exact ⟨hs.lawful.mono fun f hf => hf.mono hgrown.bins,
        hs.grounded.mono fun hash => hgrown.rows hash, hs.linked.mono hgrown hquiet,
        hgrown.bins.mode, hstops⟩
  | _ =>
      exact ⟨hs.lawful, hs.grounded, hs.linked.mono (grown_of_quiet rfl (.refl hs.mode)) rfl,
        hs.mode, hstops⟩

/-- A daemon that starts with an empty registry and an empty store. -/
structure Sys.Blank (s : Sys) : Prop where
  threads : s.threads = []
  stopping : s.stopping = none
  registry : s.world.host.registry = {}
  disk : ∀ file, s.world.host.disk.pathExists file = false

theorem Anchored.of_blank (h : s.Blank) : Anchored paths s := by
  have hdisk (file : File) := (Disk.pathExists_eq_false.1 (h.disk file)).1
  refine ⟨by simp [Lawful, h.threads], by simp [Lawful, h.threads], ⟨?_, ?_⟩, ?_,
    by simp [h.stopping]⟩
  · simp [h.registry]
  · simp [h.registry]
  · simp [hdisk]

/-- In every run of a daemon that has started from scratch, in which no put takes a directory for
its binary, every artifact that the app table or the history names has a row and an
executable binary. So every artifact that a rollback may go to can be run, and every listed app
has its artifact row. -/
theorem no_reference_dangles
    (h : ReachableWhen (Sys.step paths crates) Sys.Blank
      (fun s a => findsBinary paths crates s a = true) s) :
    Linked paths s.world.host ∧
      (∀ name current hash, s.world.host.registry.previousArtifact name current = some hash →
        Backed paths s.world.host hash) ∧
      ∀ app ∈ s.world.host.registry.listApps, Backed paths s.world.host app.artifactHash ∧
        ∃ row, s.world.host.registry.artifact.lookup app.artifactHash = some row ∧
          app.kernelHash = row.kernelHash := by
  have hs : Anchored paths s :=
    h.invariant (fun _ hblank => .of_blank hblank) fun _ _ _ ih hfinds hs =>
      ih.step hfinds (Sys.step_cases hs)
  refine ⟨hs.linked, fun name current hash hprev => hs.linked.previous hprev, fun app happ => ?_⟩
  obtain ⟨record, hrecord, hmap⟩ := Option.map_eq_some_iff.1 (mem_listApps.1 happ)
  have hhash : record.artifactHash = app.artifactHash := congrArg AppRow.artifactHash hmap
  have hbacked := hs.linked.listed happ
  obtain ⟨row, hrow⟩ := Option.isSome_iff_exists.1 hbacked.row
  refine ⟨hbacked, row, hrow, ?_⟩
  have hkernel : app.kernelHash = ((s.world.host.registry.artifact.lookup
      record.artifactHash).map (·.kernelHash)).getD "" := congrArg AppRow.kernelHash hmap.symm
  rw [hkernel, hhash, hrow]
  rfl

section Runs

theorem blank_default : Sys.Blank {} := ⟨rfl, rfl, rfl, fun _ => rfl⟩

/-- Two artifacts of `a` are deployed. -/
def twoDeploys : List Action :=
  [.arrive deployKernel] ++ calls 0 10 ++ [.arrive deployBare] ++ calls 1 10

theorem no_reference_dangles_twoDeploys :
    ∃ s, runWhen (Sys.step (Paths.ofRoot "/r") stagingCrates)
        (fun s a => findsBinary (Paths.ofRoot "/r") stagingCrates s a = true) {} twoDeploys =
          some s ∧
      s.world.host.registry.previousArtifact "a" bareHash = some kernelHash ∧
      Backed (Paths.ofRoot "/r") s.world.host kernelHash := by
  have hrun : (runWhen (Sys.step (Paths.ofRoot "/r") stagingCrates)
      (fun s a => findsBinary (Paths.ofRoot "/r") stagingCrates s a = true) {} twoDeploys).map
      (fun s => s.world.host.registry.previousArtifact "a" bareHash) = some (some kernelHash) := by
    decide +kernel
  obtain ⟨s, hs, hprev⟩ := Option.map_eq_some_iff.1 hrun
  exact ⟨s, hs, hprev, (no_reference_dangles (ReachableWhen.runWhen (.start blank_default) hs)).2.1
    "a" bareHash kernelHash hprev⟩

/-- An app whose state directory leads through the path of the binary of the artifact without a
kernel to the path of its kernel. -/
def deployThrough : Request :=
  .deploy
    { name := "../artifacts/" ++ bareHash ++ "/bin/../out.jam", targetTriple := "t", binB64 := "c" }

/-- The app is started, and then `a` is deployed with that artifact. -/
def throughRun : List Action :=
  [.arrive deployThrough] ++ calls 0 10 ++ [.run 0 (launches 1), .arrive deployBare] ++ calls 1 10

/-- Its put finds both paths and stores nothing. -/
theorem reference_dangles :
    ¬ ∀ (paths : Paths) (crates : Crates) (s : Sys) (name : String) (row : AppRecord),
      Reachable (Sys.step paths crates) Sys.Blank s →
      s.world.host.registry.app.lookup name = some row →
        (s.world.host.disk (binFile paths row.artifactHash)).isSome = true := by
  intro h
  have hrun : (run (Sys.step (Paths.ofRoot "/r") stagingCrates) {} throughRun).map
      (fun s => (s.world.host.registry.artifactOf "a",
        (s.world.host.disk (binFile (Paths.ofRoot "/r") bareHash)).isSome)) =
      some (some bareHash, false) := by
    decide +kernel
  obtain ⟨s, hs, hval⟩ := Option.map_eq_some_iff.1 hrun
  obtain ⟨hartifact, hnone⟩ := Prod.mk.inj hval
  obtain ⟨row, hrow, hbare⟩ := Option.map_eq_some_iff.1 hartifact
  have hbin := h _ _ s "a" row (ReachableWhen.runWhen (.start blank_default) hs) hrow
  rw [hbare, hnone] at hbin
  cases hbin

end Runs

/-! ## Names that no put is hindered by -/

/-- No directory of the app's state is a path that the store keeps a binary under. -/
def Clear (paths : Paths) (crates : Crates) (name : String) : Prop :=
  ∀ b, binFile paths (crates.blake3 b) ∉ paths.stateDirs name

/-- A plain name is clear. -/
theorem clear_of_plain {root name : String} (hblake : ∀ b, Config.Plain (crates.blake3 b).toList)
    (hname : Config.Plain name.toList) : Clear (Paths.ofRoot root) crates name :=
  fun b hdir => (stateDirs_ne hname (hblake b) hdir).1 rfl

/-- Apps are deployed under clear names only. -/
def Action.Clears (paths : Paths) (crates : Crates) : Action → Prop
  | .arrive (.deploy req) => Clear paths crates req.name
  | _ => True

/-- No binary of the store is a directory. -/
def Unblocked (paths : Paths) (crates : Crates) (d : Disk) : Prop :=
  ∀ b, d.dirs (binFile paths (crates.blake3 b)) = false

/-- A section whose apps have clear names blocks no binary. -/
theorem section_unblocked (hclear : ∀ app ∈ apps, Clear paths crates app.name)
    (hopen : Unblocked paths crates w.host.disk) :
    Unblocked paths crates (w.lockedSection paths env apps).host.disk := by
  refine (World.lockedSection_moves w apps).keep
    (P := fun w' => Unblocked paths crates w'.host.disk) ?_ hopen
  intro w₁ w₂ hmove hopen
  cases hmove with
  | createDir app dir happ hdir =>
      intro b
      have hne : binFile paths (crates.blake3 b) ≠ dir := by
        rintro rfl
        exact hclear app happ b hdir
      exact (Disk.makeDir_of_ne _ hne).trans (hopen b)
  | spawn app pid bin url =>
      exact World.writePidfile_keep (P := fun h => Unblocked paths crates h.disk) hopen
        fun node => hopen
  | _ => exact hopen

theorem stops_unblocked {op : Call} (hop : Stops op) (hopen : Unblocked paths crates w.host.disk) :
    Unblocked paths crates (perform paths crates env w op).1.host.disk := by
  obtain ⟨added, hhost, heffects⟩ := stops_effects paths crates env w hop
  rw [hhost]
  refine Host.foldl_apply_keep (P := fun h => Unblocked paths crates h.disk)
    (fun h e he hopen => ?_) hopen heffects
  cases e with
  | remove file => exact hopen
  | _ => first | exact hopen | exact he.elim

/-- An app that a statement puts into the table is the one of a deploy. -/
theorem name_exec {st : Statement} {now : ℤ} {name : String} {row : AppRecord}
    (hrow : (st.exec now r).app.lookup name = some row) :
    (∃ row₀, r.app.lookup name = some row₀) ∨ .name name ∈ Call.uses (.write st) := by
  have hupdate {app : String} {f : AppRecord → AppRecord}
      (hrow : (Table.modify r.app app f).lookup name = some row) :
      ∃ row₀, r.app.lookup name = some row₀ := by
    obtain ⟨row₀, hrow₀, -⟩ := lookup_modify_cases hrow
    exact ⟨row₀, hrow₀⟩
  cases st with
  | upsertApp u =>
      change (AList.insert u.name _ r.app).lookup name = some row at hrow
      by_cases heq : name = u.name
      · exact Or.inr (by simp [Call.uses, heq])
      · rw [AList.lookup_insert_ne heq] at hrow
        exact Or.inl ⟨row, hrow⟩
  | updateAppConfig app c => exact Or.inl (hupdate hrow)
  | setAppArtifact app hash => exact Or.inl (hupdate hrow)
  | setDesired app status => exact Or.inl (hupdate hrow)
  | addTrustedBuilder pubkey =>
      simp only [Statement.exec, addTrustedBuilder] at hrow
      split at hrow <;> exact Or.inl ⟨row, hrow⟩
  | _ => exact Or.inl ⟨row, hrow⟩

/-- What a thread may know about a name is that it is clear. -/
def ClearFact (paths : Paths) (crates : Crates) : Fact → Prop
  | .name name => Clear paths crates name
  | .snapshot apps => ∀ app ∈ apps, Clear paths crates app.name
  | .main => False
  | _ => True

structure ClearNames (paths : Paths) (crates : Crates) (s : Sys) : Prop where
  lawful : Lawful Call.uses Call.learns (ClearFact paths crates) s.threads
  apps : ∀ name row, s.world.host.registry.app.lookup name = some row → Clear paths crates name
  disk : Unblocked paths crates s.world.host.disk
  stopping : ∀ p, s.stopping = some p → p.Only Stops

theorem ClearNames.learns (hs : ClearNames paths crates s) (env : Env) (op : Call) :
    ∀ f ∈ op.learns (perform paths crates env s.world op).2, ClearFact paths crates f := by
  intro f hf
  cases op with
  | put jam bin targetTriple =>
      cases hf
      trivial
  | listApps =>
      cases hf
      intro app happ
      obtain ⟨record, hrecord, -⟩ := Option.map_eq_some_iff.1 (mem_listApps.1 happ)
      exact hs.apps app.name record hrecord
  | previousArtifact name current =>
      obtain ⟨hash, -, rfl⟩ := hf
      trivial
  | _ => exact hf.elim

theorem ClearNames.perform_unblocked (hs : ClearNames paths crates s) {op : Call}
    (huses : ∀ f ∈ op.uses, ClearFact paths crates f) :
    Unblocked paths crates (perform paths crates env s.world op).1.host.disk := by
  by_cases hput : ∃ jam bin targetTriple, op = .put jam bin targetTriple
  · obtain ⟨jam, bin, targetTriple, rfl⟩ := hput
    exact fun b =>
      (congrFun (putAll_dirs paths _ jam bin s.world.host.disk) _).trans (hs.disk b)
  rcases op.section_cases with ⟨apps, rfl⟩ | hsection
  · exact section_unblocked (huses (.snapshot apps) rfl) hs.disk
  · have hmain : .main ∉ op.uses := fun h => huses .main h
    rw [perform_disk hmain hsection fun jam bin targetTriple heq => hput ⟨jam, bin, _, heq⟩]
    exact hs.disk

theorem ClearNames.step (hs : ClearNames paths crates s) (hclears : a.Clears paths crates)
    (hstep : Sys.Step paths crates s a s') : ClearNames paths crates s' := by
  have hstops := stops_act hstep hs.stopping
  cases hstep with
  | arrive r =>
      refine ⟨hs.lawful.append ?_ (handler_obeys r), hs.apps, hs.disk, hs.stopping⟩
      cases r with
      | deploy req =>
          rintro f (rfl | rfl | rfl)
          · trivial
          · trivial
          · exact hclears
      | _ => simp [Request.facts, ClearFact]
  | run i env op next ht hopen =>
      have huses := hs.lawful.good ht
      refine ⟨hs.lawful.set_ok ht (hs.learns env op), fun name row hrow => ?_,
        hs.perform_unblocked huses, hs.stopping⟩
      have hold (h : (perform paths crates env s.world op).1.host.registry.quiet =
          s.world.host.registry.quiet) : Clear paths crates name := by
        refine hs.apps name row ?_
        rwa [← congr_of_quiet (·.app) (fun _ => rfl) h]
      cases op with
      | write st =>
          rcases name_exec hrow with ⟨row₀, hrow₀⟩ | hname
          · exact hs.apps name row₀ hrow₀
          · exact huses _ hname
      | _ => exact hold (perform_quiet _ _ _ _ rfl)
  | fail i message op next ht hfallible =>
      exact ⟨hs.lawful.set_error ht, hs.apps, hs.disk, hs.stopping⟩
  | stop env op next hp hopen =>
      have honly := hs.stopping _ hp
      refine ⟨hs.lawful, fun name row hrow => hs.apps name row ?_,
        stops_unblocked honly.1 hs.disk, hstops⟩
      rwa [← congr_of_quiet (·.app) (fun _ => rfl)
        (perform_quiet paths crates env s.world honly.1.statement)]
  | _ => exact ⟨hs.lawful, hs.apps, hs.disk, hstops⟩

theorem ClearNames.of_blank (h : s.Blank) : ClearNames paths crates s :=
  ⟨by simp [Lawful, h.threads], by simp [h.registry],
    fun b => (Disk.pathExists_eq_false.1 (h.disk _)).2, by simp [h.stopping]⟩

/-- While apps are deployed under clear names, no put takes a directory for its binary. -/
theorem finds_of_clear
    (h : ReachableWhen (Sys.step paths crates) Sys.Blank (fun _ a => a.Clears paths crates) s)
    (a : Action) : findsBinary paths crates s a = true := by
  have hs : ClearNames paths crates s :=
    h.invariant (fun _ hblank => .of_blank hblank) fun _ _ _ ih hclears hs =>
      ih.step hclears (Sys.step_cases hs)
  unfold findsBinary
  split
  · split
    · simp [computeHashes_artifactHash, hs.disk _]
    · rfl
  · rfl

/-- So such runs meet the condition under which no reference dangles. -/
theorem reachable_of_clear
    (h : ReachableWhen (Sys.step paths crates) Sys.Blank (fun _ a => a.Clears paths crates) s) :
    ReachableWhen (Sys.step paths crates) Sys.Blank
      (fun s a => findsBinary paths crates s a = true) s := by
  induction h with
  | start h => exact .start h
  | step h hclears hs ih => exact .step ih (finds_of_clear h _) hs

end Daemon

end Nockd
