import Nockd.Api.Alone
import Nockd.Crates.Plain

/-!
# What a failed request leaves behind

Deploy, reload and rollback are chains of separate statements without a
transaction around them. A request that fails leaves what the first of its
statements leave, and it leaves the tables as they were unless a writing
statement is what failed. An icon that a deploy carries is taken to be valid
here: it is checked after the artifact's row has been written.
-/

namespace Nockd

namespace Api

open Config Interleaving Registry Store Supervisor

/-- The tables that a failed request is asked to leave alone. -/
def tables (r : Registry) : Table AppRecord × Table ArtifactRow × List HistoryRow :=
  (r.app, r.artifact, r.deployHistory)

/-- The requests that change an app's artifact or configuration. -/
inductive Change where
  | deploy (req : DeployRequest)
  | reload (name : String)
  | rollback (name : String)
deriving DecidableEq, Repr

def Change.request : Change → Request
  | .deploy req => .deploy req
  | .reload name => .reload name
  | .rollback name => .rollback name

variable (paths : Paths) (crates : Crates)

/-! ## The statements of the handlers -/

def deployStatements (req : DeployRequest) (jam : Option Bytes) (bin : Bytes)
    (isTrusted : String → Bool) : List Statement :=
  let record := computeHashes crates.blake3 jam bin req.targetTriple
  let v := verification crates req.attestation record isTrusted
  [.putArtifact record req.provenance,
    .setArtifactVerification record.artifactHash v.1 v.2,
    .upsertApp (upsertOf paths req record.artifactHash),
    .recordDeploy req.name record.artifactHash,
    .addEvent req.name "deploy" ("artifact " ++ shortHash record.artifactHash)]

def reloadStatements (name : String) (config : AppConfig) : List Statement :=
  [.updateAppConfig name config,
    .setDesired name "running",
    .addEvent name "reload" "manifest re-read; config re-applied"]

def rollbackStatements (name prev : String) : List Statement :=
  [.setAppArtifact name prev,
    .recordDeploy name prev,
    .setDesired name "running",
    .addEvent name "rollback" ("rolled back to artifact " ++ shortHash prev)]

/-- The row that `get_app` answers, or nothing when the query fails. -/
def Oracle.appRow (o : Oracle) (r : Registry) (name : String) : Option AppRow :=
  if (o.env 0).queryErr then none else r.getApp name

/-- What `previous_artifact` answers, or nothing when the query fails. -/
def Oracle.previous (o : Oracle) (r : Registry) (name current : String) : Option String :=
  if (o.env 1).queryErr then none else r.previousArtifact name current

/-- The statements of a request's handler, in order, for what its calls find in the registry
and on the machine; none for a request that is refused on what it finds. -/
def Change.statements (o : Oracle) (r : Registry) : Change → List Statement
  | .deploy req =>
    match decodeBundle crates req with
    | .error _ => []
    | .ok (jam, bin) => deployStatements paths crates req jam bin (o.trusts r)
  | .reload name => Option.getD (do
      let app ← o.appRow r name
      let manifestPath ← app.manifestPath
      let manifest ← (loadManifest crates (o.env 1).files manifestPath).toOption
      let icon ← (manifestIcon crates (o.env 2).files manifestPath manifest.icon).toOption
      pure (reloadStatements name (configOf manifest icon))) []
  | .rollback name => Option.getD (do
      let app ← o.appRow r name
      let prev ← o.previous r name app.artifactHash
      pure (rollbackStatements name prev)) []

/-- The icon of a deploy passes `validate_icon`. -/
def Change.IconOk : Change → Prop
  | .deploy req => checkIcon crates req.icon = .ok ()
  | _ => True

/-- A put answers with the hashes of its bundle. -/
def PutReply : ∀ op : Call, op.Reply → Prop
  | .put jam bin targetTriple, r => r = computeHashes crates.blake3 jam bin targetTriple
  | _, _ => True

variable {paths crates}

/-! ## The handlers issue their statements in order -/

/-- From here on the handler issues exactly these statements. -/
abbrev Follows (crates : Crates) (p : Thread) (l : List Statement) : Prop :=
  p.Issues Call.statement (PutReply crates) (· = l)

theorem follows_write {s : Statement} {f : Unit → Thread} {l : List Statement}
    (h : Follows crates (f ()) l) : Follows crates (must (.write s) >>= f) (s :: l) :=
  ⟨fun _ _ => h.mono fun _ hl => by rw [hl]; rfl, fun _ => ⟨_, rfl⟩⟩

theorem follows_must {c : Call} {f : c.Reply → Thread} {l : List Statement}
    (hop : c.statement = none) (h : ∀ r, PutReply crates c r → Follows crates (f r) l) :
    Follows crates (must c >>= f) l :=
  ⟨fun r hr => (h r hr).mono fun _ hl => by rw [hl, hop]; rfl, fun _ => ⟨_, rfl⟩⟩

theorem follows_reconcile {f : Unit → Thread} {l : List Statement}
    (h : Follows crates (f ()) l) : Follows crates (reconcile >>= f) l := by
  refine follows_must (c := .isShuttingDown) (f := fun b => (if b then pure () else _) >>= f)
    rfl fun b _ => ?_
  cases b with
  | true => exact h
  | false =>
      exact ⟨fun apps _ => follows_must (c := .lockedSection apps) rfl fun _ _ => h, fun _ => h⟩

/-- With a bundle that decodes, a deploy issues all of its statements. -/
theorem deploy_follows {req : DeployRequest} {jam : Option Bytes} {bin : Bytes}
    (hbundle : decodeBundle crates req = .ok (jam, bin)) :
    (deploy paths crates req).Issues Call.statement (PutReply crates) fun l =>
      ∃ isTrusted, l = deployStatements paths crates req jam bin isTrusted := by
  unfold deploy
  rw [hbundle]
  refine ⟨fun record hrecord => ?_, fun m => ⟨_, fun _ => false, rfl⟩⟩
  cases hrecord
  refine ⟨fun _ _ => ?_, fun m => ⟨_, fun _ => false, rfl⟩⟩
  refine ⟨fun isTrusted _ => ?_, fun m => ⟨_, fun _ => false, rfl⟩⟩
  refine Program.Issues.mono (L := (· = (deployStatements paths crates req jam bin
    isTrusted).tail)) ?_ ?_
  · refine follows_write ?_
    unfold deployApp
    cases checkIcon crates req.icon with
    | error m => exact ⟨_, rfl⟩
    | ok _ =>
        refine follows_write (follows_write (follows_write ?_))
        exact follows_must rfl fun _ _ => follows_reconcile rfl
  · rintro l rfl
    exact ⟨isTrusted, rfl⟩

/-- What is left of a reload once it knows the configuration. -/
theorem follows_reload {name : String} {config : AppConfig} :
    Follows crates (do
      must (.write (.updateAppConfig name config))
      must (.write (.setDesired name "running"))
      must (.requestRestart name)
      must (.write (.addEvent name "reload" "manifest re-read; config re-applied"))
      reconcile
      pure .ok) (reloadStatements name config) := by
  refine follows_write (follows_write ?_)
  exact follows_must rfl fun _ _ => follows_write (follows_reconcile rfl)

/-- What is left of a rollback once it knows the artifact. -/
theorem follows_rollback {name prev : String} :
    Follows crates (do
      must (.write (.setAppArtifact name prev))
      must (.write (.recordDeploy name prev))
      must (.write (.setDesired name "running"))
      must (.requestRestart name)
      must (.write (.addEvent name "rollback" ("rolled back to artifact " ++ shortHash prev)))
      reconcile
      pure .ok) (rollbackStatements name prev) := by
  refine follows_write (follows_write (follows_write ?_))
  exact follows_must rfl fun _ _ => follows_write (follows_reconcile rfl)

/-- What is left of a deploy once it knows the outcome of its attestation. -/
theorem follows_deploy {req : DeployRequest} {record : ArtifactRecord} {status : String}
    {builder : Option String} :
    (do
      must (.write (.setArtifactVerification record.artifactHash status builder))
      deployApp paths crates req record : Thread).Issues Call.statement (PutReply crates)
      (· = [.setArtifactVerification record.artifactHash status builder,
        .upsertApp (upsertOf paths req record.artifactHash),
        .recordDeploy req.name record.artifactHash,
        .addEvent req.name "deploy" ("artifact " ++ shortHash record.artifactHash)]) := by
  refine follows_write ?_
  unfold deployApp
  cases checkIcon crates req.icon with
  | error m => exact ⟨_, rfl⟩
  | ok _ =>
      refine follows_write (follows_write (follows_write ?_))
      exact follows_must rfl fun _ _ => follows_reconcile rfl

/-! ## What a request has issued when it ends -/

section Issued

variable {o : Oracle} {w : World}

/-- The statements that have succeeded are the first of those the program follows. -/
theorem Follows.done (paths : Paths) (o : Oracle) {p : Thread} {l : List Statement} {s : Alone}
    (h : Follows crates p l) :
    ∃ issued, issued <+: l ∧
      (p.exec (o.answer paths crates) s).1.done.map Prod.snd =
        s.done.map Prod.snd ++ issued := by
  have hreply (s : Alone) (op : Call) (r : op.Reply)
      (hr : (o.answer paths crates s op).2 = .ok r) : PutReply crates op r := by
    cases op with
    | put jam bin targetTriple => exact (answer_ok hr).1
    | _ => trivial
  obtain ⟨issued, rest, htrace, hl⟩ := Program.Issues.exec (T := fun s => s.done.map Prod.snd)
    hreply (fun s op r hr => by simp [(answer_ok hr).2.2])
    (fun s op m hr => by rw [(answer_error hr).2.2.2]) h (s := s)
  exact ⟨issued, ⟨rest, hl⟩, htrace⟩

theorem deploy_issued (paths : Paths) (o : Oracle) (w : World) (req : DeployRequest) :
    ((deploy paths crates req).exec (o.answer paths crates) { world := w }).1.done.map Prod.snd <+:
      (Change.deploy req).statements paths crates o w.host.registry := by
  unfold deploy
  simp only [Change.statements]
  cases decodeBundle crates req with
  | error e => exact List.nil_prefix
  | ok bundle =>
      obtain ⟨jam, bin⟩ := bundle
      rcases exec_must_cases paths crates o _ (.put _ _ _) _ with
        ⟨m, -, -, hput⟩ | ⟨-, hput⟩
      · rw [hput]
        exact List.nil_prefix
      rw [hput]
      rcases exec_must_cases paths crates o _ (.write _) _ with
        ⟨m, -, -, hrow⟩ | ⟨-, hrow⟩
      · rw [hrow]
        exact List.nil_prefix
      rw [hrow]
      rcases exec_must_cases paths crates o _ .trustedBuilders _ with
        ⟨m, hfallible, -⟩ | ⟨-, htrust⟩
      · cases hfallible
      rw [htrust]
      obtain ⟨issued, hprefix, hissued⟩ := Follows.done paths o follows_deploy
      rw [hissued]
      exact (List.prefix_append_right_inj [.putArtifact _ _]).2 hprefix

/-- A handler of one app ends with no statement issued, or goes on with the row it has found. -/
theorem exec_appOr404_cases (paths : Paths) (crates : Crates) (o : Oracle) (w : World)
    (name : String) (f : AppRow → Thread) :
    ((appOr404 name >>= f).exec (o.answer paths crates) { world := w }).1.done = [] ∨
      ∃ app, o.appRow w.host.registry name = some app ∧
        (appOr404 name >>= f).exec (o.answer paths crates) { world := w } =
          (f app).exec (o.answer paths crates) { world := w, calls := 1 } := by
  unfold appOr404
  rw [Program.bind_assoc]
  rcases exec_must_cases paths crates o { world := w } (.getApp name) _ with
    ⟨m, -, -, hread⟩ | ⟨-, hread⟩
  · rw [hread]
    exact Or.inl rfl
  rw [hread]
  have hrow : (perform paths crates (o.env 0) w (.getApp name)).2 =
      o.appRow w.host.registry name := rfl
  simp only [hrow]
  cases o.appRow w.host.registry name with
  | none => exact Or.inl rfl
  | some app => exact Or.inr ⟨app, rfl, rfl⟩

theorem reload_issued (paths : Paths) (o : Oracle) (w : World) (name : String) :
    ((reload crates name).exec (o.answer paths crates) { world := w }).1.done.map Prod.snd <+:
      (Change.reload name).statements paths crates o w.host.registry := by
  unfold reload
  simp only [Change.statements]
  rcases exec_appOr404_cases paths crates o w name _ with hnil | ⟨app, happ, hexec⟩
  · rw [hnil]
    exact List.nil_prefix
  rw [hexec, happ]
  simp only [Option.bind_eq_bind, Option.bind_some]
  cases app.manifestPath with
  | none => exact List.nil_prefix
  | some path =>
      simp only [Option.bind_some]
      rcases exec_must_cases paths crates o _ .files _ with
        ⟨m, hfallible, -⟩ | ⟨-, hfiles⟩
      · cases hfallible
      rw [hfiles]
      simp only [perform]
      cases loadManifest crates (o.env 1).files path with
      | error e => exact List.nil_prefix
      | ok manifest =>
          simp only [Except.toOption, Option.bind_some]
          rcases exec_must_cases paths crates o _ .files _ with
            ⟨m, hfallible, -⟩ | ⟨-, hfiles'⟩
          · cases hfallible
          rw [hfiles']
          simp only [perform]
          cases manifestIcon crates (o.env 2).files path manifest.icon with
          | error e => exact List.nil_prefix
          | ok icon =>
              obtain ⟨issued, hprefix, hissued⟩ :=
                Follows.done paths o follows_reload
              rw [hissued]
              exact hprefix

theorem rollback_issued (paths : Paths) (o : Oracle) (w : World) (name : String) :
    ((rollback name).exec (o.answer paths crates) { world := w }).1.done.map Prod.snd <+:
      (Change.rollback name).statements paths crates o w.host.registry := by
  unfold rollback
  simp only [Change.statements]
  rcases exec_appOr404_cases paths crates o w name _ with hnil | ⟨app, happ, hexec⟩
  · rw [hnil]
    exact List.nil_prefix
  rw [hexec, happ]
  simp only [Option.bind_eq_bind, Option.bind_some]
  rcases exec_must_cases paths crates o _ (.previousArtifact _ _) _ with
    ⟨m, -, -, hread⟩ | ⟨-, hread⟩
  · rw [hread]
    exact List.nil_prefix
  rw [hread]
  have hprev : (perform paths crates (o.env 1) w (.previousArtifact name app.artifactHash)).2 =
      o.previous w.host.registry name app.artifactHash := rfl
  simp only [hprev]
  cases o.previous w.host.registry name app.artifactHash with
  | none => exact List.nil_prefix
  | some prev =>
      obtain ⟨issued, hprefix, hissued⟩ := Follows.done paths o follows_rollback
      rw [hissued]
      exact hprefix

theorem change_issued (o : Oracle) (w : World) (c : Change) :
    (serve paths crates o w c.request).1.done.map Prod.snd <+:
      c.statements paths crates o w.host.registry := by
  cases c with
  | deploy req => exact deploy_issued paths o w req
  | reload name => exact reload_issued paths o w name
  | rollback name => exact rollback_issued paths o w name

/-- A statement has the time of the call that issues it. -/
theorem done_times (o : Oracle) (w : World) (r : Request) :
    ∀ x ∈ (serve paths crates o w r).1.done, ∃ n, x.1 = (o.env n).now := by
  refine (Program.only_true (r.handler paths crates)).exec
    (I := fun s : Alone => ∀ x ∈ s.done, ∃ n, x.1 = (o.env n).now) ?_ (by simp)
  intro s op _ hs x hx
  cases hr : (o.answer paths crates s op).2 with
  | error m =>
      rw [(answer_error hr).2.2.2] at hx
      exact hs x hx
  | ok r =>
      rw [(answer_ok hr).2.2, List.mem_append, List.mem_map] at hx
      rcases hx with hx | ⟨st, -, rfl⟩
      · exact hs x hx
      · exact ⟨s.calls, rfl⟩

end Issued

/-! ## The handlers check before they write -/

abbrev Commits (p : Thread) : Prop := p.Commits Call.statement (·.fallible)

abbrev FailsFirst (p : Thread) : Prop := p.FailsFirst Call.statement (·.fallible)

theorem commits_write {s : Statement} {f : Unit → Thread} (h : Commits (f ())) :
    Commits (must (.write s) >>= f) :=
  ⟨fun _ => h, fun hnone => by cases hnone⟩

theorem commits_must {c : Call} {f : c.Reply → Thread} (hop : c.fallible = false)
    (h : ∀ r, Commits (f r)) : Commits (must c >>= f) :=
  ⟨h, fun _ hfallible => absurd (hop.symm.trans hfallible) (by decide)⟩

theorem commits_reconcile {f : Unit → Thread} (h : Commits (f ())) :
    Commits (reconcile >>= f) := by
  refine commits_must (c := .isShuttingDown) (f := fun b => (if b then pure () else _) >>= f)
    rfl fun b => ?_
  cases b with
  | true => exact h
  | false =>
      exact ⟨fun apps => commits_must (c := .lockedSection apps) rfl fun _ => h,
        fun _ _ _ => h⟩

theorem failsFirst_write {s : Statement} {f : Unit → Thread} (h : Commits (f ())) :
    FailsFirst (must (.write s) >>= f) :=
  ⟨fun _ _ => h, fun hnone => by cases hnone⟩

theorem failsFirst_must {c : Call} {f : c.Reply → Thread} (hop : c.statement = none)
    (h : ∀ r, FailsFirst (f r)) : FailsFirst (must c >>= f) :=
  ⟨fun hsome => absurd hop hsome, fun _ => ⟨h, fun _ => trivial⟩⟩

theorem appOr404_failsFirst {name : String} {f : AppRow → Thread}
    (h : ∀ app, FailsFirst (f app)) : FailsFirst (appOr404 name >>= f) := by
  refine ⟨fun hsome => absurd rfl hsome, fun _ => ⟨fun app => ?_, fun _ => trivial⟩⟩
  cases app with
  | none => trivial
  | some app => exact h app

theorem change_failsFirst (paths : Paths) {c : Change} (hicon : c.IconOk crates) :
    FailsFirst (c.request.handler paths crates) := by
  cases c with
  | deploy req =>
      simp only [Change.request, Request.handler]
      unfold deploy
      cases decodeBundle crates req with
      | error e => trivial
      | ok bundle =>
          refine failsFirst_must rfl fun record => failsFirst_write ?_
          refine commits_must rfl fun isTrusted => commits_write ?_
          have hok : checkIcon crates req.icon = .ok () := hicon
          unfold deployApp
          rw [hok]
          refine commits_write (commits_write (commits_write ?_))
          exact commits_must rfl fun _ => commits_reconcile trivial
  | reload name =>
      simp only [Change.request, Request.handler]
      unfold reload
      refine appOr404_failsFirst fun app => ?_
      cases app.manifestPath with
      | none => trivial
      | some path =>
          refine failsFirst_must rfl fun files => ?_
          cases loadManifest crates files path with
          | error e => trivial
          | ok manifest =>
              refine failsFirst_must rfl fun files' => ?_
              cases manifestIcon crates files' path manifest.icon with
              | error e => trivial
              | ok icon =>
                  refine failsFirst_write (commits_write ?_)
                  refine commits_must rfl fun _ => commits_write ?_
                  exact commits_reconcile trivial
  | rollback name =>
      simp only [Change.request, Request.handler]
      unfold rollback
      refine appOr404_failsFirst fun app => failsFirst_must rfl fun prev => ?_
      cases prev with
      | none => trivial
      | some prev =>
          refine failsFirst_write (commits_write (commits_write ?_))
          exact commits_must rfl fun _ => commits_write (commits_reconcile trivial)

/-! ## What a failed request leaves -/

/-- A failed deploy, reload or rollback leaves the tables as the first of its handler's own
statements leave them, and as they were if no writing statement failed. -/
theorem failed_change_tables {o : Oracle} {w : World} {c : Change} {e : ApiError}
    (hicon : c.IconOk crates) (herror : (serve paths crates o w c.request).2 = .error e) :
    ∃ done : List (ℤ × Statement),
      done.map Prod.snd <+: c.statements paths crates o w.host.registry ∧
      (∀ x ∈ done, ∃ n, x.1 = (o.env n).now) ∧
      tables (serve paths crates o w c.request).1.world.host.registry =
        tables (execAll done w.host.registry) ∧
      ((∀ n st, o.fails n (.write st) = none) → done = []) := by
  refine ⟨_, change_issued o w c, done_times o w c.request,
    congr_of_quiet tables (fun _ => rfl) (serve_registry o w c.request), fun hfails => ?_⟩
  refine List.map_eq_nil_iff.1 ((change_failsFirst paths hicon).exec
    (A := o.answer paths crates) (T := fun s => s.done.map Prod.snd)
    (s := { world := w }) ?_ ?_ herror)
  · intro s op hop
    cases hr : (o.answer paths crates s op).2 with
    | ok r => simp [(answer_ok hr).2.2, hop]
    | error m => rw [(answer_error hr).2.2.2]
  · intro s op m hr
    obtain ⟨hfallible, hfail, -, -⟩ := answer_error hr
    refine ⟨hfallible, ?_⟩
    cases op with
    | write st =>
        rw [hfails] at hfail
        cases hfail
    | _ => rfl

section Half

/-- The insert into `deploy_history` fails. -/
def halfOracle : Oracle where
  fails _ op :=
    match op with
    | .write (.recordDeploy _ _) => some "database or disk is full"
    | _ => none

def halfDeploy : Change := .deploy { name := "a", targetTriple := "t", binB64 := "b" }

def halfServe : Alone × Except ApiError Response :=
  serve (Paths.ofRoot "/r") (Crates.plainCrates [] []) halfOracle {} halfDeploy.request

theorem halfServe_error :
    halfServe.2 = .error (.internal "database or disk is full") := by
  rfl

/-- The deploy fails, and its app is in the registry. -/
theorem failed_change_not_atomic :
    ¬ ∀ (paths : Paths) (crates : Crates) (o : Oracle) (w : World) (c : Change)
      (e : ApiError), (serve paths crates o w c.request).2 = .error e →
        tables (serve paths crates o w c.request).1.world.host.registry =
          tables w.host.registry := by
  intro h
  have hsame := h _ _ _ _ _ _ halfServe_error
  have happ : (halfServe.1.world.host.registry.app.lookup "a").isSome = true := by decide
  rw [show halfServe.1.world.host.registry.app = ({} : Registry).app from
    congrArg Prod.fst hsame] at happ
  cases happ

theorem failed_change_tables_halfDeploy :
    ∃ done : List (ℤ × Statement), done.map Prod.snd <+:
        halfDeploy.statements (Paths.ofRoot "/r") (Crates.plainCrates [] []) halfOracle {} ∧
      (∀ x ∈ done, ∃ n, x.1 = (halfOracle.env n).now) ∧
      tables halfServe.1.world.host.registry = tables (execAll done {}) ∧
      ((∀ n st, halfOracle.fails n (.write st) = none) → done = []) :=
  failed_change_tables (c := halfDeploy) rfl halfServe_error

end Half

end Api

end Nockd
