import Nockd.Api.Handlers

/-!
# What the handlers keep to

Every handler uses only what its own replies have told it: an artifact hash
comes from a put or from the history, the rows of a locked section come from
`list_apps`. Only deploys write artifact rows, only the requests that change an app
write its artifact, arguments and port, and no handler touches what belongs to
the main thread. A change of an app is followed by a restart request for it.
-/

namespace Nockd

namespace Api

open Config Interleaving Registry Store Supervisor

/-- What a handler must know, or be entitled to, before a call. -/
inductive Fact where
  | hash (hash : String)
  /-- The app that a deploy is for. -/
  | name (name : String)
  | snapshot (apps : List AppRow)
  /-- The request is a deploy. -/
  | deploying
  /-- The request changes an app. -/
  | changing
  /-- The thread is the main one. -/
  | main

def Call.uses : Call → Set Fact
  | .write (.putArtifact _ _) => {.deploying}
  | .write (.setArtifactVerification _ _ _) => {.deploying}
  | .write (.upsertApp u) => {.changing, .name u.name, .hash u.artifactHash}
  | .write (.updateAppConfig _ _) => {.changing}
  | .write (.setAppArtifact _ hash) => {.changing, .hash hash}
  | .write (.recordDeploy _ hash) => {.hash hash}
  | .lockedSection apps => {.snapshot apps}
  | .setShuttingDown => {.main}
  | .takeChildren => {.main}
  | .signal _ _ => {.main}
  | .waitTimeout _ => {.main}
  | .waitExit _ => {.main}
  | .removePidfiles => {.main}
  | .readPidfile _ => {.main}
  | .removePidfile _ => {.main}
  | .pidAlive _ => {.main}
  | .sleep => {.main}
  | _ => ∅

def Call.learns : ∀ op : Call, op.Reply → Set Fact
  | .put _ _ _, record => {.hash record.artifactHash}
  | .previousArtifact _ _, prev => {f | ∃ hash, prev = some hash ∧ f = .hash hash}
  | .listApps, apps => {.snapshot apps}
  | _, _ => ∅

/-- What a request is entitled to. -/
def Request.facts : Request → Set Fact
  | .deploy req => {.deploying, .changing, .name req.name}
  | .reload _ => {.changing}
  | .rollback _ => {.changing}
  | _ => ∅

abbrev Obeys {α : Type} (known : Set Fact) (p : Proc α) : Prop :=
  p.Obeys Call.uses Call.learns known

variable {paths : Paths} {crates : Crates} {known : Set Fact} {α : Type}

theorem only_must {P : Call → Prop} {c : Call} (h : P c) : (must c).Only P :=
  ⟨h, fun _ => trivial, fun _ => trivial⟩

theorem obeys_must {c : Call} {f : c.Reply → Proc α} (huses : c.uses ⊆ known)
    (h : ∀ r, Obeys known (f r)) : Obeys known (must c >>= f) :=
  ⟨huses, fun r => (h r).mono Set.subset_union_left, fun _ => trivial⟩

/-- A call from whose reply something is learned. -/
theorem obeys_learn {c : Call} {f : c.Reply → Proc α} (huses : c.uses ⊆ known)
    (h : ∀ r, Obeys (known ∪ c.learns r) (f r)) : Obeys known (must c >>= f) :=
  ⟨huses, h, fun _ => trivial⟩

theorem obeys_last {c : Call} (huses : c.uses ⊆ known) : Obeys known (must c) :=
  ⟨huses, fun _ => trivial, fun _ => trivial⟩

theorem obeys_reconcile : Obeys known reconcile := by
  refine obeys_must (c := .isShuttingDown) (Set.empty_subset _) fun b => ?_
  cases b with
  | true => trivial
  | false =>
      refine ⟨Set.empty_subset _, fun apps => ?_, fun _ => trivial⟩
      exact obeys_last (c := .lockedSection apps) Set.subset_union_right

theorem obeys_tail {r : Response} : Obeys known (reconcile >>= fun _ => pure r) :=
  obeys_reconcile.bind fun _ => trivial

theorem obeys_appOr404 {name : String} {f : AppRow → Proc α} (h : ∀ app, Obeys known (f app)) :
    Obeys known (appOr404 name >>= f) := by
  refine Program.Obeys.bind ?_ h
  refine obeys_must (c := .getApp name) (Set.empty_subset _) fun app => ?_
  cases app <;> trivial

theorem obeys_deployApp (req : DeployRequest) (record : ArtifactRecord) :
    Obeys {.changing, .name req.name, .hash record.artifactHash}
      (deployApp paths crates req record) := by
  unfold deployApp
  cases checkIcon crates req.icon with
  | error m => trivial
  | ok _ =>
      refine obeys_must ?_ fun _ => obeys_must (by simp [Call.uses]) fun _ => ?_
      · simp [Call.uses, upsertOf]
      refine obeys_must (Set.empty_subset _) fun _ => ?_
      exact obeys_must (Set.empty_subset _) fun _ => obeys_tail

theorem obeys_deploy (req : DeployRequest) :
    Obeys {.deploying, .changing, .name req.name} (deploy paths crates req) := by
  unfold deploy
  cases decodeBundle crates req with
  | error e => trivial
  | ok bundle =>
      refine obeys_learn (Set.empty_subset _) fun record => ?_
      refine obeys_must (by simp [Call.uses]) fun _ => ?_
      refine obeys_must (Set.empty_subset _) fun isTrusted => ?_
      refine obeys_must (by simp [Call.uses]) fun _ => ?_
      refine (obeys_deployApp req record).mono ?_
      simp [Call.learns, Set.insert_subset_iff]

theorem obeys_reload (name : String) : Obeys {.changing} (reload crates name) := by
  unfold reload
  refine obeys_appOr404 fun app => ?_
  cases app.manifestPath with
  | none => trivial
  | some path =>
      refine obeys_must (Set.empty_subset _) fun files => ?_
      cases loadManifest crates files path with
      | error e => trivial
      | ok manifest =>
          refine obeys_must (Set.empty_subset _) fun files' => ?_
          cases manifestIcon crates files' path manifest.icon with
          | error e => trivial
          | ok icon =>
              refine obeys_must (by simp [Call.uses]) fun _ => ?_
              refine obeys_must (Set.empty_subset _) fun _ => ?_
              refine obeys_must (Set.empty_subset _) fun _ => ?_
              exact obeys_must (Set.empty_subset _) fun _ => obeys_tail

theorem obeys_rollback (name : String) : Obeys {.changing} (rollback name) := by
  unfold rollback
  refine obeys_appOr404 fun app => obeys_learn (Set.empty_subset _) fun prev => ?_
  cases prev with
  | none => trivial
  | some prev =>
      refine obeys_must ?_ fun _ => ?_
      · simp [Call.uses, Call.learns, Set.insert_subset_iff]
      refine obeys_must (by simp [Call.uses, Call.learns]) fun _ => ?_
      refine obeys_must (Set.empty_subset _) fun _ => ?_
      refine obeys_must (Set.empty_subset _) fun _ => ?_
      exact obeys_must (Set.empty_subset _) fun _ => obeys_tail

theorem obeys_setStatus (name status : String) : Obeys known (setStatus name status) :=
  obeys_appOr404 fun _ => obeys_must (Set.empty_subset _) fun _ => obeys_tail

theorem obeys_fleetSet (status : String) : Obeys known (fleetSet status) :=
  obeys_must (Set.empty_subset _) fun _ =>
    (Program.Obeys.forEach fun _ => obeys_last (Set.empty_subset _)).bind fun _ => obeys_tail

theorem obeys_healthTick : Obeys known healthTick := by
  refine ⟨Set.empty_subset _, fun apps => ?_, fun _ => trivial⟩
  refine (Program.Obeys.forEach fun app => ?_).bind fun _ => trivial
  cases app.adminAddr with
  | none => trivial
  | some addr =>
      exact obeys_must (Set.empty_subset _) fun _ => obeys_last (Set.empty_subset _)

theorem obeys_statusTick : Obeys known statusTick := by
  refine ⟨Set.empty_subset _, fun apps => ?_, fun _ => trivial⟩
  refine (Program.Obeys.forEach fun app => ?_).bind fun _ => trivial
  cases app.statusCmd with
  | none => trivial
  | some cmd =>
      refine obeys_must (Set.empty_subset _) fun running => ?_
      cases running with
      | true => exact obeys_must (Set.empty_subset _) fun _ => obeys_last (Set.empty_subset _)
      | false => trivial

theorem obeys_livePids (apps : List AppRow) : Obeys known (livePids apps) := by
  induction apps with
  | nil => trivial
  | cons app apps ih =>
      exact obeys_must (Set.empty_subset _) fun _ => ih.bind fun _ => trivial

theorem obeys_sampleTick : Obeys known sampleTick := by
  refine ⟨Set.empty_subset _, fun apps => ?_, fun _ => trivial⟩
  refine (obeys_livePids apps).bind fun live => obeys_must (Set.empty_subset _) fun samples => ?_
  refine (Program.Obeys.forEach fun x => ?_).bind fun _ => trivial
  obtain ⟨name, pid⟩ := x
  cases hsample : samples pid with
  | none =>
      simp only [hsample]
      exact obeys_last (Set.empty_subset _)
  | some s =>
      simp only [hsample]
      exact obeys_last (Set.empty_subset _)

/-- Every handler uses only what it is entitled to or has been told. -/
theorem handler_obeys (r : Request) : Obeys r.facts (r.handler paths crates) := by
  cases r with
  | deploy req => exact obeys_deploy req
  | restart name =>
      refine obeys_appOr404 fun _ => obeys_must (Set.empty_subset _) fun _ => ?_
      refine obeys_must (Set.empty_subset _) fun _ => ?_
      exact obeys_must (Set.empty_subset _) fun _ => obeys_tail
  | reload name => exact obeys_reload name
  | rollback name => exact obeys_rollback name
  | stop name => exact obeys_setStatus name "stopped"
  | start name => exact obeys_setStatus name "running"
  | down => exact obeys_fleetSet "stopped"
  | up => exact obeys_fleetSet "running"
  | trustAdd pubkey => exact obeys_must (Set.empty_subset _) fun _ => trivial
  | trustRemove pubkey => exact obeys_must (Set.empty_subset _) fun _ => trivial
  | addEndpoint name url kind => exact obeys_must (Set.empty_subset _) fun _ => trivial
  | removeEndpoint name => exact obeys_must (Set.empty_subset _) fun _ => trivial
  | reconcileTick => exact obeys_tail
  | healthTick => exact obeys_healthTick
  | statusTick => exact obeys_statusTick
  | sampleTick => exact obeys_sampleTick

/-! ## Changes are followed by a restart request -/

/-- The call changes the artifact, the arguments or the port of the app. -/
def Call.asks (name : String) : Call → Prop
  | .write (.upsertApp u) => u.name = name
  | .write (.updateAppConfig app _) => app = name
  | .write (.setAppArtifact app _) => app = name
  | _ => False

def Call.restarts (name : String) (op : Call) : Prop := op = .requestRestart name

theorem answers_must {c : Call} {f : c.Reply → Thread} (hasks : ∀ name, ¬ c.asks name)
    (h : ∀ r, (f r).Answers Call.asks Call.restarts) :
    (must c >>= f).Answers Call.asks Call.restarts :=
  fun r => ⟨fun name hname => absurd hname (hasks name), h r⟩

theorem answers_asking {c : Call} {f : c.Reply → Thread}
    (hawaits : ∀ name r, c.asks name →
      (f r).AwaitsCall (fun _ _ => True) (Call.restarts name))
    (h : ∀ r, (f r).Answers Call.asks Call.restarts) :
    (must c >>= f).Answers Call.asks Call.restarts :=
  fun r => ⟨fun name => hawaits name r, h r⟩

theorem awaits_must {c : Call} {f : c.Reply → Thread} {name : String}
    (h : ∀ r, (f r).AwaitsCall (fun _ _ => True) (Call.restarts name)) :
    (must c >>= f).AwaitsCall (fun _ _ => True) (Call.restarts name) :=
  Or.inr ⟨trivial, fun r _ => h r⟩

theorem awaits_restart {name : String} {f : Unit → Thread} :
    (must (.requestRestart name) >>= f).AwaitsCall (fun _ _ => True) (Call.restarts name) :=
  Or.inl rfl

theorem answers_tail {r : Response} :
    (reconcile >>= fun _ => pure r : Thread).Answers Call.asks Call.restarts := by
  refine answers_must (c := .isShuttingDown)
    (f := fun b => (if b then pure () else _) >>= fun _ => pure r) (fun _ h => h) fun b => ?_
  cases b with
  | true => trivial
  | false => exact fun apps => ⟨fun _ h => absurd h id, fun _ => ⟨fun _ h => absurd h id, trivial⟩⟩

theorem answers_deploy (req : DeployRequest) :
    (deploy paths crates req).Answers Call.asks Call.restarts := by
  unfold deploy
  cases decodeBundle crates req with
  | error e => trivial
  | ok bundle =>
      refine answers_must (fun _ h => h) fun record => answers_must (fun _ h => h) fun _ => ?_
      refine answers_must (fun _ h => h) fun isTrusted => answers_must (fun _ h => h) fun _ => ?_
      unfold deployApp
      cases checkIcon crates req.icon with
      | error m => trivial
      | ok _ =>
          refine answers_asking ?_ fun _ => ?_
          · rintro name - ⟨⟩
            exact awaits_must fun _ => awaits_must fun _ => awaits_restart
          refine answers_must (fun _ h => h) fun _ => answers_must (fun _ h => h) fun _ => ?_
          exact answers_must (fun _ h => h) fun _ => answers_tail

theorem answers_appOr404 {name : String} {f : AppRow → Thread}
    (h : ∀ app, (f app).Answers Call.asks Call.restarts) :
    (appOr404 name >>= f).Answers Call.asks Call.restarts := by
  refine fun app => ⟨fun _ hasks => hasks.elim, ?_⟩
  cases app with
  | none => trivial
  | some app => exact h app

theorem answers_reload (name : String) :
    (reload crates name).Answers Call.asks Call.restarts := by
  unfold reload
  refine answers_appOr404 fun app => ?_
  cases app.manifestPath with
  | none => trivial
  | some path =>
      refine answers_must (fun _ h => h) fun files => ?_
      cases loadManifest crates files path with
      | error e => trivial
      | ok manifest =>
          refine answers_must (fun _ h => h) fun files' => ?_
          cases manifestIcon crates files' path manifest.icon with
          | error e => trivial
          | ok icon =>
              refine answers_asking ?_ fun _ => ?_
              · rintro name - ⟨⟩
                exact awaits_must fun _ => awaits_restart
              refine answers_must (fun _ h => h) fun _ => ?_
              refine answers_must (fun _ h => h) fun _ => ?_
              exact answers_must (fun _ h => h) fun _ => answers_tail

theorem answers_rollback (name : String) :
    (rollback name).Answers Call.asks Call.restarts := by
  unfold rollback
  refine answers_appOr404 fun app => answers_must (fun _ h => h) fun prev => ?_
  cases prev with
  | none => trivial
  | some prev =>
      refine answers_asking ?_ fun _ => ?_
      · rintro name - ⟨⟩
        exact awaits_must fun _ => awaits_must fun _ => awaits_restart
      refine answers_must (fun _ h => h) fun _ => answers_must (fun _ h => h) fun _ => ?_
      refine answers_must (fun _ h => h) fun _ => ?_
      exact answers_must (fun _ h => h) fun _ => answers_tail

/-- Only hashes and snapshots are ever learned. -/
theorem learns_cases {op : Call} {r : op.Reply} {f : Fact} (h : f ∈ op.learns r) :
    (∃ hash, f = .hash hash) ∨ ∃ apps, f = .snapshot apps := by
  cases op <;> simp only [Call.learns] at h
  case put => exact Or.inl ⟨_, h⟩
  case listApps => exact Or.inr ⟨_, h⟩
  case previousArtifact =>
    obtain ⟨hash, -, hf⟩ := h
    exact Or.inl ⟨hash, hf⟩
  all_goals exact h.elim

/-- What a thread is not entitled to, and is no hash or snapshot, it never
uses. -/
theorem never_uses {p : Proc α} {f : Fact} (h : Obeys known p) (hknown : f ∉ known)
    (hhash : ∀ hash, f ≠ .hash hash) (hsnapshot : ∀ apps, f ≠ .snapshot apps) :
    p.Only fun op => f ∉ op.uses := by
  refine Program.Obeys.only (G := (· ≠ f)) h ?_ ?_ ?_
  · rintro g hg rfl
    exact hknown hg
  · rintro op reply g hg rfl
    rcases learns_cases hg with ⟨hash, rfl⟩ | ⟨apps, rfl⟩
    · exact hhash hash rfl
    · exact hsnapshot apps rfl
  · exact fun op hop huses => hop f huses rfl

theorem asks_uses {name : String} {op : Call} (h : op.asks name) :
    Fact.changing ∈ op.uses := by
  cases op with
  | write s => cases s <;> first | exact h.elim | simp [Call.uses]
  | _ => exact h.elim

theorem answers_of_unchanging {r : Request} (h : .changing ∉ r.facts) :
    (r.handler paths crates).Answers Call.asks Call.restarts :=
  (never_uses (handler_obeys r) h (by simp) (by simp)).answers
    fun _ _ hop hasks => hop (asks_uses hasks)

/-- After a change of an app, every handler still has the restart request for
it to make. -/
theorem handler_answers (r : Request) :
    (r.handler paths crates).Answers Call.asks Call.restarts := by
  cases r with
  | deploy req => exact answers_deploy req
  | reload name => exact answers_reload name
  | rollback name => exact answers_rollback name
  | _ => exact answers_of_unchanging (by simp [Request.facts])

/-! ## Requests that bring an app back -/

/-- The request is to leave the app running. -/
def Request.recalls (name : String) : Request → Prop
  | .deploy req => req.name = name
  | .restart app => app = name
  | .reload app => app = name
  | .rollback app => app = name
  | _ => False

/-- The call makes the app one that is to run. -/
def Call.wakes (name : String) : Call → Prop
  | .write (.upsertApp u) => u.name = name
  | .write (.setDesired app desired) => app = name ∧ desired ≠ "stopped"
  | _ => False

section Recalls

variable {c : Call} {f : c.Reply → Thread} {name : String} {seen : Prop}

theorem via_must (hc : ¬ c.restarts name)
    (h : ∀ r, (f r).Via (Call.wakes name) (Call.restarts name) seen) :
    (must c >>= f).Via (Call.wakes name) (Call.restarts name) seen :=
  Or.inr ⟨hc, fun r => (h r).mono Or.inl, fun _ => trivial⟩

theorem via_waking (hc : c.wakes name)
    (h : ∀ r, (f r).Via (Call.wakes name) (Call.restarts name) True) :
    (must c >>= f).Via (Call.wakes name) (Call.restarts name) seen := by
  refine Or.inr ⟨?_, fun r => (h r).mono fun _ => Or.inr hc, fun _ => trivial⟩
  rintro rfl
  exact hc

theorem via_restart {f : Unit → Thread} :
    (must (.requestRestart name) >>= f).Via (Call.wakes name) (Call.restarts name) True :=
  Or.inl ⟨rfl, trivial⟩

theorem via_appOr404 {app : String} {f : AppRow → Thread}
    (h : ∀ row, (f row).Via (Call.wakes name) (Call.restarts name) seen) :
    (appOr404 app >>= f).Via (Call.wakes name) (Call.restarts name) seen := by
  refine Program.Via.bind_right ⟨nofun, fun row => ?_, fun _ => trivial⟩ h
  cases row <;> trivial

end Recalls

theorem via_running {name : String} {f : Unit → Thread}
    (h : (f ()).Via (Call.wakes name) (Call.restarts name) True) {seen : Prop} :
    (must (.write (.setDesired name "running")) >>= f).Via (Call.wakes name)
      (Call.restarts name) seen :=
  via_waking ⟨rfl, by decide⟩ fun _ => h

theorem via_deploy (req : DeployRequest) :
    (deploy paths crates req).Via (Call.wakes req.name) (Call.restarts req.name) False := by
  unfold deploy
  cases decodeBundle crates req with
  | error e => trivial
  | ok bundle =>
      refine via_must nofun fun record => via_must nofun fun _ => via_must nofun fun isTrusted => ?_
      refine via_must nofun fun _ => ?_
      unfold deployApp
      cases checkIcon crates req.icon with
      | error m => trivial
      | ok _ =>
          exact via_waking rfl fun _ => via_must nofun fun _ => via_must nofun fun _ => via_restart

theorem via_reload (name : String) :
    (reload crates name).Via (Call.wakes name) (Call.restarts name) False := by
  unfold reload
  refine via_appOr404 fun app => ?_
  cases app.manifestPath with
  | none => trivial
  | some path =>
      refine via_must nofun fun files => ?_
      cases loadManifest crates files path with
      | error e => trivial
      | ok manifest =>
          refine via_must nofun fun files' => ?_
          cases manifestIcon crates files' path manifest.icon with
          | error e => trivial
          | ok icon => exact via_must nofun fun _ => via_running via_restart

theorem via_rollback (name : String) :
    (rollback name).Via (Call.wakes name) (Call.restarts name) False := by
  unfold rollback
  refine via_appOr404 fun app => via_must nofun fun prev => ?_
  cases prev with
  | none => trivial
  | some prev => exact via_must nofun fun _ => via_must nofun fun _ => via_running via_restart

/-- A handler that brings an app back returns only after a restart request for
it, made when it had set the app to run. -/
theorem handler_recalls {r : Request} {name : String} (h : r.recalls name) :
    (r.handler paths crates).Via (Call.wakes name) (Call.restarts name) False := by
  cases r with
  | deploy req =>
      cases h
      exact via_deploy req
  | restart app =>
      cases h
      exact via_appOr404 fun _ => via_running via_restart
  | reload app =>
      cases h
      exact via_reload name
  | rollback app =>
      cases h
      exact via_rollback name
  | _ => exact h.elim

end Api

end Nockd
