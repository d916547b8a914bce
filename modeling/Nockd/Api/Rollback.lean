import Nockd.Api.References
import Nockd.Api.Verification
import Nockd.Registry.History

/-!
# Rolling back

Served one after another, deploys and rollbacks of an app are the moves of a trail: a
deploy sets its hash, and a rollback goes back. The history of the app is that
trail, and its newest entry is the artifact of the app's row.
-/

namespace Nockd

namespace Api

open Config Interleaving Registry Store Supervisor

variable (crates : Crates)

/-- The hash that a deploy gives its app, unless the request is refused. -/
def deployedHash (req : DeployRequest) : Option String :=
  match decodeBundle crates req, checkIcon crates req.icon with
  | .ok (jam, bin), .ok _ =>
      some (computeHashes crates.blake3 jam bin req.targetTriple).artifactHash
  | _, _ => none

/-- One of the requests has deployed the hash for the app. -/
def Deployed (xs : List Served) (name hash : String) : Prop :=
  ∃ x ∈ xs, ∃ req, x.request = .deploy req ∧ req.name = name ∧
    deployedHash crates req = some hash

/-- What a request does to the trail of an app. -/
def Request.move (name : String) : Request → Option (Trail.Move String)
  | .deploy req => if req.name = name then (deployedHash crates req).map .set else none
  | .rollback app => if app = name then some .back else none
  | _ => none

variable {crates} {paths : Paths}

/-! ## What a request leaves of the history -/

/-- A run of a program leaves the ids of the history in order. -/
theorem exec_sequenced {α : Type} {o : Oracle} {s : Alone} (p : Proc α)
    (h : s.world.host.registry.Sequenced) :
    (p.exec (o.answer paths crates) s).1.world.host.registry.Sequenced :=
  exec_keeps (Program.only_true p) (fun hquiet hids => hids.of_quiet hquiet)
    (fun st now _ _ hids => hids.exec st now) h

theorem exec_unlinked {α : Type} {o : Oracle} {s : Alone} {p : Proc α} (h : Unlinked p)
    (name : String) :
    let r := (p.exec (o.answer paths crates) s).1.world.host.registry
    r.trail name = s.world.host.registry.trail name ∧
      r.artifactOf name = s.world.host.registry.artifactOf name := by
  refine exec_keeps (I := fun r => r.trail name = s.world.host.registry.trail name ∧
    r.artifactOf name = s.world.host.registry.artifactOf name) h ?_ ?_ ⟨rfl, rfl⟩
  · intro r r' hquiet hr
    rwa [trail_of_quiet hquiet, artifactOf_of_quiet hquiet]
  · intro st now r hlinks hr
    have hrecords : st.records name = none := by
      cases st <;> first | rfl | cases hlinks
    have hassigns : st.assigns name = false := by
      cases st <;> first | rfl | cases hlinks
    rw [trail_exec, hrecords, artifactOf_exec now r hassigns]
    exact hr

theorem answer_quiet {x : Served} (s : Alone) (op : Call) (hop : op.statement = none) :
    (x.oracle.answer paths crates s op).1.world.host.registry.quiet =
      s.world.host.registry.quiet := by
  rw [answer_world]
  exact perform_quiet paths crates _ _ hop

/-- Reconciling answers, and leaves the registry but for its events. -/
theorem exec_tail {x : Served} (s : Alone) (r : Response) :
    let served := (reconcile >>= fun _ => pure r : Thread).exec (x.oracle.answer paths crates) s
    served.2 = .ok r ∧ served.1.world.host.registry.quiet = s.world.host.registry.quiet := by
  intro served
  have hserved : served =
    (reconcile >>= fun _ => pure r : Thread).exec (x.oracle.answer paths crates) s := rfl
  unfold reconcile at hserved
  rw [Program.bind_assoc, exec_must .isShuttingDown] at hserved
  cases hb : (perform paths crates (x.oracle.env s.calls) s.world .isShuttingDown).2 with
  | true =>
      simp only [hb, if_true] at hserved
      rw [hserved]
      exact ⟨rfl, answer_quiet s _ rfl⟩
  | false =>
      simp only [hb, Bool.false_eq_true, if_false, Program.bind_assoc, Program.exec_outcome,
        answer_reply] at hserved
      rw [exec_must (.lockedSection _)] at hserved
      rw [hserved]
      refine ⟨rfl, ?_⟩
      exact ((answer_quiet _ _ rfl).trans (answer_quiet _ _ rfl)).trans (answer_quiet s _ rfl)

theorem exec_appOr404 {x : Served} {s : Alone} {name : String} {f : AppRow → Thread} :
    (appOr404 name >>= f).exec (x.oracle.answer paths crates) s =
      match s.world.host.registry.getApp name with
      | none => ((x.oracle.answer paths crates s (.getApp name)).1, .error (.notFound name))
      | some app => (f app).exec (x.oracle.answer paths crates)
          (x.oracle.answer paths crates s (.getApp name)).1 := by
  have hreply : (perform paths crates (x.oracle.env s.calls) s.world (.getApp name)).2 =
      s.world.host.registry.getApp name := rfl
  unfold appOr404
  rw [Program.bind_assoc, exec_must (.getApp name), hreply]
  cases s.world.host.registry.getApp name <;> rfl

def noPrevious : ApiError :=
  .conflict "no previous artifact to roll back to — only one has been deployed"

theorem exec_deployApp (paths : Paths) (x : Served) (s : Alone) {req : DeployRequest}
    {record : ArtifactRecord}
    (hicon : checkIcon crates req.icon = .ok ()) :
    let hash := record.artifactHash
    let served := (deployApp paths crates req record).exec (x.oracle.answer paths crates) s
    served.2 = .ok (.deployed req.name hash record.kernelHash) ∧
      ∃ t₁ t₂, served.1.world.host.registry.quiet =
        (execAll [(t₁, .upsertApp (upsertOf paths req hash)), (t₂, .recordDeploy req.name hash)]
          s.world.host.registry).quiet := by
  intro hash served
  have hserved : served =
    (deployApp paths crates req record).exec (x.oracle.answer paths crates) s := rfl
  unfold deployApp at hserved
  rw [hicon] at hserved
  simp only at hserved
  rw [exec_must (.write _), exec_must (.write _), exec_must (.write _),
    exec_must (.requestRestart _)] at hserved
  obtain ⟨hok, htail⟩ := exec_tail (x := x) _ (.deployed req.name hash record.kernelHash)
  rw [hserved]
  refine ⟨hok, (x.env s.calls).now, (x.env (s.calls + 1)).now, htail.trans ?_⟩
  refine (answer_quiet _ (.requestRestart req.name) rfl).trans ?_
  rw [answer_world, answer_world, answer_world]
  rfl

/-- A deploy that is not refused registers its hash and records it; any deploy may write
artifact rows. -/
theorem serve_deploy (paths : Paths) (crates : Crates) (x : Served)
    {w : World} (req : DeployRequest) :
    let served := serve paths crates x.oracle w (.deploy req)
    let r := w.host.registry
    match deployedHash crates req with
    | none => (∃ e, served.2 = .error e) ∧
        ∃ artifact, served.1.world.host.registry = { r with artifact }
    | some hash => (∃ kernelHash, served.2 = .ok (.deployed req.name hash kernelHash)) ∧
        ∃ artifact t₁ t₂, served.1.world.host.registry.quiet =
          (execAll [(t₁, .upsertApp (upsertOf paths req hash)), (t₂, .recordDeploy req.name hash)]
            { r with artifact }).quiet := by
  intro served r
  unfold deployedHash
  cases hbundle : decodeBundle crates req with
  | error e =>
      have hserved : served = ({ world := w }, .error (.internal e)) := by
        change serve paths crates x.oracle w (.deploy req) = _
        unfold serve Request.handler deploy
        simp only [hbundle]
        rfl
      rw [hserved]
      exact ⟨⟨_, rfl⟩, r.artifact, rfl⟩
  | ok bundle =>
      obtain ⟨jam, bin⟩ := bundle
      obtain ⟨s, now, hserve, hregistry⟩ := serve_deploy_eq paths x w hbundle
      have hserved : served = _ := hserve
      cases hicon : checkIcon crates req.icon with
      | error m =>
          unfold deployApp at hserved
          rw [hicon] at hserved
          rw [hserved]
          exact ⟨⟨_, rfl⟩, _, hregistry⟩
      | ok u =>
          obtain ⟨hok, t₁, t₂, hquiet⟩ := exec_deployApp paths x s hicon
          rw [hserved]
          rw [hregistry] at hquiet
          exact ⟨⟨_, hok⟩, _, t₁, t₂, hquiet⟩

theorem perform_previousArtifact {x : Served} {n : ℕ} {w : World} {name current : String} :
    (perform paths crates (x.oracle.env n) w (.previousArtifact name current)).2 =
      w.host.registry.previousArtifact name current := rfl

/-- A rollback goes back, unless there is nothing to go back to. -/
theorem serve_rollback (paths : Paths) (crates : Crates) (x : Served)
    {w : World} {name : String} {row : AppRecord}
    (hrow : w.host.registry.app.lookup name = some row) :
    let served := serve paths crates x.oracle w (.rollback name)
    let r := w.host.registry
    match r.previousArtifact name row.artifactHash with
    | none => served.2 = .error noPrevious ∧ served.1.world.host.registry = r
    | some prev => served.2 = .ok .ok ∧ ∃ t₁ t₂ t₃, served.1.world.host.registry.quiet =
        (execAll [(t₁, .setAppArtifact name prev), (t₂, .recordDeploy name prev),
          (t₃, .setDesired name "running")] r).quiet := by
  intro served r
  have happ : r.getApp name = some (r.mapAppRow name row) := by
    rw [getApp, hrow]
    rfl
  have hfound : served = _ := exec_appOr404
  rw [happ] at hfound
  have hread : served = _ := hfound.trans (exec_must (.previousArtifact _ _))
  have hget : (x.oracle.answer paths crates { world := w } (.getApp name)).1.world = w :=
    answer_world
  have hworld : (x.oracle.answer paths crates (x.oracle.answer paths crates { world := w }
      (.getApp name)).1 (.previousArtifact name row.artifactHash)).1.world = w :=
    answer_world.trans hget
  have hprevious : (r.mapAppRow name row).artifactHash = row.artifactHash := rfl
  rw [perform_previousArtifact, hget, hprevious] at hread
  cases hprev : r.previousArtifact name row.artifactHash with
  | none =>
      rw [hprev] at hread
      rw [hread]
      exact ⟨rfl, congrArg (·.host.registry) hworld⟩
  | some prev =>
      rw [hprev] at hread
      simp only at hread
      rw [exec_must (.write _), exec_must (.write _), exec_must (.write _),
        exec_must (.requestRestart _), exec_must (.write _)] at hread
      obtain ⟨hok, htail⟩ := exec_tail (x := x) _ Response.ok
      rw [hread]
      refine ⟨hok, (x.env 2).now, (x.env 3).now, (x.env 4).now, htail.trans ?_⟩
      rw [answer_world]
      refine (answer_quiet _ (.requestRestart name) rfl).trans ?_
      rw [answer_world, answer_world, answer_world, hworld]
      rfl

theorem serve_rollback_notFound (paths : Paths) (crates : Crates) (x : Served)
    {w : World} {name : String}
    (hrow : w.host.registry.app.lookup name = none) :
    let served := serve paths crates x.oracle w (.rollback name)
    served.2 = .error (.notFound name) ∧ served.1.world.host.registry = w.host.registry := by
  intro served
  have happ : w.host.registry.getApp name = none := by
    rw [getApp, hrow]
    rfl
  have hserved : served = _ := exec_appOr404
  rw [happ] at hserved
  rw [hserved]
  exact ⟨rfl, congrArg (·.host.registry) answer_world⟩

/-! ## Requests as moves -/

/-- What an optional move makes of a trail. -/
def moved (xs : List String) (m : Option (Trail.Move String)) : List String :=
  m.elim xs (Trail.move xs)

theorem move_deploy (req : DeployRequest) (name : String) :
    (Request.deploy req).move crates name =
      if req.name = name then (deployedHash crates req).map .set else none := rfl

theorem move_rollback (app name : String) :
    (Request.rollback app).move crates name = if app = name then some .back else none := rfl

theorem trail_serve_deploy (paths : Paths) (crates : Crates) (x : Served)
    {w : World} {name : String} (req : DeployRequest)
    (h : w.host.registry.Tracked name) :
    let r := (serve paths crates x.oracle w (.deploy req)).1.world.host.registry
    r.trail name = moved (w.host.registry.trail name) ((Request.deploy req).move crates name) ∧
      r.Tracked name := by
  intro r
  have hdeploy := serve_deploy paths crates x (w := w) req
  rw [move_deploy]
  unfold Tracked
  cases hhash : deployedHash crates req with
  | none =>
      rw [hhash] at hdeploy
      obtain ⟨-, artifact, hr⟩ := hdeploy
      rw [show r = _ from hr]
      refine ⟨?_, h⟩
      split <;> rfl
  | some hash =>
      rw [hhash] at hdeploy
      obtain ⟨-, artifact, t₁, t₂, hr⟩ := hdeploy
      have htrail : r.trail name =
          if req.name = name then hash :: w.host.registry.trail name
          else w.host.registry.trail name :=
        (trail_of_quiet hr name).trans (trail_recordDeploy _ t₂ req.name hash name)
      have hartifact : r.artifactOf name =
          if req.name = name then some hash else w.host.registry.artifactOf name := by
        rw [show r.artifactOf name = _ from artifactOf_of_quiet hr name]
        exact artifactOf_upsertApp _ t₁ (upsertOf paths req hash) name
      rw [htrail, hartifact]
      by_cases hname : req.name = name
      · simp only [if_pos hname]
        exact ⟨rfl, rfl⟩
      · simp only [if_neg hname]
        exact ⟨rfl, h⟩

theorem trail_serve_rollback (paths : Paths) (crates : Crates) (x : Served)
    {w : World} {name : String} (app : String)
    (h : w.host.registry.Tracked name) :
    let r := (serve paths crates x.oracle w (.rollback app)).1.world.host.registry
    r.trail name = moved (w.host.registry.trail name) ((Request.rollback app).move crates name) ∧
      r.Tracked name := by
  intro r
  rw [move_rollback]
  have hback (row : AppRecord) (hrow : w.host.registry.app.lookup app = some row)
      (happ : app = name) : Trail.move (w.host.registry.trail name) .back =
        (w.host.registry.previousArtifact app row.artifactHash).toList ++
          w.host.registry.trail name := by
    subst happ
    rw [previousArtifact_eq]
    exact Trail.move_back (h ▸ congrArg (Option.map _) hrow)
  cases hrow : w.host.registry.app.lookup app with
  | none =>
      obtain ⟨-, hr⟩ := serve_rollback_notFound paths crates x hrow
      rw [show r = _ from hr]
      refine ⟨?_, h⟩
      by_cases hname : app = name
      · subst hname
        have hhead : (w.host.registry.trail app).head? = none := by
          rw [← h, artifactOf, hrow]
          rfl
        rw [if_pos rfl, List.head?_eq_none_iff.1 hhead]
        rfl
      · rw [if_neg hname]
        rfl
  | some row =>
      have hserve := serve_rollback paths crates x hrow
      cases hprev : w.host.registry.previousArtifact app row.artifactHash with
      | none =>
          simp only [hprev] at hserve
          rw [show r = _ from hserve.2]
          refine ⟨?_, h⟩
          by_cases hname : app = name
          · rw [if_pos hname, moved, Option.elim_some, hback row hrow hname, hprev]
            rfl
          · rw [if_neg hname]
            rfl
      | some prev =>
          simp only [hprev] at hserve
          obtain ⟨-, t₁, t₂, t₃, hr⟩ := hserve
          have htrail : r.trail name =
              if app = name then prev :: w.host.registry.trail name
              else w.host.registry.trail name :=
            (trail_of_quiet hr name).trans (trail_recordDeploy _ t₂ app prev name)
          have hartifact : r.artifactOf name =
              if app = name then (w.host.registry.artifactOf name).map fun _ => prev
              else w.host.registry.artifactOf name := by
            rw [show r.artifactOf name = _ from artifactOf_of_quiet hr name]
            have hdesired (r : Registry) : (Statement.exec t₃ r (.setDesired app
                "running")).artifactOf name = r.artifactOf name := artifactOf_exec t₃ r rfl
            refine (hdesired _).trans ?_
            exact artifactOf_setAppArtifact _ t₁ app prev name
          unfold Tracked
          rw [htrail, hartifact]
          by_cases hname : app = name
          · simp only [if_pos hname]
            rw [moved, Option.elim_some, hback row hrow hname, hprev, ← hname, artifactOf, hrow]
            exact ⟨rfl, rfl⟩
          · simp only [if_neg hname]
            exact ⟨rfl, h⟩

/-- A request makes its move. -/
theorem trail_serve (paths : Paths) (crates : Crates) (x : Served)
    {w : World} {name : String} (request : Request)
    (h : w.host.registry.Tracked name) :
    let r := (serve paths crates x.oracle w request).1.world.host.registry
    r.trail name = moved (w.host.registry.trail name) (request.move crates name) ∧
      r.Tracked name := by
  cases hlinks : request.links with
  | false =>
      have hmove : request.move crates name = none := by
        cases request <;> first | rfl | cases hlinks
      obtain ⟨htrail, hartifact⟩ :=
        exec_unlinked (o := x.oracle) (s := { world := w })
          (handler_unlinked hlinks) name
      rw [hmove]
      exact ⟨htrail, hartifact.trans (h.trans (congrArg List.head? htrail.symm))⟩
  | true =>
      cases request with
      | deploy req => exact trail_serve_deploy paths crates x req h
      | rollback app => exact trail_serve_rollback paths crates x app h
      | _ => cases hlinks

/-! ## Runs -/

variable (crates) in
/-- The trail of an app after some requests. -/
def trailAfter (name : String) (xs : List Served) : List String :=
  (xs.filterMap fun x => x.request.move crates name).foldl Trail.move []

theorem trailAfter_snoc (name : String) (xs : List Served) (x : Served) :
    trailAfter crates name (xs ++ [x]) =
      moved (trailAfter crates name xs) (x.request.move crates name) := by
  unfold trailAfter
  rw [List.filterMap_append, List.foldl_append]
  cases hmove : x.request.move crates name with
  | none =>
      rw [List.filterMap_cons, hmove]
      rfl
  | some m =>
      rw [List.filterMap_cons, hmove]
      rfl

theorem mem_trailAfter {name hash : String} {xs : List Served} :
    hash ∈ trailAfter crates name xs ↔ Deployed crates xs name hash := by
  unfold trailAfter Deployed
  rw [Trail.mem_foldl_move, List.mem_filterMap]
  refine exists_congr fun x => and_congr_right fun _ => ?_
  constructor
  · intro hmove
    cases hreq : x.request with
    | deploy req =>
        rw [hreq, move_deploy] at hmove
        split at hmove
        case isTrue hname =>
          obtain ⟨h, hhash, heq⟩ := Option.map_eq_some_iff.1 hmove
          cases heq
          exact ⟨req, rfl, hname, hhash⟩
        case isFalse => cases hmove
    | rollback app =>
        rw [hreq, move_rollback] at hmove
        split at hmove <;> cases hmove
    | _ =>
        rw [hreq] at hmove
        cases hmove
  · rintro ⟨req, hreq, hname, hhash⟩
    rw [hreq, move_deploy, if_pos hname, hhash]
    rfl

/-- From an empty registry, the history of an app is the trail of its requests. -/
theorem serveAll_tracked (paths : Paths) (crates : Crates) {w : World}
    (happ : w.host.registry.app = ∅)
    (hhistory : w.host.registry.deployHistory = []) (xs : List Served) (name : String) :
    let r := (serveAll paths crates w xs).host.registry
    r.Sequenced ∧ r.trail name = trailAfter crates name xs ∧ r.Tracked name := by
  induction xs using List.reverseRecOn with
  | nil =>
      have hempty : w.host.registry.trail name = [] := by
        unfold trail
        rw [hhistory]
        rfl
      refine ⟨⟨?_, ?_⟩, hempty, ?_⟩
      · change List.Pairwise _ w.host.registry.deployHistory
        rw [hhistory]
        exact List.Pairwise.nil
      · change ∀ e ∈ w.host.registry.deployHistory, _
        rw [hhistory]
        exact fun e he => absurd he List.not_mem_nil
      · change w.host.registry.artifactOf name = _
        rw [show (serveAll paths crates w []).host.registry.trail name = [] from hempty,
          artifactOf, happ]
        rfl
  | append_singleton xs x ih =>
      obtain ⟨hids, htrail, htracked⟩ := ih
      obtain ⟨hmove, hnext⟩ := trail_serve paths crates x x.request
        htracked
      rw [serveAll_append]
      refine ⟨exec_sequenced _ hids, ?_, hnext⟩
      rw [trailAfter_snoc, ← htrail]
      exact hmove

/-! ## The law -/

/-- A rollback either goes back or is refused for want of a previous artifact. -/
theorem rollback_cases (paths : Paths) (crates : Crates) (x : Served)
    {w : World} {name : String} {row : AppRecord}
    (hrow : w.host.registry.app.lookup name = some row) :
    let served := serve paths crates x.oracle w (.rollback name)
    let r := w.host.registry
    let r' := served.1.world.host.registry
    (Trail.before row.artifactHash (r.trail name) = none ∧
      served.2 = .error noPrevious ∧ r' = r) ∨
    ∃ prev now, Trail.before row.artifactHash (r.trail name) = some prev ∧
      served.2 = .ok .ok ∧ r'.trail name = prev :: r.trail name ∧
      r'.app.lookup name = some
        { row with artifactHash := prev, desiredStatus := "running", updatedAt := now } ∧
      ∀ other, other ≠ name → r'.app.lookup other = r.app.lookup other := by
  intro served r r'
  have hserve := serve_rollback paths crates x hrow
  rw [← previousArtifact_eq]
  cases hprev : r.previousArtifact name row.artifactHash with
  | none =>
      simp only [show w.host.registry.previousArtifact name row.artifactHash = _ from hprev]
        at hserve
      exact Or.inl ⟨rfl, hserve⟩
  | some prev =>
      simp only [show w.host.registry.previousArtifact name row.artifactHash = _ from hprev]
        at hserve
      obtain ⟨hok, t₁, t₂, t₃, hquiet⟩ := hserve
      have htrail : r'.trail name = prev :: r.trail name := by
        refine (trail_of_quiet hquiet name).trans ?_
        exact (trail_recordDeploy _ t₂ name prev name).trans (if_pos rfl)
      have happ : r'.app = Table.modify (Table.modify r.app name _) name _ :=
        congr_of_quiet (·.app) (fun _ => rfl) hquiet
      refine Or.inr ⟨prev, t₃, rfl, hok, htrail, ?_, fun other hne => ?_⟩
      · rw [happ, Table.lookup_modify, Table.lookup_modify, hrow]
        rfl
      · rw [happ, Table.lookup_modify_ne _ _ hne, Table.lookup_modify_ne _ _ hne]

/-- Right before its latest run of `current`, an app was at `prev`. -/
def RanBefore (artifactAfter : List Served → Option String) (xs : List Served)
    (current prev : String) : Prop :=
  prev ≠ current ∧ ∃ pre rest, xs = pre ++ rest ∧ artifactAfter pre = some prev ∧
    ∀ mid tail, rest = mid ++ tail → mid ≠ [] → artifactAfter (pre ++ mid) = some current

theorem ranBefore_of_before {name current prev : String} {xs : List Served}
    (h : Trail.before current (trailAfter crates name xs) = some prev) :
    RanBefore (fun pre => (trailAfter crates name pre).head?) xs current prev := by
  obtain ⟨hne, k, rest, heq⟩ := Trail.before_eq_some_iff.1 h
  have hstep (pre : List Served) (x : Served) :
      trailAfter crates name (pre ++ [x]) = trailAfter crates name pre ∨
        ∃ a, trailAfter crates name (pre ++ [x]) = a :: trailAfter crates name pre := by
    rw [trailAfter_snoc]
    cases x.request.move crates name with
    | none => exact Or.inl rfl
    | some m => exact Trail.move_eq_or_cons _ m
  obtain ⟨pre, post, hxs, hpre, hmid⟩ :=
    Trail.exists_prefix rfl hstep ⟨List.replicate k current, heq.symm⟩
  refine ⟨hne, pre, post, hxs, congrArg List.head? hpre, fun mid tail hpost hmidne => ?_⟩
  obtain ⟨a, u, hau, v, hv⟩ := hmid mid tail hpost hmidne
  rw [hau, heq, ← List.append_assoc] at hv
  have ha : a ∈ List.replicate k current := by
    rw [← List.append_cancel_right hv]
    exact List.mem_append_right v List.mem_cons_self
  change (trailAfter crates name (pre ++ mid)).head? = some current
  rw [hau, List.eq_of_mem_replicate ha]
  rfl

/-- The rollback law: after any requests to an empty registry, a rollback of an app
succeeds if two distinct hashes have been deployed for it, and goes back to the one that
ran before; going back twice changes no artifact. -/
theorem rollback_law {w : World} (happ : w.host.registry.app = ∅)
    (hhistory : w.host.registry.deployHistory = []) (xs : List Served) {name : String}
    {row : AppRecord}
    (hrow : (serveAll paths crates w xs).host.registry.app.lookup name = some row)
    (x y : Served) :
    let run := serveAll paths crates w
    let r := (run xs).host.registry
    let once := serve paths crates x.oracle (run xs) (.rollback name)
    let r₁ := once.1.world.host.registry
    let twice := serve paths crates y.oracle once.1.world (.rollback name)
    (∃ e, r.Newest name e ∧ e.artifactHash = row.artifactHash) ∧
    (once.2 = .ok .ok ↔ ∃ a b, a ≠ b ∧ Deployed crates xs name a ∧ Deployed crates xs name b) ∧
    (once.2 ≠ .ok .ok → once.2 = .error noPrevious ∧ r₁ = r) ∧
    (once.2 = .ok .ok → ∃ prev now,
      RanBefore (fun pre => (run pre).host.registry.artifactOf name) xs row.artifactHash prev ∧
      r₁.app.lookup name = some
        { row with artifactHash := prev, desiredStatus := "running", updatedAt := now } ∧
      (∀ other, other ≠ name → r₁.app.lookup other = r.app.lookup other) ∧
      twice.2 = .ok .ok) ∧
    twice.1.world.host.registry.artifactOf name = some row.artifactHash := by
  intro run r once r₁ twice
  obtain ⟨hids, htrail, htracked⟩ :=
    serveAll_tracked paths crates happ hhistory xs name
  have hartifact : r.artifactOf name = some row.artifactHash := congrArg (Option.map _) hrow
  have hhead : (r.trail name).head? = some row.artifactHash := htracked.symm.trans hartifact
  have hdistinct : (Trail.before row.artifactHash (r.trail name)).isSome = true ↔
      ∃ a b, a ≠ b ∧ Deployed crates xs name a ∧ Deployed crates xs name b := by
    rw [Trail.before_isSome_iff_distinct hhead, htrail]
    simp only [mem_trailAfter]
    constructor
    · rintro ⟨a, ha, b, hb, hne⟩
      exact ⟨a, b, hne, ha, hb⟩
    · rintro ⟨a, b, hne, ha, hb⟩
      exact ⟨a, ha, b, hb, hne⟩
  refine ⟨htracked.inStep.newest hids hrow, ?_⟩
  rcases rollback_cases paths crates x hrow with
    ⟨hbefore, herror, hsame⟩ | ⟨prev, now, hbefore, hok, hlonger, hrow₁, hothers⟩
  · -- there is nothing to go back to, the first time and the second
    have hrefused : once.2 ≠ .ok .ok := fun hok => by
      rw [show once.2 = _ from herror] at hok
      cases hok
    refine ⟨⟨fun hok => absurd hok hrefused, fun htwo => ?_⟩, fun _ => ⟨herror, hsame⟩,
      fun hok => absurd hok hrefused, ?_⟩
    · rw [← hdistinct, hbefore] at htwo
      cases htwo
    · have hrow₁ : r₁.app.lookup name = some row := by
        rw [show r₁ = r from hsame]
        exact hrow
      have htwice : twice.1.world.host.registry = r₁ := by
        rcases rollback_cases paths crates y hrow₁ with ⟨-, -, hsame'⟩ | ⟨prev, now, hbefore', -⟩
        · exact hsame'
        · rw [show once.1.world.host.registry = r from hsame, hbefore] at hbefore'
          cases hbefore'
      rw [htwice, show r₁ = r from hsame]
      exact hartifact
  · -- the way back leads to where the app is now
    have hreturn : Trail.before prev (r₁.trail name) = some row.artifactHash := by
      rw [show r₁.trail name = _ from hlonger]
      exact Trail.before_back hhead hbefore
    have hran : RanBefore (fun pre => (run pre).host.registry.artifactOf name) xs
        row.artifactHash prev := by
      have hafter : (fun pre => (run pre).host.registry.artifactOf name) =
          fun pre => (trailAfter crates name pre).head? := by
        funext pre
        obtain ⟨-, hpre, htrackedpre⟩ :=
          serveAll_tracked paths crates happ hhistory pre name
        exact htrackedpre.trans (congrArg List.head? hpre)
      rw [hafter]
      exact ranBefore_of_before (htrail ▸ hbefore)
    rcases rollback_cases paths crates y hrow₁ with
      ⟨hnone, -⟩ | ⟨prev', now', hbefore', hok', -, hrow₂, -⟩
    · rw [show Trail.before _ (once.1.world.host.registry.trail name) = _ from hreturn] at hnone
      cases hnone
    · rw [show Trail.before _ (once.1.world.host.registry.trail name) = _ from hreturn] at hbefore'
      cases hbefore'
      refine ⟨⟨fun _ => hdistinct.1 (by rw [hbefore]; rfl), fun _ => hok⟩,
        fun hne => absurd hok hne,
        fun _ => ⟨prev, now, hran, hrow₁, hothers, hok'⟩, ?_⟩
      exact congrArg (Option.map _) hrow₂

section TwoBuilds

def buildHash (c : Char) : String :=
  (computeHashes (Crates.plainCrates [] []).blake3 none [c.toNat.toUInt8] "t").artifactHash

def buildDeploy (c : Char) : DeployRequest where
  name := "a"
  targetTriple := "t"
  binB64 := String.ofList [c]

def buildRequest (c : Char) : Served where
  request := .deploy (buildDeploy c)

/-- Two builds of one app are deployed, the second one twice. -/
def twoBuilds : List Served := [buildRequest 'a', buildRequest 'b', buildRequest 'b']

def twoBuildsWorld : World :=
  serveAll (Paths.ofRoot "/r") (Crates.plainCrates [] []) {} twoBuilds

def rollbackBuild (w : World) : Alone × Except ApiError Response :=
  serve (Paths.ofRoot "/r") (Crates.plainCrates [] []) (Served.oracle { request := .up }) w
    (.rollback "a")

theorem buildHash_ne : buildHash 'a' ≠ buildHash 'b' := by
  decide +kernel

theorem deployed_build {c : Char}
    (h : deployedHash (Crates.plainCrates [] []) (buildDeploy c) = some (buildHash c))
    (hmem : buildRequest c ∈ twoBuilds) :
    Deployed (Crates.plainCrates [] []) twoBuilds "a" (buildHash c) :=
  ⟨_, hmem, _, rfl, rfl, h⟩

theorem rollback_law_twoBuilds :
    (rollbackBuild twoBuildsWorld).2 = .ok .ok ∧
      (rollbackBuild (rollbackBuild twoBuildsWorld).1.world).1.world.host.registry.artifactOf "a" =
        some (buildHash 'b') := by
  have hrow : (twoBuildsWorld.host.registry.app.lookup "a").map (·.artifactHash) =
      some (buildHash 'b') := by
    decide +kernel
  obtain ⟨row, hlookup, hhash⟩ := Option.map_eq_some_iff.1 hrow
  obtain ⟨-, hiff, -, -, htwice⟩ := rollback_law rfl rfl twoBuilds hlookup { request := .up }
    { request := .up }
  rw [← hhash]
  refine ⟨hiff.2 ⟨buildHash 'a', buildHash 'b', buildHash_ne, ?_, ?_⟩, htwice⟩
  · exact deployed_build (by decide +kernel) List.mem_cons_self
  · exact deployed_build (by decide +kernel) (List.mem_cons_of_mem _ List.mem_cons_self)

end TwoBuilds

end Api

end Nockd
