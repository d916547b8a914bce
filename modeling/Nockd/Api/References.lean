import Nockd.Api.Discipline
import Nockd.Registry.History

/-!
# Which handlers write artifact references

Only deploys and rollbacks write the artifact of an app or its history. Either has
seen a row of the artifact table for the hash before, and once it has set the
artifact of an app it still has that deploy to record.
-/

namespace Nockd

namespace Api

open Config Interleaving Registry Store Supervisor

/-- The call writes an artifact hash into the row or the history of an app. -/
def Call.links : Call → Bool
  | .write (.upsertApp _) => true
  | .write (.setAppArtifact _ _) => true
  | .write (.recordDeploy _ _) => true
  | _ => false

/-- The request writes the artifact of an app. -/
def Request.links : Request → Bool
  | .deploy _ => true
  | .rollback _ => true
  | _ => false

/-- The hashes that a call must know to have an artifact row. -/
def Call.needs : Call → Set String
  | .write (.upsertApp u) => {u.artifactHash}
  | .write (.setAppArtifact _ hash) => {hash}
  | .write (.recordDeploy _ hash) => {hash}
  | _ => ∅

/-- The hashes that are known to have an artifact row after a call. -/
def Call.shows : ∀ op : Call, op.Reply → Set String
  | .write (.putArtifact rec _), _ => {rec.artifactHash}
  | .previousArtifact _ _, prev => {hash | prev = some hash}
  | _, _ => ∅

/-- What is needed has to be known first. -/
theorem uses_of_needs {op : Call} {hash : String} (h : hash ∈ op.needs) : .hash hash ∈ op.uses := by
  cases op with
  | write st => cases st <;> first | exact h.elim | (cases h; simp [Call.uses])
  | _ => exact h.elim

variable {paths : Paths} {crates : Crates} {α : Type}

/-! ## The other handlers -/

abbrev Unlinked (p : Proc α) : Prop := p.Only fun op => op.links = false

theorem unlinked_must {c : Call} {f : c.Reply → Proc α} (hc : c.links = false)
    (h : ∀ r, Unlinked (f r)) : Unlinked (must c >>= f) :=
  ⟨hc, h, fun _ => trivial⟩

theorem unlinked_last {c : Call} (hc : c.links = false) : Unlinked (must c) :=
  ⟨hc, fun _ => trivial, fun _ => trivial⟩

theorem unlinked_reconcile : Unlinked reconcile := by
  refine unlinked_must (c := .isShuttingDown) rfl fun b => ?_
  cases b with
  | true => trivial
  | false => exact ⟨rfl, fun apps => unlinked_last (c := .lockedSection apps) rfl, fun _ => trivial⟩

theorem unlinked_tail {r : Response} : Unlinked (reconcile >>= fun _ => pure r) :=
  unlinked_reconcile.bind fun _ => trivial

theorem unlinked_appOr404 {name : String} {f : AppRow → Proc α} (h : ∀ app, Unlinked (f app)) :
    Unlinked (appOr404 name >>= f) := by
  refine Program.Only.bind ?_ h
  refine unlinked_must (c := .getApp name) rfl fun app => ?_
  cases app <;> trivial

theorem unlinked_reload (name : String) : Unlinked (reload crates name) := by
  unfold reload
  refine unlinked_appOr404 fun app => ?_
  cases app.manifestPath with
  | none => trivial
  | some path =>
      refine unlinked_must rfl fun files => ?_
      cases loadManifest crates files path with
      | error e => trivial
      | ok manifest =>
          refine unlinked_must rfl fun files' => ?_
          cases manifestIcon crates files' path manifest.icon with
          | error e => trivial
          | ok icon =>
              refine unlinked_must rfl fun _ => unlinked_must rfl fun _ => ?_
              exact unlinked_must rfl fun _ => unlinked_must rfl fun _ => unlinked_tail

theorem unlinked_fleetSet (status : String) : Unlinked (fleetSet status) :=
  unlinked_must rfl fun _ =>
    (Program.Only.forEach fun _ => unlinked_last rfl).bind fun _ => unlinked_tail

theorem unlinked_healthTick : Unlinked healthTick := by
  refine ⟨rfl, fun apps => ?_, fun _ => trivial⟩
  refine (Program.Only.forEach fun app => ?_).bind fun _ => trivial
  cases app.adminAddr with
  | none => trivial
  | some addr => exact unlinked_must rfl fun _ => unlinked_last rfl

theorem unlinked_statusTick : Unlinked statusTick := by
  refine ⟨rfl, fun apps => ?_, fun _ => trivial⟩
  refine (Program.Only.forEach fun app => ?_).bind fun _ => trivial
  cases app.statusCmd with
  | none => trivial
  | some cmd =>
      refine unlinked_must rfl fun running => ?_
      cases running with
      | true => exact unlinked_must rfl fun _ => unlinked_last rfl
      | false => trivial

theorem unlinked_livePids (apps : List AppRow) : Unlinked (livePids apps) := by
  induction apps with
  | nil => trivial
  | cons app apps ih => exact unlinked_must rfl fun _ => ih.bind fun _ => trivial

theorem unlinked_sampleTick : Unlinked sampleTick := by
  refine ⟨rfl, fun apps => ?_, fun _ => trivial⟩
  refine (unlinked_livePids apps).bind fun live => unlinked_must rfl fun samples => ?_
  refine (Program.Only.forEach fun x => ?_).bind fun _ => trivial
  obtain ⟨name, pid⟩ := x
  cases hsample : samples pid with
  | none =>
      simp only [hsample]
      exact unlinked_last rfl
  | some s =>
      simp only [hsample]
      exact unlinked_last rfl

/-- Only deploys and rollbacks write artifact references. -/
theorem handler_unlinked {r : Request} (h : r.links = false) :
    Unlinked (r.handler paths crates) := by
  cases r with
  | deploy req => cases h
  | rollback name => cases h
  | restart name =>
      refine unlinked_appOr404 fun _ => unlinked_must rfl fun _ => unlinked_must rfl fun _ => ?_
      exact unlinked_must rfl fun _ => unlinked_tail
  | reload name => exact unlinked_reload name
  | stop name => exact unlinked_appOr404 fun _ => unlinked_must rfl fun _ => unlinked_tail
  | start name => exact unlinked_appOr404 fun _ => unlinked_must rfl fun _ => unlinked_tail
  | down => exact unlinked_fleetSet "stopped"
  | up => exact unlinked_fleetSet "running"
  | reconcileTick => exact unlinked_tail
  | healthTick => exact unlinked_healthTick
  | statusTick => exact unlinked_statusTick
  | sampleTick => exact unlinked_sampleTick
  | _ => exact unlinked_must rfl fun _ => trivial

/-! ## References have a row -/

abbrev Grounded (known : Set String) (p : Proc α) : Prop :=
  p.Obeys Call.needs Call.shows known

theorem grounded_of_unlinked {p : Proc α} (h : Unlinked p) {known : Set String} :
    Grounded known p := by
  refine h.obeys fun op hop => ?_
  cases op with
  | write st => cases st <;> first | rfl | cases hop
  | _ => rfl

theorem grounded_must {c : Call} {f : c.Reply → Proc α} {known : Set String}
    (hneeds : c.needs ⊆ known) (h : ∀ r, Grounded (known ∪ c.shows r) (f r)) :
    Grounded known (must c >>= f) :=
  ⟨hneeds, h, fun _ => trivial⟩

theorem grounded_deploy (req : DeployRequest) : Grounded ∅ (deploy paths crates req) := by
  unfold deploy
  cases decodeBundle crates req with
  | error e => trivial
  | ok bundle =>
      refine grounded_must (Set.empty_subset _) fun record => ?_
      refine grounded_must (Set.empty_subset _) fun _ => ?_
      refine grounded_must (Set.empty_subset _) fun isTrusted => ?_
      refine grounded_must (Set.empty_subset _) fun _ => ?_
      unfold deployApp
      cases checkIcon crates req.icon with
      | error m => trivial
      | ok _ =>
          refine grounded_must (by simp [Call.needs, Call.shows, upsertOf]) fun _ => ?_
          refine grounded_must (by simp [Call.needs, Call.shows]) fun _ => ?_
          refine grounded_must (Set.empty_subset _) fun _ => ?_
          exact grounded_must (Set.empty_subset _) fun _ => grounded_of_unlinked unlinked_tail

theorem grounded_rollback (name : String) : Grounded ∅ (rollback name) := by
  unfold rollback
  refine Program.Obeys.bind (grounded_of_unlinked ?_) fun app => ?_
  · refine unlinked_must (c := .getApp name) rfl fun app => ?_
    cases app <;> trivial
  refine grounded_must (Set.empty_subset _) fun prev => ?_
  cases prev with
  | none => trivial
  | some prev =>
      refine grounded_must (by simp [Call.needs, Call.shows]) fun _ => ?_
      refine grounded_must (by simp [Call.needs, Call.shows]) fun _ => ?_
      refine grounded_must (Set.empty_subset _) fun _ => ?_
      refine grounded_must (Set.empty_subset _) fun _ => ?_
      exact grounded_must (Set.empty_subset _) fun _ => grounded_of_unlinked unlinked_tail

/-- A handler writes only hashes that it has seen an artifact row for. -/
theorem handler_grounded (r : Request) : Grounded ∅ (r.handler paths crates) := by
  by_cases hlinks : r.links = false
  · exact grounded_of_unlinked (handler_unlinked hlinks)
  · cases r with
    | deploy req => exact grounded_deploy req
    | rollback name => exact grounded_rollback name
    | _ => exact absurd rfl hlinks

/-! ## An artifact is recorded once it is set -/

/-- The call writes the artifact of the app. -/
def Call.assigns (name : String) : Call → Prop
  | .write st => st.assigns name = true
  | _ => False

/-- The artifact of the app that the call records. -/
def Call.records (name : String) : Call → Option String
  | .write st => st.records name
  | _ => none

/-- An artifact is recorded right after it is set. -/
abbrev RecordsNext (p : Proc α) : Prop :=
  p.Paired Call.assigns fun name op => (op.records name).isSome = true

theorem not_assigns_of_links {name : String} {op : Call} (h : op.links = false) :
    ¬ op.assigns name := by
  cases op with
  | write st => cases st <;> first | exact Bool.false_ne_true | cases h
  | _ => exact id

theorem records_recordDeploy (name hash : String) :
    (Call.records name (.write (.recordDeploy name hash))).isSome = true := by
  simp [Call.records, Statement.records]

theorem recordsNext_of_unlinked {p : Proc α} (h : Unlinked p) : RecordsNext p :=
  h.paired fun _ _ => not_assigns_of_links

theorem recordsNext_must {c : Call} {f : c.Reply → Proc α} (hc : ∀ name, ¬ c.assigns name)
    (h : ∀ r, RecordsNext (f r)) : RecordsNext (must c >>= f) :=
  ⟨fun r => ⟨fun name hname => absurd hname (hc name), h r⟩, fun _ => trivial⟩

/-- A handler that sets the artifact of an app records it next. -/
theorem handler_recordsNext (r : Request) : RecordsNext (r.handler paths crates) := by
  by_cases hlinks : r.links = false
  · exact recordsNext_of_unlinked (handler_unlinked hlinks)
  · cases r with
    | deploy req =>
        simp only [Request.handler]
        unfold deploy
        cases decodeBundle crates req with
        | error e => trivial
        | ok bundle =>
            refine recordsNext_must (fun _ => id) fun record => ?_
            refine recordsNext_must (fun _ => Bool.false_ne_true) fun _ => ?_
            refine recordsNext_must (fun _ => id) fun isTrusted => ?_
            refine recordsNext_must (fun _ => Bool.false_ne_true) fun _ => ?_
            unfold deployApp
            cases checkIcon crates req.icon with
            | error m => trivial
            | ok _ =>
                refine ⟨fun _ => ⟨fun name hname => ?_, ?_⟩, fun _ => trivial⟩
                · obtain rfl : req.name = name := of_decide_eq_true hname
                  exact records_recordDeploy _ _
                · refine recordsNext_must (fun _ => Bool.false_ne_true) fun _ => ?_
                  refine recordsNext_must (fun _ => Bool.false_ne_true) fun _ => ?_
                  exact recordsNext_must (fun _ => id) fun _ =>
                    recordsNext_of_unlinked unlinked_tail
    | rollback name =>
        simp only [Request.handler]
        unfold rollback
        have hread : Unlinked (appOr404 name) := by
          refine unlinked_must (c := .getApp name) rfl fun app => ?_
          cases app <;> trivial
        refine hread.paired_bind (fun _ _ => not_assigns_of_links) fun app => ?_
        refine recordsNext_must (fun _ => id) fun prev => ?_
        cases prev with
        | none => trivial
        | some prev =>
            refine ⟨fun _ => ⟨fun other hname => ?_, ?_⟩, fun _ => trivial⟩
            · obtain rfl : name = other := of_decide_eq_true hname
              exact records_recordDeploy _ _
            · refine recordsNext_must (fun _ => Bool.false_ne_true) fun _ => ?_
              refine recordsNext_must (fun _ => Bool.false_ne_true) fun _ => ?_
              refine recordsNext_must (fun _ => id) fun _ => ?_
              exact recordsNext_must (fun _ => Bool.false_ne_true) fun _ =>
                recordsNext_of_unlinked unlinked_tail
    | _ => exact absurd rfl hlinks

end Api

end Nockd
