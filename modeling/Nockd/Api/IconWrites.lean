import Nockd.Api.Failure
import Nockd.Api.Icons
import Nockd.Config.IconFiles

/-!
# What handlers make of an app's icon

Two statements write the icon of an app. A deploy that succeeds has issued one of them with
the icon of its request, and a reload the other one with the icon that it has resolved.
-/

namespace Nockd

namespace Registry

/-- The icon and the manifest path in the row of an app, if it has a row. -/
def iconEntry (name : String) (r : Registry) : Option (Option String × Option String) :=
  (r.app.lookup name).map fun row => (row.icon, row.manifestPath)

/-- What a statement makes of them. -/
def Statement.iconEntry (name : String) (entry : Option (Option String × Option String)) :
    Statement → Option (Option String × Option String)
  | .upsertApp u => if u.name = name then some (u.icon, u.manifestPath) else entry
  | .updateAppConfig app c => if app = name then entry.map fun x => (c.icon, x.2) else entry
  | _ => entry

/-- The statement writes the icon of the app. -/
def Statement.setsIcon (name : String) : Statement → Bool
  | .upsertApp u => u.name = name
  | .updateAppConfig app _ => app = name
  | _ => false

variable {r r' : Registry} {name : String}

/-- The entry is what the readers see. -/
theorem iconEntry_eq (r : Registry) (name : String) :
    r.iconEntry name = (r.getApp name).map fun app => (app.icon, app.manifestPath) := by
  unfold iconEntry getApp
  rw [Option.map_map]
  rfl

theorem iconEntry_of_quiet (h : r'.quiet = r.quiet) : r'.iconEntry name = r.iconEntry name :=
  congr_of_quiet (·.iconEntry name) (fun _ => rfl) h

theorem iconEntry_modify (app : String) (f : AppRecord → AppRecord) :
    iconEntry name { r with app := Table.modify r.app app f } =
      if app = name then (r.app.lookup name).map fun row => ((f row).icon, (f row).manifestPath)
      else r.iconEntry name := by
  unfold iconEntry
  by_cases hname : app = name
  · subst hname
    rw [if_pos rfl, Table.lookup_modify, Option.map_map]
    rfl
  · rw [if_neg hname, Table.lookup_modify_ne _ _ (Ne.symm hname)]

theorem iconEntry_exec (st : Statement) (now : ℤ) :
    (st.exec now r).iconEntry name = st.iconEntry name (r.iconEntry name) := by
  cases st with
  | upsertApp u =>
      dsimp only [Statement.iconEntry, Statement.exec]
      unfold iconEntry
      by_cases hname : u.name = name
      · subst hname
        have hself : (r.upsertApp now u).app.lookup u.name = some _ := AList.lookup_insert _
        rw [if_pos rfl, hself]
        rfl
      · have hother : (r.upsertApp now u).app.lookup name = r.app.lookup name :=
          AList.lookup_insert_ne (Ne.symm hname)
        rw [if_neg hname, hother]
  | updateAppConfig app c =>
      refine (iconEntry_modify app _).trans ?_
      dsimp only [Statement.iconEntry]
      unfold iconEntry
      rw [Option.map_map]
      rfl
  | setAppArtifact app hash =>
      refine (iconEntry_modify app _).trans ?_
      split <;> rfl
  | setDesired app status =>
      refine (iconEntry_modify app _).trans ?_
      split <;> rfl
  | addTrustedBuilder pubkey =>
      simp only [Statement.exec, addTrustedBuilder]
      split <;> rfl
  | _ => rfl

theorem Statement.iconEntry_of_not_sets {st : Statement} (h : st.setsIcon name = false)
    (entry : Option (Option String × Option String)) : st.iconEntry name entry = entry := by
  cases st with
  | upsertApp u => exact if_neg (of_decide_eq_false h)
  | updateAppConfig app c => exact if_neg (of_decide_eq_false h)
  | _ => rfl

end Registry

namespace Api

open Config Interleaving Registry Store Supervisor

/-- Once these statements have been executed, `uri` is the icon of the app. -/
def Leaves (name uri : String) (r : Registry) (l : List Statement) : Prop :=
  ∃ path, l.foldl (fun entry st => st.iconEntry name entry) (r.iconEntry name) =
    some (some uri, path)

/-- A put answers with the hashes of its bundle, and the files that are found meet `P`. -/
def Finding (crates : Crates) (P : (List Char → Option Bytes) → Prop) : ∀ op : Call, op.Reply → Prop
  | .files, files => P files
  | .put jam bin targetTriple, record =>
      PutReply crates (.put jam bin targetTriple) record
  | _, _ => True

/-- If the thread succeeds, it leaves the app with the icon `uri`. -/
abbrev Stores (crates : Crates) (P : (List Char → Option Bytes) → Prop) (name uri : String)
    (r : Registry) (t : Thread) : Prop :=
  t.Issues Call.statement (Finding crates P) (Leaves name uri r)

variable {paths : Paths} {crates : Crates} {P : (List Char → Option Bytes) → Prop}
  {name uri : String} {r r' : Registry} {t : Thread} {env : Env} {w : World} {op : Call}

theorem PutReply.of_finding {op : Call} (r : op.Reply) (h : Finding crates P op r) :
    PutReply crates op r := by
  cases op with
  | put jam bin targetTriple => exact h
  | _ => trivial

theorem Leaves.congr {l : List Statement} (h : Leaves name uri r l)
    (hentry : r'.iconEntry name = r.iconEntry name) : Leaves name uri r' l := by
  unfold Leaves at h ⊢
  rwa [hentry]

theorem Stores.congr (h : Stores crates P name uri r t)
    (hentry : r'.iconEntry name = r.iconEntry name) : Stores crates P name uri r' t :=
  h.mono fun _ hl => hl.congr hentry

/-! ## One call -/

theorem perform_iconEntry :
    (perform paths crates env w op).1.host.registry.iconEntry name =
      op.statement.toList.foldl (fun entry st => st.iconEntry name entry)
        (w.host.registry.iconEntry name) := by
  cases hst : op.statement with
  | none => exact iconEntry_of_quiet (perform_quiet paths crates env w hst)
  | some st =>
      cases op with
      | write st' =>
          cases hst
          exact iconEntry_exec st env.now
      | _ => cases hst

theorem perform_finding (hfiles : op = .files → P env.files) :
    Finding crates P op (perform paths crates env w op).2 := by
  cases op with
  | files => exact hfiles rfl
  | put jam bin targetTriple => exact rfl
  | _ => trivial

/-- The thread has made its call, which has succeeded. -/
theorem Stores.ok {next : Except String op.Reply → Thread}
    (h : Stores crates P name uri w.host.registry (.call op next))
    (hfiles : op = .files → P env.files) :
    Stores crates P name uri (perform paths crates env w op).1.host.registry
      (next (.ok (perform paths crates env w op).2)) := by
  refine (h.1 _ (perform_finding hfiles)).mono fun l hl => ?_
  unfold Leaves at hl ⊢
  rwa [List.foldl_append, ← perform_iconEntry] at hl

/-! ## The two handlers -/

theorem leaves_deploy {req : DeployRequest} (hicon : req.icon = some uri) (jam : Option Bytes)
    (bin : Bytes) (isTrusted : String → Bool) :
    Leaves req.name uri r (deployStatements paths crates req jam bin isTrusted) := by
  refine ⟨req.manifestPath, ?_⟩
  simp [deployStatements, Statement.iconEntry, upsertOf, hicon]

/-- A thread that has given up will not succeed. -/
theorem stores_throw (e : ApiError) : Stores crates P name uri r (.throw e) :=
  let req : DeployRequest := { name, targetTriple := "", binB64 := "", icon := some uri }
  ⟨_, @leaves_deploy (Paths.ofRoot "/") crates uri r req rfl none [] fun _ => false⟩

theorem stores_must {c : Call} {f : c.Reply → Thread} (hop : c.statement = none)
    (h : ∀ x, Finding crates P c x → Stores crates P name uri r (f x)) :
    Stores crates P name uri r (must c >>= f) :=
  ⟨fun x hx => (h x hx).mono fun _ hl => by rw [hop]; exact hl, fun _ => stores_throw _⟩

theorem deploy_stores {req : DeployRequest} (hicon : req.icon = some uri) :
    Stores crates P req.name uri r (deploy paths crates req) := by
  cases hbundle : decodeBundle crates req with
  | error e =>
      unfold deploy
      rw [hbundle]
      exact stores_throw _
  | ok bundle =>
      refine ((deploy_follows hbundle).of_allowed fun _ => PutReply.of_finding).mono ?_
      rintro l ⟨isTrusted, rfl⟩
      exact leaves_deploy hicon _ _ _

/-- A reload that has found the path of the manifest, and that finds files out of which comes
this icon. -/
theorem reloadFrom_stores {path : String} {d : DeploySection}
    (hentry : r.iconEntry name ≠ none) (hfinds : ∀ files, P files →
      loadManifest crates files path = .ok d ∧
        manifestIcon crates files path d.icon = .ok (some uri)) :
    Stores crates P name uri r (reloadFrom crates name path) := by
  have hleaves : Leaves name uri r (reloadStatements name (configOf d (some uri))) := by
    obtain ⟨⟨icon, manifestPath⟩, hsome⟩ := Option.ne_none_iff_exists'.1 hentry
    refine ⟨manifestPath, ?_⟩
    simp [reloadStatements, Statement.iconEntry, configOf, hsome]
  unfold reloadFrom
  refine stores_must rfl fun files hfiles => ?_
  simp only [(hfinds files hfiles).1]
  refine stores_must rfl fun files' hfiles' => ?_
  simp only [(hfinds files' hfiles').2]
  refine (follows_reload.of_allowed fun _ => PutReply.of_finding).mono ?_
  rintro l rfl
  exact hleaves

end Api

end Nockd
