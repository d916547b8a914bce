import Nockd.Plane.Refines

/-!
# Apps do not reach each other

What becomes of an app depends on the requests about it and on those about the whole fleet,
and so do the answers to the requests about it. Whatever is asked for other apps, for
trusted builders and for endpoints can be left out of a run.
-/

namespace Nockd

namespace Api

/-- The app that a request is about. -/
def Request.about : Request → Option String
  | .deploy req => some req.name
  | .restart name => some name
  | .reload name => some name
  | .rollback name => some name
  | .stop name => some name
  | .start name => some name
  | _ => none

/-- The request is about this app or about all apps. -/
def Request.reaches (name : String) : Request → Bool
  | .down => true
  | .up => true
  | r => r.about = some name

theorem Request.reaches_iff {name : String} {r : Request} :
    r.reaches name = true ↔ r.about = some name ∨ r = .down ∨ r = .up := by
  cases r <;> simp [Request.reaches, Request.about]

theorem Request.reaches_of_about {name : String} {r : Request} (h : r.about = some name) :
    r.reaches name = true := Request.reaches_iff.2 (Or.inl h)

end Api

namespace Plane

open Api Config Interleaving Registry Store

variable {P P' : Plane} {name other : String}

/-! ## One move -/

theorem apps_put_self (P : Plane) (name : String) (a : App) :
    (P.put name a).apps name = some a := Function.update_self _ _ _

theorem apps_put_ne (P : Plane) (a : App) (h : name ≠ other) :
    (P.put other a).apps name = P.apps name := Function.update_of_ne h _ _

theorem apps_setWanted_ne (P : Plane) (status : String) (h : name ≠ other) :
    (P.setWanted other status).apps name = P.apps name := by
  rw [apps_setWanted, if_neg h]

/-- A request about another app leaves this one, if its moves do. -/
theorem apps_onApp_ne {f : App → Plane × Except ApiError Response}
    (h : ∀ a, (f a).1.apps name = P.apps name) : (P.onApp other f).1.apps name = P.apps name := by
  unfold onApp
  split
  · exact h _
  · rfl

variable {paths : Paths} {crates : Crates}

theorem apps_serveReload_ne (P : Plane) (x : Served) (a : App) (h : name ≠ other) :
    (P.serveReload crates x other a).1.apps name = P.apps name := by
  unfold serveReload
  split
  · rfl
  · split
    · rfl
    · exact apps_put_ne _ _ h

theorem apps_serveDeploy_ne (P : Plane) (req : DeployRequest) (h : name ≠ req.name) :
    (P.serveDeploy paths crates req).1.apps name = P.apps name := by
  unfold serveDeploy
  split
  · rfl
  · simp only
    split
    · rfl
    · exact apps_put_ne _ _ h

/-- A request that does not reach an app leaves it as it is. -/
theorem apps_serve_of_not_reaches (P : Plane) (x : Served) (h : x.request.reaches name = false) :
    (P.serve paths crates x).1.apps name = P.apps name := by
  have hne {app : String} (habout : x.request.about = some app) : name ≠ app := by
    rintro rfl
    rw [Request.reaches_of_about habout] at h
    cases h
  unfold serve
  cases hrequest : x.request with
  | deploy req => exact apps_serveDeploy_ne P req (hne (by rw [hrequest]; rfl))
  | restart app =>
      exact apps_onApp_ne fun _ => apps_setWanted_ne P _ (hne (by rw [hrequest]; rfl))
  | reload app =>
      exact apps_onApp_ne fun a => apps_serveReload_ne P x a (hne (by rw [hrequest]; rfl))
  | rollback app =>
      refine apps_onApp_ne fun a => ?_
      split
      · rfl
      · exact apps_put_ne P _ (hne (by rw [hrequest]; rfl))
  | stop app =>
      exact apps_onApp_ne fun _ => apps_setWanted_ne P _ (hne (by rw [hrequest]; rfl))
  | start app =>
      exact apps_onApp_ne fun _ => apps_setWanted_ne P _ (hne (by rw [hrequest]; rfl))
  | down =>
      rw [hrequest] at h
      cases h
  | up =>
      rw [hrequest] at h
      cases h
  | _ => rfl

/-! ## What a move of an app depends on -/

/-- What the move makes of the app, and its answer, depend on the app only. -/
def Local (name : String) (f : Plane → Plane × Except ApiError Response) : Prop :=
  ∀ P P' : Plane, P.apps name = P'.apps name →
    (f P).1.apps name = (f P').1.apps name ∧ (f P).2 = (f P').2

theorem local_refused (name : String) (r : Except ApiError Response) :
    Local name fun P => (P, r) :=
  fun _ _ h => ⟨h, rfl⟩

theorem local_put (name : String) (a : App) (r : Except ApiError Response) :
    Local name fun P => (P.put name a, r) :=
  fun P P' _ => ⟨(apps_put_self P name a).trans (apps_put_self P' name a).symm, rfl⟩

theorem local_setWanted (name status : String) (r : Except ApiError Response) :
    Local name fun P => (P.setWanted name status, r) := by
  refine fun P P' h => ⟨?_, rfl⟩
  rw [apps_setWanted, apps_setWanted, h]

theorem local_onApp {f : Plane → App → Plane × Except ApiError Response}
    (h : ∀ a, Local name fun P => f P a) : Local name fun P => P.onApp name (f P) := by
  intro P P' happ
  simp only [onApp, happ]
  split
  · exact h _ P P' happ
  · exact ⟨happ, rfl⟩

theorem local_serveReload (x : Served) (name : String) (a : App) :
    Local name fun P => P.serveReload crates x name a := by
  unfold serveReload
  split
  · exact local_refused name _
  · split
    · exact local_refused name _
    · exact local_put name _ _

theorem local_serveDeploy (req : DeployRequest) :
    Local req.name fun P => P.serveDeploy paths crates req := by
  unfold serveDeploy
  split
  · exact local_refused _ _
  · simp only
    split
    · exact fun P P' h => ⟨h, rfl⟩
    · refine fun P P' h => ⟨?_, rfl⟩
      refine (apps_put_self _ _ _).trans (Eq.trans ?_ (apps_put_self _ _ _).symm)
      change some (App.mk _ _ _ ((P.apps req.name).elim [] App.trail)) =
        some (App.mk _ _ _ ((P'.apps req.name).elim [] App.trail))
      rw [h]

theorem local_serve (x : Served) (h : x.request.about = some name) :
    Local name fun P => P.serve paths crates x := by
  unfold serve
  cases hrequest : x.request with
  | deploy req =>
      rw [hrequest] at h
      obtain rfl := Option.some.inj h
      exact local_serveDeploy req
  | restart app =>
      rw [hrequest] at h
      obtain rfl := Option.some.inj h
      exact local_onApp fun _ => local_setWanted _ _ _
  | reload app =>
      rw [hrequest] at h
      obtain rfl := Option.some.inj h
      exact local_onApp fun a => local_serveReload x _ a
  | rollback app =>
      rw [hrequest] at h
      obtain rfl := Option.some.inj h
      refine local_onApp fun a => ?_
      split
      · exact local_refused _ _
      · exact local_put _ _ _
  | stop app =>
      rw [hrequest] at h
      obtain rfl := Option.some.inj h
      exact local_onApp fun _ => local_setWanted _ _ _
  | start app =>
      rw [hrequest] at h
      obtain rfl := Option.some.inj h
      exact local_onApp fun _ => local_setWanted _ _ _
  | _ =>
      rw [hrequest] at h
      cases h

/-- A request that reaches an app makes of it what depends on it only. -/
theorem apps_serve_of_reaches (x : Served) (h : x.request.reaches name = true)
    (happ : P.apps name = P'.apps name) :
    (P.serve paths crates x).1.apps name = (P'.serve paths crates x).1.apps name := by
  rcases Request.reaches_iff.1 h with habout | hdown | hup
  · exact (local_serve x habout P P' happ).1
  · unfold serve
    rw [hdown]
    exact congrArg (Option.map _) happ
  · unfold serve
    rw [hup]
    exact congrArg (Option.map _) happ

/-! ## Runs -/

/-- An app and the answers to the requests about it are those of a run of the requests that
reach it. -/
theorem serveAll_purge (paths : Paths) (crates : Crates) (P : Plane) (xs : List Served)
    (name : String) :
    let run := P.serveAll paths crates xs
    let purged := P.serveAll paths crates (xs.filter fun x => x.request.reaches name)
    let hears := fun x : Served => decide (x.request.about = some name)
    run.1.apps name = purged.1.apps name ∧ heard hears run.2 = heard hears purged.2 := by
  let V := fun P : Plane => P.apps name
  have hkept (P : Plane) (x : Served) (h : x.request.reaches name = false) :
      V (P.serve paths crates x).1 = V P := apps_serve_of_not_reaches P x h
  exact respond_purge (fun _ h => Request.reaches_of_about (of_decide_eq_true h)) hkept
    (fun P P' x h happ => apps_serve_of_reaches x h happ)
    (fun P P' x h happ => (local_serve x (of_decide_eq_true h) P P' happ).2) rfl xs

end Plane

namespace Api

open Config Interleaving Plane Registry Store Supervisor

/-- Requests that do not reach an app can be left out of what is served: the app's row, its
trail and the answers to the requests about it are the same without them. -/
theorem answerAll_purge (paths : Paths) (crates : Crates) {w : World}
    (h : ∀ name, w.host.registry.Tracked name) (xs : List Served) (name : String) :
    let run := answerAll paths crates w xs
    let purged := answerAll paths crates w (xs.filter fun x => x.request.reaches name)
    let hears := fun x : Served => decide (x.request.about = some name)
    run.1.host.registry.plane.apps name = purged.1.host.registry.plane.apps name ∧
      heard hears run.2 = heard hears purged.2 := by
  intro run purged hears
  have hrun := Prod.ext_iff.1 (answerAll_refines paths crates h xs)
  have hpurged := Prod.ext_iff.1
    (answerAll_refines paths crates h (xs.filter fun x => x.request.reaches name))
  obtain ⟨happ, hheard⟩ := serveAll_purge paths crates w.host.registry.plane xs name
  rw [← hrun.1, ← hpurged.1] at happ
  rw [← hrun.2, ← hpurged.2] at hheard
  exact ⟨happ, hheard⟩

/-- Around the builds of `a`, the app `b` is deployed, stopped and started, a builder is trusted
and the fleet is taken down. -/
def aroundBuilds : List Served :=
  [{ request := .deploy { name := "b", targetTriple := "t", binB64 := "c" } },
      { request := .stop "b" }] ++
    twoBuilds ++ [{ request := .start "b" }, { request := .trustAdd "k" }, { request := .down }]

theorem answerAll_purge_aroundBuilds :
    let serve := answerAll (Paths.ofRoot "/r") (Crates.plainCrates [] []) {}
    let purged := twoBuilds ++ [{ request := .down }]
    (serve aroundBuilds).1.host.registry.plane.apps "a" =
        (serve purged).1.host.registry.plane.apps "a" ∧
      ((serve aroundBuilds).1.host.registry.app.lookup "b").isSome = true ∧
      ((serve purged).1.host.registry.app.lookup "b").isSome = false :=
  ⟨(answerAll_purge (w := {}) _ _ (fun _ => rfl) aroundBuilds "a").1, by decide +kernel,
    by decide +kernel⟩

end Api

end Nockd
