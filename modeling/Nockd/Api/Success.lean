import Nockd.Api.Failure

/-!
# What a request that succeeds has done

Whatever the outside answers, a handler that returns has had every call that it cannot do
without. What it has read and the statements it has issued are read off its program.
-/

namespace Nockd

namespace Api

open Config Interleaving Registry Store Supervisor

variable {paths : Paths} {crates : Crates} {o : Oracle} {s s' : Alone} {w : World} {α : Type}

/-- One call has been made in `s` and has succeeded. -/
structure Made (paths : Paths) (crates : Crates) (o : Oracle) (s : Alone) (c : Call)
    (s' : Alone) : Prop where
  world : s'.world = (perform paths crates (o.env s.calls) s.world c).1
  calls : s'.calls = s.calls + 1
  done : s'.done = s.done ++ c.statement.toList.map fun st => ((o.env s.calls).now, st)

theorem answer_calls (o : Oracle) (s : Alone) (op : Call) :
    (o.answer paths crates s op).1.calls = s.calls + 1 := by
  unfold Oracle.answer
  split <;> rfl

/-- A program that returns has had the call it begins with. -/
theorem exec_must_ok {c : Call} {f : c.Reply → Proc α} {x : α}
    (h : ((must c >>= f).exec (o.answer paths crates) s).2 = .ok x) :
    ∃ s', Made paths crates o s c s' ∧
      (must c >>= f).exec (o.answer paths crates) s =
        (f (perform paths crates (o.env s.calls) s.world c).2).exec (o.answer paths crates) s' := by
  cases hr : (o.answer paths crates s c).2 with
  | error m =>
      rw [Program.exec_attempt_error f hr] at h
      cases h
  | ok r =>
      obtain ⟨rfl, hworld, hdone⟩ := answer_ok hr
      exact ⟨(o.answer paths crates s c).1, ⟨hworld, answer_calls o s c, hdone⟩,
        Program.exec_attempt_ok f hr⟩

/-- The statements that have succeeded. -/
def Alone.issued (s : Alone) : List Statement := s.done.map Prod.snd

theorem Made.issued {c : Call} (h : Made paths crates o s c s') :
    s'.issued = s.issued ++ c.statement.toList := by
  simp [Alone.issued, h.done]

/-- A handler that returns has issued what is left of its statements. -/
theorem follows_ok {p : Thread} {l : List Statement} (hp : Follows crates p l) {x : Response}
    (h : (p.exec (o.answer paths crates) s).2 = .ok x) :
    (p.exec (o.answer paths crates) s).1.issued = s.issued ++ l := by
  have hreply (s : Alone) (op : Call) (r : op.Reply)
      (hr : (o.answer paths crates s op).2 = .ok r) : PutReply crates op r := by
    cases op with
    | put jam bin targetTriple => exact (answer_ok hr).1
    | _ => trivial
  obtain ⟨done, hissued, rfl⟩ := hp.exec_ok (T := Alone.issued) hreply
    (fun s op r hr => by simp [Alone.issued, (answer_ok hr).2.2])
    (fun s op m hr => by rw [Alone.issued, (answer_error hr).2.2.2, Alone.issued]) h
  exact hissued

theorem exec_appOr404_ok {name : String} {f : AppRow → Proc α} {x : α}
    (h : ((appOr404 name >>= f).exec (o.answer paths crates) s).2 = .ok x) :
    ∃ s' app, Made paths crates o s (.getApp name) s' ∧
      s.world.host.registry.getApp name = some app ∧
      (appOr404 name >>= f).exec (o.answer paths crates) s =
        (f app).exec (o.answer paths crates) s' := by
  unfold appOr404 at h ⊢
  rw [Program.bind_assoc] at h ⊢
  obtain ⟨s', hmade, hexec⟩ := exec_must_ok h
  rw [hexec] at h ⊢
  cases hreply : (perform paths crates (o.env s.calls) s.world (.getApp name)).2 with
  | none =>
      rw [hreply] at h
      cases h
  | some app =>
      refine ⟨s', app, hmade, ?_, rfl⟩
      change (if (o.env s.calls).queryErr then none
        else s.world.host.registry.getApp name) = some app at hreply
      split at hreply
      case isTrue => cases hreply
      case isFalse => exact hreply

/-- A reload that succeeds has found the manifest of the app's row, and has written what it
says. -/
theorem serve_reload_ok {name : String} {x : Response}
    (h : (serve paths crates o w (.reload name)).2 = .ok x) :
    ∃ app path manifest icon, w.host.registry.getApp name = some app ∧
      app.manifestPath = some path ∧
      loadManifest crates (o.env 1).files path = .ok manifest ∧
      manifestIcon crates (o.env 2).files path manifest.icon = .ok icon ∧
      (serve paths crates o w (.reload name)).1.issued =
        reloadStatements name (configOf manifest icon) := by
  unfold serve Request.handler reload at h ⊢
  obtain ⟨s₁, app, h₁, happ, hexec₁⟩ := exec_appOr404_ok h
  rw [hexec₁] at h ⊢
  cases hpath : app.manifestPath with
  | none =>
      rw [hpath] at h
      cases h
  | some path =>
      simp only [hpath] at h ⊢
      obtain ⟨s₂, h₂, hexec₂⟩ := exec_must_ok h
      have hfiles : (perform paths crates (o.env s₁.calls) s₁.world .files).2 =
          (o.env 1).files := by
        rw [h₁.calls]
        rfl
      rw [hexec₂, hfiles] at h ⊢
      cases hload : loadManifest crates (o.env 1).files path with
      | error e =>
          rw [hload] at h
          cases h
      | ok manifest =>
          simp only [hload] at h ⊢
          obtain ⟨s₃, h₃, hexec₃⟩ := exec_must_ok h
          have hfiles : (perform paths crates (o.env s₂.calls) s₂.world .files).2 =
              (o.env 2).files := by
            rw [h₂.calls, h₁.calls]
            rfl
          rw [hexec₃, hfiles] at h ⊢
          cases hicon : manifestIcon crates (o.env 2).files path manifest.icon with
          | error e =>
              rw [hicon] at h
              cases h
          | ok icon =>
              simp only [hicon] at h ⊢
              refine ⟨app, path, manifest, icon, happ, hpath, hload, hicon, ?_⟩
              refine Eq.trans (follows_ok follows_reload h) ?_
              rw [h₃.issued, h₂.issued, h₁.issued]
              rfl

/-- A deploy that succeeds has decoded its bundle, checked its icon and issued its statements. -/
theorem serve_deploy_ok {req : DeployRequest} {x : Response}
    (h : (serve paths crates o w (.deploy req)).2 = .ok x) :
    ∃ jam bin isTrusted, decodeBundle crates req = .ok (jam, bin) ∧
      checkIcon crates req.icon = .ok () ∧
      (serve paths crates o w (.deploy req)).1.issued =
        deployStatements paths crates req jam bin isTrusted := by
  unfold serve Request.handler deploy at h ⊢
  cases hbundle : decodeBundle crates req with
  | error e =>
      simp only [hbundle] at h
      cases h
  | ok bundle =>
      obtain ⟨jam, bin⟩ := bundle
      simp only [hbundle] at h ⊢
      obtain ⟨s₁, h₁, hexec₁⟩ := exec_must_ok h
      rw [hexec₁] at h ⊢
      obtain ⟨s₂, h₂, hexec₂⟩ := exec_must_ok h
      rw [hexec₂] at h ⊢
      obtain ⟨s₃, h₃, hexec₃⟩ := exec_must_ok h
      rw [hexec₃] at h ⊢
      obtain ⟨s₄, h₄, hexec₄⟩ := exec_must_ok h
      rw [hexec₄] at h ⊢
      unfold deployApp at h ⊢
      cases hicon : checkIcon crates req.icon with
      | error m =>
          rw [hicon] at h
          cases h
      | ok _ =>
          simp only [hicon] at h ⊢
          let isTrusted := (perform paths crates (o.env s₂.calls) s₂.world .trustedBuilders).2
          refine ⟨jam, bin, isTrusted, rfl, trivial, ?_⟩
          refine (follows_ok (l := (deployStatements paths crates req jam bin isTrusted).drop 2) ?_
            h).trans ?_
          · refine follows_write (follows_write (follows_write ?_))
            exact follows_must rfl fun _ _ => follows_reconcile rfl
          · rw [h₄.issued, h₃.issued, h₂.issued, h₁.issued]
            rfl

end Api

end Nockd
