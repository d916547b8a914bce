import Nockd.Api.Icons
import Nockd.Daemon.Shutdown
import Nockd.Daemon.Signals

/-!
# Stored icons can be served

A deploy checks its icon, and a reload that reads an image file makes one that passes the
check. An inline icon of a manifest is stored as it is. If such icons would pass too, every icon
in every run of the daemon can be served.
-/

namespace Nockd

namespace Daemon

open Api Config Interleaving Registry Store Supervisor

/-- A daemon that has just started on a registry whose icons can be served. -/
def IconsStarted (crates : Crates) (header : String → Bool) (s : Sys) : Prop :=
  s.Started ∧ s.world.host.registry.IconsAre (Servable crates header)

/-- The media type of a deploy's icon can be sent, and an inline icon can be served when a
reload reads its manifest. -/
def Sys.BringsServable (crates : Crates) (header : String → Bool) (s : Sys) : Action → Prop
  | .arrive (.deploy req) => ∀ uri ∈ req.icon, Typed crates header uri
  | .run i env => ∀ name path, s.threads[i]? = some (reloadFrom crates name path) →
      InlineServable crates header env.files path
  | _ => True

/-- What a thread in flight may be. -/
inductive Careful (crates : Crates) (header : String → Bool) : Thread → Prop where
  | brings {t : Thread} : Brings (Servable crates header) t → Careful crates header t
  | asked (name : String) : Careful crates header (reload crates name)
  | found (name path : String) : Careful crates header (reloadFrom crates name path)

structure Iconic (crates : Crates) (header : String → Bool) (s : Sys) : Prop where
  icons : s.world.host.registry.IconsAre (Servable crates header)
  careful : ∀ t ∈ s.threads, Careful crates header t
  stopping : ∀ p, s.stopping = some p → p.Only Stops

variable {paths : Paths} {crates : Crates} {header : String → Bool} {s s' : Sys} {a : Action}

theorem careful_handler {r : Request}
    (hr : s.BringsServable crates header (.arrive r)) :
    Careful crates header (r.handler paths crates) := by
  cases r with
  | deploy req => exact .brings (brings_deploy fun uri huri hvalid => ⟨hvalid, hr uri huri⟩)
  | reload name => exact .asked name
  | rollback name => exact .brings (brings_rollback name)
  | _ => exact .brings (brings_of_unchanging (handler_obeys _) (by simp [Request.facts]))

section Turn

variable {op : Call} {next : Except String op.Reply → Thread}

/-- A careful thread stores an icon that can be served, if any. -/
theorem Careful.icon (h : Careful crates header (.call op next)) :
    ∀ uri ∈ op.icon, Servable crates header uri := by
  generalize ht : (Program.call op next : Thread) = t at h
  cases h with
  | brings h =>
      rw [← ht] at h
      exact h.1
  | asked name =>
      cases ht
      exact nofun
  | found name path =>
      cases ht
      exact nofun

theorem Careful.error (h : Careful crates header (.call op next)) (m : String) :
    Careful crates header (next (.error m)) := by
  generalize ht : (Program.call op next : Thread) = t at h
  cases h with
  | brings h =>
      rw [← ht] at h
      exact .brings (h.2.2 m)
  | asked name =>
      cases ht
      exact .brings trivial
  | found name path =>
      cases ht
      exact .brings trivial

/-- It stays careful if it reads a manifest whose inline icon can be served. -/
theorem Careful.ok (h : Careful crates header (.call op next)) (hbase64 : Base64Text crates)
    (hheader : ∀ mime ∈ imageTypes, header mime = true) {env : Env} (w : World)
    (hread : ∀ name path, (.call op next : Thread) = reloadFrom crates name path →
      InlineServable crates header env.files path) :
    Careful crates header (next (.ok (perform paths crates env w op).2)) := by
  generalize ht : (Program.call op next : Thread) = t at h
  cases h with
  | brings h =>
      rw [← ht] at h
      exact .brings (h.2.1 _)
  | asked name =>
      obtain ⟨e, heq⟩ := @reload_eq crates name
      rw [heq] at ht
      cases ht
      cases (perform paths crates env w (.getApp name)).2 with
      | none => exact .brings trivial
      | some app =>
          simp only [Program.monad_pure, Program.bind]
          cases app.manifestPath with
          | none => exact .brings trivial
          | some path => exact .found name path
  | found name path =>
      have hinline := hread name path ht
      have hop : op = .files := by
        cases ht
        rfl
      subst hop
      exact .brings (brings_reloadFrom hbase64 hheader ht.symm hinline)

end Turn

theorem Iconic.of_started (h : IconsStarted crates header s) : Iconic crates header s where
  icons := h.2
  careful := by simp [h.1.threads]
  stopping := by simp [h.1.stopping]

theorem Iconic.step (h : Iconic crates header s) (hbase64 : Base64Text crates)
    (hheader : ∀ mime ∈ imageTypes, header mime = true) (hstep : Sys.Step paths crates s a s')
    (ha : s.BringsServable crates header a) : Iconic crates header s' := by
  refine ⟨?_, ?_, stops_act hstep h.stopping⟩
  · rcases hstep.registry h.stopping with hquiet | ⟨i, env, st, next, rfl, ht, hexec⟩
    · exact h.icons.of_quiet hquiet
    · rw [hexec]
      exact h.icons.exec (h.careful _ (List.mem_of_getElem? ht)).icon env.now
  · refine hstep.threads h.careful ?_ ?_ fun op next m ht => ht.error m
    · rintro r rfl
      exact careful_handler ha
    · rintro i env op next rfl hi ht
      exact ht.ok hbase64 hheader s.world fun name path heq => ha name path (heq ▸ hi)

/-- In a run whose deploys bring media types that can be sent, and whose reloads read inline icons
that can be served, every stored icon passes the check, and every icon that the list reports is
answered with an image. -/
theorem icons_servable (hbase64 : Base64Text crates)
    (hheader : ∀ mime ∈ imageTypes, header mime = true)
    (h : ReachableWhen (Sys.step paths crates) (IconsStarted crates header)
      (Sys.BringsServable crates header) s) :
    (∀ name row, s.world.host.registry.app.lookup name = some row →
      ∀ uri ∈ row.icon, validateIcon crates uri = .ok ()) ∧
    ∀ app ∈ s.world.host.registry.listApps, hasIcon app = true →
      ∃ image, appIcon crates header s.world.host.registry app.name = .ok image ∧
        image.bytes.length ≤ maxIconBytes := by
  have hs : Iconic crates header s :=
    h.invariant (fun _ hstart => .of_started hstart)
      fun _ _ _ ih ha hstep => ih.step hbase64 hheader (Sys.step_cases hstep) ha
  exact ⟨fun name row hrow uri huri => (hs.icons name row hrow uri huri).valid,
    fun app happ hicon => appIcon_served hs.icons happ hicon⟩

section Inline

def iconManifest (icon : String) : String :=
  "[deploy]\napp = \"a\"\nicon = \"" ++ icon ++ "\"\n"

/-- Crates that know this manifest. -/
def iconCrates (icon : String) : Crates :=
  { Crates.plainCrates [] [] with
    parseManifest := fun text =>
      if text = iconManifest icon then some { app := "a", icon := some icon } else none }

/-- Visible ASCII. -/
def visible (s : String) : Bool := s.toList.all fun c => 0x20 ≤ c.toNat && c.toNat < 0x7f

def iconEnv (icon : String) : Env :=
  { files := fun path =>
      if path = "/m/nockd.toml".toList then some (asBytes (iconManifest icon)) else none }

/-- A deploy of the app up to its row, and then a reload up to the icon. -/
def iconRun (icon : String) : List Action :=
  [.arrive (.deploy { name := "a", targetTriple := "t", binB64 := ""
                      manifestPath := some "/m/nockd.toml" })] ++
    List.replicate 5 (.run 0 {}) ++ [.arrive (.reload "a")] ++
    List.replicate 4 (.run 1 (iconEnv icon))

def iconState (icon : String) : Option Sys :=
  run (Sys.step (Paths.ofRoot "/r") (iconCrates icon)) {} (iconRun icon)

theorem iconCrates_base64 (icon : String) : Base64Text (iconCrates icon) where
  decode b := congrArg Except.ok (Crates.plainBytes_plainHash b)
  solid b c hc := by
    change c ∈ (plainHash b).toList at hc
    rw [plainHash, String.toList_ofList] at hc
    obtain ⟨x, -, rfl⟩ := List.mem_map.1 hc
    have hlt := x.toNat_lt
    simp [isWhiteSpace, toNat_plainChar]
    omega

theorem icons_started (icon : String) : IconsStarted (iconCrates icon) visible {} :=
  ⟨⟨rfl, rfl, rfl, rfl, rfl, rfl⟩, fun _ _ h => by simp at h⟩

/-- The stored icon, and the answer to a request for it. -/
def iconAnswer (icon : String) (s : Sys) : Option (Option String) × Except ApiError IconImage :=
  ((s.world.host.registry.app.lookup "a").map (·.icon),
    appIcon (iconCrates icon) visible s.world.host.registry "a")

/-- A reload stores what the manifest says. -/
theorem icons_not_servable :
    ¬ ∀ (paths : Paths) (crates : Crates) (header : String → Bool) (s : Sys),
      Base64Text crates → (∀ mime ∈ imageTypes, header mime = true) →
      Reachable (Sys.step paths crates) (IconsStarted crates header) s →
      (∀ name row, s.world.host.registry.app.lookup name = some row →
        ∀ uri ∈ row.icon, validateIcon crates uri = .ok ()) ∧
      ∀ app ∈ s.world.host.registry.listApps, hasIcon app = true →
        ∃ image, appIcon crates header s.world.host.registry app.name = .ok image := by
  intro h
  have hrun : (iconState "data:x").map (iconAnswer "data:x") =
      some (some (some "data:x"),
        .error (.badRequest "stored icon is not a base64 data: URI")) := by
    decide +kernel
  obtain ⟨s, hs, hanswer⟩ := Option.map_eq_some_iff.1 hrun
  obtain ⟨hicon, -⟩ := Prod.mk.inj hanswer
  obtain ⟨row, hrow, hicon⟩ := Option.map_eq_some_iff.1 hicon
  have hreach := ReachableWhen.runWhen (.start (icons_started "data:x")) hs
  have hvalid := (h _ _ visible s (iconCrates_base64 _) (by decide) hreach).1 "a" row hrow _ hicon
  have hinvalid : validateIcon (iconCrates "data:x") "data:x" ≠ .ok () := by decide +kernel
  exact hinvalid hvalid

/-- An image without bytes. -/
def emptyIcon : String := "data:image/png;base64,"

/-- Deploys without an icon, reloads, and the steps of their handlers. -/
def Action.plain : Action → Bool
  | .arrive (.deploy req) => req.icon.isNone
  | .arrive _ => true
  | .run _ _ => true
  | _ => false

theorem bringsServable_plain {s : Sys} {a : Action} (h : a.plain = true) :
    s.BringsServable (iconCrates emptyIcon) visible a := by
  cases a with
  | arrive r =>
      cases r with
      | deploy req =>
          intro uri huri
          simp [Action.plain, Option.mem_def.1 huri] at h
      | _ => trivial
  | run i env =>
      intro name path _ manifest hload icon hicon uri huri
      have hmanifest : manifest = { app := "a", icon := some emptyIcon } := by
        unfold loadManifest at hload
        split at hload
        case h_1 => cases hload
        case h_2 text _ =>
          by_cases htext : text = iconManifest emptyIcon
          · simp [iconCrates, htext] at hload
            exact hload.symm
          · simp [iconCrates, htext] at hload
      subst hmanifest
      cases hicon
      have hinline : inlineUri emptyIcon = some emptyIcon := by decide +kernel
      rw [hinline] at huri
      cases huri
      have hdecode : decodeDataUri (iconCrates emptyIcon) emptyIcon = some ("image/png", []) := by
        decide +kernel
      refine ⟨validateIcon_ok_iff.2 ⟨_, _, hdecode, Nat.zero_le _⟩, fun mime bytes h => ?_⟩
      rw [hdecode] at h
      cases h
      decide
  | _ => trivial

theorem icons_servable_reload :
    ∃ s app image, runWhen (Sys.step (Paths.ofRoot "/r") (iconCrates emptyIcon))
        (fun _ a => a.plain = true) {} (iconRun emptyIcon) = some s ∧
      app ∈ s.world.host.registry.listApps ∧ app.icon = some emptyIcon ∧
      appIcon (iconCrates emptyIcon) visible s.world.host.registry app.name = .ok image := by
  have hrun : (runWhen (Sys.step (Paths.ofRoot "/r") (iconCrates emptyIcon))
      (fun _ a => a.plain = true) {} (iconRun emptyIcon)).map (fun s =>
        (s.world.host.registry.getApp "a").map fun app => (app.name, app.icon)) =
          some (some ("a", some emptyIcon)) := by
    decide +kernel
  obtain ⟨s, hs, happ⟩ := Option.map_eq_some_iff.1 hrun
  obtain ⟨app, hget, hpair⟩ := Option.map_eq_some_iff.1 happ
  obtain ⟨hname, hicon⟩ := Prod.mk.inj hpair
  have hreach := (ReachableWhen.runWhen (.start (icons_started emptyIcon)) hs).mono
    fun s a ha => @bringsServable_plain s a ha
  have hlisted : app ∈ s.world.host.registry.listApps := mem_listApps.2 (hname ▸ hget)
  obtain ⟨image, himage, -⟩ := (icons_servable (iconCrates_base64 emptyIcon) (by decide) hreach).2
    app hlisted (by rw [hasIcon, hicon]; rfl)
  exact ⟨s, app, image, hs, hlisted, hicon, himage⟩

end Inline

end Daemon

end Nockd
