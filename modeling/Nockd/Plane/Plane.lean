import Mathlib.Data.Set.Card
import Nockd.Api.Rollback
import Nockd.Interleaving.Transcript

/-!
# The control plane

What the daemon is to an operator, apart from what it runs: apps, each at one artifact and with
others it has been at before, what is known of every artifact, the builders that are trusted, and
the named endpoints. A request is one move, and either it is refused or it does all that it
says.
-/

namespace Nockd

namespace Plane

open Api Config Registry Store

/-- What an operator has declared about an app. -/
structure Setup where
  endpoint : Option String
  restartPolicy : String
  args : List String
  statePath : String
  adminAddr : Option String
  statusCmd : Option String
  statusLabel : Option String
  port : Option UInt16
  manifestPath : Option String
  icon : Option String
deriving DecidableEq

/-- An app is at one artifact, and has been at others before, the latest first. -/
structure App where
  setup : Setup
  wanted : String
  current : String
  earlier : List String

structure Build where
  kernelHash : String
  targetTriple : String
  provenance : Option String
  verdict : Option String
  builder : Option String
deriving DecidableEq

end Plane

open Plane in
structure Plane where
  apps : String → Option App
  builds : String → Option Build
  trusted : Set String
  /-- The address and the kind of an endpoint. -/
  endpoints : String → Option (String × String)

namespace Plane

open Api Config Interleaving Registry Store

/-! ## Moves of an app -/

namespace App

def trail (a : App) : List String := a.current :: a.earlier

def moveTo (a : App) (hash : String) : App :=
  { a with current := hash, earlier := a.trail, wanted := "running" }

/-- The app goes back to where it was before it came to where it is. -/
def goBack (a : App) : Option App := (Trail.before a.current a.earlier).map a.moveTo

/-- The declared columns are replaced. -/
def declare (a : App) (c : AppConfig) : App :=
  { a with
    wanted := "running"
    setup :=
      { a.setup with
        endpoint := c.endpoint, restartPolicy := c.restartPolicy, args := c.args
        adminAddr := c.adminAddr, statusCmd := c.statusCmd, statusLabel := c.statusLabel
        port := c.port, icon := c.icon } }

end App

/-! ## Moves of the plane -/

/-- The app is as given from now on. -/
def put (P : Plane) (name : String) (a : App) : Plane :=
  { P with apps := Function.update P.apps name (some a) }

/-- What is known of an artifact is known from its latest deploy. -/
def stock (P : Plane) (hash : String) (b : Build) : Plane :=
  { P with builds := Function.update P.builds hash (some b) }

def deploy (P : Plane) (name : String) (setup : Setup) (hash : String) : Plane :=
  P.put name
    { setup, wanted := "running", current := hash
      earlier := (P.apps name).elim [] App.trail }

def setWanted (P : Plane) (name status : String) : Plane :=
  { P with
    apps := Function.update P.apps name ((P.apps name).map fun a => { a with wanted := status }) }

def setAll (P : Plane) (status : String) : Plane :=
  { P with apps := fun name => (P.apps name).map fun a => { a with wanted := status } }

def trust (P : Plane) (pubkey : String) : Plane := { P with trusted := insert pubkey P.trusted }

def distrust (P : Plane) (pubkey : String) : Plane := { P with trusted := P.trusted \ {pubkey} }

def attach (P : Plane) (name url kind : String) : Plane :=
  { P with endpoints := Function.update P.endpoints name (some (url, kind)) }

def detach (P : Plane) (name : String) : Plane :=
  { P with endpoints := Function.update P.endpoints name none }

/-! ## The whole fleet -/

theorem apps_setWanted (P : Plane) (name status other : String) :
    (P.setWanted name status).apps other =
      if other = name then (P.apps other).map fun a => { a with wanted := status }
      else P.apps other := by
  unfold setWanted
  by_cases hother : other = name
  · subst hother
    rw [if_pos rfl]
    exact Function.update_self _ _ _
  · rw [if_neg hother]
    exact Function.update_of_ne hother _ _

theorem apps_foldl_setWanted (P : Plane) (status : String) (names : List String) (name : String) :
    (names.foldl (fun P name => P.setWanted name status) P).apps name =
      if name ∈ names then (P.apps name).map fun a => { a with wanted := status }
      else P.apps name := by
  induction names generalizing P with
  | nil => rfl
  | cons first names ih =>
      rw [List.foldl_cons, ih, apps_setWanted]
      by_cases hname : name = first
      · subst hname
        rw [if_pos rfl, if_pos List.mem_cons_self, Option.map_map]
        split <;> rfl
      · simp [hname]

theorem foldl_setWanted (P : Plane) (status : String) (names : List String) :
    names.foldl (fun P name => P.setWanted name status) P =
      { P with apps := (names.foldl (fun P name => P.setWanted name status) P).apps } := by
  induction names generalizing P with
  | nil => rfl
  | cons first names ih => exact (ih _).trans rfl

/-- Setting the status of the apps that have another one sets it for all of them. -/
theorem foldl_setWanted_eq_setAll {P : Plane} {status : String} {names : List String}
    (h : ∀ name, name ∈ names ↔ ∃ a ∈ P.apps name, a.wanted ≠ status) :
    names.foldl (fun P name => P.setWanted name status) P = P.setAll status := by
  rw [foldl_setWanted, setAll]
  refine congrArg (fun apps => Plane.mk apps _ _ _) (funext fun name => ?_)
  rw [apps_foldl_setWanted]
  split
  case isTrue => rfl
  case isFalse hnot =>
    cases happ : P.apps name with
    | none => rfl
    | some a =>
        have hstatus : a.wanted = status := by
          by_contra hne
          exact hnot ((h name).2 ⟨a, happ, hne⟩)
        rw [Option.map_some, ← hstatus]

theorem ncard_names {names : List String} (hnodup : names.Nodup) {S : Set String}
    (h : ∀ name, name ∈ names ↔ name ∈ S) : S.ncard = names.length := by
  have hset : S = names.toFinset := Set.ext fun name => by simp [h]
  rw [hset, Set.ncard_coe_finset, List.toFinset_card_of_nodup hnodup]

/-! ## Requests -/

/-- A move of one app, or the 404. -/
def onApp (P : Plane) (name : String)
    (f : App → Plane × Except ApiError Response) : Plane × Except ApiError Response :=
  match P.apps name with
  | some a => f a
  | none => (P, .error (.notFound name))

variable (paths : Paths) (crates : Crates)

/-- The setup that a deploy declares. -/
def setupOf (req : DeployRequest) : Setup where
  endpoint := req.endpoint
  restartPolicy := req.restart
  args := req.args
  statePath := String.ofList (paths.stateDir req.name)
  adminAddr := req.adminAddr
  statusCmd := req.statusCmd
  statusLabel := req.statusLabel
  port := req.port
  manifestPath := req.manifestPath
  icon := req.icon

def noManifest : ApiError :=
  .badRequest ("this app was not deployed from a manifest, so there's " ++
    "nothing to reload — redeploy with \x60nockd deploy -f nockd.toml\x60 to enable Reload")

/-- What a manifest and the icon it names declare, with the files of two moments. -/
def declared (files files' : List Char → Option Bytes) (path : String) :
    Except ApiError AppConfig :=
  match loadManifest crates files path with
  | .error e => .error (.badRequest ("could not read manifest " ++ path ++ ": " ++ e ++
      " (is it still on this machine?)"))
  | .ok manifest =>
    match manifestIcon crates files' path manifest.icon with
    | .error e => .error (.badRequest ("could not resolve icon: " ++ e))
    | .ok icon => .ok (configOf manifest icon)

/-- A reload reads the manifest that the app was deployed from, and the icon that it names. -/
def serveReload (P : Plane) (x : Served) (name : String) (a : App) :
    Plane × Except ApiError Response :=
  match a.setup.manifestPath with
  | none => (P, .error noManifest)
  | some path =>
    match declared crates (x.env 1).files (x.env 2).files path with
    | .error e => (P, .error e)
    | .ok c => (P.put name (a.declare c), .ok .ok)

open Classical in
/-- A deploy records what it brings even if its icon is refused. -/
noncomputable def serveDeploy (P : Plane) (req : DeployRequest) :
    Plane × Except ApiError Response :=
  match decodeBundle crates req with
  | .error e => (P, .error (.internal e))
  | .ok (jam, bin) =>
    let record := computeHashes crates.blake3 jam bin req.targetTriple
    let v := verification crates req.attestation record fun key => decide (key ∈ P.trusted)
    let P := P.stock record.artifactHash
      { kernelHash := record.kernelHash, targetTriple := record.targetTriple
        provenance := req.provenance, verdict := some v.1, builder := v.2 }
    match checkIcon crates req.icon with
    | .error m => (P, .error (.badRequest m))
    | .ok _ => (P.deploy req.name (setupOf paths req) record.artifactHash,
        .ok (.deployed req.name record.artifactHash record.kernelHash))

/-- Every app is to be as given; the answer says how many were not. -/
noncomputable def serveFleet (P : Plane) (status : String) : Plane × Except ApiError Response :=
  (P.setAll status, .ok (.fleet {name | ∃ a ∈ P.apps name, a.wanted ≠ status}.ncard
    {name | (P.apps name).isSome}.ncard))

noncomputable def serve (P : Plane) (x : Served) : Plane × Except ApiError Response :=
  match x.request with
  | .deploy req => P.serveDeploy paths crates req
  | .restart name => P.onApp name fun _ => (P.setWanted name "running", .ok .ok)
  | .reload name => P.onApp name (P.serveReload crates x name)
  | .rollback name => P.onApp name fun a =>
    match a.goBack with
    | none => (P, .error noPrevious)
    | some b => (P.put name b, .ok .ok)
  | .stop name => P.onApp name fun _ => (P.setWanted name "stopped", .ok .ok)
  | .start name => P.onApp name fun _ => (P.setWanted name "running", .ok .ok)
  | .down => P.serveFleet "stopped"
  | .up => P.serveFleet "running"
  | .trustAdd pubkey => (P.trust pubkey, .ok .ok)
  | .trustRemove pubkey => (P.distrust pubkey, .ok .ok)
  | .addEndpoint name url kind => (P.attach name url kind, .ok .ok)
  | .removeEndpoint name => (P.detach name, .ok .ok)
  | _ => (P, .ok .ok)

/-- Requests one after another, with their answers. -/
noncomputable def serveAll (P : Plane) (xs : List Served) :
    Plane × List (Served × Except ApiError Response) :=
  respond (serve paths crates) P xs

/-- The plane before the first request. -/
def empty : Plane where
  apps _ := none
  builds _ := none
  trusted := ∅
  endpoints _ := none

end Plane

end Nockd
