import Nockd.Daemon.References
import Nockd.Web.Isolation

/-!
# The pages of a daemon

The dashboard puts the artifact hashes of an app into its pages as they are. Of whatever a daemon
is told, no other hash gets into its tables than those that its store has computed, by itself or
by a daemon before it, so the pages have the tags of their templates only.
-/

namespace Nockd

namespace Daemon

open Api Config Interleaving Registry Store Supervisor Web

/-- The digits of a hash. -/
def IsHex (s : String) : Prop := ∀ c ∈ s.toList, c ∈ "0123456789abcdef".toList

/-- The hash function has made the hash of something. -/
def Computed (crates : Crates) (hash : String) : Prop := ∃ b, crates.blake3 b = hash

/-- A daemon that starts on the registry that daemons before it have left. -/
structure Sys.Inherits (crates : Crates) (s : Sys) : Prop where
  threads : s.threads = []
  stopping : s.stopping = none
  marked : Marked (Computed crates) s.world.host.registry

def ComputedFact (crates : Crates) : Fact → Prop
  | .hash hash => Computed crates hash
  | _ => True

variable {paths : Paths} {crates : Crates} {s s' : Sys} {a : Action}

/-! ## Runs -/

structure ComputedTables (crates : Crates) (s : Sys) : Prop where
  lawful : Lawful Call.uses Call.learns (ComputedFact crates) s.threads
  marked : Marked (Computed crates) s.world.host.registry
  stopping : ∀ p, s.stopping = some p → p.Only Stops

/-- What a thread learns of a hash is that it has been computed, or is in the history. -/
theorem ComputedTables.learns (h : ComputedTables crates s) (env : Env) (op : Call) :
    ∀ f ∈ op.learns (perform paths crates env s.world op).2, ComputedFact crates f := by
  intro f hf
  cases op with
  | put jam bin targetTriple =>
      cases hf
      exact ⟨_, rfl⟩
  | listApps =>
      cases hf
      trivial
  | previousArtifact name current =>
      obtain ⟨hash, hprev, rfl⟩ := hf
      simp only [perform] at hprev
      split at hprev
      · cases hprev
      · exact h.marked.previous hprev
  | _ => exact hf.elim

/-- What a statement of a thread needs has been computed. -/
theorem ComputedTables.needs (h : ComputedTables crates s) {i : ℕ} {st : Statement}
    {next : Except String (Call.Reply (.write st)) → Thread}
    (ht : s.threads[i]? = some (.call (.write st) next)) :
    ∀ hash ∈ Call.needs (.write st), Computed crates hash :=
  fun _ hneeds => h.lawful.good ht _ (uses_of_needs hneeds)

theorem ComputedTables.step (h : ComputedTables crates s)
    (hstep : Sys.Step paths crates s a s') : ComputedTables crates s' := by
  have hstops := stops_act hstep h.stopping
  cases hstep with
  | arrive r =>
      refine ⟨h.lawful.append ?_ (handler_obeys r), h.marked, h.stopping⟩
      cases r <;> simp [Request.facts, ComputedFact]
  | run i env op next ht hopen =>
      refine ⟨h.lawful.set_ok ht (h.learns env op), ?_, h.stopping⟩
      cases op with
      | write st => exact h.marked.exec _ (h.needs ht)
      | _ => exact h.marked.of_quiet (perform_quiet _ _ _ _ rfl)
  | fail i message op next ht hfallible =>
      exact ⟨h.lawful.set_error ht, h.marked, h.stopping⟩
  | stop env op next hp hopen =>
      have honly := h.stopping _ hp
      exact ⟨h.lawful, h.marked.of_quiet (perform_quiet paths crates env s.world honly.1.statement),
        hstops⟩
  | _ => exact ⟨h.lawful, h.marked.of_quiet rfl, hstops⟩

theorem ComputedTables.of_inherits (h : s.Inherits crates) : ComputedTables crates s :=
  ⟨by simp [Lawful, h.threads], h.marked, by simp [h.stopping]⟩

theorem computedTables_reachable
    (h : Reachable (Sys.step paths crates) (Sys.Inherits crates) s) : ComputedTables crates s :=
  h.invariant (fun _ hinherits => .of_inherits hinherits)
    fun _ _ _ ih _ hs => ih.step (Sys.step_cases hs)

/-! ## What is served -/

theorem inert_hex {s : String} (h : IsHex s) : HtmlInert (utf16 s) := by
  have hall : ("0123456789abcdef".toList.all fun c =>
      c.toNat < 0x10000 && isInert [UInt16.ofNat c.toNat]) = true := rfl
  refine inert_flatMap fun c hc => ?_
  have hdigit := List.all_eq_true.1 hall c (h c hc)
  rw [Bool.and_eq_true, decide_eq_true_eq] at hdigit
  rw [if_pos hdigit.1]
  exact isInert_iff.1 hdigit.2

/-- `list_apps` and `get_app`: first the row is asked for, and then the artifact before it. In
between others may act, and what the supervisor says is its own. -/
def Served (paths : Paths) (crates : Crates) (a : AppV1) : Prop :=
  ∃ s s' : Sys, Reachable (Sys.step paths crates) (Sys.Inherits crates) s ∧
    Reachable (Sys.step paths crates) (Sys.Inherits crates) s' ∧
    ∃ row ∈ s.world.host.registry.listApps, ∃ now rt,
      a = toAppV1 now row rt (s'.world.host.registry.previousArtifact row.name row.artifactHash)

/-- The hashes of a served app have been computed. -/
theorem Served.computed {a : AppV1} (h : Served paths crates a) :
    Computed crates a.artifactHash ∧ ∀ prev ∈ a.prevArtifact, Computed crates prev := by
  obtain ⟨s, s', hs, hs', row, hrow, now, rt, rfl⟩ := h
  exact ⟨(computedTables_reachable hs).marked.listed hrow,
    fun prev hprev => (computedTables_reachable hs').marked.previous hprev⟩

theorem Served.hashed (hblake : ∀ b, IsHex (crates.blake3 b)) {a : AppV1}
    (h : Served paths crates a) : Hashed a := by
  obtain ⟨⟨b, hb⟩, hprev⟩ := h.computed
  refine ⟨inert_hex (hb ▸ hblake b), fun hash hmem => ?_⟩
  obtain ⟨hmap, -⟩ := Option.filter_eq_some_iff.1 hmem
  obtain ⟨prev, hbefore, rfl⟩ := Option.map_eq_some_iff.1 hmap
  obtain ⟨b', hb'⟩ := hprev prev hbefore
  exact inert_hex (hb' ▸ hblake b')

/-- The apps that a view shows. -/
def shown : Web.View → List AppV1
  | .fleet _ apps => apps
  | .detail a => [a]
  | .metrics apps => apps
  | _ => []

/-- What daemons serve, in whatever runs they are and on whatever registry daemons before them
have left, names no hash that has not been computed, and in every view of it the tags and the
attributes are determined by the outline. No request can bring a tag into the dashboard. -/
theorem tags_of_served (hblake : ∀ b, IsHex (crates.blake3 b)) {b : Browser} (hb : b.Numeric)
    {v v' : Web.View} (hv : ∀ a ∈ shown v, Served paths crates a)
    (hv' : ∀ a ∈ shown v', Served paths crates a) (h : v.outline = v'.outline) :
    (∀ a ∈ shown v, Computed crates a.artifactHash ∧
      ∀ prev ∈ a.prevArtifact, Computed crates prev) ∧
    List.Forall₂ (HtmlAlike .text .text) (v.fragments b) (v'.fragments b) := by
  have hhashed {v : Web.View} (hv : ∀ a ∈ shown v, Served paths crates a) : v.Hashed := by
    cases v with
    | fleet tiles apps => exact fun a ha => (hv a ha).hashed hblake
    | detail a => exact (hv a List.mem_cons_self).hashed hblake
    | _ => trivial
  exact ⟨fun a ha => (hv a ha).computed, tags_of_outline hb (hhashed hv) (hhashed hv') h⟩

section Script

def hexText (b : Bytes) : String :=
  let digit (n : ℕ) : Char := ("0123456789abcdef".toList[n]?).getD '0'
  String.ofList (b.flatMap fun x => [digit (x.toNat / 16), digit (x.toNat % 16)])

theorem isHex_hexText (b : Bytes) : IsHex (hexText b) := by
  have hdigit (n : ℕ) :
      ("0123456789abcdef".toList[n]?).getD '0' ∈ "0123456789abcdef".toList := by
    cases h : "0123456789abcdef".toList[n]? with
    | none => decide
    | some c => exact List.mem_of_getElem? h
  intro c hc
  unfold hexText at hc
  rw [String.toList_ofList, List.mem_flatMap] at hc
  obtain ⟨x, -, hx⟩ := hc
  rcases List.mem_cons.1 hx with rfl | hx
  · exact hdigit _
  · rw [List.mem_singleton.1 hx]
    exact hdigit _

def hexCrates : Crates := { Crates.plainCrates [] [] with blake3 := hexText }

/-- An app whose endpoint is given. -/
def deployTo (endpoint : String) : List Action :=
  let req : DeployRequest :=
    { name := "a", targetTriple := "t", binB64 := "a", endpoint := some endpoint }
  .arrive (.deploy req) :: calls 0 10

def scriptFlags : Flags where
  icon := false
  link := false
  hot := false
  kernel := false
  prev := false
  verified := false
  drift := false
  rss := 0

theorem served_deployTo (endpoint : String)
    (hrun : (run (Sys.step (Paths.ofRoot "/r") hexCrates) {} (deployTo endpoint)).map
      (fun s => s.world.host.registry.listApps.map fun row =>
        (row.endpoint, s.world.host.registry.previousArtifact row.name row.artifactHash,
          flagsOf (toAppV1 0 row none none))) =
      some [(some endpoint, none, scriptFlags)]) :
    ∃ a, Served (Paths.ofRoot "/r") hexCrates a ∧ a.endpointName = some endpoint ∧
      flagsOf a = scriptFlags := by
  obtain ⟨s, hs, hrows⟩ := Option.map_eq_some_iff.1 hrun
  obtain ⟨row, hlist, hrow⟩ := List.map_eq_singleton_iff.1 hrows
  obtain ⟨hendpoint, hprev, hflags⟩ : row.endpoint = some endpoint ∧
      s.world.host.registry.previousArtifact row.name row.artifactHash = none ∧
      flagsOf (toAppV1 0 row none none) = scriptFlags := by
    simpa only [Prod.mk.injEq] using hrow
  have hinherits : Sys.Inherits hexCrates {} := ⟨rfl, rfl, ⟨nofun, nofun⟩⟩
  have hreach : Reachable (Sys.step (Paths.ofRoot "/r") hexCrates) (Sys.Inherits hexCrates) s :=
    ReachableWhen.runWhen (.start hinherits) hs
  refine ⟨toAppV1 0 row none none, ⟨s, s, hreach, hreach, row, ?_, 0, none, ?_⟩, hendpoint, hflags⟩
  · rw [hlist]
    exact List.mem_cons_self
  · rw [hprev]

theorem tags_of_served_script :
    ∃ a a', a.endpointName = some "mainnet" ∧ a'.endpointName = some script ∧
      Computed hexCrates a.artifactHash ∧
      List.Forall₂ (HtmlAlike .text .text) ((Web.View.fleet false [a]).fragments localBrowser)
        ((Web.View.fleet false [a']).fragments localBrowser) := by
  obtain ⟨a, ha, hname, hflags⟩ := served_deployTo "mainnet" (by decide +kernel)
  obtain ⟨a', ha', hname', hflags'⟩ := served_deployTo script (by decide +kernel)
  have hblake : ∀ b, IsHex (hexCrates.blake3 b) := isHex_hexText
  have hserved : ∀ x ∈ shown (.fleet false [a]), Served (Paths.ofRoot "/r") hexCrates x :=
    fun x hx => List.mem_singleton.1 hx ▸ ha
  have hserved' : ∀ x ∈ shown (.fleet false [a']), Served (Paths.ofRoot "/r") hexCrates x :=
    fun x hx => List.mem_singleton.1 hx ▸ ha'
  have houtline : (Web.View.fleet false [a]).outline = (Web.View.fleet false [a']).outline := by
    simp only [Web.View.outline, List.map_cons, List.map_nil, hflags, hflags']
  obtain ⟨hcomputed, htags⟩ :=
    tags_of_served hblake numeric_localBrowser hserved hserved' houtline
  exact ⟨a, a', hname, hname', (hcomputed a List.mem_cons_self).1, htags⟩

end Script

end Daemon

end Nockd
