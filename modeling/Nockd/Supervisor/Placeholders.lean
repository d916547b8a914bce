import Mathlib.Data.Nat.Digits.Defs
import Nockd.Data.Substitution
import Nockd.Supervisor.Spawn

/-!
# Placeholders in arguments

`spawn` puts the endpoint's URL into the arguments of an app and then the port, and exports
both. The port is also looked for in the URL that has just been put in. So the arguments say what
the environment says exactly if the URL completes no placeholder of the port.
-/

namespace Nockd

namespace Supervisor

open Config Registry Substitution

/-! ## Replacing -/

theorem replaceFrom_append (pat rep v s : List Char) :
    replaceFrom pat rep v.length (v ++ s) = replace s pat rep := by
  induction v with
  | nil => rfl
  | cons c v ih => exact ih

theorem replace_append {pat : List Char} (rep s : List Char) (hpat : pat ≠ []) :
    replace (pat ++ s) pat rep = rep ++ replace s pat rep := by
  have hpre : pat.isPrefixOf (pat ++ s) = true :=
    List.isPrefixOf_iff_prefix.2 (List.prefix_append pat s)
  cases pat with
  | nil => exact absurd rfl hpat
  | cons c p =>
      rw [List.cons_append] at hpre ⊢
      unfold replace
      rw [replaceFrom, if_pos hpre, List.length_cons, Nat.add_sub_cancel, replaceFrom_append]
      rfl

theorem replace_cons {pat s : List Char} {c : Char} (rep : List Char) (hno : ¬ pat <+: c :: s) :
    replace (c :: s) pat rep = c :: replace s pat rep := by
  unfold replace
  rw [replaceFrom, if_neg fun hpre => hno (List.isPrefixOf_iff_prefix.1 hpre)]

theorem filled_replace {pat : List Char} (hpat : pat ≠ []) (rep s : List Char) :
    Filled {(pat, rep)} s (replace s pat rep) := by
  have hpats : [] ∉ ({pat} : Set (List Char)) := fun hmem => hpat hmem.symm
  induction s using parse_induction hpats with
  | nil => exact .nil
  | put pat' hmem s ih =>
      obtain rfl := Set.mem_singleton_iff.1 hmem
      rw [replace_append rep s hpat]
      exact .put (Set.mem_singleton _) ih
  | keep c s hno ih =>
      rw [replace_cons rep (hno pat (Set.mem_singleton _))]
      exact .keep (by simpa using hno) ih

/-! ## What a command says twice -/

def endpointMark : List Char := "\x7bendpoint\x7d".toList

def portMark : List Char := "\x7bport\x7d".toList

namespace Command

/-- The value of an environment variable that the command sets. -/
def exported (c : Command) (name : String) : Option (List Char) := c.env.lookup name

/-- The placeholders that stand for what is exported. -/
def placeholders (c : Command) : Set (Rule Char) :=
  {rule | (∃ url ∈ c.exported "NOCKD_ENDPOINT_URL", rule = (endpointMark, url)) ∨
    ∃ port ∈ c.exported "NOCKD_APP_PORT", rule = (portMark, port)}

/-- URL and port are exported, and each argument is the configured one with exactly what is
exported put in for its placeholders, all at once. -/
structure Agrees (c : Command) (configured : List String) (url : Option String)
    (port : Option UInt16) : Prop where
  url : c.exported "NOCKD_ENDPOINT_URL" = url.map String.toList
  port : c.exported "NOCKD_APP_PORT" = port.map fun p => Nat.toDigits 10 p.toNat
  args : List.Forall₂ (fun a arg => Filled c.placeholders a.toList arg) configured c.args

end Command

/-- Putting the URL in makes no placeholder of the port. -/
def Undisturbed (url : Option String) (port : Option UInt16) (a : String) : Prop :=
  ∀ u ∈ url, port.isSome → Fresh endpointMark u.toList portMark a.toList

variable {paths : Paths} {app : AppRow} {url : Option String}

theorem apart_marks : Apart '\x7b' endpointMark portMark where
  left := ⟨"endpoint\x7d".toList, rfl, by decide⟩
  right := ⟨"port\x7d".toList, rfl, by decide⟩
  pat_word := by decide
  word_pat := by decide

theorem command_exported (paths : Paths) (app : AppRow) (url : Option String) :
    (command paths app url).exported "NOCKD_ENDPOINT_URL" = url.map String.toList ∧
      (command paths app url).exported "NOCKD_APP_PORT" =
        app.port.map fun p => Nat.toDigits 10 p.toNat := by
  unfold command Command.exported
  cases url <;> cases app.port <;> exact ⟨rfl, rfl⟩

theorem length_port (p : UInt16) : (Nat.toDigits 10 p.toNat).length < portMark.length := by
  have hlen : (Nat.toDigits 10 p.toNat).length ≤ 5 :=
    Nat.toDigits_length 10 p.toNat 5 (by decide) (p.toNat_lt.trans (by decide))
  exact Nat.lt_succ_of_le hlen

theorem filled_self {s : List Char} : Filled ∅ s s := by
  induction s with
  | nil => exact .nil
  | cons c s ih => exact .keep nofun ih

/-- The rules of a command's placeholders. -/
def marks (url : Option String) (port : Option UInt16) : Set (Rule Char) :=
  {rule | (∃ u ∈ url, rule = (endpointMark, u.toList)) ∨
    ∃ p ∈ port, rule = (portMark, Nat.toDigits 10 p.toNat)}

/-- One argument agrees exactly if the URL leaves it undisturbed. -/
theorem filled_substitute_iff (port : Option UInt16) (a : String) :
    Filled (marks url port) a.toList
        (substitute url (port.map fun p => Nat.toDigits 10 p.toNat) a.toList) ↔
      Undisturbed url port a := by
  unfold Undisturbed substitute
  cases url with
  | none =>
      refine iff_of_true ?_ nofun
      cases port with
      | none =>
          have hmarks : marks none none = ∅ := by simp [marks]
          rw [hmarks]
          exact filled_self
      | some p =>
          have hmarks : marks none (some p) = {(portMark, Nat.toDigits 10 p.toNat)} := by
            simp [marks]
          rw [hmarks]
          exact filled_replace apart_marks.right.ne_nil _ _
  | some u =>
      have hurl : Filled {(endpointMark, u.toList)} a.toList
          (replace a.toList endpointMark u.toList) :=
        filled_replace apart_marks.left.ne_nil _ _
      cases port with
      | none =>
          have hmarks : marks (some u) none = {(endpointMark, u.toList)} := by simp [marks]
          rw [hmarks]
          exact iff_of_true hurl fun _ _ hsome => absurd hsome Bool.false_ne_true
      | some p =>
          have hmarks : marks (some u) (some p) =
              {(endpointMark, u.toList), (portMark, Nat.toDigits 10 p.toNat)} := by
            ext rule
            simp [marks]
          rw [hmarks]
          refine (filled_filled_iff apart_marks (length_port p) hurl
            (filled_replace apart_marks.right.ne_nil _ _)).trans ?_
          exact ⟨fun h u' hu _ => Option.mem_some.1 hu ▸ h, fun h => h u rfl rfl⟩

theorem command_placeholders (paths : Paths) (app : AppRow) (url : Option String) :
    (command paths app url).placeholders = marks url app.port := by
  obtain ⟨hurl, hport⟩ := command_exported paths app url
  unfold Command.placeholders marks
  rw [hurl, hport]
  simp only [Option.mem_map, exists_exists_and_eq_and]

theorem command_agrees_iff : (command paths app url).Agrees app.args url app.port ↔
    ∀ a ∈ app.args, Undisturbed url app.port a := by
  obtain ⟨hurl, hport⟩ := command_exported paths app url
  have hargs : List.Forall₂ (fun a arg => Filled (command paths app url).placeholders a.toList arg)
      app.args (command paths app url).args ↔ ∀ a ∈ app.args, Undisturbed url app.port a := by
    rw [command_placeholders]
    change List.Forall₂ _ app.args (app.args.map _) ↔ _
    rw [List.forall₂_map_right_iff, List.forall₂_same]
    exact forall₂_congr fun a _ => filled_substitute_iff app.port a
  exact ⟨fun h => hargs.1 h.args, fun h => ⟨hurl, hport, hargs.2 h⟩⟩

/-! ## What is spawned -/

/-- A spawn that succeeds has passed the command of the app. -/
theorem Host.spawn_command {h h' : Host} {daemon : ℕ} {outcome : LaunchOutcome} {pid : Pid}
    (hspawn : h.spawn paths daemon app url outcome = (h', .ok pid)) :
    ∃ launch, h'.Runs pid launch ∧ launch.command = command paths app url := by
  obtain ⟨staged, -, ⟨e, hfailed⟩ | ⟨q, bin, -, -, hstarted⟩⟩ :=
    Host.spawn_spec (P := fun _ => True) paths daemon app url outcome
      (fun _ _ _ _ => trivial) (fun _ _ _ => trivial) (fun _ _ _ => trivial) (h := h) trivial
  · rw [hspawn] at hfailed
    cases hfailed
  · rw [hspawn] at hstarted
    obtain ⟨rfl, hpid⟩ := Prod.mk.inj hstarted
    cases hpid
    exact ⟨staged.launchOf paths daemon app url bin, by simp [Host.Runs], rfl⟩

/-- What a spawn passes agrees with what it exports exactly if the URL leaves every configured
argument undisturbed. -/
theorem spawn_agrees_iff {h h' : Host} {daemon : ℕ} {outcome : LaunchOutcome} {pid : Pid}
    (hspawn : h.spawn paths daemon app url outcome = (h', .ok pid)) :
    ∃ launch, h'.Runs pid launch ∧ (launch.command.Agrees app.args url app.port ↔
      ∀ a ∈ app.args, Undisturbed url app.port a) := by
  obtain ⟨launch, hruns, hcommand⟩ := Host.spawn_command hspawn
  exact ⟨launch, hruns, hcommand ▸ command_agrees_iff⟩

/-- A URL with a colon and without braces disturbs no argument. -/
theorem undisturbed_of_plain {u : String} (hopen : '\x7b' ∉ u.toList) (hclose : '\x7d' ∉ u.toList)
    (hcolon : ':' ∈ u.toList) (port : Option UInt16) (a : String) :
    Undisturbed (some u) port a := by
  rintro _ ⟨⟩ -
  exact fresh_of_foreign apart_marks.right (e := '\x7d') (d := ':') (by decide)
    hopen hclose hcolon (by decide) _

section Local

/-- A host with no other file than the binary of `h`. -/
def bareHost : Host :=
  { disk := Disk.set {} (resolve ((Paths.ofRoot "/r").binPath "h"))
      (some { bytes := [], mode := 0o755 }) }

/-- An app that takes endpoint and port from its arguments. -/
def localApp : AppRow :=
  { name := "a", artifactHash := "h", kernelHash := "", endpoint := some "local"
    restartPolicy := "always", args := ["\x7bendpoint\x7d", "--port=\x7bport\x7d"], statePath := ""
    desiredStatus := "running", adminAddr := none, statusCmd := none, statusLabel := none
    port := some 8080, manifestPath := none, icon := none, verifiedStatus := none
    createdAt := 0, updatedAt := 0 }

theorem spawn_local (url : Option String) :
    ∃ h', bareHost.spawn (Paths.ofRoot "/r") 0 localApp url (.started 1) = (h', .ok 1) :=
  ⟨_, Prod.ext rfl rfl⟩

/-- The port's placeholder in a URL is replaced in the argument, and is exported as it is. -/
theorem spawn_disagrees :
    ¬ ∀ (paths : Paths) (h h' : Host) (daemon : ℕ) (app : AppRow) (url : Option String)
      (outcome : LaunchOutcome) (pid : Pid) (launch : Launch),
      h.spawn paths daemon app url outcome = (h', .ok pid) → h'.Runs pid launch →
        launch.command.Agrees app.args url app.port := by
  intro h
  obtain ⟨h', hspawn⟩ := spawn_local (some "http://localhost:\x7bport\x7d/")
  obtain ⟨launch, hruns, hcommand⟩ := Host.spawn_command hspawn
  have hagrees := h _ _ _ _ _ _ _ _ _ hspawn hruns
  rw [hcommand, command_agrees_iff] at hagrees
  have hfresh := hagrees "\x7bendpoint\x7d" List.mem_cons_self _ rfl rfl
  exact hfresh.put [] [] "\x7bport\x7d/".toList rfl (by decide) (by decide) (Or.inl (by decide))

theorem spawn_agrees_iff_local :
    ∃ h' launch, bareHost.spawn (Paths.ofRoot "/r") 0 localApp (some "http://localhost:5555")
        (.started 1) = (h', .ok 1) ∧ h'.Runs 1 launch ∧
      launch.command.Agrees localApp.args (some "http://localhost:5555") localApp.port := by
  obtain ⟨h', hspawn⟩ := spawn_local (some "http://localhost:5555")
  obtain ⟨launch, hruns, hagrees⟩ := spawn_agrees_iff hspawn
  exact ⟨h', launch, hspawn, hruns, hagrees.2 fun a _ =>
    undisturbed_of_plain (by decide) (by decide) (by decide) localApp.port a⟩

end Local

end Supervisor

end Nockd
