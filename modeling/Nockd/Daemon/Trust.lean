import Nockd.Attest.Soundness
import Nockd.Daemon.Crash
import Nockd.Daemon.Passes

/-!
# Whom the daemon trusts

The trusted keys are strings, and a request names a key by any string that decodes to it.
A daemon that starts trusts the builder key of its host. So a revocation holds for an
attestation as long as requests spell its key as it does, and no daemon starts whose own
key has been revoked.
-/

namespace Nockd

namespace Registry

/-- The key that a statement names, and whether it is trusted from then on. -/
def Statement.trusts : Statement → Option (String × Bool)
  | .addTrustedBuilder pubkey => some (pubkey, true)
  | .removeTrustedBuilder pubkey => some (pubkey, false)
  | _ => none

theorem isTrusted_add (r : Registry) (now : ℤ) (pubkey spelling : String) :
    (r.addTrustedBuilder now pubkey).isTrustedBuilder spelling =
      (decide (pubkey = spelling) || r.isTrustedBuilder spelling) := by
  unfold isTrustedBuilder addTrustedBuilder
  by_cases heq : pubkey = spelling
  · subst heq
    cases hrow : r.trustedBuilder.lookup pubkey with
    | none => simp
    | some t => simp [hrow]
  · cases hrow : r.trustedBuilder.lookup pubkey with
    | none => simp [heq, AList.lookup_insert_ne (Ne.symm heq)]
    | some t => simp [heq]

theorem isTrusted_remove (r : Registry) (pubkey spelling : String) :
    (r.removeTrustedBuilder pubkey).isTrustedBuilder spelling =
      (!decide (pubkey = spelling) && r.isTrustedBuilder spelling) := by
  unfold isTrustedBuilder removeTrustedBuilder
  by_cases heq : pubkey = spelling
  · subst heq
    simp
  · simp [heq, AList.lookup_erase_ne (Ne.symm heq)]

theorem isTrusted_exec (st : Statement) (now : ℤ) (r : Registry) (spelling : String) :
    (st.exec now r).isTrustedBuilder spelling =
      match st.trusts with
      | some (pubkey, on) => if pubkey = spelling then on else r.isTrustedBuilder spelling
      | none => r.isTrustedBuilder spelling := by
  cases st with
  | addTrustedBuilder pubkey =>
      refine (isTrusted_add r now pubkey spelling).trans ?_
      by_cases heq : pubkey = spelling <;> simp [Statement.trusts, heq]
  | removeTrustedBuilder pubkey =>
      refine (isTrusted_remove r pubkey spelling).trans ?_
      by_cases heq : pubkey = spelling <;> simp [Statement.trusts, heq]
  | _ => rfl

end Registry

/-- The key that a call names, and whether it is trusted from then on. -/
def Api.Call.trusts (op : Api.Call) : Option (String × Bool) :=
  op.statement.bind Registry.Statement.trusts

namespace Daemon

open Api Attest Config Interleaving Registry Store Supervisor

/-- What happens on a host: steps of its daemon, and a new start of it. -/
inductive HostAction where
  | act (a : Action)
  | restart (now : ℤ)

variable (paths : Paths) (crates : Crates)

/-- `Daemon::new` trusts the builder key of the host. -/
def trustOwn (keyFile : Option Bytes) (now : ℤ) (r : Registry) : Registry :=
  match loadKey keyFile with
  | some seed => r.addTrustedBuilder now (pubkeyHex crates seed)
  | none => r

/-- The next daemon on the host: what the one before had in memory is gone. -/
def Sys.restart (keyFile : Option Bytes) (now : ℤ) (s : Sys) : Sys where
  world := (Lives.left s.world []).mapRegistry (trustOwn crates keyFile now)

def Sys.hostStep (keyFile : Option Bytes) (s : Sys) : HostAction → Option Sys
  | .act a => s.step paths crates a
  | .restart now => some (s.restart crates keyFile now)

/-- The key that a step names in a request, and whether it is trusted from then on. -/
def Sys.trusts? (s : Sys) : HostAction → Option (String × Bool)
  | .act (.run i _) => (s.call? i).bind Call.trusts
  | _ => none

def HostAction.restarts : HostAction → Bool
  | .restart _ => true
  | _ => false

/-- The key is the builder key of the host. -/
def OwnKey (keyFile : Option Bytes) (key : Bytes) : Prop :=
  (loadKey keyFile).map crates.verifyingKey = some key

instance (keyFile : Option Bytes) (key : Bytes) : Decidable (OwnKey crates keyFile key) :=
  inferInstanceAs (Decidable (_ = _))

/-- Whether the last request that named the key, by any spelling, was an add. -/
def followTrust (key : Bytes) (s : Sys) (a : HostAction) (last : Option Bool) : Option Bool :=
  match s.trusts? a with
  | some (pubkey, on) => if crates.hexDecode pubkey = some key then some on else last
  | none => last

/-- The first daemon of a host, with a registry that has trusted nobody. -/
def FirstStart (keyFile : Option Bytes) (v : Sys × Option Bool) : Prop :=
  v.2 = none ∧ ∃ (s : Sys) (now : ℤ), s.world.host.registry.trustedBuilder = ∅ ∧
    v.1 = s.restart crates keyFile now

/-- A request that names the key spells it this way, or asks for what already is; and no
daemon starts while its own key, spelled so, is not trusted. -/
def Sys.KeepsTrust (keyFile : Option Bytes) (key : Bytes) (spelling : String) (s : Sys)
    (a : HostAction) : Prop :=
  (∀ x ∈ s.trusts? a, crates.hexDecode x.1 = some key →
    x.1 = spelling ∨ s.world.host.registry.isTrustedBuilder spelling = x.2) ∧
  (a.restarts = true → OwnKey crates keyFile key →
    s.world.host.registry.isTrustedBuilder spelling = true)

instance (keyFile : Option Bytes) (key : Bytes) (spelling : String) (s : Sys) (a : HostAction) :
    Decidable (s.KeepsTrust crates keyFile key spelling a) :=
  inferInstanceAs (Decidable (_ ∧ _))

/-- What trust in a key should be after its last request. -/
def RightlyTrusted (keyFile : Option Bytes) (key : Bytes) (last : Option Bool) : Prop :=
  last = some true ∨ last = none ∧ OwnKey crates keyFile key

variable {paths : Paths} {crates : Crates} {keyFile : Option Bytes} {key : Bytes}
  {spelling : String} {s s' : Sys} {a : HostAction}

/-- A new daemon trusts its own key besides the keys of the one before. -/
theorem isTrusted_restart (hhex : ∀ b, crates.hexDecode (crates.hexEncode b) = some b)
    (hspelling : crates.hexDecode spelling = some key)
    (hown : OwnKey crates keyFile key → spelling = crates.hexEncode key) (now : ℤ) :
    (s.restart crates keyFile now).world.host.registry.isTrustedBuilder spelling = true ↔
      s.world.host.registry.isTrustedBuilder spelling = true ∨ OwnKey crates keyFile key := by
  change (trustOwn crates keyFile now s.world.host.registry).isTrustedBuilder spelling = true ↔ _
  unfold trustOwn OwnKey at *
  cases hfile : loadKey keyFile with
  | none => simp
  | some seed =>
      have hsame : pubkeyHex crates seed = spelling ↔ crates.verifyingKey seed = key := by
        constructor
        · intro heq
          rw [← heq] at hspelling
          exact Option.some.inj ((hhex _).symm.trans hspelling)
        · intro heq
          rw [hown (by rw [hfile, ← heq]; rfl), ← heq]
          rfl
      simp only [isTrusted_add, Bool.or_eq_true, decide_eq_true_eq, hsame, Option.map_some,
        Option.some.injEq]
      exact or_comm

theorem isTrusted_of_quiet {r r' : Registry} (h : r'.quiet = r.quiet) (spelling : String) :
    r'.isTrustedBuilder spelling = r.isTrustedBuilder spelling :=
  congr_of_quiet (·.isTrustedBuilder spelling) (fun _ => rfl) h

/-- Only requests about trust change whom a running daemon trusts. -/
theorem isTrusted_act {a : Action} (h : Sys.Step paths crates s a s')
    (hstop : ∀ p, s.stopping = some p → p.Only Stops) (spelling : String) :
    s'.world.host.registry.isTrustedBuilder spelling =
      match s.trusts? (.act a) with
      | some (pubkey, on) =>
          if pubkey = spelling then on else s.world.host.registry.isTrustedBuilder spelling
      | none => s.world.host.registry.isTrustedBuilder spelling := by
  cases h with
  | run i env op next ht hopen =>
      have htrusts : s.trusts? (.act (.run i env)) = op.trusts :=
        congrArg (Option.bind · Call.trusts) (Sys.call?_eq ht)
      rw [htrusts, Call.trusts]
      cases hst : op.statement with
      | none => exact isTrusted_of_quiet (perform_quiet paths crates env s.world hst) spelling
      | some st =>
          cases op with
          | write st' =>
              cases hst
              exact isTrusted_exec st env.now _ spelling
          | _ => cases hst
  | stop env op next hp hopen =>
      exact isTrusted_of_quiet (perform_quiet paths crates env s.world (hstop _ hp).1.statement)
        spelling
  | _ => rfl

/-- The spelling is trusted as the last request about its key has asked. -/
structure Heeded (crates : Crates) (keyFile : Option Bytes) (key : Bytes) (spelling : String)
    (v : Sys × Option Bool) : Prop where
  stopping : ∀ p, v.1.stopping = some p → p.Only Stops
  trusted : v.1.world.host.registry.isTrustedBuilder spelling = true ↔
    RightlyTrusted crates keyFile key v.2

section Step

variable {v v' : Sys × Option Bool}

/-- A step keeps the trust right if and only if it meets the condition. -/
theorem Heeded.step_iff (hhex : ∀ b, crates.hexDecode (crates.hexEncode b) = some b)
    (hspelling : crates.hexDecode spelling = some key)
    (hown : OwnKey crates keyFile key → spelling = crates.hexEncode key)
    (hv : Heeded crates keyFile key spelling v) {a : HostAction}
    (hstep : ghostStep (Sys.hostStep paths crates keyFile) (followTrust crates key) v a = some v') :
    (∀ p, v'.1.stopping = some p → p.Only Stops) ∧
      ((v'.1.world.host.registry.isTrustedBuilder spelling = true ↔
          RightlyTrusted crates keyFile key v'.2) ↔
        v.1.KeepsTrust crates keyFile key spelling a) := by
  obtain ⟨hsys, hlast⟩ := ghostStep_eq_some hstep
  cases a with
  | restart now =>
      have hsys : v'.1 = v.1.restart crates keyFile now := (Option.some.inj hsys).symm
      have hkeeps : v.1.KeepsTrust crates keyFile key spelling (.restart now) ↔
          (OwnKey crates keyFile key →
            v.1.world.host.registry.isTrustedBuilder spelling = true) := by
        unfold Sys.KeepsTrust Sys.trusts? HostAction.restarts
        simp
      refine ⟨by simp [hsys, Sys.restart], ?_⟩
      rw [hkeeps, hsys, isTrusted_restart hhex hspelling hown, hlast, hv.trusted]
      exact or_iff_left_iff_imp
  | act a =>
      have hact := Sys.step_cases hsys
      refine ⟨stops_act hact hv.stopping, ?_⟩
      rw [isTrusted_act hact hv.stopping, hlast]
      unfold followTrust Sys.KeepsTrust
      cases htrusts : v.1.trusts? (.act a) with
      | none => simpa [HostAction.restarts] using hv.trusted
      | some x =>
          obtain ⟨pubkey, on⟩ := x
          by_cases hkey : crates.hexDecode pubkey = some key
          swap
          · -- the request is about another key
            have hne : pubkey ≠ spelling := by
              rintro rfl
              exact hkey hspelling
            simpa [HostAction.restarts, hkey, hne] using hv.trusted
          have hright : RightlyTrusted crates keyFile key (some on) ↔ on = true := by
            simp [RightlyTrusted]
          simp only [hkey, if_true, hright]
          by_cases heq : pubkey = spelling
          · simp [HostAction.restarts, heq]
          · simp [HostAction.restarts, heq, hkey]

end Step

theorem Heeded.of_firstStart (hhex : ∀ b, crates.hexDecode (crates.hexEncode b) = some b)
    (hspelling : crates.hexDecode spelling = some key)
    (hown : OwnKey crates keyFile key → spelling = crates.hexEncode key) {v : Sys × Option Bool}
    (h : FirstStart crates keyFile v) : Heeded crates keyFile key spelling v := by
  obtain ⟨hlast, s, now, hempty, hv⟩ := h
  have hnone : s.world.host.registry.isTrustedBuilder spelling = false := by
    unfold isTrustedBuilder
    rw [hempty]
    rfl
  refine ⟨by simp [hv, Sys.restart], ?_⟩
  rw [hv, isTrusted_restart hhex hspelling hown, hnone, hlast]
  simp [RightlyTrusted]

/-- A bound attestation with a valid signature of a key is assessed as the last request about the
key has asked, as long as every step of the run meets the condition; and the first step
that does not meet it breaks this. -/
theorem trust_heeded (hhex : ∀ b, crates.hexDecode (crates.hexEncode b) = some b)
    (hspelling : crates.hexDecode spelling = some key)
    (hown : OwnKey crates keyFile key → spelling = crates.hexEncode key) {v : Sys × Option Bool}
    (h : ReachableWhen (ghostStep (Sys.hostStep paths crates keyFile) (followTrust crates key))
      (FirstStart crates keyFile) (fun v a => v.1.KeepsTrust crates keyFile key spelling a) v)
    {att : Attestation crates.Value} {artifactHash kernelHash : String}
    (hsig : verifySignature crates att = .ok spelling)
    (hbinds : binds att artifactHash kernelHash = true) :
    let verified (v : Sys × Option Bool) :=
      (assess crates att artifactHash kernelHash v.1.world.host.registry.isTrustedBuilder).1 =
        "verified"
    (verified v ↔ RightlyTrusted crates keyFile key v.2) ∧
      ∀ a v', ghostStep (Sys.hostStep paths crates keyFile) (followTrust crates key) v a = some v' →
        ((verified v' ↔ RightlyTrusted crates keyFile key v'.2) ↔
          v.1.KeepsTrust crates keyFile key spelling a) := by
  intro verified
  have hverified (v : Sys × Option Bool) :
      verified v ↔ v.1.world.host.registry.isTrustedBuilder spelling = true :=
    assess_verified_iff_trusted hsig hbinds
  have hv : Heeded crates keyFile key spelling v := by
    refine h.invariant (fun v hstart => .of_firstStart hhex hspelling hown hstart) ?_
    intro v a v' ih hkeeps hstep
    obtain ⟨hstop, htrusted⟩ := ih.step_iff hhex hspelling hown hstep
    exact ⟨hstop, htrusted.2 hkeeps⟩
  refine ⟨(hverified v).trans hv.trusted, fun a v' hstep => ?_⟩
  rw [hverified v']
  exact (hv.step_iff hhex hspelling hown hstep).2

section Revoked

/-- Requests about trust, deploys, and starts of the daemon. -/
def HostAction.managesTrust : HostAction → Bool
  | .act (.arrive (.trustAdd _)) => true
  | .act (.arrive (.trustRemove _)) => true
  | .act (.arrive (.deploy _)) => true
  | .act (.run _ _) => true
  | .restart _ => true
  | _ => false

/-- The host's own key, as the daemon spells it. -/
def ownSpelling : String := pubkeyHex resplitCrates resplitKey

/-- The first daemon of a host with that key. -/
def ownStart : Sys × Option Bool := (Sys.restart resplitCrates (some resplitKey) 0 {}, none)

theorem ownStart_first : FirstStart resplitCrates (some resplitKey) ownStart :=
  ⟨rfl, {}, 0, rfl, rfl⟩

/-- A request of the next thread, served at once. -/
def request (i : ℕ) (r : Request) : List HostAction := [.act (.arrive r), .act (.run i {})]

def ownHash : ArtifactRecord := computeHashes resplitCrates.blake3 none [0x61] "b"

def ownVerdict (v : Sys × Option Bool) : String :=
  (assess resplitCrates resplitSigning.attestation ownHash.artifactHash ownHash.kernelHash
    v.1.world.host.registry.isTrustedBuilder).1

theorem resplit_hex (b : Bytes) :
    resplitCrates.hexDecode (resplitCrates.hexEncode b) = some b :=
  congrArg some (Crates.plainBytes_plainHash b)

theorem resplit_signed :
    verifySignature resplitCrates resplitSigning.attestation = .ok ownSpelling ∧
      binds resplitSigning.attestation ownHash.artifactHash ownHash.kernelHash = true := by
  have hverified : (assess resplitCrates resplitSigning.attestation ownHash.artifactHash
      ownHash.kernelHash fun _ => true).1 = "verified" := by
    decide +kernel
  exact ⟨(assess_eq_verified_iff.1 hverified).1, by decide +kernel⟩

/-- The builder key of the host is revoked, and trusted again when the daemon starts. -/
theorem revocation_forgotten :
    ¬ ∀ (paths : Paths) (crates : Crates) (keyFile : Option Bytes) (key : Bytes)
      (spelling : String) (v : Sys × Option Bool) (att : Attestation crates.Value)
      (artifactHash kernelHash : String),
      (∀ b, crates.hexDecode (crates.hexEncode b) = some b) →
      crates.hexDecode spelling = some key →
      ReachableWhen (ghostStep (Sys.hostStep paths crates keyFile) (followTrust crates key))
        (FirstStart crates keyFile) (fun _ a => a.managesTrust = true) v →
      verifySignature crates att = .ok spelling → binds att artifactHash kernelHash = true →
      ((assess crates att artifactHash kernelHash v.1.world.host.registry.isTrustedBuilder).1 =
        "verified" ↔ RightlyTrusted crates keyFile key v.2) := by
  intro h
  have hrun : (runWhen (ghostStep (Sys.hostStep (Paths.ofRoot "/r") resplitCrates
      (some resplitKey)) (followTrust resplitCrates resplitKey)) (fun _ a => a.managesTrust = true)
        ownStart (request 0 (.trustRemove ownSpelling) ++ [.restart 0])).map (fun v =>
          (v.2, ownVerdict v)) = some (some false, "verified") := by
    decide +kernel
  obtain ⟨v, hv, hval⟩ := Option.map_eq_some_iff.1 hrun
  obtain ⟨hlast, hverdict⟩ := Prod.mk.inj hval
  have hreach := ReachableWhen.runWhen (.start ownStart_first) hv
  have hright := (h _ _ _ _ _ v _ _ _ resplit_hex (resplit_hex resplitKey) hreach resplit_signed.1
    resplit_signed.2).1 hverdict
  rw [hlast] at hright
  rcases hright with hright | ⟨hright, -⟩ <;> cases hright

theorem trust_heeded_revoked :
    ∃ v, runWhen (ghostStep (Sys.hostStep (Paths.ofRoot "/r") resplitCrates (some resplitKey))
          (followTrust resplitCrates resplitKey))
        (fun v a => v.1.KeepsTrust resplitCrates (some resplitKey) resplitKey ownSpelling a)
        ownStart (request 0 (.trustRemove ownSpelling) ++ request 1 (.trustAdd ownSpelling) ++
          [.restart 0]) = some v ∧ ownVerdict v = "verified" := by
  have hrun : (runWhen (ghostStep (Sys.hostStep (Paths.ofRoot "/r") resplitCrates
      (some resplitKey)) (followTrust resplitCrates resplitKey))
        (fun v a => v.1.KeepsTrust resplitCrates (some resplitKey) resplitKey ownSpelling a)
        ownStart (request 0 (.trustRemove ownSpelling) ++ request 1 (.trustAdd ownSpelling) ++
          [.restart 0])).map (·.2) = some (some true) := by
    decide +kernel
  obtain ⟨v, hv, hlast⟩ := Option.map_eq_some_iff.1 hrun
  have hreach := ReachableWhen.runWhen (.start ownStart_first) hv
  exact ⟨v, hv, (trust_heeded resplit_hex (resplit_hex resplitKey) (fun _ => rfl) hreach
    resplit_signed.1 resplit_signed.2).1.2 (Or.inl hlast)⟩

end Revoked

end Daemon

end Nockd
