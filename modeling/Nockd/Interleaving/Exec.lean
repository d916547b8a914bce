import Nockd.Interleaving.Program

/-!
# Programs that run alone

`exec` runs a program with nothing in between its calls; `answer` serves each
call from the state. What a run leaves is read off the program. `Issues` says
which lists of labels the labelled calls make up. `FailsFirst` says that a
program gives up before its first labelled call or not at all, unless a
labelled call fails.
-/

namespace Interleaving

namespace Program

variable {Op : Type} {Reply : Op → Type} {φ ε α β σ S : Type}

/-- Run a program alone. -/
def exec (answer : σ → (op : Op) → σ × Except φ (Reply op)) :
    σ → Program Op Reply φ ε α → σ × Except ε α
  | s, .pure a => (s, .ok a)
  | s, .throw e => (s, .error e)
  | s, .call op next => exec answer (answer s op).1 (next (answer s op).2)

section Exec

variable {answer : σ → (op : Op) → σ × Except φ (Reply op)} {s s' : σ}
  {p : Program Op Reply φ ε α}

@[simp] theorem exec_pure (a : α) :
    exec answer s (.pure a : Program Op Reply φ ε α) = (s, .ok a) := rfl

@[simp] theorem exec_throw (e : ε) :
    exec answer s (.throw e : Program Op Reply φ ε α) = (s, .error e) := rfl

theorem exec_call (op : Op) (next : Except φ (Reply op) → Program Op Reply φ ε α) :
    exec answer s (.call op next) = exec answer (answer s op).1 (next (answer s op).2) := rfl

theorem exec_attempt_ok {onError : φ → ε} {op : Op} {r : Reply op}
    (f : Reply op → Program Op Reply φ ε α) (h : (answer s op).2 = .ok r) :
    exec answer s (attempt onError op >>= f) = exec answer (answer s op).1 (f r) := by
  refine (exec_call op _).trans ?_
  rw [h]
  rfl

theorem exec_attempt_error {onError : φ → ε} {op : Op} {m : φ}
    (f : Reply op → Program Op Reply φ ε α) (h : (answer s op).2 = .error m) :
    exec answer s (attempt onError op >>= f) = ((answer s op).1, .error (onError m)) := by
  refine (exec_call op _).trans ?_
  rw [h]
  rfl

theorem exec_outcome (op : Op) (f : Except φ (Reply op) → Program Op Reply φ ε α) :
    exec answer s (outcome op >>= f) = exec answer (answer s op).1 (f (answer s op).2) := rfl

theorem exec_bind (p : Program Op Reply φ ε α) (f : α → Program Op Reply φ ε β) :
    exec answer s (p >>= f) =
      match exec answer s p with
      | (s', .ok a) => exec answer s' (f a)
      | (s', .error e) => (s', .error e) := by
  induction p generalizing s with
  | pure a => rfl
  | throw e => rfl
  | call op next ih => exact ih _

/-- What every occurring call keeps, a run keeps. -/
theorem Only.exec {P : Op → Prop} {I : σ → Prop} (hp : p.Only P)
    (hstep : ∀ s op, P op → I s → I (answer s op).1) (hs : I s) :
    I (exec answer s p).1 := by
  induction p generalizing s with
  | pure a => exact hs
  | throw e => exact hs
  | call op next ih =>
      have hnext : (next (answer s op).2).Only P := by
        cases (answer s op).2 with
        | ok r => exact hp.2.1 r
        | error m => exact hp.2.2 m
      exact ih _ hnext (hstep s op hp.1 hs)

end Exec

/-! ## Which labels are issued, and what a failure leaves -/

section Labels

variable (label : Op → Option S)

/-- With `allowed` replies, the labels of the calls that succeed make up a list of
`scripts` on every path that returns, and begin one on every path that gives
up. -/
def Issues (allowed : ∀ op, Reply op → Prop) :
    (List S → Prop) → Program Op Reply φ ε α → Prop
  | scripts, .pure _ => scripts []
  | scripts, .throw _ => ∃ l, scripts l
  | scripts, .call op next =>
      (∀ r, allowed op r →
        (next (.ok r)).Issues allowed fun l => scripts ((label op).toList ++ l)) ∧
        ∀ m, (next (.error m)).Issues allowed scripts

/-- The program returns, unless a labelled call fails. -/
def Commits (fallible : Op → Prop) : Program Op Reply φ ε α → Prop
  | .pure _ => True
  | .throw _ => False
  | .call op next =>
      (∀ r, (next (.ok r)).Commits fallible) ∧
        (label op = none → fallible op → ∀ m, (next (.error m)).Commits fallible)

/-- The program gives up before its first label only, unless a labelled call
fails. -/
def FailsFirst (fallible : Op → Prop) : Program Op Reply φ ε α → Prop
  | .pure _ => True
  | .throw _ => True
  | .call op next =>
      (label op ≠ none → ∀ r, (next (.ok r)).Commits label fallible) ∧
        (label op = none →
          (∀ r, (next (.ok r)).FailsFirst fallible) ∧
            ∀ m, (next (.error m)).FailsFirst fallible)

variable {label} {A : σ → (op : Op) → σ × Except φ (Reply op)} {s : σ}
  {p : Program Op Reply φ ε α} {T : σ → List S}

theorem Issues.mono {allowed : ∀ op, Reply op → Prop} {L L' : List S → Prop}
    (h : p.Issues label allowed L) (himp : ∀ l, L l → L' l) :
    p.Issues label allowed L' := by
  induction p generalizing L L' with
  | pure a => exact himp _ h
  | throw e => exact h.imp himp
  | call op next ih =>
      exact ⟨fun r hr => ih _ (h.1 r hr) fun l => himp _, fun m => ih _ (h.2 m) himp⟩

/-- Fewer replies have to be answered for. -/
theorem Issues.of_allowed {allowed allowed' : ∀ op, Reply op → Prop} {L : List S → Prop}
    (h : p.Issues label allowed L) (himp : ∀ op r, allowed' op r → allowed op r) :
    p.Issues label allowed' L := by
  induction p generalizing L with
  | pure a => exact h
  | throw e => exact h
  | call op next ih =>
      exact ⟨fun r hr => ih _ (h.1 r (himp op r hr)), fun m => ih _ (h.2 m)⟩

/-- The labels a run has issued begin a list of `L`. -/
theorem Issues.exec {allowed : ∀ op, Reply op → Prop} {L : List S → Prop}
    (hallowed : ∀ s op r, (A s op).2 = .ok r → allowed op r)
    (hok : ∀ s op r, (A s op).2 = .ok r →
      T (A s op).1 = T s ++ (label op).toList)
    (herr : ∀ s op m, (A s op).2 = .error m → T (A s op).1 = T s)
    (hp : p.Issues label allowed L) :
    ∃ done rest, T (p.exec A s).1 = T s ++ done ∧ L (done ++ rest) := by
  induction p generalizing s L with
  | pure a => exact ⟨[], [], by simp, hp⟩
  | throw e =>
      obtain ⟨l, hl⟩ := hp
      exact ⟨[], l, by simp, hl⟩
  | call op next ih =>
      rw [exec_call]
      cases hr : (A s op).2 with
      | error m =>
          obtain ⟨done, rest, htrace, hscripts⟩ := ih _ (hp.2 m) (s := (A s op).1)
          rw [herr s op m hr] at htrace
          exact ⟨done, rest, htrace, hscripts⟩
      | ok r =>
          obtain ⟨done, rest, htrace, hscripts⟩ := ih _ (hp.1 r (hallowed s op r hr))
            (s := (A s op).1)
          rw [hok s op r hr, List.append_assoc] at htrace
          exact ⟨_, rest, htrace, by rwa [List.append_assoc]⟩

/-- The labels a run has issued are a list of `L` if it returns. -/
theorem Issues.exec_ok {allowed : ∀ op, Reply op → Prop} {L : List S → Prop}
    (hallowed : ∀ s op r, (A s op).2 = .ok r → allowed op r)
    (hok : ∀ s op r, (A s op).2 = .ok r →
      T (A s op).1 = T s ++ (label op).toList)
    (herr : ∀ s op m, (A s op).2 = .error m → T (A s op).1 = T s)
    (hp : p.Issues label allowed L) {a : α} (hreturn : (p.exec A s).2 = .ok a) :
    ∃ done, T (p.exec A s).1 = T s ++ done ∧ L done := by
  induction p generalizing s L with
  | pure a => exact ⟨[], by simp, hp⟩
  | throw e => cases hreturn
  | call op next ih =>
      rw [exec_call] at hreturn ⊢
      cases hr : (A s op).2 with
      | error m =>
          rw [hr] at hreturn
          obtain ⟨done, htrace, hscripts⟩ := ih _ (hp.2 m) (s := (A s op).1) hreturn
          rw [herr s op m hr] at htrace
          exact ⟨done, htrace, hscripts⟩
      | ok r =>
          rw [hr] at hreturn
          obtain ⟨done, htrace, hscripts⟩ := ih _ (hp.1 r (hallowed s op r hr))
            (s := (A s op).1) hreturn
          rw [hok s op r hr, List.append_assoc] at htrace
          exact ⟨_, htrace, hscripts⟩

variable {fallible : Op → Prop}

theorem Commits.exec (hfail : ∀ s op m, (A s op).2 = .error m →
      fallible op ∧ label op = none) (hp : p.Commits label fallible) :
    ∃ a, (p.exec A s).2 = .ok a := by
  induction p generalizing s with
  | pure a => exact ⟨a, rfl⟩
  | throw e => exact hp.elim
  | call op next ih =>
      rw [exec_call]
      cases hr : (A s op).2 with
      | ok r => exact ih _ (hp.1 r)
      | error m =>
          obtain ⟨hfallible, hlabel⟩ := hfail s op m hr
          exact ih _ (hp.2 hlabel hfallible m)

/-- A run in which no labelled call fails gives up without having issued any
label. -/
theorem FailsFirst.exec {e : ε}
    (hquiet : ∀ s op, label op = none → T (A s op).1 = T s)
    (hfail : ∀ s op m, (A s op).2 = .error m → fallible op ∧ label op = none)
    (hp : p.FailsFirst label fallible) (herror : (p.exec A s).2 = .error e) :
    T (p.exec A s).1 = T s := by
  induction p generalizing s with
  | pure a => rfl
  | throw e => rfl
  | call op next ih =>
      rw [exec_call] at herror ⊢
      by_cases hlabel : label op = none
      · obtain ⟨hok, hbad⟩ := hp.2 hlabel
        have hnext : (next (A s op).2).FailsFirst label fallible := by
          cases (A s op).2 with
          | ok r => exact hok r
          | error m => exact hbad m
        rw [ih _ hnext herror, hquiet s op hlabel]
      · cases hr : (A s op).2 with
        | error m => exact absurd (hfail s op m hr).2 hlabel
        | ok r =>
            rw [hr] at herror
            obtain ⟨a, ha⟩ := (hp.1 hlabel r).exec hfail (s := (A s op).1)
            rw [ha] at herror
            cases herror

end Labels

end Program

end Interleaving
