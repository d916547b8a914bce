import Mathlib.Data.Set.Insert

/-!
# Programs over atomic calls

A `Program Op Reply φ ε α` is what remains of a thread between two atomic
calls: it has returned a value, it has given up with an error, or its next call
is `op` and `next` says how it goes on with the reply. A call that fails
answers `.error`, so every early return of the source is a branch of `next`.

Six predicates follow a program along its replies. `Only` says which calls
occur. `Awaits` says that a goal call is still to come on every path whose
replies are allowed. `Answers` says that every asking call is followed by the
call that answers it, and `Paired` that the answer is its very next call. `Via`
says that no path returns a value without the goal call. `Obeys` says that every
call uses only facts that earlier replies have taught; threads that take turns are
`Lawful` when all of them do so with good facts.
-/

namespace Interleaving

/-- A thread at rest between two atomic calls. -/
inductive Program (Op : Type) (Reply : Op → Type) (φ ε α : Type) : Type where
  | pure (a : α)
  | throw (e : ε)
  | call (op : Op) (next : Except φ (Reply op) → Program Op Reply φ ε α)

namespace Program

variable {Op : Type} {Reply : Op → Type} {φ ε α β : Type}

/-- Run `f` on the value a program returns; an error is passed on. -/
def bind (p : Program Op Reply φ ε α) (f : α → Program Op Reply φ ε β) :
    Program Op Reply φ ε β :=
  match p with
  | .pure a => f a
  | .throw e => .throw e
  | .call op next => .call op fun r => (next r).bind f

instance : Monad (Program Op Reply φ ε) where
  pure := .pure
  bind := bind

@[simp] theorem pure_bind (a : α) (f : α → Program Op Reply φ ε β) :
    (Program.pure a : Program Op Reply φ ε α) >>= f = f a := rfl

@[simp] theorem throw_bind (e : ε) (f : α → Program Op Reply φ ε β) :
    (Program.throw e : Program Op Reply φ ε α) >>= f = .throw e := rfl

@[simp] theorem call_bind (op : Op)
    (next : Except φ (Reply op) → Program Op Reply φ ε α)
    (f : α → Program Op Reply φ ε β) :
    (Program.call op next : Program Op Reply φ ε α) >>= f =
      .call op fun r => next r >>= f := rfl

@[simp] theorem monad_pure (a : α) :
    (Pure.pure a : Program Op Reply φ ε α) = .pure a := rfl

theorem bind_assoc {γ : Type} (p : Program Op Reply φ ε α) (f : α → Program Op Reply φ ε β)
    (g : β → Program Op Reply φ ε γ) : (p >>= f) >>= g = p >>= fun a => f a >>= g := by
  induction p with
  | pure a => rfl
  | throw e => rfl
  | call op next ih =>
      simp only [call_bind, ih]

/-- Issue one call and give up with `onError` when it fails (the `?` operator). -/
def attempt (onError : φ → ε) (op : Op) : Program Op Reply φ ε (Reply op) :=
  .call op fun
    | .ok r => .pure r
    | .error m => .throw (onError m)

/-- Issue one call and go on with its outcome, failed or not. -/
def outcome (op : Op) : Program Op Reply φ ε (Except φ (Reply op)) :=
  .call op .pure

/-- Run `f` for the elements of a list in turn. -/
def forEach {γ : Type} (xs : List γ) (f : γ → Program Op Reply φ ε Unit) :
    Program Op Reply φ ε Unit :=
  match xs with
  | [] => .pure ()
  | x :: xs => f x >>= fun _ => forEach xs f

/-- Nothing is left to do. -/
def finished : Program Op Reply φ ε α → Bool
  | .pure _ => true
  | .throw _ => true
  | .call _ _ => false

section Only

variable {p : Program Op Reply φ ε α}

/-- Every call, on every path, meets `P`. -/
def Only (P : Op → Prop) : Program Op Reply φ ε α → Prop
  | .pure _ => True
  | .throw _ => True
  | .call op next =>
      P op ∧ (∀ r, (next (.ok r)).Only P) ∧ ∀ m, (next (.error m)).Only P

theorem only_true (p : Program Op Reply φ ε α) : p.Only fun _ => True := by
  induction p with
  | pure a => trivial
  | throw e => trivial
  | call op next ih => exact ⟨trivial, fun r => ih _, fun m => ih _⟩

theorem Only.mono {P Q : Op → Prop} (h : p.Only P) (himp : ∀ op, P op → Q op) :
    p.Only Q := by
  induction p with
  | pure a => trivial
  | throw e => trivial
  | call op next ih =>
      exact ⟨himp op h.1, fun r => ih _ (h.2.1 r), fun m => ih _ (h.2.2 m)⟩

theorem Only.bind {P : Op → Prop} {f : α → Program Op Reply φ ε β} (hp : p.Only P)
    (hf : ∀ a, (f a).Only P) : (p >>= f).Only P := by
  induction p with
  | pure a => exact hf a
  | throw e => trivial
  | call op next ih =>
      exact ⟨hp.1, fun r => ih _ (hp.2.1 r), fun m => ih _ (hp.2.2 m)⟩

theorem Only.forEach {γ : Type} {P : Op → Prop} {xs : List γ}
    {f : γ → Program Op Reply φ ε Unit} (hf : ∀ x, (f x).Only P) :
    (Program.forEach xs f).Only P := by
  induction xs with
  | nil => trivial
  | cons x xs ih => exact (hf x).bind fun _ => ih

end Only

/-- On every path whose replies are `allowed`, a call that meets `goal` is
still to come, and the calls before it are `safe`. -/
def Awaits (safe : Op → Prop) (allowed : ∀ op, Reply op → Prop)
    (goal : ∀ op, (Except φ (Reply op) → Program Op Reply φ ε α) → Prop) :
    Program Op Reply φ ε α → Prop
  | .pure _ => False
  | .throw _ => False
  | .call op next =>
      goal op next ∨
        safe op ∧ ∀ r, allowed op r → (next (.ok r)).Awaits safe allowed goal

section Awaits

variable {safe : Op → Prop} {allowed : ∀ op, Reply op → Prop}
  {goal : ∀ op, (Except φ (Reply op) → Program Op Reply φ ε α) → Prop}

theorem Awaits.step {op : Op} {next : Except φ (Reply op) → Program Op Reply φ ε α}
    {r : Reply op} (h : (Program.call op next).Awaits safe allowed goal)
    (hgoal : ¬ goal op next) (hr : allowed op r) :
    (next (.ok r)).Awaits safe allowed goal :=
  (h.resolve_left hgoal).2 r hr

theorem Awaits.not_finished {p : Program Op Reply φ ε α}
    (h : p.Awaits safe allowed goal) : p.finished = false := by
  cases p with
  | pure a => exact h.elim
  | throw e => exact h.elim
  | call op next => rfl

end Awaits

/-- A goal on the call alone, whatever the program goes on with. -/
abbrev AwaitsCall (allowed : ∀ op, Reply op → Prop) (goal : Op → Prop)
    (p : Program Op Reply φ ε α) : Prop :=
  p.Awaits (fun _ => True) allowed fun op _ => goal op

theorem AwaitsCall.bind {allowed : ∀ op, Reply op → Prop} {goal : Op → Prop}
    {p : Program Op Reply φ ε α} (f : α → Program Op Reply φ ε β)
    (h : p.AwaitsCall allowed goal) : (p >>= f).AwaitsCall allowed goal := by
  induction p with
  | pure a => exact h.elim
  | throw e => exact h.elim
  | call op next ih =>
      rcases h with h | h
      · exact Or.inl h
      · exact Or.inr ⟨trivial, fun r hr => ih (.ok r) (h.2 r hr)⟩

/-- Along allowed replies the program gives up nowhere. -/
def NoThrow (allowed : ∀ op, Reply op → Prop) : Program Op Reply φ ε α → Prop
  | .pure _ => True
  | .throw _ => False
  | .call op next => ∀ r, allowed op r → (next (.ok r)).NoThrow allowed

/-- A safe program that gives up nowhere hands its goal on to what follows it. -/
theorem Awaits.bind_right {safe : Op → Prop} {allowed : ∀ op, Reply op → Prop}
    {goal : ∀ op, (Except φ (Reply op) → Program Op Reply φ ε β) → Prop}
    {p : Program Op Reply φ ε α} {f : α → Program Op Reply φ ε β} (hsafe : p.Only safe)
    (hp : p.NoThrow allowed) (hf : ∀ a, (f a).Awaits safe allowed goal) :
    (p >>= f).Awaits safe allowed goal := by
  induction p with
  | pure a => exact hf a
  | throw e => exact hp.elim
  | call op next ih =>
      exact Or.inr ⟨hsafe.1, fun r hr => ih (.ok r) (hsafe.2.1 r) (hp r hr)⟩

theorem NoThrow.bind {allowed : ∀ op, Reply op → Prop} {p : Program Op Reply φ ε α}
    {f : α → Program Op Reply φ ε β} (hp : p.NoThrow allowed)
    (hf : ∀ a, (f a).NoThrow allowed) : (p >>= f).NoThrow allowed := by
  induction p with
  | pure a => exact hf a
  | throw e => exact hp
  | call op next ih => exact fun r hr => ih (.ok r) (hp r hr)

theorem NoThrow.forEach {γ : Type} {allowed : ∀ op, Reply op → Prop} {xs : List γ}
    {f : γ → Program Op Reply φ ε Unit} (hf : ∀ x, (f x).NoThrow allowed) :
    (Program.forEach xs f).NoThrow allowed := by
  induction xs with
  | nil => trivial
  | cons x xs ih => exact (hf x).bind fun _ => ih

/-- A goal of one round is a goal of the loop. -/
theorem AwaitsCall.forEach {γ : Type} {allowed : ∀ op, Reply op → Prop} {goal : Op → Prop}
    {xs : List γ} {x : γ} {f : γ → Program Op Reply φ ε Unit} (hx : x ∈ xs)
    (hf : ∀ y, (f y).NoThrow allowed) (hgoal : (f x).AwaitsCall allowed goal) :
    (Program.forEach xs f).AwaitsCall allowed goal := by
  induction xs with
  | nil => cases hx
  | cons y ys ih =>
      rcases List.mem_cons.1 hx with rfl | hx
      · exact hgoal.bind _
      · exact Awaits.bind_right (only_true _) (hf y) fun _ => ih hx

/-- After a call that meets `P` the program returns. -/
def Last (P : Op → Prop) : Program Op Reply φ ε α → Prop
  | .pure _ => True
  | .throw _ => True
  | .call op next =>
      (P op → ∀ r, (next (.ok r)).finished = true) ∧ ∀ r, (next (.ok r)).Last P

theorem Last.bind_right {P : Op → Prop} {p : Program Op Reply φ ε α}
    {f : α → Program Op Reply φ ε β} (hp : p.Only fun op => ¬ P op)
    (hf : ∀ a, (f a).Last P) : (p >>= f).Last P := by
  induction p with
  | pure a => exact hf a
  | throw e => trivial
  | call op next ih =>
      exact ⟨fun hop => absurd hop hp.1, fun r => ih (.ok r) (hp.2.1 r)⟩

/-- Every call that asks for `i` is followed, once it has succeeded, by a call
that answers `i` on every path of successful replies. -/
def Answers {ι : Type} (asks answer : ι → Op → Prop) :
    Program Op Reply φ ε α → Prop
  | .pure _ => True
  | .throw _ => True
  | .call op next => ∀ r,
      (∀ i, asks i op → (next (.ok r)).AwaitsCall (fun _ _ => True) (answer i)) ∧
        (next (.ok r)).Answers asks answer

/-- Calls that never ask need no answer. -/
theorem Only.answers {ι : Type} {asks answer : ι → Op → Prop} {P : Op → Prop}
    {p : Program Op Reply φ ε α} (h : p.Only P) (hasks : ∀ i op, P op → ¬ asks i op) :
    p.Answers asks answer := by
  induction p with
  | pure a => trivial
  | throw e => trivial
  | call op next ih =>
      exact fun r => ⟨fun i hi => absurd hi (hasks i op h.1), ih _ (h.2.1 r)⟩

/-- The next call of the program meets `P`. -/
def Begins (P : Op → Prop) : Program Op Reply φ ε α → Prop
  | .call op _ => P op
  | _ => False

/-- The call right after one that asks for `i` and succeeds answers `i`. -/
def Paired {ι : Type} (asks answer : ι → Op → Prop) : Program Op Reply φ ε α → Prop
  | .pure _ => True
  | .throw _ => True
  | .call op next =>
      (∀ r, (∀ i, asks i op → (next (.ok r)).Begins (answer i)) ∧
        (next (.ok r)).Paired asks answer) ∧
      ∀ m, (next (.error m)).Paired asks answer

section Paired

variable {ι : Type} {asks answer : ι → Op → Prop} {P : Op → Prop} {p : Program Op Reply φ ε α}

theorem Only.paired_bind {f : α → Program Op Reply φ ε β} (hp : p.Only P)
    (hasks : ∀ i op, P op → ¬ asks i op) (hf : ∀ a, (f a).Paired asks answer) :
    (p >>= f).Paired asks answer := by
  induction p with
  | pure a => exact hf a
  | throw e => trivial
  | call op next ih =>
      exact ⟨fun r => ⟨fun i hi => absurd hi (hasks i op hp.1), ih _ (hp.2.1 r)⟩,
        fun m => ih _ (hp.2.2 m)⟩

theorem Only.paired (hp : p.Only P) (hasks : ∀ i op, P op → ¬ asks i op) :
    p.Paired asks answer := by
  induction p with
  | pure a => trivial
  | throw e => trivial
  | call op next ih =>
      exact ⟨fun r => ⟨fun i hi => absurd hi (hasks i op hp.1), ih _ (hp.2.1 r)⟩,
        fun m => ih _ (hp.2.2 m)⟩

end Paired

/-- A call that needs a permission comes right after a call whose reply grants it. -/
def Granted {ι : Type} (needs : ι → Op → Prop) (grants : ∀ op, Reply op → ι → Prop) :
    (ι → Prop) → Program Op Reply φ ε α → Prop
  | _, .pure _ => True
  | _, .throw _ => True
  | held, .call op next => (∀ i, needs i op → held i) ∧
      (∀ r, (next (.ok r)).Granted needs grants (grants op r)) ∧
      ∀ m, (next (.error m)).Granted needs grants fun _ => False

section Granted

variable {ι : Type} {needs : ι → Op → Prop} {grants : ∀ op, Reply op → ι → Prop}
  {held held' : ι → Prop} {p : Program Op Reply φ ε α}

theorem Granted.mono (h : p.Granted needs grants held) (himp : ∀ i, held i → held' i) :
    p.Granted needs grants held' := by
  cases p with
  | pure a => trivial
  | throw e => trivial
  | call op next => exact ⟨fun i hi => himp i (h.1 i hi), h.2⟩

theorem Granted.bind {f : α → Program Op Reply φ ε β} (hp : p.Granted needs grants held)
    (hf : ∀ a, (f a).Granted needs grants fun _ => False) :
    (p >>= f).Granted needs grants held := by
  induction p generalizing held with
  | pure a => exact (hf a).mono fun _ => False.elim
  | throw e => trivial
  | call op next ih =>
      exact ⟨hp.1, fun r => ih _ (hp.2.1 r), fun m => ih _ (hp.2.2 m)⟩

/-- Calls that need no permission. -/
theorem Only.granted {P : Op → Prop} (h : p.Only P) (hneeds : ∀ i op, P op → ¬ needs i op) :
    p.Granted needs grants held := by
  induction p generalizing held with
  | pure a => trivial
  | throw e => trivial
  | call op next ih =>
      exact ⟨fun i hi => absurd hi (hneeds i op h.1), fun r => ih _ (h.2.1 r),
        fun m => ih _ (h.2.2 m)⟩

theorem Granted.forEach {γ : Type} {xs : List γ} {f : γ → Program Op Reply φ ε Unit}
    (hf : ∀ x, (f x).Granted needs grants fun _ => False) :
    (Program.forEach xs f).Granted needs grants fun _ => False := by
  induction xs with
  | nil => trivial
  | cons x xs ih => exact (hf x).bind fun _ => ih

end Granted

/-- Every path that returns a value makes a call that meets `goal`, and unless
`seen` the first such call comes after one that meets `first`. -/
def Via (first goal : Op → Prop) : Prop → Program Op Reply φ ε α → Prop
  | _, .pure _ => False
  | _, .throw _ => True
  | seen, .call op next =>
      goal op ∧ seen ∨ ¬ goal op ∧
        (∀ r, (next (.ok r)).Via first goal (seen ∨ first op)) ∧
          ∀ m, (next (.error m)).Via first goal seen

section Via

variable {first goal : Op → Prop} {seen seen' : Prop}

theorem Via.mono {p : Program Op Reply φ ε α} (h : p.Via first goal seen)
    (himp : seen → seen') : p.Via first goal seen' := by
  induction p generalizing seen seen' with
  | pure a => exact h
  | throw e => trivial
  | call op next ih =>
      rcases h with h | ⟨hop, hok, herror⟩
      · exact Or.inl (h.imp_right himp)
      · exact Or.inr ⟨hop, fun r => ih _ (hok r) (Or.imp_left himp), fun m => ih _ (herror m) himp⟩

theorem Via.bind_right {p : Program Op Reply φ ε α} {f : α → Program Op Reply φ ε β}
    (hp : p.Only fun op => ¬ goal op) (hf : ∀ a, (f a).Via first goal seen) :
    (p >>= f).Via first goal seen := by
  induction p generalizing seen with
  | pure a => exact hf a
  | throw e => trivial
  | call op next ih =>
      refine Or.inr ⟨hp.1, fun r => ih _ (hp.2.1 r) fun a => ?_, fun m => ih _ (hp.2.2 m) hf⟩
      exact (hf a).mono Or.inl

end Via

/-- Every call uses only known facts, where a reply teaches new ones. -/
def Obeys {F : Type} (uses : Op → Set F) (learns : ∀ op, Reply op → Set F) :
    Set F → Program Op Reply φ ε α → Prop
  | _, .pure _ => True
  | _, .throw _ => True
  | known, .call op next => uses op ⊆ known ∧
      (∀ r, (next (.ok r)).Obeys uses learns (known ∪ learns op r)) ∧
      ∀ m, (next (.error m)).Obeys uses learns known

section Obeys

variable {F : Type} {uses : Op → Set F} {learns : ∀ op, Reply op → Set F}
  {known known' : Set F} {p : Program Op Reply φ ε α}

theorem Obeys.mono (h : p.Obeys uses learns known) (hsub : known ⊆ known') :
    p.Obeys uses learns known' := by
  induction p generalizing known known' with
  | pure a => trivial
  | throw e => trivial
  | call op next ih =>
      refine ⟨h.1.trans hsub, fun r => ?_, fun m => ih _ (h.2.2 m) hsub⟩
      exact ih _ (h.2.1 r) (Set.union_subset_union_left _ hsub)

theorem Obeys.bind {f : α → Program Op Reply φ ε β} (hp : p.Obeys uses learns known)
    (hf : ∀ a, (f a).Obeys uses learns known) : (p >>= f).Obeys uses learns known := by
  induction p generalizing known with
  | pure a => exact hf a
  | throw e => trivial
  | call op next ih =>
      refine ⟨hp.1, fun r => ih _ (hp.2.1 r) fun a => ?_, fun m => ih _ (hp.2.2 m) hf⟩
      exact (hf a).mono Set.subset_union_left

theorem Obeys.forEach {γ : Type} {xs : List γ} {f : γ → Program Op Reply φ ε Unit}
    (hf : ∀ x, (f x).Obeys uses learns known) :
    (Program.forEach xs f).Obeys uses learns known := by
  induction xs with
  | nil => trivial
  | cons x xs ih => exact (hf x).bind fun _ => ih

/-- Calls that use nothing need to know nothing. -/
theorem Only.obeys {P : Op → Prop} (h : p.Only P) (hP : ∀ op, P op → uses op = ∅) :
    p.Obeys uses learns known := by
  induction p generalizing known with
  | pure a => trivial
  | throw e => trivial
  | call op next ih =>
      refine ⟨by rw [hP op h.1]; exact Set.empty_subset _, fun r => ih _ (h.2.1 r), fun m => ?_⟩
      exact ih _ (h.2.2 m)

/-- Facts that are neither known nor ever learned are never used. -/
theorem Obeys.only {G : F → Prop} {P : Op → Prop} (h : p.Obeys uses learns known)
    (hknown : ∀ f ∈ known, G f) (hlearns : ∀ op r, ∀ f ∈ learns op r, G f)
    (hP : ∀ op, (∀ f ∈ uses op, G f) → P op) : p.Only P := by
  induction p generalizing known with
  | pure a => trivial
  | throw e => trivial
  | call op next ih =>
      refine ⟨hP op fun f hf => hknown f (h.1 hf), fun r => ?_,
        fun m => ih _ (h.2.2 m) hknown⟩
      refine ih _ (h.2.1 r) fun f hf => ?_
      exact hf.elim (hknown f) (hlearns op r f)

end Obeys

end Program

/-! ## Threads that take turns -/

/-- A turn of one thread keeps every thread that differs from it. -/
theorem mem_set_of_ne {T : Type} {threads : List T} {n : ℕ} {t u : T} (v : T)
    (ht : t ∈ threads) (hn : threads[n]? = some u) (hne : t ≠ u) :
    t ∈ threads.set n v := by
  obtain ⟨k, hk⟩ := List.mem_iff_getElem?.1 ht
  have hkn : k ≠ n := by
    rintro rfl
    exact hne (Option.some.inj (hk.symm.trans hn))
  apply List.mem_iff_getElem?.2
  exact ⟨k, by rw [List.getElem?_set_ne (Ne.symm hkn), hk]⟩

theorem mem_set_self {T : Type} {threads : List T} {n : ℕ} {u : T} (v : T)
    (hn : threads[n]? = some u) : v ∈ threads.set n v :=
  List.mem_set (List.getElem?_eq_some_iff.1 hn).1 v

section Threads

variable {Op : Type} {Reply : Op → Type} {φ ε α ι : Type}

/-- Some thread will still issue a call that answers `i`. -/
def Pending (answer : ι → Op → Prop) (threads : List (Program Op Reply φ ε α))
    (i : ι) : Prop :=
  ∃ t ∈ threads, t.AwaitsCall (fun _ _ => True) (answer i)

variable {asks answer : ι → Op → Prop} {threads : List (Program Op Reply φ ε α)}
  {n : ℕ} {op : Op} {next : Except φ (Reply op) → Program Op Reply φ ε α}

theorem Pending.of_finished {i : ι} (hall : ∀ t ∈ threads, t.finished = true) :
    ¬ Pending answer threads i := by
  rintro ⟨t, ht, hawait⟩
  have hfin := hawait.not_finished
  rw [hall t ht] at hfin
  cases hfin

theorem Pending.append {i : ι} (more : List (Program Op Reply φ ε α))
    (h : Pending answer threads i) : Pending answer (threads ++ more) i := by
  obtain ⟨t, ht, hawait⟩ := h
  exact ⟨t, List.mem_append_left more ht, hawait⟩

/-- A turn of one thread keeps what is pending, except for what its call
answers. -/
theorem Pending.set {i : ι} {r : Reply op} (h : Pending answer threads i)
    (hn : threads[n]? = some (.call op next)) (hop : ¬ answer i op) :
    Pending answer (threads.set n (next (.ok r))) i := by
  obtain ⟨t, ht, hawait⟩ := h
  by_cases hcall : t = .call op next
  · subst hcall
    exact ⟨_, mem_set_self _ hn, hawait.step hop trivial⟩
  · exact ⟨t, mem_set_of_ne _ ht hn hcall, hawait⟩

/-- A call that asks for `i` leaves it pending. -/
theorem Pending.of_asks {i : ι} {r : Reply op}
    (hanswers : ∀ t ∈ threads, t.Answers asks answer)
    (hn : threads[n]? = some (.call op next)) (hasks : asks i op) :
    Pending answer (threads.set n (next (.ok r))) i := by
  have hcall := hanswers _ (List.mem_of_getElem? hn)
  exact ⟨_, mem_set_self _ hn, (hcall r).1 i hasks⟩

theorem answers_set {r : Reply op} (hanswers : ∀ t ∈ threads, t.Answers asks answer)
    (hn : threads[n]? = some (.call op next)) :
    ∀ t ∈ threads.set n (next (.ok r)), t.Answers asks answer := by
  intro t ht
  rcases List.mem_or_eq_of_mem_set ht with ht | rfl
  · exact hanswers t ht
  · exact ((hanswers _ (List.mem_of_getElem? hn)) r).2

section Lawful

variable {F : Type} {uses : Op → Set F} {learns : ∀ op, Reply op → Set F} {G G' : F → Prop}

/-- Every thread uses only facts it knows, and knows only facts that are good. -/
def Lawful (uses : Op → Set F) (learns : ∀ op, Reply op → Set F) (G : F → Prop)
    (threads : List (Program Op Reply φ ε α)) : Prop :=
  ∀ t ∈ threads, ∃ known : Set F, (∀ f ∈ known, G f) ∧ t.Obeys uses learns known

theorem Lawful.mono (h : Lawful uses learns G threads) (himp : ∀ f, G f → G' f) :
    Lawful uses learns G' threads := by
  intro t ht
  obtain ⟨known, hknown, hobeys⟩ := h t ht
  exact ⟨known, fun f hf => himp f (hknown f hf), hobeys⟩

theorem Lawful.append {t : Program Op Reply φ ε α} {known : Set F}
    (h : Lawful uses learns G threads) (hknown : ∀ f ∈ known, G f)
    (ht : t.Obeys uses learns known) : Lawful uses learns G (threads ++ [t]) := by
  intro u hu
  rcases List.mem_append.1 hu with hu | hu
  · exact h u hu
  · rw [List.mem_singleton.1 hu]
    exact ⟨known, hknown, ht⟩

/-- What the next call of a lawful thread uses is good. -/
theorem Lawful.good (h : Lawful uses learns G threads)
    (hn : threads[n]? = some (.call op next)) : ∀ f ∈ uses op, G f := by
  obtain ⟨known, hknown, hobeys⟩ := h _ (List.mem_of_getElem? hn)
  exact fun f hf => hknown f (hobeys.1 hf)

/-- A turn that teaches only good facts keeps the threads lawful. -/
theorem Lawful.set_ok {r : Reply op} (h : Lawful uses learns G threads)
    (hn : threads[n]? = some (.call op next)) (hlearns : ∀ f ∈ learns op r, G f) :
    Lawful uses learns G (threads.set n (next (.ok r))) := by
  intro t ht
  rcases List.mem_or_eq_of_mem_set ht with ht | rfl
  · exact h t ht
  · obtain ⟨known, hknown, hobeys⟩ := h _ (List.mem_of_getElem? hn)
    exact ⟨_, fun f hf => hf.elim (hknown f) (hlearns f), hobeys.2.1 r⟩

theorem Lawful.set_error {m : φ} (h : Lawful uses learns G threads)
    (hn : threads[n]? = some (.call op next)) :
    Lawful uses learns G (threads.set n (next (.error m))) := by
  intro t ht
  rcases List.mem_or_eq_of_mem_set ht with ht | rfl
  · exact h t ht
  · obtain ⟨known, hknown, hobeys⟩ := h _ (List.mem_of_getElem? hn)
    exact ⟨known, hknown, hobeys.2.2 m⟩

end Lawful

end Threads

end Interleaving
