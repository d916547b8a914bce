import Mathlib.Data.List.Basic

/-!
# Tags with quoted values

A text is read from left to right, in one of three modes: between tags, in a tag, or in a quoted
value of a tag. Its skeleton is what is left without the text between the tags and without the
values. What can be put into a text or a value without changing the skeleton is inert.
-/

namespace Skeleton

variable {α : Type}

inductive Mode where
  | text
  | tag
  | value
deriving DecidableEq

/-- The brackets of a tag, and the quote around a value. -/
structure Delimiters (α : Type) where
  lt : α
  gt : α
  quote : α

section Reading

variable [DecidableEq α] (d : Delimiters α)

def next : Mode → α → Mode
  | .text, c => if c = d.lt then .tag else .text
  | .tag, c => if c = d.gt then .text else if c = d.quote then .value else .tag
  | .value, c => if c = d.quote then .tag else .value

/-- The mode after a text. -/
def after (m : Mode) (s : List α) : Mode := s.foldl (next d) m

/-- The tags, with their values left out. -/
def bare : Mode → List α → List α
  | _, [] => []
  | m, c :: s => if m = .tag ∨ next d m c ≠ m then c :: bare (next d m c) s
      else bare (next d m c) s

/-- Nothing in it begins a tag or ends a value. -/
def Inert (s : List α) : Prop := ∀ c ∈ s, c ≠ d.lt ∧ c ≠ d.quote

/-- Two texts with the same skeleton, that leave a reader in the same mode. -/
structure Alike (m m' : Mode) (s t : List α) : Prop where
  left : after d m s = m'
  right : after d m t = m'
  bare : bare d m s = bare d m t

end Reading

variable {d : Delimiters α} {m m' m'' : Mode} {s s' t t' : List α}

theorem Inert.append (hs : Inert d s) (ht : Inert d t) : Inert d (s ++ t) := fun c hc =>
  (List.mem_append.1 hc).elim (hs c) (ht c)

theorem Inert.sublist (ht : Inert d t) (h : s.Sublist t) : Inert d s := fun c hc =>
  ht c (h.subset hc)

variable [DecidableEq α]

theorem after_append (m : Mode) (s t : List α) :
    after d m (s ++ t) = after d (after d m s) t := List.foldl_append

theorem bare_append (m : Mode) (s t : List α) :
    bare d m (s ++ t) = bare d m s ++ bare d (after d m s) t := by
  induction s generalizing m with
  | nil => rfl
  | cons c s ih =>
      have hafter : after d m (c :: s) = after d (next d m c) s := rfl
      rw [List.cons_append, bare, bare, hafter, ih]
      split <;> rfl

/-- Something inert keeps the mode, and leaves nothing. -/
theorem Inert.read (h : Inert d s) (hm : m ≠ .tag) : after d m s = m ∧ bare d m s = [] := by
  induction s with
  | nil => exact ⟨rfl, rfl⟩
  | cons c s ih =>
      obtain ⟨hlt, hquote⟩ := h c List.mem_cons_self
      have hnext : next d m c = m := by
        cases m with
        | text => exact if_neg hlt
        | tag => exact absurd rfl hm
        | value => exact if_neg hquote
      obtain ⟨hafter, hbare⟩ := ih fun c' hc' => h c' (List.mem_cons_of_mem c hc')
      refine ⟨?_, ?_⟩
      · rw [after, List.foldl_cons, hnext]
        exact hafter
      · rw [bare, hnext, if_neg (by simp [hm]), hbare]

namespace Alike

theorem nil (m : Mode) : Alike d m m [] [] := ⟨rfl, rfl, rfl⟩

theorem of_eq (h : after d m s = m') : Alike d m m' s s := ⟨h, h, rfl⟩

theorem inert (hs : Inert d s) (ht : Inert d t) (hm : m ≠ .tag) : Alike d m m s t := by
  obtain ⟨hs, hsbare⟩ := hs.read hm
  obtain ⟨ht, htbare⟩ := ht.read hm
  exact ⟨hs, ht, hsbare.trans htbare.symm⟩

theorem append (h : Alike d m m' s t) (h' : Alike d m' m'' s' t') :
    Alike d m m'' (s ++ s') (t ++ t') := by
  refine ⟨?_, ?_, ?_⟩
  · rw [after_append, h.left, h'.left]
  · rw [after_append, h.right, h'.right]
  · rw [bare_append, bare_append, h.bare, h.left, h.right, h'.bare]

/-- Pieces that are alike make up texts that are alike. -/
theorem cons {ss ts : List (List α)} (h : Alike d m m' s t)
    (h' : Alike d m' m'' ss.flatten ts.flatten) :
    Alike d m m'' (s :: ss).flatten (t :: ts).flatten := by
  rw [List.flatten_cons, List.flatten_cons]
  exact h.append h'

/-- Between the same literal pieces, what is inert does not matter. -/
theorem hole {ss ts : List (List α)} (hs : Inert d s) (ht : Inert d t) (hm : m ≠ .tag)
    (h : Alike d m m' ss.flatten ts.flatten) :
    Alike d m m' (s :: ss).flatten (t :: ts).flatten :=
  (inert hs ht hm).cons h

end Alike

end Skeleton
