import Mathlib.Algebra.Group.Int.Defs
import Mathlib.Data.String.Basic
import Nockd.Data.SortedMap

/-!
# JSON documents

A `Json` is a document as its text lists it: members in the order of the text, and a key
may occur twice. A `Value` is a document whose objects are sorted maps, as a library keeps
them in memory; reading a document into a `Value` changes nothing in a document that is
sorted. A structure is read from the members that it knows.
-/

inductive Json.Number where
  | int (n : ℤ)
  /-- Any other number, as its text. -/
  | float (text : String)
deriving DecidableEq

inductive Json where
  | null
  | bool (b : Bool)
  | num (n : Json.Number)
  | str (s : String)
  | arr (xs : List Json)
  | obj (members : List (String × Json))

namespace Json

/-! ## Values -/

mutual

/-- The document with its objects as maps. -/
def normalize : Json → Json
  | .arr xs => .arr (normalizeAll xs)
  | .obj members => .obj (SortedMap.ofList (normalizeMembers members))
  | j => j

def normalizeAll : List Json → List Json
  | [] => []
  | x :: xs => x.normalize :: normalizeAll xs

def normalizeMembers : List (String × Json) → List (String × Json)
  | [] => []
  | (k, x) :: members => (k, x.normalize) :: normalizeMembers members

end

/-- All objects of the document are sorted. -/
inductive Sorted : Json → Prop where
  | null : Sorted .null
  | bool (b : Bool) : Sorted (.bool b)
  | num (n : Number) : Sorted (.num n)
  | str (s : String) : Sorted (.str s)
  | arr {xs : List Json} : (∀ x ∈ xs, Sorted x) → Sorted (.arr xs)
  | obj {members : List (String × Json)} : (∀ x ∈ members, Sorted x.2) →
      SortedMap.Sorted members → Sorted (.obj members)

mutual

theorem sorted_normalize : ∀ j : Json, j.normalize.Sorted
  | .null => .null
  | .bool b => .bool b
  | .num n => .num n
  | .str s => .str s
  | .arr xs => .arr (sorted_normalizeAll xs)
  | .obj members => .obj
      (fun x hx => sorted_normalizeMembers members x (SortedMap.mem_ofList hx))
      (SortedMap.sorted_ofList _)

theorem sorted_normalizeAll : ∀ xs : List Json, ∀ x ∈ normalizeAll xs, x.Sorted
  | [], _, hx => absurd hx List.not_mem_nil
  | y :: ys, x, hx => (List.mem_cons.1 hx).elim (fun heq => heq ▸ sorted_normalize y)
      (sorted_normalizeAll ys x)

theorem sorted_normalizeMembers :
    ∀ members : List (String × Json), ∀ x ∈ normalizeMembers members, x.2.Sorted
  | [], _, hx => absurd hx List.not_mem_nil
  | (_, y) :: ys, x, hx => (List.mem_cons.1 hx).elim (fun heq => heq ▸ sorted_normalize y)
      (sorted_normalizeMembers ys x)

end

theorem normalizeAll_eq {xs : List Json} (h : ∀ x ∈ xs, x.normalize = x) :
    normalizeAll xs = xs := by
  induction xs with
  | nil => rfl
  | cons x xs ih =>
      rw [normalizeAll, h x List.mem_cons_self, ih fun y hy => h y (List.mem_cons_of_mem _ hy)]

theorem normalizeMembers_eq {members : List (String × Json)}
    (h : ∀ x ∈ members, x.2.normalize = x.2) : normalizeMembers members = members := by
  induction members with
  | nil => rfl
  | cons x members ih =>
      rw [normalizeMembers, h x List.mem_cons_self,
        ih fun y hy => h y (List.mem_cons_of_mem _ hy)]

theorem Sorted.normalize {j : Json} (h : j.Sorted) : j.normalize = j := by
  induction h with
  | arr _ ih => rw [Json.normalize, normalizeAll_eq ih]
  | obj _ hsorted ih =>
      rw [Json.normalize, normalizeMembers_eq ih, SortedMap.ofList_of_sorted hsorted]
  | _ => rfl

/-- A document as it is kept in memory. -/
structure Value where
  json : Json
  sorted : json.Sorted

def toValue (j : Json) : Value := ⟨j.normalize, sorted_normalize j⟩

/-- A value that is read again is the same. -/
theorem toValue_json (v : Value) : v.json.toValue = v := by
  obtain ⟨j, hj⟩ := v
  unfold toValue
  congr 1
  exact hj.normalize

/-! ## Structures -/

/-- The members that a structure with these keys reads. A known key occurs at most once,
other keys are ignored, and a list gives the members in order. -/
def members (known : List String) : Json → Option (List (String × Json))
  | .obj xs =>
    let xs := xs.filter fun x => x.1 ∈ known
    if (xs.map Prod.fst).Nodup then some xs else none
  | .arr xs => if xs.length ≤ known.length then some (known.zip xs) else none
  | _ => none

variable {α : Type}

def required (xs : List (String × Json)) (key : String) (read : Json → Option α) : Option α :=
  (xs.lookup key).bind read

def withDefault (xs : List (String × Json)) (key : String) (default : α)
    (read : Json → Option α) : Option α :=
  match xs.lookup key with
  | some j => read j
  | none => some default

/-- Exactly the known members, in any order, are all read. -/
theorem members_obj {known : List String} {xs : List (String × Json)}
    (h : xs.map Prod.fst = known) (hknown : known.Nodup) :
    members known (.obj xs) = some xs := by
  have hfilter : (xs.filter fun x => x.1 ∈ known) = xs :=
    List.filter_eq_self.2 fun x hx =>
      decide_eq_true (h ▸ List.mem_map_of_mem hx)
  rw [members, hfilter, if_pos (h ▸ hknown)]

theorem lookup_of_mem {xs : List (String × Json)} (hnodup : (xs.map Prod.fst).Nodup)
    {x : String × Json} (hx : x ∈ xs) : xs.lookup x.1 = some x.2 := by
  induction xs with
  | nil => exact absurd hx List.not_mem_nil
  | cons y xs ih =>
      obtain ⟨hy, hxs⟩ := List.nodup_cons.1 hnodup
      rcases List.mem_cons.1 hx with rfl | hx
      · exact List.lookup_cons_self
      · have hne : x.1 ≠ y.1 := fun heq => hy (heq ▸ List.mem_map_of_mem hx)
        rw [List.lookup_cons, beq_false_of_ne hne]
        exact ih hxs hx

/-! ## Fields -/

def asString : Json → Option String
  | .str s => some s
  | _ => none

def asInt64 : Json → Option Int64
  | .num (.int n) => if -2 ^ 63 ≤ n ∧ n < 2 ^ 63 then some (Int64.ofInt n) else none
  | _ => none

def asUInt16 : Json → Option UInt16
  | .num (.int n) => if 0 ≤ n ∧ n < 2 ^ 16 then some (UInt16.ofNat n.toNat) else none
  | _ => none

def asList (read : Json → Option α) : Json → Option (List α)
  | .arr xs => xs.mapM read
  | _ => none

def asOption (read : Json → Option α) : Json → Option (Option α)
  | .null => some none
  | j => (read j).map some

def ofInt (n : ℤ) : Json := .num (.int n)

def ofOption (write : α → Json) : Option α → Json
  | none => .null
  | some a => write a

theorem asInt64_ofInt (n : Int64) : asInt64 (ofInt n.toInt) = some n := by
  have hrange : -2 ^ 63 ≤ n.toInt ∧ n.toInt < 2 ^ 63 := ⟨n.le_toInt, n.toInt_lt⟩
  rw [ofInt, asInt64, if_pos hrange, Int64.ofInt_toInt]

theorem asUInt16_ofInt (n : UInt16) : asUInt16 (ofInt n.toNat) = some n := by
  have hrange : (0 : ℤ) ≤ n.toNat ∧ (n.toNat : ℤ) < 2 ^ 16 :=
    ⟨Int.natCast_nonneg _, by exact_mod_cast n.toNat_lt⟩
  rw [ofInt, asUInt16, if_pos hrange, Int.toNat_natCast, UInt16.ofNat_toNat]

theorem asList_arr {read : Json → Option α} {write : α → Json}
    (h : ∀ a, read (write a) = some a) (xs : List α) :
    asList read (.arr (xs.map write)) = some xs := by
  rw [asList]
  induction xs with
  | nil => rfl
  | cons x xs ih => simp [h, ih]

/-- What is written is never `null`. -/
theorem asOption_ofOption {read : Json → Option α} {write : α → Json}
    (h : ∀ a, read (write a) = some a) (hnull : ∀ a, write a ≠ .null) (a : Option α) :
    asOption read (ofOption write a) = some a := by
  cases a with
  | none => rfl
  | some a =>
      have hread : asOption read (write a) = (read (write a)).map some := by
        cases hw : write a with
        | null => exact absurd hw (hnull a)
        | _ => rfl
      rw [ofOption, hread, h, Option.map_some]

end Json

/-- How documents are written, and what a text is read as. -/
structure JsonText where
  print : Json → String
  parse : String → Option Json

/-- The document comes back from its text. -/
def JsonText.Keeps (json : JsonText) (j : Json) : Prop := json.parse (json.print j) = some j
