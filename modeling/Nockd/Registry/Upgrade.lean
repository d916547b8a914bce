import Nockd.Registry.Sql

/-!
# Opening an older file

After opening, a file has every column that the statements name, if it lacks none but those that
came later. What its rows had they keep, and opening it once more changes nothing.
-/

namespace Nockd

namespace Sql

open Sheet

variable {db : Database} {fails : String × String → Bool} {table c : String}

/-- The columns that are added to a table. -/
def added (fails : String × String → Bool) (table : String) : List String :=
  (alters.filter fun a => a.1 = table ∧ fails a = false).map Prod.snd

theorem sheets_create (db : Database) (first : String × List String) (table : String) :
    (db.create first).sheets table =
      if table = first.1 then (db.sheets table).or (some { columns := first.2 })
      else db.sheets table := by
  unfold Database.create
  split
  case h_1 t ht =>
    split
    case isTrue heq => rw [heq, ht, Option.some_or]
    case isFalse => rfl
  case h_2 hnone =>
    split
    case isTrue heq =>
      rw [heq, hnone, Option.none_or]
      exact Function.update_self _ _ _
    case isFalse hne => exact Function.update_of_ne hne _ _

theorem sheets_creates (tables : List (String × List String)) (db : Database) (table : String) :
    (tables.foldl Database.create db).sheets table =
      (db.sheets table).or ((tables.lookup table).map fun columns => { columns }) := by
  induction tables generalizing db with
  | nil => simp
  | cons first tables ih =>
      rw [List.foldl_cons, ih, sheets_create, List.lookup_cons]
      by_cases htable : table = first.1
      · subst htable
        rw [if_pos rfl, beq_self_eq_true]
        cases db.sheets first.1 <;> rfl
      · rw [if_neg htable, beq_false_of_ne htable]

theorem sheets_tolerate (db : Database) (first : String × String) (table : String) :
    (db.tolerate fails first).sheets table =
      if first.1 = table ∧ fails first = false then
        (db.sheets table).map fun t => (t.addColumn .null first.2).getD t
      else db.sheets table := by
  unfold Database.tolerate
  cases hfails : fails first with
  | true => simp
  | false =>
      simp only [Bool.false_eq_true, if_false, and_true]
      unfold Database.alter
      cases hsheet : db.sheets first.1 with
      | none =>
          by_cases htable : first.1 = table
          · rw [if_pos htable, ← htable, hsheet]
            exact hsheet
          · rw [if_neg htable]
            rfl
      | some t =>
          cases hadd : t.addColumn .null first.2 with
          | none =>
              by_cases htable : first.1 = table
              · rw [if_pos htable, ← htable, hsheet, Option.map_some, hadd]
                simp [hadd, hsheet]
              · rw [if_neg htable]
                simp [hadd]
          | some t' =>
              by_cases htable : first.1 = table
              · rw [if_pos htable, ← htable, hsheet]
                simp [hadd]
              · rw [if_neg htable]
                simp [hadd, Function.update_of_ne (Ne.symm htable)]

theorem sheets_tolerates (columns : List (String × String)) (db : Database) (table : String) :
    (columns.foldl (Database.tolerate fails) db).sheets table =
      (db.sheets table).map fun t => t.addColumns .null
        ((columns.filter fun a => a.1 = table ∧ fails a = false).map Prod.snd) := by
  induction columns generalizing db with
  | nil =>
      change db.sheets table = (db.sheets table).map fun t => t
      exact Option.map_id'.symm
  | cons first columns ih =>
      rw [List.foldl_cons, ih, sheets_tolerate, List.filter_cons]
      by_cases hfirst : first.1 = table ∧ fails first = false
      · rw [if_pos hfirst, if_pos (decide_eq_true hfirst), Option.map_map]
        rfl
      · rw [if_neg hfirst, if_neg (by simpa using hfirst)]

/-- What opening does to each table. -/
theorem sheets_opened (db : Database) (fails : String × String → Bool) (table : String) :
    (db.opened fails).sheets table =
      ((db.sheets table).or ((schema.lookup table).map fun columns => { columns })).map
        fun t => t.addColumns .null (added fails table) := by
  unfold Database.opened
  rw [sheets_tolerates, sheets_creates]
  rfl

theorem sequence_foldl {α : Type} {f : Database → α → Database}
    (h : ∀ db x, (f db x).sequence = db.sequence) (xs : List α) (db : Database) :
    (xs.foldl f db).sequence = db.sequence := by
  induction xs generalizing db with
  | nil => rfl
  | cons x xs ih => exact (ih _).trans (h db x)

theorem sequence_opened (db : Database) (fails : String × String → Bool) :
    (db.opened fails).sequence = db.sequence := by
  have hcreate (db : Database) (table : String × List String) :
      (db.create table).sequence = db.sequence := by
    unfold Database.create
    split <;> rfl
  have htolerate (db : Database) (column : String × String) :
      (db.tolerate fails column).sequence = db.sequence := by
    unfold Database.tolerate Database.alter
    split
    · rfl
    · cases db.sheets column.1 with
      | none => rfl
      | some t => cases ht : t.addColumn .null column.2 <;> simp [ht]
  exact (sequence_foldl htolerate _ _).trans (sequence_foldl hcreate _ _)

theorem mem_added : c ∈ added fails table ↔ (table, c) ∈ alters ∧ fails (table, c) = false := by
  unfold added
  simp

def Database.Has (db : Database) (table c : String) : Prop :=
  ∃ t, db.sheets table = some t ∧ c ∈ t.columns

theorem has_opened_iff {columns : List String} (htable : schema.lookup table = some columns)
    (hc : c ∈ columns) : (db.opened fails).Has table c ↔
      ∀ t, db.sheets table = some t → c ∈ t.columns ∨
        (table, c) ∈ alters ∧ fails (table, c) = false := by
  unfold Database.Has
  rw [sheets_opened, htable]
  cases hsheet : db.sheets table with
  | none =>
      refine ⟨fun _ => nofun, fun _ => ⟨_, rfl, ?_⟩⟩
      exact mem_addColumns.2 (Or.inl hc)
  | some t =>
      rw [Option.some_or, Option.map_some]
      constructor
      · rintro ⟨_, ⟨⟩, hmem⟩ _ ⟨⟩
        exact (mem_addColumns.1 hmem).imp_right mem_added.1
      · exact fun h => ⟨_, rfl, mem_addColumns.2 ((h t rfl).imp_right mem_added.2)⟩

/-- Opening a file again changes nothing, unless an `ALTER` that has failed does not now. -/
theorem opened_opened (db : Database) {fails later : String × String → Bool}
    (hlater : ∀ column ∈ alters, fails column = true → later column = true) :
    (db.opened fails).opened later = db.opened fails := by
  have hadded (table : String) : ∀ c ∈ added later table, c ∈ added fails table := fun c hc => by
    obtain ⟨hmem, hok⟩ := mem_added.1 hc
    refine mem_added.2 ⟨hmem, Bool.eq_false_iff.2 fun hfails => ?_⟩
    rw [hlater _ hmem hfails] at hok
    cases hok
  have hsheets : ((db.opened fails).opened later).sheets = (db.opened fails).sheets := by
    funext table
    rw [sheets_opened (db.opened fails)]
    cases hopened : (db.opened fails).sheets table with
    | none =>
        rw [sheets_opened, Option.map_eq_none_iff, Option.or_eq_none_iff] at hopened
        rw [Option.none_or, hopened.2]
        rfl
    | some t =>
        rw [sheets_opened, Option.map_eq_some_iff] at hopened
        obtain ⟨t', -, rfl⟩ := hopened
        rw [Option.some_or, Option.map_some]
        exact congrArg some (addColumns_of_subset fun c hc =>
          mem_addColumns.2 (Or.inr (hadded table c hc)))
  have hsequence := sequence_opened (db.opened fails) later
  generalize (db.opened fails).opened later = db' at hsheets hsequence ⊢
  cases db'
  cases hopened : db.opened fails
  rw [hopened] at hsheets hsequence
  subst hsheets hsequence
  rfl

/-- Opening a file, of whatever age, keeps its rows, with NULL in the columns that are added.
Every column of the schema is there if and only if the file lacked only columns that an `ALTER`
adds, and these have not failed. To open it again changes nothing, unless an `ALTER` that has
failed does not then. -/
theorem opened_upgrades (db : Database) (fails : String × String → Bool) :
    (∀ table t, db.sheets table = some t → ∃ later : List String, (∀ c ∈ later, c ∉ t.columns) ∧
      (db.opened fails).sheets table = some
        { columns := t.columns ++ later
          rows := t.rows.map fun row c => if c ∈ later then .null else row c }) ∧
    (db.opened fails).sequence = db.sequence ∧
    ((∀ e ∈ schema, ∀ c ∈ e.2, (db.opened fails).Has e.1 c) ↔
      ∀ e ∈ schema, ∀ t, db.sheets e.1 = some t → ∀ c ∈ e.2, c ∈ t.columns ∨
        (e.1, c) ∈ alters ∧ fails (e.1, c) = false) ∧
    ∀ later : String × String → Bool,
      (∀ column ∈ alters, fails column = true → later column = true) →
        (db.opened fails).opened later = db.opened fails := by
  refine ⟨fun table t hsheet => ?_, sequence_opened db fails, ?_, fun _ => opened_opened db⟩
  · obtain ⟨later, hlater, heq⟩ := addColumns_eq t .null (added fails table)
    refine ⟨later, hlater, ?_⟩
    rw [sheets_opened, hsheet, ← heq]
    rfl
  · have hlookup : ∀ e ∈ schema, schema.lookup e.1 = some e.2 := by decide
    constructor
    · intro h e he t hsheet c hc
      exact (has_opened_iff (hlookup e he) hc).1 (h e he c hc) t hsheet
    · intro h e he c hc
      exact (has_opened_iff (hlookup e he) hc).2 fun t hsheet => h e he t hsheet c hc

end Sql

end Nockd
