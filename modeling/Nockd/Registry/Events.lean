import Nockd.Data.Cursor
import Nockd.Registry.Statements

/-!
# The event log

The rows of `event` stand in the order of their AUTOINCREMENT ids. A statement leaves them
alone or appends one row.
-/

namespace Nockd

namespace Registry

open Cursor

/-- `LIMIT`: a negative one is none. -/
def limited {α : Type} (limit : ℤ) (rows : List α) : List α :=
  if limit < 0 then rows else rows.take limit.toNat

/-- The newest events first. -/
def listEvents (r : Registry) (limit : ℤ) : List EventRow :=
  limited limit (r.event.insertionSort fun e e' => e'.id ≤ e.id)

/-- Events with id greater than `after`, oldest first. -/
def eventsSince (r : Registry) (after limit : ℤ) : List EventRow :=
  limited limit ((r.event.filter fun e => after < e.id).insertionSort fun e e' => e.id ≤ e'.id)

/-- The ids of the events go up, and the next one is larger than all of them. -/
structure Numbered (r : Registry) : Prop where
  ascending : Ascending (·.id) r.event
  bound : ∀ e ∈ r.event, e.id ≤ r.eventSeq

/-- The event that a statement appends. -/
def Statement.logs (now : ℤ) (id : ℕ) : Statement → Option EventRow
  | .addEvent appName kind detail => some { id, ts := now, appName, kind, detail }
  | _ => none

variable {r : Registry}

theorem event_exec (now : ℤ) (r : Registry) (st : Statement) :
    (st.exec now r).event = r.event ++ (st.logs now (r.eventSeq + 1)).toList := by
  cases st with
  | addEvent appName kind detail => rfl
  | addTrustedBuilder pubkey =>
      simp only [Statement.exec, addTrustedBuilder]
      split <;> simp [Statement.logs]
  | _ => exact (List.append_nil _).symm

theorem eventSeq_exec (now : ℤ) (r : Registry) (st : Statement) :
    (st.exec now r).eventSeq =
      r.eventSeq + (st.logs now (r.eventSeq + 1)).toList.length := by
  cases st with
  | addEvent appName kind detail => rfl
  | addTrustedBuilder pubkey =>
      simp only [Statement.exec, addTrustedBuilder]
      split <;> rfl
  | _ => rfl

theorem id_of_logs {st : Statement} {now : ℤ} {id : ℕ} {e : EventRow}
    (h : st.logs now id = some e) : e.id = id := by
  cases st with
  | addEvent appName kind detail =>
      cases h
      rfl
  | _ => cases h

theorem Numbered.exec (h : r.Numbered) (now : ℤ) (st : Statement) :
    (st.exec now r).Numbered := by
  have hseq := eventSeq_exec now r st
  have hevent := event_exec now r st
  cases hlogs : st.logs now (r.eventSeq + 1) with
  | none =>
      rw [hlogs] at hseq hevent
      simp only [Option.toList_none, List.length_nil, List.append_nil, Nat.add_zero] at hseq hevent
      exact ⟨hevent ▸ h.ascending, by rw [hevent, hseq]; exact h.bound⟩
  | some e =>
      rw [hlogs] at hseq hevent
      have hid := id_of_logs hlogs
      have hlt : ∀ e' ∈ r.event, e'.id < e.id := fun e' he' => by
        rw [hid]
        exact Nat.lt_succ_of_le (h.bound e' he')
      constructor
      · rw [hevent]
        exact h.ascending.append hlt
      · rw [hevent, hseq]
        intro e' he'
        rcases List.mem_append.1 he' with he' | he'
        · exact (h.bound e' he').trans (Nat.le_add_right _ _)
        · rw [List.mem_singleton.1 he', hid]
          rfl

/-! ## What the readers return -/

theorem eventsSince_eq (h : r.Numbered) (k n : ℕ) :
    r.eventsSince k n = (after (·.id) k r.event).take n := by
  have hsorted : (after (·.id) k r.event).Pairwise fun e e' => e.id ≤ e'.id :=
    h.ascending.after.imp le_of_lt
  unfold eventsSince limited
  rw [if_neg (by omega), Int.toNat_natCast]
  congr 1
  simpa [after] using hsorted.insertionSort_eq

theorem listEvents_eq (h : r.Numbered) (limit : ℤ) :
    r.listEvents limit = limited limit r.event.reverse := by
  have hperm : (r.event.insertionSort fun e e' => e'.id ≤ e.id).Perm r.event.reverse :=
    (List.perm_insertionSort _ _).trans (List.reverse_perm _).symm
  have hsorted : r.event.reverse.Pairwise fun e e' => e'.id ≤ e.id :=
    List.pairwise_reverse.2 (h.ascending.imp le_of_lt)
  unfold listEvents
  congr 1
  refine hperm.eq_of_pairwise (fun e e' he he' hle hle' => ?_)
    (List.pairwise_insertionSort _ _) hsorted
  exact h.ascending.key_inj ((List.mem_insertionSort _).1 he) (List.mem_reverse.1 he')
    (le_antisymm hle' hle)

end Registry

end Nockd
