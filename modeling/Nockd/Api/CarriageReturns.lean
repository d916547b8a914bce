import Nockd.Api.LogFollow

/-!
# Carriage returns in a log

`Event::data` panics on a carriage return. `str::lines` takes away the one directly before a
line feed, and no other: not one in the middle of a line, not one before a NUL, and not one
at the end of what has been read.
-/

namespace Nockd

namespace Api

open Config Lines Store Utf8

variable {f : Follower} {t : Tick} {ticks : List Tick} {lines : List Bytes}

namespace Follower

/-- No carriage return has been passed to `Event::data`. -/
def Clean (f : Follower) : Prop := ∀ text ∈ f.data, 13 ∉ text

/-- What a tick reads has its carriage returns directly before line feeds. -/
def ReadsCrLf (f : Follower) (t : Tick) : Prop :=
  f.Finds t → f.Reads t → CrLf (t.log.drop (f.start t))

theorem plain_iff {text : Bytes} : LogsSse.plain text = true ↔ 13 ∉ text := by
  simp [LogsSse.plain]

/-- All lines are passed, or the first that has a carriage return. -/
theorem clean_emit_iff :
    (f.emit LogsSse.plain lines).Clean ↔ f.Clean ∧ ∀ line ∈ lines, 13 ∉ line := by
  induction lines generalizing f with
  | nil => simp [emit]
  | cons line lines ih =>
      have hdata (panicked : Bool) :
          Clean { f with data := f.data ++ [stripNul line], panicked } ↔
            f.Clean ∧ 13 ∉ line := by
        unfold Clean
        rw [List.forall_mem_append, List.forall_mem_singleton, mem_stripNul (by decide)]
      rw [emit, List.forall_mem_cons, ← and_assoc]
      by_cases h : LogsSse.plain (stripNul line) = true
      · rw [if_pos h, ih, hdata]
      · rw [if_neg h, hdata]
        rw [plain_iff, mem_stripNul (by decide)] at h
        tauto

/-- The stream is gone only after a carriage return. -/
def Honest (f : Follower) : Prop := f.panicked = true → ¬ f.Clean

theorem Honest.emit (hf : f.Honest) : (f.emit LogsSse.plain lines).Honest := by
  intro hpanicked hclean
  obtain ⟨hbefore, hlines⟩ := clean_emit_iff.1 hclean
  cases halive : f.panicked with
  | true => exact hf halive hbefore
  | false =>
      have hplain : ∀ line ∈ lines, LogsSse.plain (stripNul line) = true := fun line hline =>
        plain_iff.2 ((mem_stripNul (by decide)).not.2 (hlines line hline))
      rw [(emit_panicked halive).2 hplain] at hpanicked
      cases hpanicked

theorem tick_data_of_reads (hf : f.panicked = false) (hfinds : f.Finds t) (hreads : f.Reads t) :
    (f.tick LogsSse.plain t).data = ({ f with offset := f.start t }.emit LogsSse.plain
        (strLines (t.log.drop (f.start t)))).data ∧
      (f.tick LogsSse.plain t).panicked = ({ f with offset := f.start t }.emit LogsSse.plain
        (strLines (t.log.drop (f.start t)))).panicked := by
  rw [tick_of_reads hf hfinds hreads]
  dsimp only
  split <;> exact ⟨rfl, rfl⟩

theorem Honest.tick (hf : f.Honest) : (f.tick LogsSse.plain t).Honest := by
  cases halive : f.panicked with
  | true => rwa [tick_of_panicked halive]
  | false =>
      by_cases hboth : f.Finds t ∧ f.Reads t
      · have hemit : Honest ({ f with offset := f.start t }.emit LogsSse.plain
            (strLines (t.log.drop (f.start t)))) := Honest.emit hf
        obtain ⟨hdata, hpanicked⟩ := tick_data_of_reads halive hboth.1 hboth.2
        unfold Honest Clean at hemit ⊢
        rwa [hdata, hpanicked]
      · rcases tick_of_not_reads halive hboth with htick | htick <;>
        · rw [htick]
          exact hf

theorem clean_tick_iff (hf : f.Honest) :
    (f.tick LogsSse.plain t).Clean ↔ f.Clean ∧ f.ReadsCrLf t := by
  unfold ReadsCrLf
  cases halive : f.panicked with
  | true =>
      rw [tick_of_panicked halive]
      exact ⟨fun h => absurd h (hf halive), fun h => h.1⟩
  | false =>
      by_cases hboth : f.Finds t ∧ f.Reads t
      · have hclean : Clean ({ f with offset := f.start t }.emit LogsSse.plain
            (strLines (t.log.drop (f.start t)))) ↔
              f.Clean ∧ CrLf (t.log.drop (f.start t)) := by
          rw [clean_emit_iff, crLf_iff]
          exact Iff.rfl
        rw [Clean, (tick_data_of_reads halive hboth.1 hboth.2).1]
        exact hclean.trans (by simp [hboth.1, hboth.2])
      · have hdata : (f.tick LogsSse.plain t).data = f.data := by
          rcases tick_of_not_reads halive hboth with htick | htick <;> rw [htick]
        rw [Clean, hdata]
        exact ⟨fun h => ⟨h, fun hfinds hreads => absurd ⟨hfinds, hreads⟩ hboth⟩, fun h => h.1⟩

theorem clean_follow_iff (hf : f.Honest) :
    (f.follow LogsSse.plain ticks).Clean ↔
      f.Clean ∧ f.AtEach LogsSse.plain ReadsCrLf ticks := by
  induction ticks generalizing f with
  | nil => simp [follow, AtEach]
  | cons t ticks ih =>
      have hfollow : f.follow LogsSse.plain (t :: ticks) =
          (f.tick LogsSse.plain t).follow LogsSse.plain ticks := rfl
      rw [hfollow, ih hf.tick, clean_tick_iff hf, AtEach, and_assoc]

end Follower

open Follower

theorem honest_logsSse (fileLen : Option ℕ) (c : FileCalls) :
    (logsSse LogsSse.plain fileLen c).Honest :=
  Honest.emit nofun

theorem clean_logsSse_iff (fileLen : Option ℕ) (c : FileCalls) :
    (logsSse LogsSse.plain fileLen c).Clean ↔ CrLf (lastLines 200 (c.tail (128 * 1024))) := by
  have hnone : Clean { offset := fileLen.getD 0 } := fun _ htext => nomatch htext
  unfold logsSse
  rw [clean_emit_iff, and_iff_right hnone, crLf_iff, strLines_lastLines, readTail,
    strLines_lossy, List.length_map, ← List.map_drop, List.forall_mem_map]
  exact forall₂_congr fun line _ => not_congr (mem_lossy (by decide))

/-- Nothing that `logs_sse` passes to `Event::data` has a carriage return, in the seed or after
it, if and only if each carriage return of the last 200 lines of the tail, and of what each
tick reads, is directly before a line feed. -/
theorem never_panics_iff (fileLen : Option ℕ) (c : FileCalls) (ticks : List Tick) :
    (∀ text ∈ ((logsSse LogsSse.plain fileLen c).follow LogsSse.plain ticks).data, 13 ∉ text) ↔
      CrLf (lastLines 200 (c.tail (128 * 1024))) ∧
        (logsSse LogsSse.plain fileLen c).AtEach LogsSse.plain ReadsCrLf ticks := by
  rw [← clean_logsSse_iff fileLen]
  exact clean_follow_iff (honest_logsSse fileLen c)

section Runs

/-- A progress bar: the line is written over before it ends. -/
theorem progress_panics :
    ¬ ∀ (fileLen : Option ℕ) (c : FileCalls) (ticks : List Tick),
      ∀ text ∈ ((logsSse LogsSse.plain fileLen c).follow LogsSse.plain ticks).data,
        13 ∉ text := by
  intro h
  exact absurd (h (some 4) (.quiet [53, 13, 54, 10]) []) (by decide)

end Runs

end Api

end Nockd
