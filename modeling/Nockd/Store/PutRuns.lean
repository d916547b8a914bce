import Nockd.Interleaving.Program
import Nockd.Store.Put

/-!
# When a put that returns has stored its bundle

`has` takes two existing files for a stored artifact, so a bundle with a kernel must
not be left, or be looked at, between the creation of `bin` and its `chmod`,
and no attempt may shorten a file that another one has already written.
`Orderly` says so of one action, in terms of where the attempts stand. In runs
of orderly actions every put that returns has stored the whole bundle.
-/

namespace Nockd

namespace Store

open Config Interleaving

namespace PutStep

/-- The attempt has written the kernel and has not returned. -/
def PastJam (a : PutStep) : Prop := a = .writeBin ∨ a = .writingBin ∨ a = .setMode

/-- The attempt may have left a file short, or `bin` without its mode. -/
def Busy (a : PutStep) : Prop := a = .writingJam ∨ a = .writingBin ∨ a = .setMode

instance : DecidablePred PastJam := fun _ => inferInstanceAs (Decidable (_ ∨ _ ∨ _))

instance : DecidablePred Busy := fun _ => inferInstanceAs (Decidable (_ ∨ _ ∨ _))

end PutStep

variable {paths : Paths} {hash : String} {jam : Option Bytes} {bin : Bytes}

/-- No attempt at a bundle with a kernel stops while `bin` exists and a file may
be unfinished, no put tests for the files meanwhile, and no write shortens a
file that another running attempt has written. -/
def Orderly (paths : Paths) (hash : String) (jam : Option Bytes) (s : Puts) :
    PutAction → Prop
  | .begin => True
  | .advance i => s.attempts[i]? = some .test → has paths hash s.disk = true →
      ∀ a ∈ s.attempts, ¬ a.Busy
  | .cut i _ =>
      (s.attempts[i]? = some .writeJam ∨ s.attempts[i]? = some .writingJam →
        ∀ a ∈ s.attempts, ¬ a.PastJam) ∧
      (s.attempts[i]? = some .writeBin ∨ s.attempts[i]? = some .writingBin →
        .setMode ∉ s.attempts)
  | .stop i => jam.isSome = true →
      s.attempts[i]? ≠ some .setMode ∧ s.attempts[i]? ≠ some .writingBin ∧
        (s.attempts[i]? = some .writingJam → s.disk (binFile paths hash) = none)

instance (s : Puts) : DecidablePred (Orderly paths hash jam s)
  | .begin => inferInstanceAs (Decidable True)
  | .advance _ => inferInstanceAs (Decidable (_ → _ → _))
  | .cut _ _ => inferInstanceAs (Decidable ((_ ∨ _ → _) ∧ (_ ∨ _ → _)))
  | .stop _ => inferInstanceAs (Decidable (_ → _ ∧ _ ∧ (_ → _)))

/-- The files as the attempts that have passed them left them. -/
structure PutInv (paths : Paths) (hash : String) (jam : Option Bytes) (bin : Bytes)
    (d : Disk) (attempts : List PutStep) : Prop where
  jamKept : ∀ j a, jam = some j → a ∈ attempts → a.PastJam →
    (d (jamFile paths hash)).map (·.bytes) = some j
  binKept : .setMode ∈ attempts → (d (binFile paths hash)).map (·.bytes) = some bin
  jamWhole : ∀ j, jam = some j → (d (binFile paths hash)).isSome = true →
    (d (jamFile paths hash)).map (·.bytes) = some j ∨ .writingJam ∈ attempts
  binWhole : jam.isSome = true → ∀ node, d (binFile paths hash) = some node →
    node = { bytes := bin, mode := 0o755 } ∨ .writingBin ∈ attempts ∨ .setMode ∈ attempts
  noJam : jam = none → d (jamFile paths hash) = none ∧
    .writeJam ∉ attempts ∧ .writingJam ∉ attempts

theorem PutInv.of_start {s : Puts} (h : s.start paths hash) :
    PutInv paths hash jam bin s.disk s.attempts := by
  obtain ⟨hnone, hjam, hbin⟩ := h
  rw [Disk.pathExists_eq_false] at hjam hbin
  constructor
  · intro j a _ ha
    simp [hnone] at ha
  · simp [hnone]
  · simp [hbin.1]
  · simp [hbin.1]
  · simp [hnone, hjam.1]

theorem writeJam_disk (paths : Paths) (hash : String) (j : Bytes) (d : Disk) :
    (writeJam paths hash j d (jamFile paths hash)).map (·.bytes) = some j ∧
      writeJam paths hash j d (binFile paths hash) = d (binFile paths hash) := by
  unfold writeJam Disk.write
  rw [Disk.set_self, Disk.set_of_ne _ _ (jamFile_ne_binFile paths hash).symm]
  exact ⟨rfl, rfl⟩

theorem writeBin_disk (paths : Paths) (hash : String) (b : Bytes) (d : Disk) :
    (writeBin paths hash b d (binFile paths hash)).map (·.bytes) = some b ∧
      writeBin paths hash b d (jamFile paths hash) = d (jamFile paths hash) := by
  unfold writeBin Disk.write
  rw [Disk.set_self, Disk.set_of_ne _ _ (jamFile_ne_binFile paths hash)]
  exact ⟨rfl, rfl⟩

theorem setMode_disk (paths : Paths) (hash : String) (d : Disk) :
    setMode paths hash d (binFile paths hash) =
        (d (binFile paths hash)).map (fun node => { node with mode := 0o755 }) ∧
      setMode paths hash d (jamFile paths hash) = d (jamFile paths hash) := by
  unfold setMode
  rw [Disk.set_self, Disk.set_of_ne _ _ (jamFile_ne_binFile paths hash)]
  exact ⟨rfl, rfl⟩

/-- What a turn of attempt `i` does to the state. -/
theorem turn_cases {s s' : Puts} {i : ℕ} {f : Disk → PutStep → Option (Disk × PutStep)}
    (h : s.turn i f = some s') :
    ∃ a d a', s.attempts[i]? = some a ∧ f s.disk a = some (d, a') ∧
      s' = { disk := d, attempts := s.attempts.set i a' } := by
  unfold Puts.turn at h
  cases ha : s.attempts[i]? with
  | none => simp [ha] at h
  | some a =>
      cases hf : f s.disk a with
      | none => simp [ha, hf] at h
      | some p =>
          simp only [ha, Option.bind_eq_bind, Option.bind_some, hf] at h
          exact ⟨a, p.1, p.2, rfl, hf, (Option.some.inj h).symm⟩

section Turns

variable {d : Disk} {attempts : List PutStep} {i : ℕ} {a : PutStep}

/-- A turn that leaves the disk alone, from a step that nothing speaks of. -/
theorem PutInv.idle (h : PutInv paths hash jam bin d attempts) (ha : attempts[i]? = some a)
    (a' : PutStep) (hbusy : ¬ a.Busy) (hpast : ∀ j, jam = some j → ¬ a'.PastJam)
    (hmode : a' ≠ .setMode)
    (hjam : jam = none → a' ≠ .writeJam ∧ a' ≠ .writingJam) :
    PutInv paths hash jam bin d (attempts.set i a') := by
  simp only [PutStep.Busy, not_or] at hbusy
  constructor
  · intro j b hj hb hpastb
    rcases List.mem_or_eq_of_mem_set hb with hb | rfl
    · exact h.jamKept j b hj hb hpastb
    · exact absurd hpastb (hpast j hj)
  · intro hb
    rcases List.mem_or_eq_of_mem_set hb with hb | rfl
    · exact h.binKept hb
    · exact absurd rfl hmode
  · intro j hj hbin
    exact (h.jamWhole j hj hbin).imp_right fun hw =>
      mem_set_of_ne a' hw ha (Ne.symm hbusy.1)
  · intro hj node hnode
    refine (h.binWhole hj node hnode).imp_right (Or.imp ?_ ?_)
    · exact fun hw => mem_set_of_ne a' hw ha (Ne.symm hbusy.2.1)
    · exact fun hw => mem_set_of_ne a' hw ha (Ne.symm hbusy.2.2)
  · intro hj
    obtain ⟨hdisk, hwrite, hwriting⟩ := h.noJam hj
    obtain ⟨hne, hne'⟩ := hjam hj
    refine ⟨hdisk, ?_, ?_⟩
    · intro hb
      exact (List.mem_or_eq_of_mem_set hb).elim hwrite (Ne.symm hne)
    · intro hb
      exact (List.mem_or_eq_of_mem_set hb).elim hwriting (Ne.symm hne')

/-- The kernel is written whole. -/
theorem PutInv.writeJam {j : Bytes} (h : PutInv paths hash (some j) bin d attempts)
    (ha : attempts[i]? = some a) (hbusy : a ≠ .writingBin ∧ a ≠ .setMode) :
    PutInv paths hash (some j) bin (Store.writeJam paths hash j d)
      (attempts.set i .writeBin) := by
  obtain ⟨hjamDisk, hbinDisk⟩ := writeJam_disk paths hash j d
  constructor
  · rintro j' b ⟨⟩ - -
    exact hjamDisk
  · intro hb
    rcases List.mem_or_eq_of_mem_set hb with hb | hb
    · rw [hbinDisk]
      exact h.binKept hb
    · cases hb
  · rintro j' ⟨⟩ -
    exact Or.inl hjamDisk
  · intro hj node hnode
    rw [hbinDisk] at hnode
    refine (h.binWhole hj node hnode).imp_right (Or.imp ?_ ?_)
    · exact fun hw => mem_set_of_ne _ hw ha (Ne.symm hbusy.1)
    · exact fun hw => mem_set_of_ne _ hw ha (Ne.symm hbusy.2)
  · intro hj
    cases hj

/-- A write of the kernel is under way, and nobody is past it. -/
theorem PutInv.cutJam {j b : Bytes} (h : PutInv paths hash (some j) bin d attempts)
    (ha : attempts[i]? = some a) (hbusy : a ≠ .writingBin ∧ a ≠ .setMode)
    (hpast : ∀ c ∈ attempts, ¬ c.PastJam) :
    PutInv paths hash (some j) bin (Store.writeJam paths hash b d)
      (attempts.set i .writingJam) := by
  have hbinDisk := (writeJam_disk paths hash b d).2
  constructor
  · rintro j' c ⟨⟩ hc hpastc
    rcases List.mem_or_eq_of_mem_set hc with hc | rfl
    · exact absurd hpastc (hpast c hc)
    · rcases hpastc with h | h | h <;> cases h
  · intro hb
    rcases List.mem_or_eq_of_mem_set hb with hb | hb
    · rw [hbinDisk]
      exact h.binKept hb
    · cases hb
  · rintro j' ⟨⟩ -
    exact Or.inr (mem_set_self _ ha)
  · intro hj node hnode
    rw [hbinDisk] at hnode
    refine (h.binWhole hj node hnode).imp_right (Or.imp ?_ ?_)
    · exact fun hw => mem_set_of_ne _ hw ha (Ne.symm hbusy.1)
    · exact fun hw => mem_set_of_ne _ hw ha (Ne.symm hbusy.2)
  · intro hj
    cases hj

/-- The binary is written, by an attempt that has written the kernel. -/
theorem PutInv.writeBin {b : Bytes} (h : PutInv paths hash jam bin d attempts)
    (ha : attempts[i]? = some a) (hpast : a.PastJam) (a' : PutStep)
    (hnext : a' = .setMode ∧ b = bin ∨ a' = .writingBin ∧ .setMode ∉ attempts) :
    PutInv paths hash jam bin (Store.writeBin paths hash b d) (attempts.set i a') := by
  obtain ⟨hbinDisk, hjamDisk⟩ := writeBin_disk paths hash b d
  have hmem : a ∈ attempts := List.mem_of_getElem? ha
  constructor
  · intro j c hj hc hpastc
    rw [hjamDisk]
    exact h.jamKept j a hj hmem hpast
  · intro hb
    rw [hbinDisk]
    rcases hnext with ⟨-, rfl⟩ | ⟨rfl, hnone⟩
    · rfl
    · rcases List.mem_or_eq_of_mem_set hb with hb | hb
      · exact absurd hb hnone
      · cases hb
  · intro j hj _
    rw [hjamDisk]
    exact Or.inl (h.jamKept j a hj hmem hpast)
  · intro hj node hnode
    right
    rcases hnext with ⟨rfl, -⟩ | ⟨rfl, -⟩
    · exact Or.inr (mem_set_self _ ha)
    · exact Or.inl (mem_set_self _ ha)
  · intro hj
    rw [hjamDisk]
    obtain ⟨hdisk, hwrite, hwriting⟩ := h.noJam hj
    refine ⟨hdisk, ?_, ?_⟩
    · intro hb
      rcases List.mem_or_eq_of_mem_set hb with hb | hb
      · exact hwrite hb
      · rcases hnext with ⟨rfl, -⟩ | ⟨rfl, -⟩ <;> cases hb
    · intro hb
      rcases List.mem_or_eq_of_mem_set hb with hb | hb
      · exact hwriting hb
      · rcases hnext with ⟨rfl, -⟩ | ⟨rfl, -⟩ <;> cases hb

/-- Making `bin` executable completes the bundle. -/
theorem PutInv.complete_setMode (h : PutInv paths hash jam bin d attempts)
    (ha : attempts[i]? = some .setMode) :
    Complete paths hash jam bin (Store.setMode paths hash d) := by
  obtain ⟨hbinDisk, hjamDisk⟩ := setMode_disk paths hash d
  have hmem : PutStep.setMode ∈ attempts := List.mem_of_getElem? ha
  constructor
  · rw [hbinDisk]
    obtain ⟨node, hnode, hbytes⟩ := Option.map_eq_some_iff.1 (h.binKept hmem)
    rw [hnode, Option.map_some, hbytes]
  · intro j hj
    rw [hjamDisk]
    exact h.jamKept j .setMode hj hmem (Or.inr (Or.inr rfl))

theorem PutInv.setMode (h : PutInv paths hash jam bin d attempts)
    (ha : attempts[i]? = some .setMode) :
    PutInv paths hash jam bin (Store.setMode paths hash d) (attempts.set i .ok) := by
  obtain ⟨hbin, hjam⟩ := h.complete_setMode ha
  constructor
  · exact fun j b hj _ _ => hjam j hj
  · intro _
    rw [hbin]
    rfl
  · exact fun j hj _ => Or.inl (hjam j hj)
  · intro _ node hnode
    left
    rw [hbin] at hnode
    exact (Option.some.inj hnode).symm
  · intro hj
    rw [(setMode_disk paths hash d).2]
    obtain ⟨hdisk, hwrite, hwriting⟩ := h.noJam hj
    refine ⟨hdisk, ?_, ?_⟩
    · intro hb
      exact (List.mem_or_eq_of_mem_set hb).elim hwrite (by simp)
    · intro hb
      exact (List.mem_or_eq_of_mem_set hb).elim hwriting (by simp)

/-- A stop that no unfinished file is left behind by. -/
theorem PutInv.stop (h : PutInv paths hash jam bin d attempts) (ha : attempts[i]? = some a)
    (horderly : Orderly paths hash jam { disk := d, attempts } (.stop i)) :
    PutInv paths hash jam bin d (attempts.set i .stopped) := by
  constructor
  · intro j b hj hb hpastb
    rcases List.mem_or_eq_of_mem_set hb with hb | rfl
    · exact h.jamKept j b hj hb hpastb
    · rcases hpastb with h | h | h <;> cases h
  · intro hb
    rcases List.mem_or_eq_of_mem_set hb with hb | hb
    · exact h.binKept hb
    · cases hb
  · intro j hj hbin
    refine (h.jamWhole j hj hbin).imp_right fun hw => mem_set_of_ne _ hw ha ?_
    rintro rfl
    have hnone : d (binFile paths hash) = none := (horderly (by rw [hj]; rfl)).2.2 ha
    rw [hnone] at hbin
    cases hbin
  · intro hj node hnode
    obtain ⟨hmode, hwriting, -⟩ := horderly hj
    rw [ha] at hmode hwriting
    refine (h.binWhole hj node hnode).imp_right (Or.imp ?_ ?_)
    · exact fun hw => mem_set_of_ne _ hw ha fun he => hwriting (congrArg some he.symm)
    · exact fun hw => mem_set_of_ne _ hw ha fun he => hmode (congrArg some he.symm)
  · intro hj
    obtain ⟨hdisk, hwrite, hwriting⟩ := h.noJam hj
    refine ⟨hdisk, ?_, ?_⟩
    · intro hb
      exact (List.mem_or_eq_of_mem_set hb).elim hwrite (by simp)
    · intro hb
      exact (List.mem_or_eq_of_mem_set hb).elim hwriting (by simp)

end Turns

theorem PutInv.step {s s' : Puts} {act : PutAction}
    (h : PutInv paths hash jam bin s.disk s.attempts)
    (horderly : Orderly paths hash jam s act) (hs : s.step paths hash jam bin act = some s') :
    PutInv paths hash jam bin s'.disk s'.attempts := by
  cases act with
  | begin =>
      cases hs
      constructor
      · intro j a hj ha hpast
        rcases List.mem_append.1 ha with ha | ha
        · exact h.jamKept j a hj ha hpast
        · rw [List.mem_singleton.1 ha] at hpast
          rcases hpast with h | h | h <;> cases h
      · exact fun hb => h.binKept (by simpa using hb)
      · exact fun j hj hbin => (h.jamWhole j hj hbin).imp_right (by simp)
      · exact fun hj node hnode =>
          (h.binWhole hj node hnode).imp_right (Or.imp (by simp) (by simp))
      · exact fun hj => (h.noJam hj).imp_right (by simp)
  | advance i =>
      obtain ⟨a, d, a', ha, hf, rfl⟩ := turn_cases hs
      have hmem : a ∈ s.attempts := List.mem_of_getElem? ha
      cases a with
      | test =>
          cases hf
          have hidle : ¬ PutStep.test.Busy := by simp [PutStep.Busy]
          cases hhas : has paths hash s.disk with
          | true => exact h.idle ha .ok hidle (by simp [PutStep.PastJam]) (by simp) (by simp)
          | false =>
              exact h.idle ha .createDir hidle (by simp [PutStep.PastJam]) (by simp) (by simp)
      | createDir =>
          cases hf
          have hidle : ¬ PutStep.createDir.Busy := by simp [PutStep.Busy]
          cases jam with
          | none => exact h.idle ha .writeBin hidle (by simp) (by simp) (by simp)
          | some j =>
              exact h.idle ha .writeJam hidle (by simp [PutStep.PastJam]) (by simp) (by simp)
      | writeJam =>
          cases hf
          cases jam with
          | none => exact absurd hmem (h.noJam rfl).2.1
          | some j => exact h.writeJam ha (by simp)
      | writingJam =>
          cases hf
          cases jam with
          | none => exact absurd hmem (h.noJam rfl).2.2
          | some j => exact h.writeJam ha (by simp)
      | writeBin =>
          cases hf
          exact h.writeBin ha (Or.inl rfl) _ (Or.inl ⟨rfl, rfl⟩)
      | writingBin =>
          cases hf
          exact h.writeBin ha (Or.inr (Or.inl rfl)) _ (Or.inl ⟨rfl, rfl⟩)
      | setMode =>
          cases hf
          exact h.setMode ha
      | ok => cases hf
      | stopped => cases hf
  | cut i n =>
      obtain ⟨a, d, a', ha, hf, rfl⟩ := turn_cases hs
      have hmem : a ∈ s.attempts := List.mem_of_getElem? ha
      cases a with
      | writeJam =>
          cases hf
          cases jam with
          | none => exact absurd hmem (h.noJam rfl).2.1
          | some j => exact h.cutJam ha (by simp) (horderly.1 (Or.inl ha))
      | writingJam =>
          cases hf
          cases jam with
          | none => exact absurd hmem (h.noJam rfl).2.2
          | some j => exact h.cutJam ha (by simp) (horderly.1 (Or.inr ha))
      | writeBin =>
          cases hf
          exact h.writeBin ha (Or.inl rfl) _ (Or.inr ⟨rfl, horderly.2 (Or.inl ha)⟩)
      | writingBin =>
          cases hf
          exact h.writeBin ha (Or.inr (Or.inl rfl)) _
            (Or.inr ⟨rfl, horderly.2 (Or.inr ha)⟩)
      | _ => cases hf
  | stop i =>
      obtain ⟨a, d, a', ha, hf, rfl⟩ := turn_cases (i := i)
        (f := fun d a => if a = .ok then none else some (d, .stopped)) hs
      have hstop : d = s.disk ∧ a' = .stopped := by
        by_cases hok : a = .ok
        · simp [hok] at hf
        · simp only [hok, if_false, Option.some.injEq, Prod.mk.injEq] at hf
          exact ⟨hf.1.symm, hf.2.symm⟩
      obtain ⟨rfl, rfl⟩ := hstop
      exact h.stop ha horderly

/-- No attempt makes a directory of a file that a test asks for. -/
theorem dirs_step {s s' : Puts} {act : PutAction} (hs : s.step paths hash jam bin act = some s') :
    s'.disk.dirs = s.disk.dirs := by
  cases act with
  | begin =>
      cases hs
      rfl
  | advance i =>
      obtain ⟨a, d, a', -, hf, rfl⟩ := turn_cases hs
      cases a <;> cases hf <;> rfl
  | cut i n =>
      obtain ⟨a, d, a', -, hf, rfl⟩ := turn_cases hs
      cases a <;> cases hf <;> rfl
  | stop i =>
      obtain ⟨a, d, a', -, hf, rfl⟩ := turn_cases (i := i)
        (f := fun d a => if a = .ok then none else some (d, .stopped)) hs
      split at hf <;> cases hf
      rfl

/-- Where there is no directory, `has` tells of files. -/
theorem has_eq {d : Disk} (hbin : d.dirs (binFile paths hash) = false)
    (hjam : d.dirs (jamFile paths hash) = false) :
    has paths hash d = ((d (binFile paths hash)).isSome && (d (jamFile paths hash)).isSome) := by
  simp [has, Disk.pathExists, hbin, hjam]

/-- Both files exist and no attempt is busy with them: they are whole. -/
theorem PutInv.complete_of_has {s : Puts}
    (h : PutInv paths hash jam bin s.disk s.attempts)
    (hdirs : s.disk.dirs (binFile paths hash) = false ∧ s.disk.dirs (jamFile paths hash) = false)
    (hhas : has paths hash s.disk = true)
    (hidle : ∀ a ∈ s.attempts, ¬ a.Busy) : Complete paths hash jam bin s.disk := by
  rw [has_eq hdirs.1 hdirs.2, Bool.and_eq_true] at hhas
  obtain ⟨hbin, hjam⟩ := hhas
  cases jam with
  | none =>
      rw [(h.noJam rfl).1] at hjam
      cases hjam
  | some j =>
      obtain ⟨node, hnode⟩ := Option.isSome_iff_exists.1 hbin
      constructor
      · rw [hnode]
        rcases h.binWhole rfl node hnode with rfl | hw | hw
        · rfl
        · exact absurd (Or.inr (Or.inl rfl)) (hidle _ hw)
        · exact absurd (Or.inr (Or.inr rfl)) (hidle _ hw)
      · rintro j' ⟨⟩
        rcases h.jamWhole j rfl hbin with hwhole | hw
        · exact hwhole
        · exact absurd (Or.inl rfl) (hidle _ hw)

/-- In a run of orderly actions, a put that returns has stored the bundle. -/
theorem returned_put_complete {s s' : Puts} {i : ℕ}
    (hreach : ReachableWhen (Puts.step paths hash jam bin) (Puts.start paths hash)
      (Orderly paths hash jam) s)
    (horderly : Orderly paths hash jam s (.advance i))
    (hs : s.step paths hash jam bin (.advance i) = some s')
    (hret : s'.attempts[i]? = some .ok) :
    Complete paths hash jam bin s'.disk := by
  have hinv : PutInv paths hash jam bin s.disk s.attempts :=
    hreach.invariant (fun _ => PutInv.of_start) fun _ _ _ h ho => h.step ho
  have hdirs : s.disk.dirs (binFile paths hash) = false ∧
      s.disk.dirs (jamFile paths hash) = false := by
    refine hreach.invariant (I := fun s => s.disk.dirs (binFile paths hash) = false ∧
      s.disk.dirs (jamFile paths hash) = false) (fun s hstart => ?_) fun s _ s' hd _ hs => ?_
    · obtain ⟨-, hjam, hbin⟩ := hstart
      exact ⟨(Disk.pathExists_eq_false.1 hbin).2, (Disk.pathExists_eq_false.1 hjam).2⟩
    · rwa [dirs_step hs]
  obtain ⟨a, d, a', ha, hf, rfl⟩ := turn_cases hs
  have ha' : a' = .ok := by
    rw [List.getElem?_set_self (List.getElem?_eq_some_iff.1 ha).1] at hret
    exact Option.some.inj hret
  cases a with
  | test =>
      cases hhas : has paths hash s.disk with
      | true =>
          cases hf
          exact hinv.complete_of_has hdirs hhas (horderly ha hhas)
      | false =>
          simp only [PutStep.advance, hhas, Option.some.injEq, Prod.mk.injEq] at hf
          rw [ha'] at hf
          cases hf.2
  | setMode =>
      cases hf
      exact hinv.complete_setMode ha
  | createDir =>
      cases jam <;> cases hf <;> cases ha'
  | _ => cases hf <;> cases ha'

/-- Two puts in turn: the second one finds both files of the first. -/
def orderlyRun : List PutAction :=
  [.begin, .advance 0, .advance 0, .cut 0 1, .advance 0, .begin, .cut 0 1, .advance 0,
    .advance 0]

theorem returned_put_complete_orderlyRun :
    let paths := Paths.ofRoot "/r"
    let step := Puts.step paths "h" (some [7, 7]) [1, 2]
    ∃ s s', runWhen step (Orderly paths "h" (some [7, 7])) { disk := {} }
        orderlyRun = some s ∧
      step s (.advance 1) = some s' ∧ s'.attempts[1]? = some .ok ∧
        Complete paths "h" (some [7, 7]) [1, 2] s'.disk := by
  intro paths step
  have hrun : ((runWhen step (Orderly paths "h" (some [7, 7])) { disk := {} }
      orderlyRun).bind fun s => (step s (.advance 1)).map fun s' =>
        (decide (Orderly paths "h" (some [7, 7]) s (.advance 1)), s'.attempts[1]?)) =
      some (true, some .ok) := by
    decide
  obtain ⟨s, hs, hnext⟩ := Option.bind_eq_some_iff.1 hrun
  obtain ⟨s', hs', hval⟩ := Option.map_eq_some_iff.1 hnext
  obtain ⟨hguard, hret⟩ := Prod.mk.inj hval
  exact ⟨s, s', hs, hs', hret, returned_put_complete
    (ReachableWhen.runWhen (.start ⟨rfl, rfl, rfl⟩) hs) (of_decide_eq_true hguard) hs' hret⟩

section Cut

/-- The daemon dies while it writes the two bytes of `bin`. -/
def cutRun : List PutAction :=
  [.begin, .advance 0, .advance 0, .advance 0, .cut 0 1, .stop 0, .begin]

/-- A second put finds both files and returns, with `bin` one byte long. -/
theorem put_returns_incomplete :
    ¬ ∀ (paths : Paths) (hash : String) (jam : Option Bytes) (bin : Bytes) (s s' : Puts)
      (i : ℕ), Reachable (Puts.step paths hash jam bin) (Puts.start paths hash) s →
      s.step paths hash jam bin (.advance i) = some s' → s'.attempts[i]? = some .ok →
        Complete paths hash jam bin s'.disk := by
  intro h
  let paths := Paths.ofRoot "/r"
  let empty : Puts := { disk := {} }
  have hrun : (run (Puts.step paths "h" (some [7]) [1, 2]) empty cutRun).isSome = true := by
    decide
  obtain ⟨s, hs⟩ := Option.isSome_iff_exists.1 hrun
  have hreach : Reachable (Puts.step paths "h" (some [7]) [1, 2]) (Puts.start paths "h") s :=
    ReachableWhen.runWhen (.start ⟨rfl, rfl, rfl⟩) hs
  have hnext : ((run (Puts.step paths "h" (some [7]) [1, 2]) empty cutRun).bind fun s =>
      (s.step paths "h" (some [7]) [1, 2] (.advance 1)).map fun s' =>
        (s'.attempts[1]?, s'.disk (binFile paths "h"))) =
      some (some .ok, some { bytes := [1], mode := 0o644 }) := by
    decide
  rw [hs, Option.bind_some] at hnext
  obtain ⟨s', hs', hval⟩ := Option.map_eq_some_iff.1 hnext
  obtain ⟨hret, hbin⟩ := Prod.mk.inj hval
  have hcomplete := (h paths "h" (some [7]) [1, 2] s s' 1 hreach hs' hret).1
  rw [hbin] at hcomplete
  exact absurd hcomplete (by decide)

end Cut

end Store

end Nockd
