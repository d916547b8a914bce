import Nockd.Config.Paths
import Nockd.Interleaving.Machine

/-!
# Storing an artifact

A `put` is a sequence of file steps: test whether both files exist, create the
directory, write `out.jam`, write `bin`, make `bin` executable. `has` and `putAll` are
the undisturbed operation; `Puts` is any number of attempts for one bundle
that take turns, where a write may be seen half done and any attempt may stop.

The test does not ask whether what exists is a file. The directory that a put creates is the
artifact's own, which no test asks about, and is left out.
-/

namespace Nockd

namespace Store

open Config Interleaving

variable (paths : Paths)

def jamFile (hash : String) : File := resolve (paths.jamPath hash)

def binFile (hash : String) : File := resolve (paths.binPath hash)

theorem jamFile_ne_binFile (hash : String) : jamFile paths hash ≠ binFile paths hash := by
  unfold jamFile binFile Paths.jamPath Paths.binPath
  rw [resolve_join _ (by decide), resolve_join _ (by decide)]
  intro h
  exact absurd (List.append_cancel_left h) (by decide)

/-- `Store::has`: both paths exist. -/
def has (hash : String) (d : Disk) : Bool :=
  d.pathExists (binFile paths hash) && d.pathExists (jamFile paths hash)

/-- None of the files that a put writes is a directory. -/
def writable (hash : String) (jam : Option Bytes) (d : Disk) : Bool :=
  !d.dirs (binFile paths hash) && (jam.isNone || !d.dirs (jamFile paths hash))

def writeJam (hash : String) (j : Bytes) (d : Disk) : Disk := d.write (jamFile paths hash) j

def writeBin (hash : String) (bin : Bytes) (d : Disk) : Disk :=
  d.write (binFile paths hash) bin

/-- Set the mode of `bin` to 0755. -/
def setMode (hash : String) (d : Disk) : Disk :=
  d.set (binFile paths hash)
    ((d (binFile paths hash)).map fun node => { node with mode := 0o755 })

/-- An undisturbed `put`. -/
def putAll (hash : String) (jam : Option Bytes) (bin : Bytes) (d : Disk) : Disk :=
  if has paths hash d then d
  else
    let d := match jam with
      | some j => writeJam paths hash j d
      | none => d
    setMode paths hash (writeBin paths hash bin d)

/-- The files of a bundle are stored whole, and `bin` is executable. -/
def Complete (hash : String) (jam : Option Bytes) (bin : Bytes) (d : Disk) : Prop :=
  d (binFile paths hash) = some { bytes := bin, mode := 0o755 } ∧
    ∀ j, jam = some j → (d (jamFile paths hash)).map (·.bytes) = some j

/-! ## Attempts that take turns -/

/-- Where an attempt stands. -/
inductive PutStep where
  | test
  | createDir
  | writeJam
  | writingJam
  | writeBin
  | writingBin
  | setMode
  | ok
  | stopped
deriving DecidableEq, Repr

/-- The disk and the attempts to put one bundle on it. -/
structure Puts where
  disk : Disk
  attempts : List PutStep := []

inductive PutAction where
  | begin
  /-- The attempt completes its next file step. -/
  | advance (i : ℕ)
  /-- The attempt's write has put `n` bytes so far. -/
  | cut (i n : ℕ)
  /-- The attempt fails or its daemon dies. -/
  | stop (i : ℕ)
deriving DecidableEq, Repr

section Steps

variable (hash : String) (jam : Option Bytes) (bin : Bytes)

/-- What completing one file step does. -/
def PutStep.advance (d : Disk) : PutStep → Option (Disk × PutStep)
  | .test => some (d, if has paths hash d then .ok else .createDir)
  | .createDir => some (d, if jam.isSome then .writeJam else .writeBin)
  | .writeJam => some (Store.writeJam paths hash (jam.getD []) d, .writeBin)
  | .writingJam => some (Store.writeJam paths hash (jam.getD []) d, .writeBin)
  | .writeBin => some (Store.writeBin paths hash bin d, .setMode)
  | .writingBin => some (Store.writeBin paths hash bin d, .setMode)
  | .setMode => some (Store.setMode paths hash d, .ok)
  | .ok => none
  | .stopped => none

/-- What a write that has come to `n` bytes leaves. -/
def PutStep.cut (n : ℕ) (d : Disk) : PutStep → Option (Disk × PutStep)
  | .writeJam => some (Store.writeJam paths hash ((jam.getD []).take n) d, .writingJam)
  | .writingJam => some (Store.writeJam paths hash ((jam.getD []).take n) d, .writingJam)
  | .writeBin => some (Store.writeBin paths hash (bin.take n) d, .writingBin)
  | .writingBin => some (Store.writeBin paths hash (bin.take n) d, .writingBin)
  | _ => none

def Puts.turn (s : Puts) (i : ℕ) (f : Disk → PutStep → Option (Disk × PutStep)) :
    Option Puts := do
  let a ← s.attempts[i]?
  let (disk, a') ← f s.disk a
  pure { disk, attempts := s.attempts.set i a' }

def Puts.step (s : Puts) : PutAction → Option Puts
  | .begin => some { s with attempts := s.attempts ++ [.test] }
  | .advance i => s.turn i (PutStep.advance paths hash jam bin)
  | .cut i n => s.turn i (PutStep.cut paths hash jam bin n)
  | .stop i => s.turn i fun d a => if a = .ok then none else some (d, .stopped)

/-- Nothing of the bundle is on the disk and no attempt has begun. -/
def Puts.start (s : Puts) : Prop :=
  s.attempts = [] ∧ s.disk.pathExists (jamFile paths hash) = false ∧
    s.disk.pathExists (binFile paths hash) = false

end Steps

/-- An attempt run alone to its end is the undisturbed operation. -/
theorem run_lone_put (hash : String) (jam : Option Bytes) (bin : Bytes) (d : Disk) :
    ∃ n, run (Puts.step paths hash jam bin) { disk := d }
        (.begin :: List.replicate n (.advance 0)) =
      some { disk := putAll paths hash jam bin d, attempts := [.ok] } := by
  unfold putAll
  cases hhas : has paths hash d with
  | true => exact ⟨1, by simp [runWhen, Puts.step, Puts.turn, PutStep.advance, hhas]⟩
  | false =>
      cases jam with
      | none => exact ⟨4, by simp [runWhen, Puts.step, Puts.turn, PutStep.advance, hhas]⟩
      | some j => exact ⟨5, by simp [runWhen, Puts.step, Puts.turn, PutStep.advance, hhas]⟩

end Store

end Nockd
