import Nockd.Data.Utf8
import Nockd.Store.Hashes

/-!
# The end of a file

`read_tail` decodes the last bytes of a file. Its length is noted before it is read, and the
file may grow in between.
-/

namespace Nockd

namespace Config

open Store

/-- What the calls on a file give. -/
structure FileCalls where
  opened : Bool := true
  /-- The length that the metadata gives. -/
  len : Option ℕ
  seeks : Bool := true
  /-- What is there when it is read, as far as the read comes. -/
  content : Bytes

/-- A file that nobody writes to. -/
def FileCalls.quiet (file : Bytes) : FileCalls := { len := some file.length, content := file }

/-- The bytes that `read_tail` decodes. -/
def FileCalls.tail (c : FileCalls) (maxBytes : ℕ) : Bytes :=
  let start := c.len.getD 0 - maxBytes
  if c.opened = false then []
  else if 0 < start ∧ c.seeks = false then []
  else c.content.drop start

/-- `read_tail`, on what its calls give. -/
def readTail (c : FileCalls) (maxBytes : ℕ) : Bytes := Utf8.lossy (c.tail maxBytes)

theorem FileCalls.tail_quiet (file : Bytes) (maxBytes : ℕ) :
    (quiet file).tail maxBytes = file.drop (file.length - maxBytes) := by
  simp [tail, quiet]

end Config

end Nockd
