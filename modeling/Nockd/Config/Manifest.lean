import Mathlib.Data.Nat.Notation

/-!
# The deploy manifest

`DeploySection` is the `[deploy]` table of a `nockd.toml`, after the TOML
parser has filled in the defaults.
-/

namespace Nockd

namespace Config

structure StatusSection where
  label : Option String := none
  cmd : Option String := none
deriving DecidableEq, Repr

def defaultRestart : String := "on-failure"

structure DeploySection where
  app : String
  project : Option String := none
  binTarget : Option String := none
  bin : Option String := none
  jam : Option String := none
  restart : String := defaultRestart
  target : Option String := none
  args : List String := []
  healthAddr : Option String := none
  endpoint : Option String := none
  port : Option UInt16 := none
  icon : Option String := none
  status : StatusSection := {}
deriving DecidableEq, Repr

/-- Largest accepted icon, in decoded bytes. -/
def maxIconBytes : ℕ := 256 * 1024

end Config

end Nockd
