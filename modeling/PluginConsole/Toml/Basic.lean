import PluginConsole.Dict
import PluginConsole.Decimal.Binary64

/-!
# TOML values
-/

namespace PluginConsole

inductive Toml where
  | bool (b : Bool)
  | int (n : Int)
  | float (x : Binary64)
  | text (s : String)
  /-- A date, a time or both, in the one form in which they are written out. -/
  | date (s : String)
  | list (items : List Toml)
  | table (members : List (String × Toml))
  deriving Inhabited

namespace Toml

/-- Characters that may stand in text and in comments as they are. -/
def isPlain (c : Char) : Bool :=
  c == '\t' || (32 ≤ c.toNat && c.toNat != 127)

/-- Characters of a key without quotes. -/
def isBare (c : Char) : Bool :=
  c.isAlphanum || c == '_' || c == '-'

end Toml

end PluginConsole
