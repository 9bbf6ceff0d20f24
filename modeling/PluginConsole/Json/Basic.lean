import PluginConsole.Dict
import PluginConsole.Decimal.Binary64

/-!
# JSON values

A whole number is kept apart from a floating point number of the same size: `5`
is not `5.0`. An object that was read has its members in ascending order of their
names; one that is only written keeps the order it was made in.
-/

namespace PluginConsole

inductive Json where
  | null
  | bool (b : Bool)
  | int (n : Int)
  | float (x : Binary64)
  | text (s : String)
  | list (items : List Json)
  | object (members : List (String × Json))
  deriving Inhabited

namespace Json

mutual

def beq : Json → Json → Bool
  | .null, .null => true
  | .bool a, .bool b => a == b
  | .int a, .int b => a == b
  | .float a, .float b => decide (a = b)
  | .text a, .text b => a == b
  | .list a, .list b => beqItems a b
  | .object a, .object b => beqMembers a b
  | _, _ => false

def beqItems : List Json → List Json → Bool
  | [], [] => true
  | x :: a, y :: b => beq x y && beqItems a b
  | _, _ => false

def beqMembers : List (String × Json) → List (String × Json) → Bool
  | [], [] => true
  | (k, x) :: a, (l, y) :: b => k == l && beq x y && beqMembers a b
  | _, _ => false

end

instance : BEq Json := ⟨beq⟩

/-- An object with the given members, in any order. -/
def record (members : List (String × Json)) : Json :=
  .object (Dict.ofList members)

def ofNat (n : Nat) : Json :=
  .int n

def ofOption (f : α → Json) : Option α → Json
  | none => .null
  | some a => f a

def texts (items : List String) : Json :=
  .list (items.map .text)

def table (d : Dict String) : Json :=
  .object (d.mapValues .text)

def asText : Json → Option String
  | .text s => some s
  | _ => none

def member (name : String) : Json → Option Json
  | .object members => members.lookup name
  | _ => none

end Json

end PluginConsole
