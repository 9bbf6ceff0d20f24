import PluginConsole.Json.Basic
import PluginConsole.Decimal.Format
import PluginConsole.Text.Padding

/-!
# Writing JSON

Compact on one line, or laid out with two blanks per level. Only quotes,
backslashes and control characters are escaped.
-/

namespace PluginConsole.Json

/-- Lower case, four digits. -/
def hexFour (n : Nat) : String :=
  let digits := String.ofList (Nat.toDigits 16 n)
  Decimal.zeros (4 - digits.length) ++ digits

def charPiece (c : Char) : String :=
  match c with
  | '"' => "\\\""
  | '\\' => "\\\\"
  | '\n' => "\\n"
  | '\r' => "\\r"
  | '\t' => "\\t"
  | '\x08' => "\\b"
  | '\x0c' => "\\f"
  | c => if c.toNat < 32 then "\\u" ++ hexFour c.toNat else String.singleton c

def quote (s : String) : String :=
  "\"" ++ s.foldl (fun out c => out ++ charPiece c) "" ++ "\""

/-- Text of a value that has no parts; empty for the others. -/
def scalarText : Json → String
  | .null => "null"
  | .bool b => if b then "true" else "false"
  | .int n => toString n
  | .float x => Decimal.short x
  | .text s => quote s
  | _ => ""

mutual

def compact : Json → String
  | .list items => "[" ++ Text.join "," (compactItems items) ++ "]"
  | .object members => "\x7b" ++ Text.join "," (compactMembers members) ++ "\x7d"
  | v => scalarText v

def compactItems : List Json → List String
  | [] => []
  | v :: rest => compact v :: compactItems rest

def compactMembers : List (String × Json) → List String
  | [] => []
  | (k, v) :: rest => (quote k ++ ":" ++ compact v) :: compactMembers rest

end

/-- Parts on lines of their own between two brackets; no parts leave the brackets bare. -/
def block (opening closing indent : String) (parts : List String) : String :=
  if parts.isEmpty then opening ++ closing
  else opening ++ "\n" ++ Text.join ",\n" (parts.map fun p => indent ++ "  " ++ p) ++
    "\n" ++ indent ++ closing

mutual

def layout (indent : String) : Json → String
  | .list items => block "[" "]" indent (layoutItems (indent ++ "  ") items)
  | .object members => block "\x7b" "\x7d" indent (layoutMembers (indent ++ "  ") members)
  | v => scalarText v

def layoutItems (indent : String) : List Json → List String
  | [] => []
  | v :: rest => layout indent v :: layoutItems indent rest

def layoutMembers (indent : String) : List (String × Json) → List String
  | [] => []
  | (k, v) :: rest => (quote k ++ ": " ++ layout indent v) :: layoutMembers indent rest

end

def pretty (v : Json) : String :=
  layout "" v

end PluginConsole.Json
