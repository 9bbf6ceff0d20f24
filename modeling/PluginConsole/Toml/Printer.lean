import PluginConsole.Json.Printer
import PluginConsole.Text.Blank
import PluginConsole.Toml.Basic

/-!
# Writing TOML

One document for a table: the plain members of a table first, then its tables under
headers of their own. A text is written in the quotes that need the fewest escapes.
-/

namespace PluginConsole.Toml

/-! ## Text -/

def isControl (c : Char) : Bool :=
  c.toNat < 32 || c.toNat == 127

def needsEscape (s : String) : Bool :=
  s.toList.any fun c => isControl c && c != '\t' && c != '\n'

def longestRun (c : Char) (s : String) : Nat :=
  let (best, last) := s.toList.foldl
    (fun (best, run) d => if d = c then (best, run + 1) else (max best run, 0)) (0, 0)
  max best last

def hexUpper (n : Nat) : String :=
  Text.upperAscii (Json.hexFour n)

/-- One character between double quotes. -/
def escapedPiece (c : Char) : String :=
  match c with
  | '\x08' => "\\b"
  | '\t' => "\\t"
  | '\n' => "\\n"
  | '\x0c' => "\\f"
  | '\r' => "\\r"
  | '"' => "\\\""
  | '\\' => "\\\\"
  | c => if isControl c then "\\u" ++ hexUpper c.toNat else String.singleton c

def basicQuoted (s : String) : String :=
  "\"" ++ s.foldl (fun out c => out ++ escapedPiece c) "" ++ "\""

/-- The inside of a text over several lines. Of three quotes in a row the third is
escaped; `run` counts those before. -/
def longPieces (run : Nat) : List Char → String
  | [] => ""
  | '"' :: rest =>
    if run = 2 then "\\\"" ++ longPieces 0 rest else "\"" ++ longPieces (run + 1) rest
  | '\n' :: rest => "\n" ++ longPieces 0 rest
  | c :: rest => escapedPiece c ++ longPieces 0 rest

/-- A newline after the opening quotes of a text that has lines. -/
def leadingNewline (s : String) : String :=
  if s.toList.contains '\n' then "\n" else ""

def longQuoted (s : String) : String :=
  "\"\"\"" ++ leadingNewline s ++ longPieces 0 s.toList ++ "\"\"\""

def literalQuoted (s : String) : String :=
  "'" ++ s ++ "'"

def longLiteral (s : String) : String :=
  "'''" ++ leadingNewline s ++ s ++ "'''"

def textForm (s : String) : String :=
  let has (c : Char) := s.toList.contains c
  let escapes := needsEscape s
  if !escapes && !has '\\' && !has '"' && !has '\n' then basicQuoted s
  else if !escapes && !has '\'' && !has '\n' then literalQuoted s
  else if !escapes && !has '\\' && longestRun '"' s ≤ 2 then longQuoted s
  else if !escapes && longestRun '\'' s ≤ 2 then longLiteral s
  else if has '\n' then longQuoted s
  else basicQuoted s

def keyForm (s : String) : String :=
  let has (c : Char) := s.toList.contains c
  let plain := !s.toList.any fun c => isControl c && c != '\t'
  if s ≠ "" && s.toList.all isBare then s
  else if plain && !has '\\' && !has '"' then basicQuoted s
  else if plain && !has '\'' then literalQuoted s
  else basicQuoted s

/-! ## Values and tables -/

def isTable : Toml → Bool
  | .table _ => true
  | _ => false

def isTableList : Toml → Bool
  | .list items => !items.isEmpty && items.all isTable
  | _ => false

/-- A value behind its key. Two and more items of a list stand on lines of their own. -/
def valueForm : Toml → String
  | .bool b => if b then "true" else "false"
  | .int n => toString n
  | .float x => Decimal.pointed x
  | .text s => textForm s
  | .date s => s
  | .list items => listForm items
  | .table _ => ""
where
  listForm : List Toml → String
    | [] => "[]"
    | [v] => "[" ++ valueForm v ++ "]"
    | items => "[\n" ++ itemLines items ++ "]"
  itemLines : List Toml → String
    | [] => ""
    | v :: rest => "    " ++ valueForm v ++ ",\n" ++ itemLines rest

def plainLines : List (String × Toml) → String
  | [] => ""
  | (k, v) :: rest =>
    if isTable v || isTableList v then plainLines rest
    else keyForm k ++ " = " ++ valueForm v ++ "\n" ++ plainLines rest

def pathForm (path : List String) : String :=
  Text.join "." (path.map keyForm)

mutual

/-- The tables under a path, each as one block of lines. -/
def subBlocks (path : List String) : List (String × Toml) → List String
  | [] => []
  | (k, .table members) :: rest =>
    tableBlocks (path ++ [k]) members ++ subBlocks path rest
  | (k, .list items) :: rest =>
    (if isTableList (.list items) then repeatedBlocks (path ++ [k]) items else []) ++
      subBlocks path rest
  | _ :: rest => subBlocks path rest

/-- A table that holds other tables only needs no header. -/
def tableBlocks (path : List String) (members : List (String × Toml)) : List String :=
  let own := plainLines members
  let below := subBlocks path members
  if own = "" && !members.isEmpty then below
  else ("[" ++ pathForm path ++ "]\n" ++ own) :: below

def repeatedBlocks (path : List String) : List Toml → List String
  | [] => []
  | .table members :: rest =>
    ("[[" ++ pathForm path ++ "]]\n" ++ plainLines members) ::
      (subBlocks path members ++ repeatedBlocks path rest)
  | _ :: rest => repeatedBlocks path rest

end

def pretty (members : List (String × Toml)) : String :=
  let own := plainLines members
  Text.join "\n" ((if own = "" then [] else [own]) ++ subBlocks [] members)

end PluginConsole.Toml
