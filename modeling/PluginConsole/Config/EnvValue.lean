import PluginConsole.Config.Tree
import PluginConsole.Text.Blank
import PluginConsole.Toml.Word

/-!
# Values of environment variables

A small notation for values: keywords, numbers, quoted text, lists and tables. What
does not fit it from the first character to the last is taken as plain text.
-/

namespace PluginConsole.Config.EnvValue

def isSpace (c : Char) : Bool :=
  c == ' ' || c == '\t' || c == '\n' || c == '\r' || c == '\x0c'

def skipSpace (cs : List Char) : List Char :=
  cs.dropWhile isSpace

def isSeparator (c : Char) : Bool :=
  c == ',' || c == '\x7b' || c == '\x7d' || c == '[' || c == ']'

def leaf (v : Leaf) : Tree :=
  .leaf .environment v

/-! ## Words -/

/-- Decimal digits with an optional plus sign. -/
def unsigned? (cs : List Char) : Option Nat :=
  let digits := match cs with
    | '+' :: rest => rest
    | rest => rest
  if digits.isEmpty || !digits.all Char.isDigit then none
  else
    let n := Toml.Word.valueIn 10 digits
    if Decimal.isNat64 n then some n else none

def signed? (cs : List Char) : Option Int :=
  match cs with
  | '-' :: digits =>
    if digits.isEmpty || !digits.all Char.isDigit then none
    else
      let n : Int := -Toml.Word.valueIn 10 digits
      if Decimal.isInt64 n then some n else none
  | _ => none

/-- Digits around a point, with an optional exponent. -/
def float? (cs : List Char) : Option Binary64 := do
  let (negative, rest) := Toml.Word.signOf cs
  let mantissa := rest.takeWhile (!Toml.Word.isExponentMark ·)
  let whole := mantissa.takeWhile (· != '.')
  let fraction := (mantissa.dropWhile (· != '.')).drop 1
  if (whole ++ fraction).isEmpty || !(whole ++ fraction).all Char.isDigit then none
  let exponent ← match rest.dropWhile (!Toml.Word.isExponentMark ·) with
    | [] => some (0 : Int)
    | _ :: rest =>
      let (negative, digits) := Toml.Word.signOf rest
      let size : Int := Toml.Word.valueIn 10 digits
      if digits.isEmpty || !digits.all Char.isDigit then none
      else some (if negative then -size else size)
  some (Binary64.ofDecimal negative (Toml.Word.valueIn 10 (whole ++ fraction))
    (exponent - fraction.length))

/-- A word is a number if it can be one. -/
def word (cs : List Char) : Leaf :=
  let cs := Text.trimChars cs
  match (if cs.contains '.' then float? cs else none) with
  | some x => .float x
  | none =>
    match unsigned? cs, signed? cs with
    | some n, _ => .int n false
    | none, some n => .int n true
    | none, none => .text (String.ofList cs)

/-! ## Quoted text -/

/-- The characters up to the closing quote, escapes untouched. -/
def quotedBody : List Char → Option (List Char × List Char)
  | [] => none
  | '"' :: rest => some ([], rest)
  | '\\' :: c :: rest => (quotedBody rest).map fun (body, rest) => ('\\' :: c :: body, rest)
  | c :: rest => (quotedBody rest).map fun (body, rest) => (c :: body, rest)

def hexDigits (count : Nat) (cs : List Char) : Option (Char × List Char) :=
  let digits := cs.take count
  let n := Toml.Word.valueIn 16 digits
  if digits.length = count ∧ digits.all (fun c => Toml.Word.digitValue c < 16) ∧ n.isValidChar then
    some (Char.ofNat n, cs.drop count)
  else none

/-- Control characters other than the tab have to be escaped. -/
def isPlain (c : Char) : Bool :=
  c == '\t' || (32 ≤ c.toNat && c != '\x7f')

def unescape : Nat → List Char → Option (List Char)
  | 0, _ => some []
  | fuel + 1, cs =>
    match cs with
    | [] => some []
    | '\\' :: 'u' :: rest => do
      let (c, rest) ← hexDigits 4 rest
      (unescape fuel rest).map (c :: ·)
    | '\\' :: 'U' :: rest => do
      let (c, rest) ← hexDigits 8 rest
      (unescape fuel rest).map (c :: ·)
    | '\\' :: e :: rest => do
      let c ← match e with
        | '"' => some '"'
        | '\\' => some '\\'
        | 'b' => some '\x08'
        | 'f' => some '\x0c'
        | 'n' => some '\n'
        | 'r' => some '\r'
        | 't' => some '\t'
        | _ => none
      (unescape fuel rest).map (c :: ·)
    | ['\\'] => none
    | c :: rest => if isPlain c then (unescape fuel rest).map (c :: ·) else none

def quoted (cs : List Char) : Option (String × List Char) := do
  let (body, rest) ← quotedBody cs
  some (String.ofList (← unescape body.length body), rest)

/-! ## Values -/

def isKeyChar (c : Char) : Bool :=
  c.isAlphanum || c == '_' || c == '-'

def key (cs : List Char) : Option (String × List Char) :=
  match cs with
  | '"' :: rest => quoted rest
  | _ =>
    let bare := cs.takeWhile isKeyChar
    if bare.isEmpty then none else some (String.ofList bare, cs.dropWhile isKeyChar)

def afterWord (keyword : String) (cs : List Char) : Option (List Char) :=
  if keyword.toList.isPrefixOf cs then some (cs.drop keyword.length) else none

mutual

def value : Nat → List Char → Option (Tree × List Char)
  | 0, _ => none
  | fuel + 1, cs => do
    let cs := skipSpace cs
    let (t, rest) ←
      match afterWord "true" cs, afterWord "false" cs with
      | some rest, _ => some (leaf (.bool true), rest)
      | none, some rest => some (leaf (.bool false), rest)
      | none, none =>
        match cs with
        | '\x7b' :: rest =>
          (members fuel rest).map fun (ms, rest) => (.table .environment (Dict.ofList ms), rest)
        | '[' :: rest => (items fuel rest).map fun (ts, rest) => (.list .environment ts, rest)
        | '"' :: rest => (quoted rest).map fun (s, rest) => (leaf (.text s), rest)
        | '\'' :: c :: '\'' :: rest => some (leaf (.text (String.singleton c)), rest)
        | '\'' :: _ => none
        | cs => some (leaf (word (cs.takeWhile (!isSeparator ·))), cs.dropWhile (!isSeparator ·))
    some (t, skipSpace rest)

/-- The items of a list up to its closing bracket; a comma may follow the last. -/
def items : Nat → List Char → Option (List Tree × List Char)
  | 0, _ => none
  | fuel + 1, cs =>
    match cs with
    | ']' :: rest => some ([], rest)
    | cs => do
      let (t, rest) ← value fuel cs
      match rest with
      | ']' :: rest => some ([t], rest)
      | ',' :: rest =>
        let (ts, rest) ← items fuel rest
        some (t :: ts, rest)
      | _ => none

def members : Nat → List Char → Option (List (String × Tree) × List Char)
  | 0, _ => none
  | fuel + 1, cs =>
    match cs with
    | '\x7d' :: rest => some ([], rest)
    | cs => do
      let (k, rest) ← key (skipSpace cs)
      match skipSpace rest with
      | '=' :: rest =>
        let (t, rest) ← value fuel (skipSpace rest)
        match rest with
        | '\x7d' :: rest => some ([(k, t)], rest)
        | ',' :: rest =>
          let (ms, rest) ← members fuel rest
          some ((k, t) :: ms, rest)
        | _ => none
      | _ => none

end

def parse (s : String) : Tree :=
  let cs := s.toList
  match value (cs.length + 2) cs with
  | some (t, []) => t
  | _ => leaf (.text s)

end PluginConsole.Config.EnvValue
