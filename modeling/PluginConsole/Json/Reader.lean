import PluginConsole.Json.Basic
import PluginConsole.Decimal.Range

/-!
# Reading JSON

A recursive reader over the characters that are left. Its fuel bounds the number
of nested and neighbouring values, so the length of the text is enough.
-/

namespace PluginConsole.Json

def isSpace (c : Char) : Bool :=
  c == ' ' || c == '\n' || c == '\r' || c == '\t'

def skipSpace (cs : List Char) : List Char :=
  cs.dropWhile isSpace

def hexValue (c : Char) : Option Nat :=
  if c.isDigit then some (c.toNat - '0'.toNat)
  else if 'a' ≤ c && c ≤ 'f' then some (c.toNat - 'a'.toNat + 10)
  else if 'A' ≤ c && c ≤ 'F' then some (c.toNat - 'A'.toNat + 10)
  else none

/-- A number from exactly `count` hexadecimal digits. -/
def hexNumber : Nat → Nat → List Char → Option (Nat × List Char)
  | 0, n, cs => some (n, cs)
  | count + 1, n, c :: cs => do hexNumber count (n * 16 + (← hexValue c)) cs
  | _ + 1, _, [] => none

/-- A character beyond the sixteen bit range comes as two escapes. -/
def escapedUnit (cs : List Char) : Option (Char × List Char) := do
  let (high, cs) ← hexNumber 4 0 cs
  if 0xD800 ≤ high && high < 0xDC00 then
    match cs with
    | '\\' :: 'u' :: cs =>
      let (low, cs) ← hexNumber 4 0 cs
      if 0xDC00 ≤ low && low < 0xE000 then
        some (Char.ofNat (0x10000 + (high - 0xD800) * 0x400 + (low - 0xDC00)), cs)
      else none
    | _ => none
  else if high.isValidChar then some (Char.ofNat high, cs)
  else none

def shortEscape : Char → Option Char
  | '"' => some '"'
  | '\\' => some '\\'
  | '/' => some '/'
  | 'b' => some '\x08'
  | 'f' => some '\x0c'
  | 'n' => some '\n'
  | 'r' => some '\r'
  | 't' => some '\t'
  | _ => none

/-- The rest of a text after its opening quote; `done` is in reverse. -/
def textBody : Nat → List Char → List Char → Option (String × List Char)
  | 0, _, _ => none
  | fuel + 1, done, cs =>
    match cs with
    | '"' :: rest => some (String.ofList done.reverse, rest)
    | '\\' :: 'u' :: rest => do
      let (c, rest) ← escapedUnit rest
      textBody fuel (c :: done) rest
    | '\\' :: c :: rest => do textBody fuel ((← shortEscape c) :: done) rest
    | c :: rest => if c.toNat < 32 then none else textBody fuel (c :: done) rest
    | [] => none

def digitsValue (cs : List Char) : Nat :=
  cs.foldl (fun n c => n * 10 + (c.toNat - '0'.toNat)) 0

def fractionDigits : List Char → Option (List Char × List Char)
  | '.' :: cs =>
    let digits := cs.takeWhile Char.isDigit
    if digits.isEmpty then none else some (digits, cs.dropWhile Char.isDigit)
  | cs => some ([], cs)

def exponentPart (cs : List Char) : Option (Option Int × List Char) :=
  match cs with
  | c :: rest =>
    if c == 'e' || c == 'E' then
      let (negative, rest) := match rest with
        | '-' :: r => (true, r)
        | '+' :: r => (false, r)
        | r => (false, r)
      let digits := rest.takeWhile Char.isDigit
      let size := digitsValue digits
      if digits.isEmpty then none
      else some (some (if negative then -size else size), rest.dropWhile Char.isDigit)
    else some (none, cs)
  | [] => some (none, [])

/-- Whole numbers that fit 64 bits stay whole, apart from a negative zero. -/
def number (cs : List Char) : Option (Json × List Char) := do
  let (negative, cs) := match cs with
    | '-' :: r => (true, r)
    | r => (false, r)
  let whole := cs.takeWhile Char.isDigit
  if whole.isEmpty then none
  let (fraction, rest) ← fractionDigits (cs.dropWhile Char.isDigit)
  let (exponent, rest) ← exponentPart rest
  let size := digitsValue whole
  let n : Int := if negative then -size else size
  if fraction.isEmpty && exponent.isNone && (Decimal.isInt64 n || Decimal.isNat64 n) &&
      !(negative && size == 0) then
    some (.int n, rest)
  else
    some (.float (Binary64.ofDecimal negative (digitsValue (whole ++ fraction))
      (exponent.getD 0 - fraction.length)), rest)

def keyword (word : String) (v : Json) (cs : List Char) : Option (Json × List Char) :=
  if word.toList.isPrefixOf cs then some (v, cs.drop word.length) else none

mutual

def value : Nat → List Char → Option (Json × List Char)
  | 0, _ => none
  | fuel + 1, cs =>
    match skipSpace cs with
    | '"' :: rest => (textBody (rest.length + 1) [] rest).map fun (s, rest) => (.text s, rest)
    | '[' :: rest =>
      match skipSpace rest with
      | ']' :: rest => some (.list [], rest)
      | rest => (items fuel rest).map fun (vs, rest) => (.list vs, rest)
    | '\x7b' :: rest =>
      match skipSpace rest with
      | '\x7d' :: rest => some (.object [], rest)
      | rest => (members fuel rest).map fun (vs, rest) => (record vs, rest)
    | 't' :: rest => keyword "true" (.bool true) ('t' :: rest)
    | 'f' :: rest => keyword "false" (.bool false) ('f' :: rest)
    | 'n' :: rest => keyword "null" .null ('n' :: rest)
    | rest => number rest

def items : Nat → List Char → Option (List Json × List Char)
  | 0, _ => none
  | fuel + 1, cs => do
    let (v, rest) ← value fuel cs
    match skipSpace rest with
    | ',' :: rest =>
      let (vs, rest) ← items fuel rest
      some (v :: vs, rest)
    | ']' :: rest => some ([v], rest)
    | _ => none

def members : Nat → List Char → Option (List (String × Json) × List Char)
  | 0, _ => none
  | fuel + 1, cs => do
    match skipSpace cs with
    | '"' :: rest =>
      let (k, rest) ← textBody (rest.length + 1) [] rest
      match skipSpace rest with
      | ':' :: rest =>
        let (v, rest) ← value fuel rest
        match skipSpace rest with
        | ',' :: rest =>
          let (vs, rest) ← members fuel rest
          some ((k, v) :: vs, rest)
        | '\x7d' :: rest => some ([(k, v)], rest)
        | _ => none
      | _ => none
    | _ => none

end

def read (text : String) : Option Json := do
  let cs := text.toList
  let (v, rest) ← value (cs.length + 1) cs
  if (skipSpace rest).isEmpty then some v else none

end PluginConsole.Json
