import PluginConsole.Toml.Basic
import PluginConsole.Decimal.Format
import PluginConsole.Decimal.Range

/-!
# Words of TOML: keywords, numbers and dates

Each reader takes the characters of one word, up to the next blank, comma, bracket
or comment, and accepts or refuses all of it.
-/

namespace PluginConsole.Toml.Word

/-- Digits with single underscores between them, without the underscores. -/
def separated (isDigit : Char → Bool) : List Char → Option (List Char)
  | [] => none
  | [c] => if isDigit c then some [c] else none
  | c :: '_' :: rest => if isDigit c then (separated isDigit rest).map (c :: ·) else none
  | c :: rest => if isDigit c then (separated isDigit rest).map (c :: ·) else none

def digitValue (c : Char) : Nat :=
  if c.isDigit then c.toNat - '0'.toNat
  else if 'a' ≤ c && c ≤ 'f' then c.toNat - 'a'.toNat + 10
  else if 'A' ≤ c && c ≤ 'F' then c.toNat - 'A'.toNat + 10
  else 16

def valueIn (base : Nat) (digits : List Char) : Nat :=
  digits.foldl (fun n c => n * base + digitValue c) 0

def signOf : List Char → Bool × List Char
  | '-' :: rest => (true, rest)
  | '+' :: rest => (false, rest)
  | rest => (false, rest)

/-- Decimal digits that begin with no needless zero. -/
def wholeDigits (cs : List Char) : Option (List Char) :=
  match cs with
  | '0' :: _ :: _ => none
  | _ => separated Char.isDigit cs

def inRange (n : Int) : Option Int :=
  if Decimal.isInt64 n then some n else none

def based (base : Nat) (cs : List Char) : Option Int := do
  let digits ← separated (fun c => digitValue c < base) cs
  inRange (valueIn base digits)

def integer (cs : List Char) : Option Int :=
  match cs with
  | '0' :: 'x' :: rest => based 16 rest
  | '0' :: 'o' :: rest => based 8 rest
  | '0' :: 'b' :: rest => based 2 rest
  | _ => do
    let (negative, rest) := signOf cs
    let size : Int := valueIn 10 (← wholeDigits rest)
    inRange (if negative then -size else size)

/-- The exponent after its letter; none is zero. -/
def exponentOf : List Char → Option Int
  | [] => some 0
  | _ :: rest => do
    let (negative, rest) := signOf rest
    let size : Int := valueIn 10 (← separated Char.isDigit rest)
    some (if negative then -size else size)

def isExponentMark (c : Char) : Bool :=
  c == 'e' || c == 'E'

/-- A number has a fraction or an exponent; without them it is whole or nothing. One too
large to be finite is refused, unless it is negative. -/
def float (cs : List Char) : Option Binary64 :=
  let (negative, rest) := signOf cs
  if rest == "inf".toList then some (.infinite negative)
  else if rest == "nan".toList then some .nan
  else do
    let mantissa := rest.takeWhile (!isExponentMark ·)
    let exponent ← exponentOf (rest.dropWhile (!isExponentMark ·))
    let whole ← wholeDigits (mantissa.takeWhile (· != '.'))
    if !rest.any fun c => c == '.' || isExponentMark c then none
    let fraction ← match mantissa.dropWhile (· != '.') with
      | [] => some []
      | _ :: digits => separated Char.isDigit digits
    let x := Binary64.ofDecimal negative (valueIn 10 (whole ++ fraction))
      (exponent - fraction.length)
    if x = .infinite false then none else some x

/-! ## Dates and times -/

def fixedDigits (count : Nat) (cs : List Char) : Option (Nat × List Char) :=
  let digits := cs.take count
  if digits.length = count ∧ digits.all Char.isDigit then
    some (valueIn 10 digits, cs.drop count)
  else none

def expect (c : Char) : List Char → Option (List Char)
  | d :: rest => if d = c then some rest else none
  | [] => none

def monthLength (year month : Nat) : Nat :=
  if month = 2 then
    if year % 4 = 0 ∧ (year % 100 ≠ 0 ∨ year % 400 = 0) then 29 else 28
  else if month = 4 ∨ month = 6 ∨ month = 9 ∨ month = 11 then 30
  else 31

/-- `n` with zeros in front, at least `width` digits. -/
def padded (width n : Nat) : String :=
  let text := toString n
  Decimal.zeros (width - text.length) ++ text

def day (cs : List Char) : Option (String × List Char) := do
  let (y, cs) ← fixedDigits 4 cs
  let (m, cs) ← fixedDigits 2 (← expect '-' cs)
  let (d, cs) ← fixedDigits 2 (← expect '-' cs)
  if 1 ≤ m ∧ m ≤ 12 ∧ 1 ≤ d ∧ d ≤ monthLength y m then
    some (padded 4 y ++ "-" ++ padded 2 m ++ "-" ++ padded 2 d, cs)
  else none

/-- Nine digits count, and zeros at the end are not written. -/
def subseconds : List Char → Option (String × List Char)
  | '.' :: cs =>
    let digits := cs.takeWhile Char.isDigit
    if digits.isEmpty then none
    else
      let kept := ((digits.take 9).reverse.dropWhile (· == '0')).reverse
      some (if kept.isEmpty then "" else String.ofList ('.' :: kept), cs.dropWhile Char.isDigit)
  | cs => some ("", cs)

def clock (cs : List Char) : Option (String × List Char) := do
  let (h, cs) ← fixedDigits 2 cs
  let (m, cs) ← fixedDigits 2 (← expect ':' cs)
  let (s, cs) ← fixedDigits 2 (← expect ':' cs)
  let (sub, cs) ← subseconds cs
  if h ≤ 23 ∧ m ≤ 59 ∧ s ≤ 60 then
    some (padded 2 h ++ ":" ++ padded 2 m ++ ":" ++ padded 2 s ++ sub, cs)
  else none

def offset : List Char → Option String
  | [] => some ""
  | ['Z'] | ['z'] => some "Z"
  | sign :: cs => do
    let (h, cs) ← fixedDigits 2 cs
    let (m, cs) ← fixedDigits 2 (← expect ':' cs)
    if (sign = '+' ∨ sign = '-') ∧ h ≤ 23 ∧ m ≤ 59 ∧ cs = [] then
      let sign := if sign = '-' ∧ h + m ≠ 0 then "-" else "+"
      some (sign ++ padded 2 h ++ ":" ++ padded 2 m)
    else none

/-- A date, a time, or both with an offset. -/
def date (cs : List Char) : Option String :=
  match day cs with
  | some (d, []) => some d
  | some (d, _ :: rest) => do
    let (t, rest) ← clock rest
    some (d ++ "T" ++ t ++ (← offset rest))
  | none =>
    match clock cs with
    | some (t, []) => some t
    | _ => none

def timeFollows (word rest : List Char) : Bool :=
  match day word, rest with
  | some (_, []), ' ' :: a :: b :: ':' :: _ => a.isDigit && b.isDigit
  | _, _ => false

def isDayWithTime (word : List Char) : Bool :=
  match day word with
  | some (_, 'T' :: _) | some (_, 't' :: _) | some (_, ' ' :: _) | some (_, []) => true
  | _ => false

def value (cs : List Char) : Option Toml :=
  if cs == "true".toList then some (.bool true)
  else if cs == "false".toList then some (.bool false)
  else
    match day cs, clock cs with
    | none, none => ((integer cs).map .int).or ((float cs).map .float)
    | none, some _ => (date cs).map .date
    | some _, _ => if isDayWithTime cs then (date cs).map .date else none

end PluginConsole.Toml.Word
