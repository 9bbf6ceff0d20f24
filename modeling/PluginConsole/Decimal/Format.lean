import PluginConsole.Decimal.Shortest

/-!
# Text of a floating point number

Two ways to write the shortest digits: with an exponent where the number is very
large or small, and always positional.
-/

namespace PluginConsole.Decimal

def zeros (n : Nat) : String :=
  String.ofList (List.replicate n '0')

/-- `digits * 10 ^ exponent` with a point where one is needed. -/
def positional (d : Digits) : String :=
  let text := toString d.digits
  if 0 ≤ d.exponent then text ++ zeros d.exponent.natAbs
  else
    let places := d.exponent.natAbs
    if places < text.length then
      String.ofList (text.toList.take (text.length - places)) ++ "." ++
        String.ofList (text.toList.drop (text.length - places))
    else "0." ++ zeros (places - text.length) ++ text

/-- One digit before the point, and an exponent with its sign. -/
def scientific (d : Digits) : String :=
  let text := toString d.digits
  let exponent := d.exponent + text.length - 1
  let sign := if exponent < 0 then "-" else "+"
  let fraction := if text.length = 1 then "" else "." ++ String.ofList (text.toList.drop 1)
  String.ofList (text.toList.take 1) ++ fraction ++ "e" ++ sign ++ toString exponent.natAbs

def signText (negative : Bool) : String :=
  if negative then "-" else ""

/-- No exponent and no trailing point, as in `1`, `0.5` and `-0`. -/
def plain : Binary64 → String
  | .nan => "NaN"
  | .infinite negative => signText negative ++ "inf"
  | .finite negative 0 _ => signText negative ++ "0"
  | .finite negative m e => signText negative ++ positional (shortest m e)

/-- As `plain`, but a whole number ends in `.0`. -/
def pointed (x : Binary64) : String :=
  match x with
  | .finite .. => if (plain x).toList.contains '.' then plain x else plain x ++ ".0"
  | _ => plain x

/-- Written with an exponent from `1e16` on and below `1e-5`, else as `pointed`. -/
def short (x : Binary64) : String :=
  match x with
  | .finite negative (m + 1) e =>
    let d := shortest (m + 1) e
    let top := d.exponent + (toString d.digits).length - 1
    if -5 ≤ top ∧ top < 16 then pointed x else signText negative ++ scientific d
  | _ => pointed x

end PluginConsole.Decimal
