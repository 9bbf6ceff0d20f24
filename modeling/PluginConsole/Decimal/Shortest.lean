import PluginConsole.Decimal.Binary64

/-!
# The fewest digits that read back

Every finite number stands for the interval of reals that round to it. Of all
decimals in that interval the shortest is taken, of several the nearest. All
arithmetic is exact.
-/

namespace PluginConsole.Decimal

open Binary64

/-- `digits * 10 ^ exponent`. -/
structure Digits where
  digits : Nat
  exponent : Int
  deriving DecidableEq, Inhabited

structure Ratio where
  num : Nat
  den : Nat

/-- `r * 10 ^ (-e)`. -/
def Ratio.scale (r : Ratio) (e : Int) : Ratio :=
  if 0 ≤ e then ⟨r.num, r.den * tenTo e.natAbs⟩ else ⟨r.num * tenTo e.natAbs, r.den⟩

/-- The reals that round to a number: four times the number, and the ends. -/
structure Interval where
  low : Nat
  value : Nat
  high : Nat
  /-- All three are over this. -/
  den : Nat
  closed : Bool

/-- Below a power of two the neighbour is only half as far away. -/
def gapBelow (significand : Nat) (exponent : Int) : Nat :=
  if significand = twoTo 52 ∧ leastExponent < exponent then 1 else 2

def interval (significand : Nat) (exponent : Int) : Interval :=
  let e := exponent - 2
  let (up, down) := if 0 ≤ e then (twoTo e.natAbs, 1) else (1, twoTo e.natAbs)
  { low := (4 * significand - gapBelow significand exponent) * up
    value := 4 * significand * up
    high := (4 * significand + 2) * up
    den := down
    closed := significand % 2 == 0 }

/-- Whether `d * 10 ^ e` rounds to the number. -/
def Interval.admits (i : Interval) (d : Nat) (e : Int) : Bool :=
  let low := Ratio.scale ⟨i.low, i.den⟩ e
  let high := Ratio.scale ⟨i.high, i.den⟩ e
  if i.closed then low.num ≤ d * low.den && d * high.den ≤ high.num
  else low.num < d * low.den && d * high.den < high.num

/-- Of the two grid points around the value, the admitted one, or the nearer of two. -/
def Interval.gridPoint (i : Interval) (e : Int) : Option Nat :=
  let r := Ratio.scale ⟨i.value, i.den⟩ e
  let d := r.num / r.den
  let rest := r.num % r.den
  match i.admits d e && d != 0, i.admits (d + 1) e with
  | true, true => some (if 2 * rest < r.den || (2 * rest == r.den && d % 2 == 0) then d else d + 1)
  | true, false => some d
  | false, true => some (d + 1)
  | false, false => none

/-- The exponent `e` with `10 ^ e ≤ num / den < 10 ^ (e + 1)`. -/
def magnitude (num den : Nat) : Int :=
  if den ≤ num then digitCount (num / den) - 1
  else
    match (List.range 400).find? fun j => den ≤ num * tenTo j with
    | some j => -j
    | none => 0

/-- Moves zeros at the end into the exponent, at most as many as there is fuel. -/
def dropZeros : Nat → Nat → Int → Digits
  | 0, d, e => ⟨d, e⟩
  | fuel + 1, d, e => if d % 10 = 0 ∧ d ≠ 0 then dropZeros fuel (d / 10) (e + 1) else ⟨d, e⟩

/-- For a finite number other than zero. -/
def shortest (significand : Nat) (exponent : Int) : Digits :=
  let i := interval significand exponent
  let top := magnitude i.value i.den
  match (List.range 17).findSome? fun (n : Nat) =>
      (i.gridPoint (top - n)).map fun d => dropZeros 20 d (top - n) with
  | some d => d
  | none => ⟨0, 0⟩

end PluginConsole.Decimal
