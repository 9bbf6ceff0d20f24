/-!
# Floating point numbers of 64 bits

A finite number is `significand * 2 ^ exponent` with a sign. Significands have at most 53
bits, and fewer only under the least exponent, so a number is written in one way. The two
zeros differ in their sign.
-/

namespace PluginConsole

inductive Binary64 where
  | finite (negative : Bool) (significand : Nat) (exponent : Int)
  | infinite (negative : Bool)
  | nan
  deriving DecidableEq, Inhabited

namespace Binary64

def twoTo (n : Nat) : Nat :=
  Nat.pow 2 n

def tenTo (n : Nat) : Nat :=
  Nat.pow 10 n

def leastExponent : Int := -1074

def greatestExponent : Int := 971

def zero (negative : Bool) : Binary64 :=
  .finite negative 0 leastExponent

/-! ## Rounding -/

/-- The whole number nearest to a quotient; of two the even one. -/
def roundDiv (num den : Nat) : Nat :=
  let q := num / den
  let r := num % den
  if 2 * r < den || (2 * r == den && q % 2 == 0) then q else q + 1

/-- `num / den * 2 ^ (-e)` as a quotient. -/
def shifted (num den : Nat) (e : Int) : Nat × Nat :=
  if 0 ≤ e then (num, den * twoTo e.natAbs) else (num * twoTo e.natAbs, den)

/-- The exponent under which a quotient has 53 bits before the point, or the least one. -/
def exponentFor (num den : Nat) : Int :=
  let e : Int := (Nat.log2 num : Int) - Nat.log2 den - 53
  let (n, d) := shifted num den e
  max (if n / d < twoTo 53 then e else e + 1) leastExponent

/-- A significand that was rounded up to 54 bits goes to the next exponent. -/
def assemble (negative : Bool) (m : Nat) (e : Int) : Binary64 :=
  let (m, e) := if m = twoTo 53 then (twoTo 52, e + 1) else (m, e)
  if greatestExponent < e then .infinite negative else .finite negative m e

def ofQuotient (negative : Bool) (num den : Nat) : Binary64 :=
  let e := exponentFor num den
  let (n, d) := shifted num den e
  assemble negative (roundDiv n d) e

/-! ## From decimal digits -/

/-- Number of decimal digits; zero has none. -/
def digitCount : Nat → Nat
  | 0 => 0
  | n + 1 => digitCount ((n + 1) / 10) + 1
decreasing_by omega

/-- The number nearest to `digits * 10 ^ exponent`. Far outside the range of the numbers the
power is not worked out. -/
def ofDecimal (negative : Bool) (digits : Nat) (exponent : Int) : Binary64 :=
  let top := exponent + digitCount digits
  if digits = 0 || top < -330 then zero negative
  else if 320 < top then .infinite negative
  else if 0 ≤ exponent then ofQuotient negative (digits * tenTo exponent.natAbs) 1
  else ofQuotient negative digits (tenTo exponent.natAbs)

end Binary64

end PluginConsole
