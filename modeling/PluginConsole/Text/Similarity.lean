/-!
# Similarity of two words

The Jaro–Winkler measure in floating point: the share of characters that match
within a window, less the transpositions, raised for a common beginning of up to
four characters.
-/

namespace PluginConsole.Text

/-- How far apart two equal characters may stand and still match. -/
def matchWindow (a b : List Char) : Nat :=
  max a.length b.length / 2 - 1

/-- Position of the first unused `c` of `b` from `low` up to, not including, `high`. -/
def firstUnused (c : Char) (b : List Char) (used : List Bool) (low high : Nat) : Option Nat :=
  (List.range (min high b.length)).find? fun j =>
    low ≤ j && b[j]? == some c && used[j]? == some false

/-- Matches the characters of `a` in turn, each with the first unused partner in `b`.
Gives the matched characters of `a`, and which of `b` are used. -/
def matched (window : Nat) (b : List Char) : Nat → List Char → List Bool → List Char × List Bool
  | _, [], used => ([], used)
  | i, c :: rest, used =>
    match firstUnused c b used (i - window) (i + window + 1) with
    | none => matched window b (i + 1) rest used
    | some j =>
      let (cs, used) := matched window b (i + 1) rest (used.set j true)
      (c :: cs, used)

def usedChars (b : List Char) (used : List Bool) : List Char :=
  (b.zip used).filterMap fun (c, u) => if u then some c else none

/-- Matched characters that stand in another order, counted in pairs. -/
def transpositions (as bs : List Char) : Nat :=
  ((as.zip bs).filter fun (x, y) => x ≠ y).length / 2

def jaro (a b : List Char) : Float :=
  if a.isEmpty && b.isEmpty then 1
  else
    let (as, used) := matched (matchWindow a b) b 0 a (b.map fun _ => false)
    if as.isEmpty then 0
    else
      let m := as.length.toFloat
      let t := transpositions as (usedChars b used)
      ((m / a.length.toFloat) + (m / b.length.toFloat) + ((as.length - t).toFloat / m)) / 3

def commonStart : List Char → List Char → Nat
  | x :: a, y :: b => if x = y then commonStart a b + 1 else 0
  | _, _ => 0

/-- Only words that are alike to begin with gain from a common beginning. -/
def jaroWinkler (a b : String) : Float :=
  let score := jaro a.toList b.toList
  if score > 0.7 then
    score + 0.1 * (min (commonStart a.toList b.toList) 4).toFloat * (1 - score)
  else score

end PluginConsole.Text
