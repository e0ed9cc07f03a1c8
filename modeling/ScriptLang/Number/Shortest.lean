import ScriptLang.Number.Binary

namespace ScriptLang.Number

open Binary

def digits (n : Nat) : List Char :=
  Nat.toDigits 10 n

/-- Digits and the place of the decimal point: the value is `0.digits` times ten to the power
`point`. -/
structure Decimal where
  digits : List Char
  point : Int
deriving Repr, DecidableEq

namespace Decimal

def trim (d : Decimal) : Decimal :=
  ⟨(d.digits.reverse.dropWhile (· = '0')).reverse, d.point⟩

def ofScaled (n : Nat) (places : Int) : Decimal :=
  ⟨Number.digits n, (Number.digits n).length - places⟩

end Decimal

inductive Tie where
  | up
  | even
deriving Repr, DecidableEq

def Tie.takesUpper (tie : Tie) (lower : Nat) : Bool :=
  match tie with
  | .up => true
  | .even => lower % 2 = 1

def nearestScaled (n : Nat) (places : Int) : Nat :=
  nearest (n * tenPow (-places).toNat) (tenPow places.toNat)

/-- Zeros between the decimal point and the first other digit of `num / den`, for a positive
fraction below one; `bound` limits the count. -/
def leadingZeros : (bound num den : Nat) → Nat
  | 0, _, _ => 0
  | bound + 1, num, den => if den ≤ 10 * num then 0 else leadingZeros bound (10 * num) den + 1

/-- The decimal exponent of the first digit of a positive fraction. No number of the language has
more than 323 zeros after the point. -/
def leadingExponent (num den : Nat) : Int :=
  if den ≤ num then ((digits (num / den)).length : Int) - 1
  else -(leadingZeros 330 num den + 1 : Int)

/-- The neighbour of a pattern's value on the grid of `places` decimal places that reads back as
that pattern, the nearer one if both do. -/
def neighbour (tie : Tie) (pattern : Nat) (places : Int) : Option Nat :=
  let num := (Magnitude.ofPattern pattern).units * tenPow places.toNat
  let den := unitsPerOne * tenPow (-places).toNat
  let lower := num / den
  let twice := 2 * (num % den)
  let readsBack (n : Nat) : Bool := nearestScaled n places = pattern
  let upperFirst := den < twice || (twice = den && tie.takesUpper lower)
  if upperFirst then [lower + 1, lower].find? readsBack
  else [lower, lower + 1].find? readsBack

/-- All digits of a number: a fifth of ten is a half, so a power of two below the point is a power
of five over one of ten. -/
def exact (pattern : Nat) : Decimal :=
  .ofScaled ((Magnitude.ofPattern pattern).units * Nat.pow 5 1074) 1074

/-- The fewest digits that read back as a pattern; nothing has more than 17. -/
def shortest (tie : Tie) (pattern : Nat) : Decimal :=
  if pattern = 0 then ⟨['0'], 1⟩
  else
    let lead := leadingExponent (Magnitude.ofPattern pattern).units unitsPerOne
    let grid (count : Nat) : Option Decimal :=
      let places := (count : Int) - lead
      (neighbour tie pattern places).map (Decimal.ofScaled · places)
    (((List.range 17).findSome? grid).getD (exact pattern)).trim

end ScriptLang.Number
