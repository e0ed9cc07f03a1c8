namespace ScriptLang.Number.Binary

def twoPow (n : Nat) : Nat := Nat.pow 2 n

def tenPow (n : Nat) : Nat := Nat.pow 10 n

def unitsPerOne : Nat := twoPow 1074

def fractionBits : Nat := 52

def fieldUnit : Nat := twoPow fractionBits

/-- The pattern of infinity: of all patterns without a sign those of finite numbers lie below it. -/
def infinity : Nat := 2047 * fieldUnit

/-- The size of a finite number: `mantissa` times that power of two, in units. -/
structure Magnitude where
  mantissa : Nat
  exponent : Nat
deriving Repr, DecidableEq

namespace Magnitude

/-- Reads a pattern without its sign bit. An exponent field of zero has no hidden leading bit. -/
def ofPattern (p : Nat) : Magnitude :=
  let field := p / fieldUnit
  let fraction := p % fieldUnit
  if field = 0 then ⟨fraction, 0⟩ else ⟨fraction + fieldUnit, field - 1⟩

/-- The pattern of a magnitude: the hidden bit of the mantissa carries into the exponent field. -/
def toPattern (m : Magnitude) : Nat :=
  m.exponent * fieldUnit + m.mantissa

def units (m : Magnitude) : Nat :=
  m.mantissa * twoPow m.exponent

theorem toPattern_ofPattern (p : Nat) : (ofPattern p).toPattern = p := by
  have h := Nat.div_add_mod p fieldUnit
  unfold ofPattern toPattern
  by_cases hf : p / fieldUnit = 0
  · rw [hf, Nat.mul_zero, Nat.zero_add] at h
    simpa only [hf, if_true, Nat.zero_mul, Nat.zero_add] using h
  · obtain ⟨k, hk⟩ := Nat.exists_eq_succ_of_ne_zero hf
    rw [hk, Nat.mul_succ] at h
    simp only [hk, Nat.succ_ne_zero, if_false, Nat.succ_sub_one]
    rw [Nat.mul_comm k]
    omega

end Magnitude

/-- The quotient rounded to the nearest natural, a half to the even one. -/
def roundedQuotient (num den : Nat) : Nat :=
  let q := num / den
  let r := num % den
  if 2 * r < den then q
  else if den < 2 * r then q + 1
  else q + q % 2

theorem roundedQuotient_mul (q den : Nat) (h : 0 < den) : roundedQuotient (q * den) den = q := by
  simp [roundedQuotient, Nat.mul_div_cancel _ h, h]

def nearest (num den : Nat) : Nat :=
  let whole := num * unitsPerOne / den
  let exponent := whole.log2 - fractionBits
  let mantissa := roundedQuotient (num * unitsPerOne) (den * twoPow exponent)
  min (Magnitude.toPattern ⟨mantissa, exponent⟩) infinity

inductive Shape where
  | notANumber
  | infinite (negative : Bool)
  | finite (negative : Bool) (pattern : Nat)
deriving Repr, DecidableEq

def shape (x : Float) : Shape :=
  let bits := x.toBits.toNat
  let negative := decide (twoPow 63 ≤ bits)
  let pattern := bits % twoPow 63
  if infinity < pattern then .notANumber
  else if pattern = infinity then .infinite negative
  else .finite negative pattern

def ofPattern (p : Nat) : Float :=
  Float.ofBits (UInt64.ofNat p)

end ScriptLang.Number.Binary
