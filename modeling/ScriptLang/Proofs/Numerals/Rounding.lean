import ScriptLang.Proofs.Numerals.Patterns

namespace ScriptLang.Number.Binary

variable {num den k p : Nat}

theorem twoPow_pos (n : Nat) : 0 < twoPow n := Nat.pow_pos (by decide)

theorem tenPow_pos (n : Nat) : 0 < tenPow n := Nat.pow_pos (by decide)

theorem log2_mul_twoPow {m : Nat} (h : m ≠ 0) (e : Nat) : (m * twoPow e).log2 = m.log2 + e := by
  induction e with
  | zero => simp [twoPow]
  | succ e ih =>
    have hpow : m * twoPow (e + 1) = 2 * (m * twoPow e) := by
      rw [twoPow, Nat.pow_eq, Nat.pow_succ, ← Nat.mul_assoc, Nat.mul_comm 2]
      rfl
    rw [hpow, Nat.log2_two_mul (Nat.mul_ne_zero h (Nat.ne_of_gt (twoPow_pos e))), ih]
    rfl

/-- The number of bits of a value gives the exponent of its pattern. -/
theorem log2_units (p : Nat) :
    (Magnitude.ofPattern p).units.log2 - fractionBits = (Magnitude.ofPattern p).exponent := by
  rcases pattern_cases p with hp | ⟨exponent, fraction, hf, rfl⟩
  · rw [ofPattern_subnormal hp]
    simp only [Magnitude.units, twoPow, Nat.pow_eq, Nat.pow_zero, Nat.mul_one]
    by_cases hz : p = 0
    · rw [hz]
      rfl
    · have hlog : p.log2 < fractionBits := (Nat.log2_lt hz).mpr hp
      omega
  · rw [ofPattern_normal exponent hf]
    have hunit := fieldUnit_eq
    have hne : fraction + fieldUnit ≠ 0 := by omega
    have hlog : (fraction + fieldUnit).log2 = fractionBits := by
      rw [Nat.log2_eq_iff hne, fractionBits]
      omega
    rw [Magnitude.units, log2_mul_twoPow hne, hlog, Nat.add_sub_cancel_left]

theorem roundedQuotient_scale (hk : 0 < k) :
    roundedQuotient (num * k) (den * k) = roundedQuotient num den := by
  have hlt : 2 * (num % den * k) < den * k ↔ 2 * (num % den) < den := by
    rw [← Nat.mul_assoc]
    exact Nat.mul_lt_mul_right hk
  have hgt : den * k < 2 * (num % den * k) ↔ den < 2 * (num % den) := by
    rw [← Nat.mul_assoc]
    exact Nat.mul_lt_mul_right hk
  simp only [roundedQuotient, Nat.mul_div_mul_right _ _ hk, Nat.mul_mod_mul_right, hlt, hgt]

theorem nearest_scale (hk : 0 < k) : nearest (num * k) (den * k) = nearest num den := by
  have hnum : num * k * unitsPerOne = num * unitsPerOne * k := Nat.mul_right_comm _ _ _
  have hden (n : Nat) : den * k * n = den * n * k := Nat.mul_right_comm _ _ _
  simp only [nearest, hnum, hden, Nat.mul_div_mul_right _ _ hk, roundedQuotient_scale hk]

theorem nearest_congr {num' den' : Nat} (hden : 0 < den) (hden' : 0 < den')
    (h : num * den' = num' * den) : nearest num den = nearest num' den' := by
  rw [← nearest_scale hden', h, Nat.mul_comm den den', nearest_scale hden]

theorem nearest_of_units (hp : p < infinity) (hden : 0 < den)
    (h : num * unitsPerOne = (Magnitude.ofPattern p).units * den) : nearest num den = p := by
  have hquotient : roundedQuotient ((Magnitude.ofPattern p).units * den)
      (den * twoPow (Magnitude.ofPattern p).exponent) = (Magnitude.ofPattern p).mantissa := by
    have hunits : (Magnitude.ofPattern p).units * den = (Magnitude.ofPattern p).mantissa *
        (den * twoPow (Magnitude.ofPattern p).exponent) := by
      rw [Magnitude.units, Nat.mul_assoc, Nat.mul_comm den]
    rw [hunits]
    exact roundedQuotient_mul _ _ (Nat.mul_pos hden (twoPow_pos _))
  simp only [nearest, h, Nat.mul_div_cancel _ hden, log2_units, hquotient]
  exact (congrArg (min · infinity) (Magnitude.toPattern_ofPattern p)).trans
    (Nat.min_eq_left (Nat.le_of_lt hp))

end ScriptLang.Number.Binary
