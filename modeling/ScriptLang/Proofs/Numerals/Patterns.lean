import Mathlib
import ScriptLang.Number.Binary

namespace ScriptLang.Number.Binary

open Float.Model (Format UnpackedFloat)
open Float.Model.UnpackedFloat (Sign unpack pack unpackExponent unpackMantissa unpackSign
  packComponents)

theorem fieldUnit_eq : fieldUnit = 2 ^ 52 := rfl

theorem infinity_eq : infinity = 2047 * 2 ^ 52 := rfl

section Patterns

variable {p : Nat}

theorem ofPattern_subnormal (h : p < fieldUnit) : Magnitude.ofPattern p = ⟨p, 0⟩ := by
  simp [Magnitude.ofPattern, Nat.div_eq_of_lt h, Nat.mod_eq_of_lt h]

theorem ofPattern_normal {fraction : Nat} (exponent : Nat) (h : fraction < fieldUnit) :
    Magnitude.ofPattern ((exponent + 1) * fieldUnit + fraction) =
      ⟨fraction + fieldUnit, exponent⟩ := by
  have hpos : 0 < fieldUnit := Nat.zero_lt_of_lt h
  have hdiv : ((exponent + 1) * fieldUnit + fraction) / fieldUnit = exponent + 1 := by
    rw [Nat.add_comm, Nat.add_mul_div_right _ _ hpos, Nat.div_eq_of_lt h, Nat.zero_add]
  have hmod : ((exponent + 1) * fieldUnit + fraction) % fieldUnit = fraction := by
    rw [Nat.add_comm, Nat.add_mul_mod_self_right, Nat.mod_eq_of_lt h]
  simp [Magnitude.ofPattern, hdiv, hmod]

theorem pattern_cases (p : Nat) : p < fieldUnit ∨
    ∃ exponent fraction, fraction < fieldUnit ∧ p = (exponent + 1) * fieldUnit + fraction := by
  have hdiv := Nat.div_add_mod p fieldUnit
  have hmod : p % fieldUnit < fieldUnit := Nat.mod_lt _ (by decide)
  by_cases h : p / fieldUnit = 0
  · rw [h, Nat.mul_zero, Nat.zero_add] at hdiv
    exact .inl (hdiv ▸ hmod)
  · obtain ⟨exponent, hexponent⟩ := Nat.exists_eq_succ_of_ne_zero h
    refine .inr ⟨exponent, p % fieldUnit, hmod, ?_⟩
    rw [Nat.mul_comm, ← Nat.succ_eq_add_one, ← hexponent, hdiv]

end Patterns

section Packing

def signed (negative : Bool) (p : Nat) : Nat :=
  (if negative then 2 ^ 63 else 0) + p

def sign (negative : Bool) : Sign :=
  if negative then .negative else .positive

def Magnitude.unpacked (m : Magnitude) (s : Sign) : UnpackedFloat :=
  if h : m.mantissa = 0 then .zero s
  else .finite s m.mantissa (m.exponent - 1074) (Nat.pos_of_ne_zero h)

theorem packComponents_toNat (negative : Bool) (e : BitVec 11) (m : BitVec 52) :
    (packComponents Format.binary64 (sign negative) e m).toNat =
      signed negative (e.toNat * 2 ^ 52 + m.toNat) := by
  have he : e.toNat < 2 ^ 11 := e.isLt
  unfold packComponents
  rw [BitVec.toNat_append, ← Nat.shiftLeft_add_eq_or_of_lt m.isLt, BitVec.toNat_append,
    ← Nat.shiftLeft_add_eq_or_of_lt e.isLt]
  simp only [Nat.shiftLeft_eq, signed, sign]
  cases negative with
  | false => simp [Sign.toBitVec]
  | true =>
    simp [Sign.toBitVec]
    omega

/-- Below the bit of the first exponent, a mantissa is packed as it is. -/
theorem pack_subnormal (negative : Bool) {m : Nat} (hpos : 0 < m) (hm : m < 2 ^ 52) :
    (pack Format.binary64 (.finite (sign negative) m (-1074) hpos)).toNat = signed negative m := by
  have hlog : m.log2 < 52 := (Nat.log2_lt (Nat.ne_of_gt hpos)).mpr hm
  have hne : ¬ m.log2 + 1 = Format.binary64.mantissaBits := by
    simp only [Format.mantissaBits]
    omega
  have hlow : ¬ 2 ^ Format.binary64.exponentBits ≤ (-1074 + (Format.binary64.exponentBias : Int) +
      (Format.binary64.mantissaBitsWithoutImplicit : Nat)).toNat + 1 := by decide
  simp only [pack, hlow, hne, if_false]
  have hpack := packComponents_toNat negative (BitVec.ofNat 11 0) (BitVec.ofNat 52 m)
  have hbits : (BitVec.ofNat 11 0).toNat * 2 ^ 52 + (BitVec.ofNat 52 m).toNat = m := by
    rw [BitVec.toNat_ofNat, BitVec.toNat_ofNat]
    omega
  rw [hbits] at hpack
  exact hpack

/-- The highest bit of a longer mantissa is carried by the exponent. -/
theorem pack_normal (negative : Bool) {m e : Nat} (hpos : 0 < m) (hle : 2 ^ 52 ≤ m)
    (hlt : m < 2 ^ 53) (he : e < 2046) :
    (pack Format.binary64 (.finite (sign negative) m (e - 1074) hpos)).toNat =
      signed negative (e * 2 ^ 52 + m) := by
  have hlog : m.log2 = 52 := (Nat.log2_eq_iff (Nat.ne_of_gt hpos)).mpr ⟨hle, hlt⟩
  have hexponent : ((e : Int) - 1074 + (Format.binary64.exponentBias : Nat) +
      (Format.binary64.mantissaBitsWithoutImplicit : Nat)).toNat = e + 1 := by
    simp only [Format.exponentBias]
    omega
  have hlow : ¬ 2 ^ Format.binary64.exponentBits ≤ e + 1 + 1 := by
    simp only [Nat.reducePow]
    omega
  have hbits : 52 + 1 = Format.binary64.mantissaBits := rfl
  simp only [pack, hexponent, hlow, if_false, hlog, hbits, if_true]
  have hpack := packComponents_toNat negative (BitVec.ofNat 11 (e + 1)) (BitVec.ofNat 52 m)
  have hbits : (BitVec.ofNat 11 (e + 1)).toNat * 2 ^ 52 + (BitVec.ofNat 52 m).toNat =
      e * 2 ^ 52 + m := by
    rw [BitVec.toNat_ofNat, BitVec.toNat_ofNat]
    omega
  rw [hbits] at hpack
  exact hpack

theorem pack_unpacked (negative : Bool) {p : Nat} (h : p < infinity) :
    (pack Format.binary64 ((Magnitude.ofPattern p).unpacked (sign negative))).toNat =
      signed negative p := by
  rw [infinity_eq] at h
  rcases pattern_cases p with hp | ⟨exponent, fraction, hf, rfl⟩
  · rw [ofPattern_subnormal hp, Magnitude.unpacked]
    rw [fieldUnit_eq] at hp
    split
    · next hz =>
      obtain rfl : p = 0 := hz
      exact packComponents_toNat negative 0 0
    · next hz => exact pack_subnormal negative _ hp
  · rw [ofPattern_normal exponent hf, Magnitude.unpacked]
    have hunit := fieldUnit_eq
    have hne : fraction + fieldUnit ≠ 0 := by omega
    have hpattern : exponent * 2 ^ 52 + (fraction + fieldUnit) =
        (exponent + 1) * fieldUnit + fraction := by
      rw [← hunit, Nat.succ_mul]
      omega
    have he : exponent < 2046 := by
      rw [hunit] at h
      omega
    rw [dif_neg hne, ← hpattern]
    exact pack_normal negative _ (by simp only; omega) (by simp only; omega) he

end Packing

section Unpacking

variable (b : BitVec Format.binary64.numBits)

theorem unpackMantissa_toNat : (unpackMantissa b).toNat = b.toNat % 2 ^ 52 := by
  simp [unpackMantissa]

theorem unpackExponent_toNat : (unpackExponent b).toNat = b.toNat / 2 ^ 52 % 2 ^ 11 := by
  simp [unpackExponent, Nat.shiftRight_eq_div_pow]

theorem unpackSign_eq : Sign.ofBitVec (unpackSign b) = sign (decide (2 ^ 63 ≤ b.toNat)) := by
  have hb : b.toNat < 2 ^ 64 := b.isLt
  have ht : (unpackSign b).toNat = b.toNat / 2 ^ 63 % 2 := by
    simp [unpackSign, Nat.shiftRight_eq_div_pow]
  have hzero : unpackSign b = 0#1 ↔ b.toNat < 2 ^ 63 := by
    rw [← BitVec.toNat_inj, ht]
    simp only [BitVec.toNat_ofNat]
    omega
  simp only [Sign.ofBitVec, hzero, sign, decide_eq_true_eq, ← Nat.not_lt, ite_not]

variable {b}

/-- Below the exponent of what is not finite, the bits are a magnitude with a sign. -/
theorem unpack_finite {p : Nat} (h : p < infinity) (hp : b.toNat % 2 ^ 63 = p) :
    unpack Format.binary64 b =
      (Magnitude.ofPattern p).unpacked (sign (decide (2 ^ 63 ≤ b.toNat))) := by
  rw [infinity_eq] at h
  have hm : (unpackMantissa b).toNat = p % 2 ^ 52 := by
    rw [unpackMantissa_toNat]
    omega
  have he : (unpackExponent b).toNat = p / 2 ^ 52 := by
    rw [unpackExponent_toNat]
    omega
  have hlow : unpackExponent b ≠ -1#_ := by
    rw [← BitVec.toNat_ne_iff_ne, he]
    simp
    omega
  simp only [unpack, hlow, if_false, unpackSign_eq]
  rcases pattern_cases p with hlt | ⟨exponent, fraction, hf, rfl⟩
  · rw [fieldUnit_eq] at hlt
    have hzero : unpackExponent b = 0#_ := by
      rw [← BitVec.toNat_inj, he, Nat.div_eq_of_lt hlt]
      rfl
    rw [Nat.mod_eq_of_lt hlt] at hm
    rw [ofPattern_subnormal hlt]
    simp only [Magnitude.unpacked, hzero, if_true, ← BitVec.toNat_inj, hm]
    rfl
  · rw [ofPattern_normal exponent hf]
    rw [fieldUnit_eq] at hf he hm
    rw [show ((exponent + 1) * 2 ^ 52 + fraction) / 2 ^ 52 = exponent + 1 by omega] at he
    rw [show ((exponent + 1) * 2 ^ 52 + fraction) % 2 ^ 52 = fraction by omega] at hm
    have hexponent : unpackExponent b ≠ 0#_ := by
      rw [← BitVec.toNat_ne_iff_ne, he]
      simp
    have hmantissa : (1#1 ++ unpackMantissa b).toNat = fraction + fieldUnit := by
      rw [BitVec.toNat_append, ← Nat.shiftLeft_add_eq_or_of_lt (unpackMantissa b).isLt, hm,
        Nat.add_comm, fieldUnit_eq]
      rfl
    have hunit := fieldUnit_eq
    have hne : fraction + fieldUnit ≠ 0 := by omega
    simp only [Magnitude.unpacked, hexponent, if_false, hne, dite_false, hmantissa, he]
    congr 1
    simp [Format.exponentBias]
    omega

/-- From the exponent of infinity on, no bits are a finite number. -/
theorem unpack_not_finite (h : infinity ≤ b.toNat % 2 ^ 63) :
    (unpack Format.binary64 b).isFinite = false := by
  rw [infinity_eq] at h
  have he : unpackExponent b = -1#_ := by
    rw [← BitVec.toNat_inj, unpackExponent_toNat]
    simp
    omega
  simp only [unpack, he, if_true]
  split <;> rfl

end Unpacking

section Shapes

variable {x y : Float} {negative other : Bool} {p q : Nat}

theorem shape_eq_finite_iff :
    shape x = .finite negative p ↔ p < infinity ∧ x.toBits.toNat = signed negative p := by
  have hx : x.toBits.toNat < 2 ^ 64 := x.toBits.toNat_lt
  have htwo : twoPow 63 = 2 ^ 63 := rfl
  simp only [shape, htwo, signed, infinity_eq]
  generalize x.toBits.toNat = n at hx ⊢
  constructor
  · intro h
    split at h
    · cases h
    · split at h
      · cases h
      · cases h
        cases hs : decide (2 ^ 63 ≤ n) <;> simp at hs ⊢ <;> omega
  · rintro ⟨hp, hn⟩
    have hmod : n % 2 ^ 63 = p := by cases negative <;> simp at hn <;> omega
    have hs : decide (2 ^ 63 ≤ n) = negative := by cases negative <;> simp at hn ⊢ <;> omega
    rw [hmod, hs, if_neg (by omega), if_neg (by omega)]

theorem lt_infinity_of_shape (h : shape x = .finite negative p) : p < infinity :=
  (shape_eq_finite_iff.mp h).1

theorem eq_of_shape (hx : shape x = .finite negative p) (hy : shape y = .finite negative p) :
    x = y := by
  have hbits : x.toBits = y.toBits := UInt64.toNat_inj.mp
    ((shape_eq_finite_iff.mp hx).2.trans (shape_eq_finite_iff.mp hy).2.symm)
  cases x with | ofModel a
  cases y with | ofModel b
  cases a
  cases b
  cases hbits
  rfl

theorem signed_mod (h : p < infinity) : signed negative p % 2 ^ 63 = p := by
  rw [infinity_eq] at h
  cases negative <;> simp [signed] <;> omega

theorem signed_le (h : p < infinity) : decide (2 ^ 63 ≤ signed negative p) = negative := by
  rw [infinity_eq] at h
  cases negative <;> simp [signed]
  omega

theorem unpack_of_shape (h : shape x = .finite negative p) :
    x.toModel.unpack = (Magnitude.ofPattern p).unpacked (sign negative) := by
  obtain ⟨hp, hx⟩ := shape_eq_finite_iff.mp h
  have hmod : x.toBits.toBitVec.toNat % 2 ^ 63 = p := by
    change x.toBits.toNat % 2 ^ 63 = p
    rw [hx, signed_mod hp]
  refine (unpack_finite hp hmod).trans ?_
  change Magnitude.unpacked _ (sign (decide (2 ^ 63 ≤ x.toBits.toNat))) = _
  rw [hx, signed_le hp]

theorem shape_of_unpacked {f : UnpackedFloat} (h : p < infinity)
    (hf : f = (Magnitude.ofPattern p).unpacked (sign negative)) :
    shape (.ofModel (.pack f)) = .finite negative p := by
  subst hf
  exact shape_eq_finite_iff.mpr ⟨h, pack_unpacked negative h⟩

theorem shape_ofPattern (h : p < infinity) : shape (ofPattern p) = .finite false p := by
  have hlt := infinity_eq ▸ h
  have hbits : (UInt64.ofNat p).toBitVec.toNat = p :=
    UInt64.toNat_ofNat_of_lt' (by simp only [UInt64.size]; omega)
  have hmod : (UInt64.ofNat p).toBitVec.toNat % 2 ^ 63 = p := by
    rw [hbits]
    omega
  have hsign : decide (2 ^ 63 ≤ (UInt64.ofNat p).toBitVec.toNat) = false := by
    rw [hbits]
    simp
    omega
  have hunpack := unpack_finite h hmod
  rw [hsign] at hunpack
  exact shape_of_unpacked h hunpack

theorem Magnitude.neg_unpacked (m : Magnitude) (negative : Bool) :
    (m.unpacked (sign negative)).neg = m.unpacked (sign (!negative)) := by
  unfold Magnitude.unpacked
  split <;> cases negative <;> rfl

theorem shape_neg (h : shape x = .finite negative p) : shape (-x) = .finite (!negative) p := by
  refine shape_of_unpacked (lt_infinity_of_shape h) ?_
  rw [unpack_of_shape h, Magnitude.neg_unpacked]

theorem isFinite_iff : x.isFinite ↔ ∃ negative p, shape x = .finite negative p := by
  constructor
  · intro hx
    have hp : x.toBits.toNat % 2 ^ 63 < infinity := by
      refine Nat.lt_of_not_le fun hle => ?_
      have hnot : x.isFinite = false := unpack_not_finite hle
      exact absurd hx (ne_true_of_eq_false hnot)
    refine ⟨decide (2 ^ 63 ≤ x.toBits.toNat), _, shape_eq_finite_iff.mpr ⟨hp, ?_⟩⟩
    have hlt : x.toBits.toNat < 2 ^ 64 := x.toBits.toNat_lt
    simp only [signed, decide_eq_true_eq]
    split <;> omega
  · rintro ⟨negative, p, h⟩
    change x.toModel.unpack.isFinite = true
    rw [unpack_of_shape h, Magnitude.unpacked]
    split <;> rfl

theorem mantissa_eq_zero_iff : (Magnitude.ofPattern p).mantissa = 0 ↔ p = 0 := by
  rcases pattern_cases p with hp | ⟨exponent, fraction, hf, rfl⟩
  · rw [ofPattern_subnormal hp]
  · rw [ofPattern_normal exponent hf]
    have hunit := fieldUnit_eq
    rw [Nat.succ_mul]
    simp only
    omega

theorem ofPattern_inj : Magnitude.ofPattern p = Magnitude.ofPattern q ↔ p = q := by
  refine ⟨fun h => ?_, congrArg _⟩
  rw [← Magnitude.toPattern_ofPattern p, h, Magnitude.toPattern_ofPattern]

theorem Magnitude.beq_unpacked (m n : Magnitude) (negative other : Bool) :
    (m.unpacked (sign negative)).beq (n.unpacked (sign other)) ↔
      (m.mantissa = 0 ∧ n.mantissa = 0) ∨ (m = n ∧ negative = other) := by
  obtain ⟨a, i⟩ := m
  obtain ⟨b, j⟩ := n
  by_cases ha : a = 0 <;> by_cases hb : b = 0 <;> cases negative <;> cases other <;>
    simp [Magnitude.unpacked, UnpackedFloat.beq, UnpackedFloat.compare, sign, ha, hb]
  all_goals omega

/-- Numbers are equal if they have the same sign and pattern, and zeros are equal in any case. -/
theorem beq_iff (hx : shape x = .finite negative p) (hy : shape y = .finite other q) :
    x == y ↔ p = q ∧ (negative = other ∨ p = 0) := by
  change x.toModel.unpack.beq y.toModel.unpack ↔ _
  rw [unpack_of_shape hx, unpack_of_shape hy, Magnitude.beq_unpacked, mantissa_eq_zero_iff,
    mantissa_eq_zero_iff, ofPattern_inj]
  constructor
  · rintro (⟨rfl, rfl⟩ | ⟨rfl, rfl⟩)
    · exact ⟨rfl, .inr rfl⟩
    · exact ⟨rfl, .inl rfl⟩
  · rintro ⟨rfl, rfl | rfl⟩
    · exact .inr ⟨rfl, rfl⟩
    · exact .inl ⟨rfl, rfl⟩

theorem isFinite_of_beq (h : x == y) (hy : y.isFinite) : x.isFinite := by
  change x.toModel.unpack.beq y.toModel.unpack = true at h
  change y.toModel.unpack.isFinite = true at hy
  change x.toModel.unpack.isFinite = true
  generalize x.toModel.unpack = a at h ⊢
  generalize y.toModel.unpack = b at h hy
  cases a with
  | infinity s =>
    cases s <;> cases b <;>
      simp_all [UnpackedFloat.beq, UnpackedFloat.compare, UnpackedFloat.isFinite]
  | notANumber => simp [UnpackedFloat.beq, UnpackedFloat.compare] at h
  | zero => rfl
  | finite => rfl

end Shapes

end ScriptLang.Number.Binary
