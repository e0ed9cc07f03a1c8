import ScriptLang.Proofs.Numerals.Rounding
import ScriptLang.Proofs.Scanning.Lexeme

namespace ScriptLang.Number

open Binary Source

section Digits

theorem tenPow_zero : tenPow 0 = 1 := rfl

theorem ofDigits_digits (n : Nat) : ofDigits (digits n) = n :=
  Nat.ofDigitChars_ten_toDigits

theorem ofDigits_append (cs ds : List Char) :
    ofDigits (cs ++ ds) = ofDigits cs * tenPow ds.length + ofDigits ds := by
  have hshift : Nat.ofDigitChars 10 ds (ofDigits cs) = 10 ^ ds.length * ofDigits cs + ofDigits ds :=
    Nat.ofDigitChars_eq_ofDigitChars_zero
  rw [Nat.mul_comm] at hshift
  exact (Nat.ofDigitChars_append 0).trans hshift

theorem ofDigits_zeros (n : Nat) : ofDigits (List.replicate n '0') = 0 :=
  Nat.ofDigitChars_replicate_zero.trans (Nat.mul_zero _)

theorem ofDigits_append_zeros (cs : List Char) (n : Nat) :
    ofDigits (cs ++ List.replicate n '0') = ofDigits cs * tenPow n := by
  rw [ofDigits_append, ofDigits_zeros, List.length_replicate, Nat.add_zero]

theorem ofDigits_zeros_append (cs : List Char) (n : Nat) :
    ofDigits (List.replicate n '0' ++ cs) = ofDigits cs := by
  rw [ofDigits_append, ofDigits_zeros, Nat.zero_mul, Nat.zero_add]

theorem isDigit_of_mem_digits {n : Nat} : ∀ c ∈ digits n, isDigit c := by
  intro c hc
  have hdigit := Nat.isDigit_of_mem_toDigits (by decide) (by decide) hc
  simp only [Char.isDigit, Bool.and_eq_true, decide_eq_true_eq] at hdigit
  simp only [isDigit, Bool.and_eq_true, decide_eq_true_eq]
  exact hdigit

theorem isDigit_of_mem_zeros {n : Nat} : ∀ c ∈ List.replicate n '0', isDigit c := by
  intro c hc
  rw [List.eq_of_mem_replicate hc]
  rfl

end Digits

namespace Decimal

variable {d : Decimal} {p : Nat}

def nearest (d : Decimal) : Nat :=
  Binary.nearest (ofDigits d.digits * tenPow (d.point - d.digits.length).toNat)
    (tenPow (d.digits.length - d.point).toNat)

theorem nearest_tenPow {v i j i' j' : Nat} (h : i + j' = i' + j) :
    Binary.nearest (v * tenPow i) (tenPow j) = Binary.nearest (v * tenPow i') (tenPow j') := by
  refine nearest_congr (tenPow_pos j) (tenPow_pos j') ?_
  simp only [tenPow, Nat.pow_eq]
  rw [Nat.mul_assoc, Nat.mul_assoc, ← Nat.pow_add, ← Nat.pow_add, h]

theorem nearest_ofScaled (n : Nat) (places : Int) :
    (ofScaled n places).nearest = nearestScaled n places := by
  have hbefore (k : Int) : k - places - k = -places := by omega
  have hafter (k : Int) : k - (k - places) = places := by omega
  simp only [nearest, ofScaled, ofDigits_digits, hbefore, hafter, nearestScaled]

theorem trim_append (d : Decimal) :
    ∃ n, d.digits = d.trim.digits ++ List.replicate n '0' := by
  have hsplit := List.takeWhile_append_dropWhile (p := (· = '0')) (l := d.digits.reverse)
  have hzeros : d.digits.reverse.takeWhile (· = '0') =
      List.replicate (d.digits.reverse.takeWhile (· = '0')).length '0' :=
    List.eq_replicate_iff.mpr ⟨rfl, fun c hc => by simpa using List.mem_takeWhile_imp hc⟩
  refine ⟨(d.digits.reverse.takeWhile (· = '0')).length, ?_⟩
  rw [hzeros] at hsplit
  have hreverse := congrArg List.reverse hsplit
  rw [List.reverse_append, List.reverse_replicate, List.reverse_reverse] at hreverse
  exact hreverse.symm

theorem nearest_trim (d : Decimal) : d.trim.nearest = d.nearest := by
  obtain ⟨n, hn⟩ := trim_append d
  have hlength := congrArg List.length hn
  rw [List.length_append, List.length_replicate] at hlength
  have hpoint : d.trim.point = d.point := rfl
  simp only [nearest, hpoint]
  rw [hn, ofDigits_append_zeros, ← hn, Nat.mul_assoc, hlength]
  simp only [tenPow, Nat.pow_eq]
  rw [← Nat.pow_add]
  refine nearest_tenPow ?_
  omega

theorem isDigit_of_mem_trim (n : Nat) (places : Int) :
    ∀ c ∈ (ofScaled n places).trim.digits, isDigit c := by
  obtain ⟨k, hk⟩ := trim_append (ofScaled n places)
  exact fun c hc => isDigit_of_mem_digits c (hk ▸ List.mem_append_left _ hc)

end Decimal

section Shortest

variable {tie : Tie} {p n : Nat} {places : Int}

theorem neighbour_reads_back (h : neighbour tie p places = some n) :
    nearestScaled n places = p := by
  simp only [neighbour] at h
  split at h
  · simpa using List.find?_some h
  · simpa using List.find?_some h

theorem mul_fivePow_mul_twoPow (m n : Nat) : m * Nat.pow 5 n * twoPow n = m * tenPow n := by
  have hpow : Nat.pow 5 n * twoPow n = tenPow n := (Nat.mul_pow 5 2 n).symm
  rw [Nat.mul_assoc, hpow]

/-- All digits of a number read back as the number: nothing has to be rounded. -/
theorem exact_reads_back (hp : p < infinity) :
    nearestScaled ((Magnitude.ofPattern p).units * Nat.pow 5 1074) 1074 = p := by
  have hplaces : (1074 : Int).toNat = 1074 := rfl
  have hnone : (-1074 : Int).toNat = 0 := rfl
  rw [nearestScaled, hplaces, hnone, tenPow_zero, Nat.mul_one]
  refine nearest_of_units hp (tenPow_pos _) ?_
  rw [unitsPerOne]
  generalize 1074 = n
  rw [mul_fivePow_mul_twoPow]

/-- The fewest digits of a number, but for zeros at their end, read back as the number. -/
theorem shortest_reads_back (tie : Tie) (hp : p < infinity) (hz : p ≠ 0) :
    ∃ n places, shortest tie p = (Decimal.ofScaled n places).trim ∧ nearestScaled n places = p := by
  simp only [shortest, if_neg hz]
  generalize leadingExponent (Magnitude.ofPattern p).units unitsPerOne = lead
  cases hfirst : (List.range 17).findSome? fun count : Nat =>
    (neighbour tie p (count - lead)).map (Decimal.ofScaled · (count - lead)) with
  | none => exact ⟨_, _, rfl, exact_reads_back hp⟩
  | some d =>
    obtain ⟨count, -, hd⟩ := List.exists_of_findSome?_eq_some hfirst
    obtain ⟨n, hn, rfl⟩ := Option.map_eq_some_iff.mp hd
    exact ⟨n, count - lead, rfl, neighbour_reads_back hn⟩

end Shortest

section Numerals

variable {whole integralEnd : List Char} {d : Decimal} {p : Nat} {style : Style}

def integralEnds : List (List Char) := [[], ['.', '0']]

theorem lexeme_integral (hne : whole ≠ []) (hdigits : ∀ c ∈ whole, isDigit c)
    (hend : integralEnd ∈ integralEnds) :
    Lexeme (whole ++ integralEnd) (.number (ofPattern (nearest (ofDigits whole) 1))) := by
  simp only [integralEnds, List.mem_cons, List.not_mem_nil, or_false] at hend
  rcases hend with rfl | rfl
  · have hinteger := Lexeme.integer hne hdigits
    rw [ofNumeral, List.append_nil, List.length_nil, tenPow_zero] at hinteger
    rwa [List.append_nil]
  · have hdecimal := Lexeme.decimal hne hdigits (List.cons_ne_nil '0' []) (by simp [isDigit])
    have hzero : ofDigits (whole ++ ['0']) = ofDigits whole * tenPow 1 :=
      ofDigits_append_zeros whole 1
    have hshift : 1 + 0 = 0 + 1 := rfl
    rw [ofNumeral, hzero, List.length_singleton, Decimal.nearest_tenPow hshift, tenPow_zero,
      Nat.mul_one] at hdecimal
    exact hdecimal

theorem lexeme_fraction {fraction : List Char} (hne : whole ≠ [])
    (hwhole : ∀ c ∈ whole, isDigit c) (hne' : fraction ≠ [])
    (hfraction : ∀ c ∈ fraction, isDigit c) {n : Nat}
    (h : nearest (ofDigits (whole ++ fraction)) (tenPow fraction.length) = n) :
    Lexeme (whole ++ '.' :: fraction) (.number (ofPattern n)) := by
  have hdecimal := Lexeme.decimal hne hwhole hne' hfraction
  rwa [ofNumeral, h] at hdecimal

/-- A decimal around its point is a numeral of the pattern it reads as. -/
theorem lexeme_positional (hdigits : ∀ c ∈ d.digits, isDigit c)
    (hend : integralEnd ∈ integralEnds) :
    Lexeme (d.positional integralEnd) (.number (ofPattern d.nearest)) := by
  have hzero : ∀ c ∈ ['0'], isDigit c := by simp [isDigit]
  have hcons : ['0'] ≠ [] := List.cons_ne_nil _ _
  -- the point stands behind all digits, before them or among them
  by_cases hintegral : (d.digits.length : Int) ≤ d.point
  · have hafter : (d.digits.length - d.point).toNat = 0 := by omega
    by_cases hpoint : d.point ≤ 0
    · -- nothing is left of a zero
      have hnil : d.digits = [] := List.length_eq_zero_iff.mp (by omega)
      have hvalue : d.nearest = nearest (ofDigits ['0']) 1 := by
        have hnone : ofDigits [] = 0 := rfl
        rw [Decimal.nearest, hafter, hnil, hnone, Nat.zero_mul, tenPow_zero]
        rfl
      simp only [Decimal.positional, if_pos hintegral, if_pos hpoint]
      rw [hvalue]
      exact lexeme_integral hcons hzero hend
    · have hwhole : d.digits.take d.point.toNat = d.digits := List.take_of_length_le (by omega)
      have hzeros : d.point.toNat - d.digits.length = (d.point - d.digits.length).toNat := by omega
      have hne : d.digits ++ List.replicate (d.point - d.digits.length).toNat '0' ≠ [] := by
        refine List.length_pos_iff.mp ?_
        rw [List.length_append, List.length_replicate]
        omega
      simp only [Decimal.positional, if_pos hintegral, if_neg hpoint, hwhole, hzeros]
      rw [Decimal.nearest, hafter, tenPow_zero, ← ofDigits_append_zeros]
      exact lexeme_integral hne
        (List.forall_mem_append.mpr ⟨hdigits, isDigit_of_mem_zeros⟩) hend
  · have hbefore : (d.point - d.digits.length).toNat = 0 := by omega
    have hvalue : d.nearest = nearest (ofDigits d.digits)
        (tenPow (d.digits.length - d.point).toNat) := by
      rw [Decimal.nearest, hbefore, tenPow_zero, Nat.mul_one]
    simp only [Decimal.positional, if_neg hintegral]
    by_cases hpoint : d.point ≤ 0
    · have hnone : d.point.toNat = 0 := by omega
      have hlength : (List.replicate (-d.point).toNat '0' ++ d.digits).length =
          (d.digits.length - d.point).toNat := by
        rw [List.length_append, List.length_replicate]
        omega
      rw [if_pos hpoint, hnone, List.drop_zero]
      refine lexeme_fraction hcons hzero ?_
        (List.forall_mem_append.mpr ⟨isDigit_of_mem_zeros, hdigits⟩) ?_
      · refine List.length_pos_iff.mp ?_
        omega
      · rw [hlength, hvalue, ofDigits_append, ofDigits_zeros_append]
        congr 1
        exact (congrArg (· + _) (Nat.zero_mul _)).trans (Nat.zero_add _)
    · have hzeros : d.point.toNat - d.digits.length = 0 := by omega
      have hnone : (-d.point).toNat = 0 := by omega
      have hlength : (d.digits.drop d.point.toNat).length = (d.digits.length - d.point).toNat := by
        rw [List.length_drop]
        omega
      rw [if_neg hpoint, hzeros, hnone, List.replicate_zero, List.append_nil, List.nil_append]
      refine lexeme_fraction ?_ (fun c hc => hdigits c (List.mem_of_mem_take hc)) ?_
        (fun c hc => hdigits c (List.mem_of_mem_drop hc)) ?_
      · refine List.length_pos_iff.mp ?_
        rw [List.length_take]
        omega
      · refine List.length_pos_iff.mp ?_
        omega
      · rw [List.take_append_drop, hlength, hvalue]

/-- What is written of a number besides its sign is a numeral of it. -/
theorem lexeme_magnitudeText (hp : p < infinity) (hend : style.integralEnd ∈ integralEnds) :
    Lexeme (magnitudeText style p) (.number (ofPattern p)) := by
  unfold magnitudeText
  split
  · next hintegral =>
    have hvalue : nearest ((Magnitude.ofPattern p).units / unitsPerOne) 1 = p := by
      refine nearest_of_units hp Nat.one_pos ?_
      rw [Nat.mul_one]
      exact Nat.div_mul_cancel (Nat.dvd_of_mod_eq_zero (by simpa [isIntegral] using hintegral))
    have hne : digits ((Magnitude.ofPattern p).units / unitsPerOne) ≠ [] := Nat.toDigits_ne_nil
    have hlexeme := lexeme_integral hne isDigit_of_mem_digits hend
    rwa [ofDigits_digits, hvalue] at hlexeme
  · next hintegral =>
    have hz : p ≠ 0 := by
      rintro rfl
      have hunits : (Magnitude.ofPattern 0).units = 0 := rfl
      simp [isIntegral, hunits] at hintegral
    obtain ⟨n, places, hshortest, hvalue⟩ := shortest_reads_back .up hp hz
    have hlexeme := lexeme_positional (Decimal.isDigit_of_mem_trim n places) hend
    rwa [Decimal.nearest_trim, Decimal.nearest_ofScaled, hvalue, ← hshortest] at hlexeme

end Numerals

end ScriptLang.Number
