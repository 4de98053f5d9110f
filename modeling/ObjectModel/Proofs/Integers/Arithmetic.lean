import Mathlib.Data.Rat.Floor
import ObjectModel.Arithmetic

/-!
# Checked arithmetic is exact

The operations of `ObjectModel.Arithmetic` compute with 64-bit words; here they are compared with
the integers.

* `Arithmetic.isFloor_truncated` -- **the correction of a truncating division is the floor
  division**, and no step of it leaves the range.
-/

namespace ObjectModel.Arithmetic

variable {n : Int} {i l r : Int64}

/-! ## 1. Range -/

theorem minValue_eq : Int64.minValue.toInt = -9223372036854775808 := rfl

theorem maxValue_eq : Int64.maxValue.toInt = 9223372036854775807 := rfl

theorem toInt_bounds (i : Int64) : -9223372036854775808 ≤ i.toInt ∧ i.toInt ≤ 9223372036854775807 :=
  ⟨i.minValue_le_toInt, i.toInt_le⟩

/-- **A word stands for one integer.** -/
theorem fit?_eq_some_iff : fit? n = some i ↔ i.toInt = n := by
  unfold fit?
  rw [minValue_eq, maxValue_eq]
  have hi := toInt_bounds i
  split
  · rename_i hn
    have hround : (Int64.ofInt n).toInt = n := Int64.toInt_ofInt_of_le (by omega) (by omega)
    constructor
    · intro h
      rw [← Option.some.inj h, hround]
    · intro h
      rw [← h, Int64.ofInt_toInt]
  · rename_i hn
    constructor
    · intro h
      cases h
    · intro h
      exact absurd (by omega) hn

theorem fit?_toInt (i : Int64) : fit? i.toInt = some i := fit?_eq_some_iff.mpr rfl

theorem fit?_eq_none_iff : fit? n = none ↔ n < -9223372036854775808 ∨ 9223372036854775807 < n := by
  unfold fit?
  rw [minValue_eq, maxValue_eq]
  split
  · rename_i hn
    refine ⟨fun h => ?_, fun h => ?_⟩
    · cases h
    · omega
  · rename_i hn
    exact ⟨fun _ => by omega, fun _ => rfl⟩

/-! ## 2. Floor division -/

/-- **Quotient and remainder of a floor division**: the remainder is smaller than the divisor, and
is zero or has its sign. -/
structure IsFloor (l r q m : Int) : Prop where
  eq : l = q * r + m
  small : m.natAbs < r.natAbs
  sign : m = 0 ∨ (m < 0 ↔ r < 0)

namespace IsFloor

variable {l r q m q' m' : Int}

theorem ne_zero (h : IsFloor l r q m) : r ≠ 0 := by
  have := h.small
  omega

theorem unique (h : IsFloor l r q m) (h' : IsFloor l r q' m') : q = q' ∧ m = m' := by
  have hdiff : (q - q') * r = m' - m := by
    rw [Int.sub_mul]
    have := h.eq
    have := h'.eq
    omega
  have hsmall : (m' - m).natAbs < r.natAbs := by
    have := h.small
    have := h'.small
    have := h.sign
    have := h'.sign
    omega
  have hzero : m' - m = 0 := Int.eq_zero_of_dvd_of_natAbs_lt_natAbs (Dvd.intro_left _ hdiff) hsmall
  rw [hzero] at hdiff
  rcases Int.mul_eq_zero.mp hdiff with hq | hr
  · omega
  · exact absurd hr h.ne_zero

theorem fdiv (l : Int) (hr : r ≠ 0) : IsFloor l r (l.fdiv r) (l.fmod r) := by
  have heq := Int.mul_fdiv_add_fmod l r
  have hmod : l.fmod r = l % r + if 0 ≤ r ∨ r ∣ l then 0 else r := Int.fmod_eq_emod
  have hdvd : r ∣ l ↔ l % r = 0 := Int.dvd_iff_emod_eq_zero
  have hnonneg := Int.emod_nonneg l hr
  have hlt := Int.emod_lt l hr
  refine ⟨by rw [Int.mul_comm]; exact heq.symm, ?_, ?_⟩
  · split at hmod <;> omega
  · split at hmod <;> omega

theorem fdiv_eq (h : IsFloor l r q m) : l.fdiv r = q := ((fdiv l h.ne_zero).unique h).1

theorem fmod_eq (h : IsFloor l r q m) : l.fmod r = m := ((fdiv l h.ne_zero).unique h).2

theorem floor_eq (h : IsFloor l r q m) : ⌊(l : ℚ) / r⌋ = q := by
  have hsmall := h.small
  have hsign := h.sign
  have heq := h.eq
  have hnext : (q + 1) * r = q * r + r := by rw [Int.add_mul, Int.one_mul]
  rw [Int.floor_eq_iff]
  rcases Int.lt_or_gt_of_ne h.ne_zero with hr | hr
  · have hneg : (r : ℚ) < 0 := by exact_mod_cast hr
    rw [le_div_iff_of_neg hneg, div_lt_iff_of_neg hneg]
    refine ⟨?_, ?_⟩
    · have hle : l ≤ q * r := by omega
      exact_mod_cast hle
    · have hlt : (q + 1) * r < l := by omega
      exact_mod_cast hlt
  · have hpos : (0 : ℚ) < r := by exact_mod_cast hr
    rw [le_div_iff₀ hpos, div_lt_iff₀ hpos]
    refine ⟨?_, ?_⟩
    · have hle : q * r ≤ l := by omega
      exact_mod_cast hle
    · have hlt : l < (q + 1) * r := by omega
      exact_mod_cast hlt

end IsFloor

/-! ## 3. Truncating division and its correction -/

theorem divides_iff : divides l r = true ↔ r ≠ 0 ∧ ¬ (l = Int64.minValue ∧ r = -1) := by
  simp only [divides, Bool.and_eq_true, Bool.not_eq_true', decide_eq_true_eq, Bool.and_eq_false_imp,
    beq_iff_eq, beq_eq_false_iff_ne, not_and, ne_eq]

theorem toInt_eq_zero_iff : r.toInt = 0 ↔ r = 0 := by rw [← Int64.toInt_zero, Int64.toInt_inj]

theorem toInt_neg_iff : r < 0 ↔ r.toInt < 0 := by rw [Int64.lt_iff_toInt_lt, Int64.toInt_zero]

theorem toInt_div (hd : divides l r = true) : (l / r).toInt = l.toInt.tdiv r.toInt := by
  obtain ⟨_, hmin⟩ := divides_iff.mp hd
  by_cases hl : l = Int64.minValue
  · exact Int64.toInt_div_of_ne_right l r fun hr => hmin ⟨hl, hr⟩
  · exact Int64.toInt_div_of_ne_left l r hl

/-- Whether a truncating division has to be corrected: a remainder is left, and the signs differ. -/
def Corrected (l r : Int64) : Prop := l % r ≠ 0 ∧ ¬ (l < 0 ↔ r < 0)

theorem corrected_iff : Corrected l r ↔ l % r ≠ 0 ∧ decide (l < 0) ≠ decide (r < 0) :=
  and_congr_right fun _ => not_congr decide_eq_decide.symm

theorem corrected_iff_toInt :
    Corrected l r ↔ (l % r).toInt ≠ 0 ∧ ¬ (l.toInt < 0 ↔ r.toInt < 0) := by
  unfold Corrected
  rw [toInt_neg_iff, toInt_neg_iff, Ne, ← toInt_eq_zero_iff]

/-- What a truncating division leaves has the sign of the dividend. -/
theorem truncated (hd : divides l r = true) :
    l.toInt = (l / r).toInt * r.toInt + (l % r).toInt ∧ (l % r).toInt.natAbs < r.toInt.natAbs ∧
      (0 ≤ l.toInt → 0 ≤ (l % r).toInt) ∧ (l.toInt ≤ 0 → (l % r).toInt ≤ 0) := by
  have hr : r.toInt ≠ 0 := fun h => (divides_iff.mp hd).1 (toInt_eq_zero_iff.mp h)
  rw [toInt_div hd, Int64.toInt_mod]
  refine ⟨?_, ?_, fun h => Int.tmod_nonneg _ h, fun h => ?_⟩
  · rw [Int.mul_comm]
    exact (Int.mul_tdiv_add_tmod _ _).symm
  · rw [Int.natAbs_tmod]
    exact Nat.mod_lt _ (Int.natAbs_pos.mpr hr)
  · have hneg := Int.tmod_nonneg r.toInt (Int.neg_nonneg_of_nonpos h)
    rw [Int.neg_tmod] at hneg
    omega

/-- With a remainder left, the remainder and the dividend are on the same side. -/
theorem corrected_iff_mod (hd : divides l r = true) :
    Corrected l r ↔ l % r ≠ 0 ∧ decide (l % r < 0) ≠ decide (r < 0) := by
  obtain ⟨_, _, hnonneg, hnonpos⟩ := truncated hd
  have hiff : (l % r ≠ 0 ∧ decide (l % r < 0) ≠ decide (r < 0)) ↔
      (l % r).toInt ≠ 0 ∧ ¬ ((l % r).toInt < 0 ↔ r.toInt < 0) := by
    rw [ne_eq (decide _), decide_eq_decide, toInt_neg_iff, toInt_neg_iff, Ne, ← toInt_eq_zero_iff]
  rw [hiff, corrected_iff_toInt]
  omega

/-- **The steps of the correction stay in the range.** -/
theorem corrected_bounds (hd : divides l r = true) (hc : Corrected l r) :
    -9223372036854775808 ≤ (l / r).toInt - 1 ∧ (l / r).toInt - 1 ≤ 9223372036854775807 ∧
      -9223372036854775808 ≤ (l % r).toInt + r.toInt ∧
        (l % r).toInt + r.toInt ≤ 9223372036854775807 := by
  obtain ⟨_, hsmall, hnonneg, hnonpos⟩ := truncated hd
  obtain ⟨hleft, hsigns⟩ := corrected_iff_toInt.mp hc
  have hl := toInt_bounds l
  have hr := toInt_bounds r
  -- a remainder is left, so the divisor is neither 1 nor -1
  have hhalf : (l / r).toInt.natAbs ≤ l.toInt.natAbs / 2 := by
    rw [toInt_div hd, Int.natAbs_tdiv]
    exact Nat.div_le_div_left (by omega) Nat.two_pos
  omega

/-- **The correction of a truncating division is the floor division.** -/
theorem isFloor_truncated (hd : divides l r = true) :
    (Corrected l r → IsFloor l.toInt r.toInt ((l / r).toInt - 1) ((l % r).toInt + r.toInt)) ∧
      (¬ Corrected l r → IsFloor l.toInt r.toInt (l / r).toInt (l % r).toInt) := by
  obtain ⟨heq, hsmall, hnonneg, hnonpos⟩ := truncated hd
  rw [corrected_iff_toInt]
  refine ⟨fun hc => ⟨?_, ?_, ?_⟩, fun hc => ⟨heq, hsmall, ?_⟩⟩
  · rw [Int.sub_mul, Int.one_mul]
    omega
  · omega
  · omega
  · omega

/-- **The floor quotient is exact**: there is none only for a zero divisor and where it leaves the
range. -/
theorem floorDiv?_eq (hr : r ≠ 0) (l : Int64) : floorDiv? l r = fit? (l.toInt.fdiv r.toInt) := by
  unfold floorDiv?
  by_cases hd : divides l r = true
  · obtain ⟨hcorrected, hplain⟩ := isFloor_truncated hd
    rw [if_pos hd]
    by_cases hc : Corrected l r
    · rw [if_pos (corrected_iff.mp hc), (hcorrected hc).fdiv_eq]
      rfl
    · rw [if_neg (mt corrected_iff.mpr hc), (hplain hc).fdiv_eq, fit?_toInt]
  · rw [if_neg hd]
    rw [divides_iff, not_and, not_not] at hd
    obtain ⟨rfl, rfl⟩ := hd hr
    decide

theorem toInt_add_of_bounds {a b : Int64} (h : -9223372036854775808 ≤ a.toInt + b.toInt)
    (h' : a.toInt + b.toInt ≤ 9223372036854775807) : (a + b).toInt = a.toInt + b.toInt := by
  rw [Int64.toInt_add]
  exact Int.bmod_eq_of_le (by omega) (by omega)

/-- **The floor remainder is exact** where truncating division is defined. -/
theorem floorMod?_eq (hd : divides l r = true) : floorMod? l r = fit? (l.toInt.fmod r.toInt) := by
  obtain ⟨hcorrected, hplain⟩ := isFloor_truncated hd
  unfold floorMod?
  rw [if_pos hd]
  by_cases hc : Corrected l r
  · obtain ⟨_, _, hlow, hhigh⟩ := corrected_bounds hd hc
    rw [(hcorrected hc).fmod_eq, ← toInt_add_of_bounds hlow hhigh, fit?_toInt]
    exact congrArg some (if_pos ((corrected_iff_mod hd).mp hc))
  · rw [(hplain hc).fmod_eq, fit?_toInt]
    exact congrArg some (if_neg (mt (corrected_iff_mod hd).mpr hc))

theorem exists_fit (h : -9223372036854775808 ≤ n) (h' : n ≤ 9223372036854775807) :
    ∃ i, fit? n = some i := by
  cases hfit : fit? n with
  | some i => exact ⟨i, rfl⟩
  | none =>
    have := fit?_eq_none_iff.mp hfit
    omega

/-- **Where truncating division is defined, both parts of the floor division exist.** -/
theorem exists_floor (hd : divides l r = true) :
    ∃ q m, floorDiv? l r = some q ∧ floorMod? l r = some m ∧
      IsFloor l.toInt r.toInt q.toInt m.toInt := by
  have hr := (divides_iff.mp hd).1
  obtain ⟨hcorrected, hplain⟩ := isFloor_truncated hd
  have hparts : ∀ {a b : Int}, IsFloor l.toInt r.toInt a b → (∃ q, fit? a = some q) →
      (∃ m, fit? b = some m) → ∃ q m, floorDiv? l r = some q ∧ floorMod? l r = some m ∧
      IsFloor l.toInt r.toInt q.toInt m.toInt := by
    rintro a b hfloor ⟨q, hq⟩ ⟨m, hm⟩
    refine ⟨q, m, ?_, ?_, ?_⟩
    · rw [floorDiv?_eq hr, hfloor.fdiv_eq, hq]
    · rw [floorMod?_eq hd, hfloor.fmod_eq, hm]
    · rw [fit?_eq_some_iff.mp hq, fit?_eq_some_iff.mp hm]
      exact hfloor
  by_cases hc : Corrected l r
  · obtain ⟨hqlow, hqhigh, hmlow, hmhigh⟩ := corrected_bounds hd hc
    exact hparts (hcorrected hc) (exists_fit hqlow hqhigh) (exists_fit hmlow hmhigh)
  · exact hparts (hplain hc) ⟨_, fit?_toInt _⟩ ⟨_, fit?_toInt _⟩

/-! ## 4. Powers -/

theorem parityExponent_eq_zero_iff {e : Nat} : parityExponent e = 0 ↔ e = 0 := by
  unfold parityExponent
  split <;> omega

theorem parityExponent_mod_two (e : Nat) : parityExponent e % 2 = e % 2 := by
  unfold parityExponent
  split <;> omega

theorem pow_parityExponent {b : Int} (hb : b.natAbs ≤ 1) (e : Nat) :
    b.pow (parityExponent e) = b.pow e := by
  change b ^ parityExponent e = b ^ e
  obtain rfl | rfl | rfl : b = 0 ∨ b = 1 ∨ b = -1 := by omega
  · simp only [zero_pow_eq, parityExponent_eq_zero_iff]
  · rw [one_pow, one_pow]
  · rw [neg_one_pow_eq_pow_mod_two, parityExponent_mod_two, ← neg_one_pow_eq_pow_mod_two]

/-- The powers of -1, 0 and 1 are in the range. -/
theorem fit?_pow_of_small {b : Int} (hb : b.natAbs ≤ 1) (e : Nat) :
    ∃ n, fit? (b.pow e) = some n := by
  have hle : (b ^ e).natAbs ≤ 1 := by
    rw [Int.natAbs_pow]
    exact pow_le_one' hb e
  have hle : (b.pow e).natAbs ≤ 1 := hle
  exact exists_fit (by omega) (by omega)

/-- Other bases leave the range behind 63. -/
theorem natAbs_pow_large {b : Int} (hb : 2 ≤ b.natAbs) {e : Nat} (he : 64 ≤ e) :
    18446744073709551616 ≤ (b.pow e).natAbs := by
  change _ ≤ (b ^ e).natAbs
  rw [Int.natAbs_pow]
  calc 18446744073709551616 = 2 ^ 64 := by norm_num
    _ ≤ 2 ^ e := Nat.pow_le_pow_right Nat.two_pos he
    _ ≤ b.natAbs ^ e := Nat.pow_le_pow_left hb e

theorem pow?_of_limit_le {e : Nat} (he : exponentLimit ≤ e) (b : Int64) : pow? b e = none :=
  if_neg (Nat.not_lt.mpr he)

/-- **Powers are exact** for exponents below the limit. -/
theorem pow?_eq {e : Nat} (he : e < exponentLimit) (b : Int64) :
    pow? b e = fit? (b.toInt.pow e) := by
  unfold pow?
  rw [if_pos he]
  by_cases hb : b.toInt.natAbs ≤ 1
  · rw [if_pos hb, pow_parityExponent hb]
  · rw [if_neg hb]
    by_cases hlarge : e ≤ 63
    · rw [if_pos hlarge]
    · rw [if_neg hlarge]
      have hpow := natAbs_pow_large (b := b.toInt) (by omega) (Nat.lt_of_not_le hlarge)
      refine (fit?_eq_none_iff.mpr ?_).symm
      omega

end ObjectModel.Arithmetic
