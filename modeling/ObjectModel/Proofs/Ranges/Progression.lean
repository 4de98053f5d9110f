import Mathlib.Data.Set.Card
import ObjectModel.Coroutine
import ObjectModel.Engine
import ObjectModel.Proofs.Integers.Arithmetic

/-!
# What a progression counts

A loop that adds the step with a check, and a quotient that is rounded up: both are compared with
the integers `start`, `start + step`, `start + 2 * step`, ...

* `Progression.before_value_iff` -- **the length is the number of these integers that come before
  the end**; they are the first ones.
-/

namespace ObjectModel.Progression

variable {p : Progression} {i : Int64} {k : Nat} {n : Int}

/-! ## 1. The integers of a progression -/

/-- The integer at place `k`. -/
def value (p : Progression) (k : Nat) : Int := p.start.toInt + k * p.step.toInt

/-- `n` stands before the end, seen in the direction of the step. -/
def Before (p : Progression) (n : Int) : Prop :=
  0 < p.step.toInt ∧ n < p.stop.toInt ∨ p.step.toInt < 0 ∧ p.stop.toInt < n

/-- The distance from start to end. -/
def distance (p : Progression) : Nat := (p.stop.toInt - p.start.toInt).natAbs

/-- The size of the step. -/
def unit (p : Progression) : Nat := p.step.toInt.natAbs

theorem value_zero (p : Progression) : p.value 0 = p.start.toInt := by
  rw [value, Nat.cast_zero, zero_mul, add_zero]

theorem value_succ (p : Progression) (k : Nat) : p.value (k + 1) = p.value k + p.step.toInt := by
  rw [value, value, Nat.cast_succ, add_mul, one_mul, add_assoc]

theorem step_toInt_ne_zero (hstep : p.step ≠ 0) : p.step.toInt ≠ 0 :=
  fun h => hstep (Arithmetic.toInt_eq_zero_iff.mp h)

theorem unit_pos (hstep : p.step ≠ 0) : 0 < p.unit := Int.natAbs_pos.mpr (step_toInt_ne_zero hstep)

theorem admits_iff (hstep : p.step ≠ 0) : p.admits i = true ↔ p.Before i.toInt := by
  have hne := step_toInt_ne_zero hstep
  have hpos : 0 < p.step ↔ 0 < p.step.toInt := by rw [Int64.lt_iff_toInt_lt, Int64.toInt_zero]
  unfold admits Before
  by_cases h : 0 < p.step
  · rw [if_pos h, decide_eq_true_iff, Int64.lt_iff_toInt_lt]
    have := hpos.mp h
    omega
  · rw [if_neg h, decide_eq_true_iff, Int64.lt_iff_toInt_lt]
    have : ¬ 0 < p.step.toInt := fun hp => h (hpos.mpr hp)
    omega

/-! ## 2. Length -/

/-- A quotient that is rounded up. -/
theorem lt_ceil_iff {d u : Nat} (hu : 0 < u) : k < (d + u - 1) / u ↔ k * u < d := by
  rw [← Nat.succ_le_iff, Nat.le_div_iff_mul_le hu, Nat.succ_mul]
  omega

/-- In the direction of the step, `k` steps are less than the whole distance. -/
theorem before_value_iff_mul (hstep : p.step ≠ 0) :
    p.Before (p.value k) ↔ p.Before p.start.toInt ∧ k * p.unit < p.distance := by
  have hne := step_toInt_ne_zero hstep
  rcases lt_or_gt_of_ne hne with hneg | hpos
  · have hunit : (p.unit : Int) = -p.step.toInt := Int.ofNat_natAbs_of_nonpos hneg.le
    have hprod :
        ((k * p.unit : Nat) : Int) = -(k * p.step.toInt) := by rw [Nat.cast_mul, hunit, mul_neg]
    unfold Before value distance
    omega
  · have hunit : (p.unit : Int) = p.step.toInt := Int.natAbs_of_nonneg hpos.le
    have hprod : ((k * p.unit : Nat) : Int) = k * p.step.toInt := by rw [Nat.cast_mul, hunit]
    unfold Before value distance
    omega

/-- **The integers before the end are those at the places below the length.** -/
theorem before_value_iff (hstep : p.step ≠ 0) : p.Before (p.value k) ↔ k < p.length := by
  rw [before_value_iff_mul hstep, ← lt_ceil_iff (unit_pos hstep), ← admits_iff hstep]
  unfold length
  by_cases h : p.admits p.start = true
  · rw [if_pos h]
    exact and_iff_right h
  · rw [if_neg h]
    exact ⟨fun hb => absurd hb.1 h, fun hk => absurd hk (Nat.not_lt_zero k)⟩

theorem length_eq_ncard (hstep : p.step ≠ 0) :
    p.length = {k : Nat | p.Before (p.value k)}.ncard := by
  have hset : {k : Nat | p.Before (p.value k)} = Set.Iio p.length :=
    Set.ext fun k => before_value_iff hstep
  rw [hset, ← Finset.coe_range, Set.ncard_coe_finset, Finset.card_range]

theorem length_eq_zero (h : ¬ p.admits p.start = true) : p.length = 0 := if_neg h

theorem length_eq_div (hstep : p.step ≠ 0) (h : p.admits p.start = true) :
    p.length = p.distance / p.unit + if p.distance % p.unit = 0 then 0 else 1 := by
  have hu := unit_pos hstep
  have hdiv := Nat.div_add_mod p.distance p.unit
  have hmod := Nat.mod_lt p.distance hu
  have hlength : p.length = (p.distance + p.unit - 1) / p.unit := if_pos h
  rw [hlength]
  refine Nat.div_eq_of_lt_le ?_ ?_
  · rw [Nat.add_mul, Nat.mul_comm (p.distance / p.unit)]
    split
    · omega
    · omega
  · rw [Nat.add_mul, Nat.add_mul, Nat.mul_comm (p.distance / p.unit)]
    split
    · omega
    · omega

/-! ## 3. Words -/

/-- The distance between two integers, without a sign. -/
def distanceWord (a b : Int64) : UInt64 :=
  if b ≤ a then a.toUInt64 - b.toUInt64 else b.toUInt64 - a.toUInt64

/-- The size of an integer, without its sign. -/
def unitWord (a : Int64) : UInt64 := if a < 0 then 0 - a.toUInt64 else a.toUInt64

/-- **The length, computed with words of 64 bits**: a quotient, and one more if something is
left. -/
def lengthWord (p : Progression) : UInt64 :=
  if p.admits p.start then
    let distance := distanceWord p.stop p.start
    let unit := unitWord p.step
    distance / unit + if distance % unit = 0 then 0 else 1
  else 0

theorem toNat_toUInt64 (i : Int64) :
    (i.toUInt64.toNat : Int) = if i.toInt < 0 then i.toInt + 18446744073709551616 else i.toInt := by
  have hbits : i.toUInt64.toNat = i.toBitVec.toNat := rfl
  have hint : i.toInt = i.toBitVec.toInt := rfl
  have hlt := i.toBitVec.isLt
  rw [hbits, hint, BitVec.toInt_eq_toNat_cond]
  split
  · rename_i h
    split <;> omega
  · rename_i h
    split <;> omega

theorem toNat_sub_toUInt64 {a b : Int64} (h : b.toInt ≤ a.toInt) :
    ((a.toUInt64 - b.toUInt64).toNat : Int) = a.toInt - b.toInt := by
  have ha := toNat_toUInt64 a
  have hb := toNat_toUInt64 b
  have hab := Arithmetic.toInt_bounds a
  have hbb := Arithmetic.toInt_bounds b
  rw [UInt64.toNat_sub]
  split at ha <;> split at hb <;> omega

theorem toNat_distanceWord (a b : Int64) :
    (distanceWord a b).toNat = (a.toInt - b.toInt).natAbs := by
  unfold distanceWord
  split
  · rename_i h
    have hsub := toNat_sub_toUInt64 (Int64.le_iff_toInt_le.mp h)
    rw [Int64.le_iff_toInt_le] at h
    omega
  · rename_i h
    rw [Int64.le_iff_toInt_le] at h
    have hsub := toNat_sub_toUInt64 (a := b) (b := a) (by omega)
    omega

theorem toNat_unitWord (a : Int64) : (unitWord a).toNat = a.toInt.natAbs := by
  have ha := toNat_toUInt64 a
  have hbounds := Arithmetic.toInt_bounds a
  unfold unitWord
  by_cases h : a < 0
  · have hneg := Arithmetic.toInt_neg_iff.mp h
    rw [if_pos hneg] at ha
    rw [if_pos h, UInt64.toNat_sub]
    have hzero : (0 : UInt64).toNat = 0 := rfl
    omega
  · have hneg : ¬ a.toInt < 0 := fun hn => h (Arithmetic.toInt_neg_iff.mpr hn)
    rw [if_neg hneg] at ha
    rw [if_neg h]
    omega

theorem unitWord_ne_zero (hstep : p.step ≠ 0) : unitWord p.step ≠ 0 := by
  intro h
  have hunit := toNat_unitWord p.step
  rw [h] at hunit
  exact absurd hunit.symm (Nat.ne_of_gt (unit_pos hstep))

/-- The length is at most the distance, which is the difference of two words. -/
theorem length_lt (hstep : p.step ≠ 0) : p.length < 18446744073709551616 := by
  have hstart := Arithmetic.toInt_bounds p.start
  have hstop := Arithmetic.toInt_bounds p.stop
  by_contra hle
  have hbefore : p.Before (p.value 18446744073709551615) := (before_value_iff hstep).mpr (by omega)
  have hmul := ((before_value_iff_mul hstep).mp hbefore).2
  have hle := Nat.le_mul_of_pos_right 18446744073709551615 (unit_pos hstep)
  unfold distance at hmul
  omega

/-- **The words do not overflow.** -/
theorem toNat_lengthWord (hstep : p.step ≠ 0) : p.lengthWord.toNat = p.length := by
  unfold lengthWord
  by_cases h : p.admits p.start = true
  · have hdistance : (distanceWord p.stop p.start).toNat = p.distance := toNat_distanceWord _ _
    have hunit : (unitWord p.step).toNat = p.unit := toNat_unitWord _
    have hlt := length_lt hstep
    have hlength := length_eq_div hstep h
    have hzero : distanceWord p.stop p.start % unitWord p.step = 0 ↔ p.distance % p.unit = 0 := by
      rw [← UInt64.toNat_inj, UInt64.toNat_mod, hdistance, hunit]
      rfl
    have hcarry :
        (if distanceWord p.stop p.start % unitWord p.step = 0 then 0 else 1 : UInt64).toNat
        = if p.distance % p.unit = 0 then 0 else 1 := by
      by_cases hz : p.distance % p.unit = 0
      · rw [if_pos hz, if_pos (hzero.mpr hz)]
        rfl
      · rw [if_neg hz, if_neg fun hw => hz (hzero.mp hw)]
        rfl
    rw [if_pos h, UInt64.toNat_add, UInt64.toNat_div, hdistance, hunit, hcarry, ← hlength]
    exact Nat.mod_eq_of_lt hlt
  · rw [if_neg h, length_eq_zero h]
    rfl

/-! ## 4. The loop -/

/-- **The computation that stands at place `k`**: its next value is there if it is in the range of
words. -/
def rest (p : Progression) (k : Nat) : Coroutine := .progression p (Arithmetic.fit? (p.value k))

theorem rest_zero (p : Progression) : p.rest 0 = .progression p (some p.start) := by
  rw [rest, value_zero, Arithmetic.fit?_toInt]

/-- The checked addition goes one place on, or past the range. -/
theorem after_eq (h : Arithmetic.fit? (p.value k) = some i) :
    p.after i = Arithmetic.fit? (p.value (k + 1)) := by
  rw [value_succ, ← Arithmetic.fit?_eq_some_iff.mp h]
  rfl

/-- What stands before the end is in the range. -/
theorem exists_value (hstep : p.step ≠ 0) (hk : k < p.length) :
    ∃ i, Arithmetic.fit? (p.value k) = some i := by
  have hbefore := (before_value_iff hstep).mpr hk
  have hstart := Arithmetic.toInt_bounds p.start
  have hstop := Arithmetic.toInt_bounds p.stop
  unfold Before value at hbefore
  unfold value
  rcases hbefore with ⟨hpos, hlt⟩ | ⟨hneg, hlt⟩
  · have hnonneg : 0 ≤ (k : Int) * p.step.toInt := mul_nonneg (Int.natCast_nonneg k) hpos.le
    exact Arithmetic.exists_fit (by omega) (by omega)
  · have hnonpos : (k : Int) * p.step.toInt ≤ 0 :=
      mul_nonpos_of_nonneg_of_nonpos (Int.natCast_nonneg k) hneg.le
    exact Arithmetic.exists_fit (by omega) (by omega)

variable {e : Engine} {s : State}

theorem resume_some (p : Progression) (i : Int64) : (Coroutine.progression p (some i)).resume
    = if p.admits i then newInt i >>= fun h => pure (.yield h (.progression p (p.after i)))
      else pure ⟨.completed none, .progression p (some i)⟩ := rfl

/-- **Below the length the computation hands out the value at its place** and goes one place on. -/
theorem run_resume (hstep : p.step ≠ 0) (hk : k < p.length) :
    ∃ i, i.toInt = p.value k ∧
    (p.rest k).resume.run.run e s = .done (.ok (.yield (s.allocate (.ofInt i)).1 (p.rest (k + 1))))
      (s.allocate (.ofInt i)).2 := by
  obtain ⟨i, hi⟩ := exists_value hstep hk
  have hvalue := Arithmetic.fit?_eq_some_iff.mp hi
  have hadmits : p.admits i = true := by
    rw [admits_iff hstep, hvalue, before_value_iff hstep]
    exact hk
  refine ⟨i, hvalue, ?_⟩
  rw [rest, hi, rest, ← after_eq hi, resume_some, if_pos hadmits]
  rfl

/-- **From the length on it has ended**, also where the next value would be out of the range. -/
theorem run_resume_end (hstep : p.step ≠ 0) (hk : p.length ≤ k) :
    (p.rest k).resume.run.run e s = .done (.ok ⟨.completed none, p.rest k⟩) s := by
  rw [rest]
  cases hi : Arithmetic.fit? (p.value k) with
  | none => rfl
  | some i =>
    have hadmits : ¬ p.admits i = true := by
      rw [admits_iff hstep, Arithmetic.fit?_eq_some_iff.mp hi, before_value_iff hstep]
      exact Nat.not_lt.mpr hk
    rw [resume_some, if_neg hadmits]
    rfl

end ObjectModel.Progression
