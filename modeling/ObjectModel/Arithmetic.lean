/-!
# Checked arithmetic

Arithmetic on 64-bit signed integers that answers `none` instead of leaving the range.

* Sums, differences, products and negations are exact or `none`.
* Quotients are rounded toward the floor. They are computed by truncating division and then
  corrected, so a remainder exists only where the truncated quotient fits: the least integer has
  neither quotient nor remainder by -1.
* Powers take exponents below 2^32.
-/

namespace ObjectModel.Arithmetic

/-! ## 1. Range -/

/-- The integer as a 64-bit one, if it lies in the range. -/
def fit? (n : Int) : Option Int64 :=
  if Int64.minValue.toInt ≤ n ∧ n ≤ Int64.maxValue.toInt then some (Int64.ofInt n) else none

def add? (l r : Int64) : Option Int64 := fit? (l.toInt + r.toInt)

def sub? (l r : Int64) : Option Int64 := fit? (l.toInt - r.toInt)

def mul? (l r : Int64) : Option Int64 := fit? (l.toInt * r.toInt)

def neg? (n : Int64) : Option Int64 := fit? (-n.toInt)

/-! ## 2. Division -/

/-- Truncating division is undefined for a zero divisor and where the quotient is too large by
one. -/
def divides (l r : Int64) : Bool := r ≠ 0 && !(l == Int64.minValue && r == -1)

/-- Quotient rounded toward the floor: the truncated one, less one if a remainder is left and the
signs differ. -/
def floorDiv? (l r : Int64) : Option Int64 :=
  if divides l r then
    if l % r ≠ 0 ∧ (decide (l < 0) ≠ decide (r < 0)) then sub? (l / r) 1 else some (l / r)
  else none

/-- Remainder of the floor quotient: the truncated one, moved by the divisor if it has the wrong
sign. -/
def floorMod? (l r : Int64) : Option Int64 :=
  if divides l r then
    let remainder := l % r
    some (if remainder ≠ 0 ∧ (decide (remainder < 0) ≠ decide (r < 0)) then remainder + r
      else remainder)
  else none

/-! ## 3. Powers -/

/-- Exponents are 32-bit unsigned. -/
def exponentLimit : Nat := Nat.pow 2 32

/-- Of an exponent, the bases -1, 0 and 1 see only whether it is zero, odd or even. -/
def parityExponent (exponent : Nat) : Nat := if exponent = 0 then 0 else 2 - exponent % 2

/-- `base` to the power `exponent`. Past 63 every base other than -1, 0 and 1 leaves the range. -/
def pow? (base : Int64) (exponent : Nat) : Option Int64 :=
  if exponent < exponentLimit then
    if base.toInt.natAbs ≤ 1 then fit? (base.toInt.pow (parityExponent exponent))
    else if exponent ≤ 63 then fit? (base.toInt.pow exponent)
    else none
  else none

end ObjectModel.Arithmetic
