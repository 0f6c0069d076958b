import Variation.Decimal.Power

/-!
# Finite 64-bit floating point values

A `Binary64` is a sign and a number of *steps*: the representable magnitudes are numbered from zero
upwards, so that the neighbour of a value is one step away and the finite values are exactly the
numbers below `finiteSteps`. Infinities and the value that is no number are no members of the
type; a document cannot hold them.

Every magnitude is a whole number of *units* of `2 ^ -1074`, the smallest one. Arithmetic is done on
units, exactly, and rounded once: `ofRatio?` is the only place that rounds, to the nearest value and
on a tie to the even one, and it says `none` where the result would be infinite.
-/

namespace Variation.Decimal

/-- How many units make the number one. -/
def unitsPerOne : Nat := 2 ^ 1074

/-- How many magnitudes are finite: 2047 binades of `2 ^ 52` each. -/
def finiteSteps : Nat := 2047 * 2 ^ 52

/-- A finite 64-bit floating point value. -/
structure Binary64 where
  /-- Whether the sign is a minus; zero has two signs. -/
  negative : Bool
  /-- How many representable magnitudes lie below this one. -/
  steps : Nat
  /-- The first magnitude past the finite ones is the infinite one. -/
  finite : steps < finiteSteps
deriving DecidableEq

namespace Binary64

/-- Zero with the given sign. -/
def zero (negative : Bool) : Binary64 :=
  ⟨negative, 0, by decide⟩

/-- The binade of a value: magnitudes of binade `k + 1` are `2 ^ k` units apart, and so are those of
binade zero and one. -/
def binade (x : Binary64) : Nat :=
  x.steps / 2 ^ 52

/-- The magnitude in units. -/
def units (x : Binary64) : Nat :=
  if x.binade = 0 then x.steps else (2 ^ 52 + x.steps % 2 ^ 52) * 2 ^ (x.binade - 1)

/-- Equality of values as numbers: the two zeros are equal. -/
def same (x y : Binary64) : Bool :=
  x.steps == y.steps && (x.negative == y.negative || x.steps == 0)

/-- The whole number nearest to a quotient, the even one on a tie. -/
def roundHalfEven (num den : Nat) : Nat :=
  let quotient := num / den
  match compare (2 * (num % den)) den with
  | .lt => quotient
  | .gt => quotient + 1
  | .eq => if quotient % 2 = 0 then quotient else quotient + 1

/-- The value nearest to the quotient of two whole numbers, unless it is infinite. The quotient in
units has its leading bit cut down to the 53rd place; the number of steps is then linear in what is
left, across the end of a binade too. -/
def ofRatio? (negative : Bool) (num den : Nat) : Option Binary64 :=
  let scaled := num * unitsPerOne
  let shift := Nat.log2 (scaled / den) - 52
  let steps := shift * 2 ^ 52 + roundHalfEven scaled (den * 2 ^ shift)
  if h : steps < finiteSteps then some ⟨negative, steps, h⟩ else none

/-- The value nearest to a whole number. -/
def ofNat? (negative : Bool) (n : Nat) : Option Binary64 :=
  ofRatio? negative n 1

/-- The product of two values, rounded once. -/
def mul? (x y : Binary64) : Option Binary64 :=
  ofRatio? (x.negative != y.negative) (x.units * y.units) (unitsPerOne * unitsPerOne)

/-- The quotient of two values, rounded once; the divisor is not zero. -/
def div? (x y : Binary64) : Option Binary64 :=
  ofRatio? (x.negative != y.negative) x.units y.units

/-- The value with the sign turned round when asked. -/
def withSign (negative : Bool) (x : Binary64) : Binary64 :=
  ⟨negative, x.steps, x.finite⟩

/-- The value nearest to `digits * 10 ^ exponent`, unless it is infinite. A decimal whose leading
digit is far outside the range is settled by its length alone, so that a huge exponent costs
nothing. -/
def ofDecimal? (negative : Bool) (digits : Nat) (exponent : Int) : Option Binary64 :=
  let point := exponent + (Nat.toDigits 10 digits).length
  if digits = 0 || point < -400 then some (zero negative)
  else if point > 400 then none
  else ofRatio? negative (digits * 10 ^ exponent.toNat) (10 ^ (-exponent).toNat)

/-- Equality as numbers holds of a value and itself. -/
theorem same_refl (x : Binary64) : x.same x = true := by
  simp [same]

/-- Equality as numbers does not depend on the side. -/
theorem same_comm (x y : Binary64) : x.same y = y.same x := by
  rw [Bool.eq_iff_iff]
  simp only [same, Bool.and_eq_true, Bool.or_eq_true, beq_iff_eq]
  grind

/-- Equality as numbers is passed on. -/
theorem same_trans {x y z : Binary64} (hxy : x.same y = true) (hyz : y.same z = true) :
    x.same z = true := by
  simp only [same, Bool.and_eq_true, Bool.or_eq_true, beq_iff_eq] at *
  grind

end Binary64

end Variation.Decimal
