/-!
# Numerals

Whole numbers as digits in a base. `value?` accepts digits and nothing else; `natural?` and
`integer?` accept the signs that a number in a setting, in a path or in a flag may carry.
-/

namespace Variation.Text.Numeral

/-- The value of a digit in bases up to sixteen; letters of both cases count from ten. -/
def digit? (base : Nat) (c : Char) : Option Nat :=
  let value :=
    if '0' ≤ c ∧ c ≤ '9' then c.toNat - '0'.toNat
    else if 'a' ≤ c ∧ c ≤ 'f' then c.toNat - 'a'.toNat + 10
    else if 'A' ≤ c ∧ c ≤ 'F' then c.toNat - 'A'.toNat + 10
    else base
  if value < base then some value else none

/-- The value of a run of digits after digits worth `before`. -/
def valueAfter? (base before : Nat) : List Char → Option Nat
  | [] => some before
  | c :: rest =>
    match digit? base c with
    | some d => valueAfter? base (before * base + d) rest
    | none => none

/-- The value of one or more digits. -/
def value? (base : Nat) (s : List Char) : Option Nat :=
  if s.isEmpty then none else valueAfter? base 0 s

/-- One or more digits, with or without a plus sign. -/
def natural? (base : Nat) : List Char → Option Nat
  | '+' :: rest => value? base rest
  | s => value? base s

/-- One or more digits, with or without a sign. -/
def integer? (base : Nat) : List Char → Option Int
  | '-' :: rest => (value? base rest).map fun n => -(n : Int)
  | s => (natural? base s).map fun n => (n : Int)

/-- The digits of a whole number in base ten, with a minus sign when it is negative. -/
def decimal (n : Int) : List Char :=
  if n < 0 then '-' :: Nat.toDigits 10 n.natAbs else Nat.toDigits 10 n.natAbs

end Variation.Text.Numeral
