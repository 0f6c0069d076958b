import Variation.Decimal.Shortest

/-!
# How a decimal is laid out

The digits of a value are chosen in `Decimal.Shortest`; this module writes them down. What a format
may decide is a `Layout`: which values are written with their point in place, and how an exponent is
marked. A value always shows that it is no whole number, by a point or by an exponent.
-/

namespace Variation.Decimal

/-- The decisions of an output format about the text of a value. -/
structure Layout where
  /-- The least exponent of the leading digit that is written with the point in place. -/
  plainFrom : Int
  /-- The first exponent of the leading digit that is written as an exponent. -/
  plainBelow : Int
  /-- Whether an exponent that is not negative has a plus sign. -/
  exponentPlus : Bool

namespace Layout

/-- Digits with the point in place; `point` digits stand before it. A point before the first digit
or after the last gets a zero on its other side. -/
def plain (digits : List Char) (point : Int) : List Char :=
  if point ≤ 0 then
    '0' :: '.' :: List.replicate (-point).toNat '0' ++ digits
  else if digits.length ≤ point.toNat then
    digits ++ List.replicate (point.toNat - digits.length) '0' ++ ['.', '0']
  else
    digits.take point.toNat ++ '.' :: digits.drop point.toNat

/-- Digits with the point after the first one, and the exponent of the first one. -/
def scientific (layout : Layout) (digits : List Char) (exponent : Int) : List Char :=
  let sign :=
    if exponent < 0 then ['-'] else if layout.exponentPlus then ['+'] else []
  let fraction := match digits.drop 1 with
    | [] => []
    | rest => '.' :: rest
  digits.take 1 ++ fraction ++ 'e' :: sign ++ Nat.toDigits 10 exponent.natAbs

/-- The text of a value. -/
def render (layout : Layout) (x : Binary64) : List Char :=
  let sign := if x.negative then ['-'] else []
  if x.steps = 0 then sign ++ ['0', '.', '0']
  else
    let decimal := x.shortest
    let digits := Nat.toDigits 10 decimal.digits
    let point := digits.length + decimal.exponent
    let leading := point - 1
    if layout.plainFrom ≤ leading ∧ leading < layout.plainBelow then sign ++ plain digits point
    else sign ++ layout.scientific digits leading

end Layout

end Variation.Decimal
