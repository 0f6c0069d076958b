import Variation.Document.Basic
import Variation.Text.Numeral

/-!
# What a plain scalar means

A scalar without quotes stands for a null, a truth value or a number if it is spelled like one, and
for its own text otherwise. Null and the truth values have three spellings each. A whole number may
be written in base ten, or after a mark in base sixteen, eight or two; a run of digits with a
leading zero is a text. A number that is not whole has a point or an exponent, or is one of the
spellings of the infinities and of the value that is no number; those have no document but `null`.
-/

namespace Variation.Yaml

open Decimal (Binary64)

/-- What a plain scalar stands for. -/
inductive Meaning where
  | null
  | boolean (value : Bool)
  | whole (value : Int)
  | real (value : Binary64)
  /-- An infinity, or the value that is no number. -/
  | notFinite
  | text

/-- Whether a text is a spelling of null. The empty text is not. -/
def isNull (s : String) : Bool :=
  ["null", "Null", "NULL", "~"].contains s

/-- The truth value that a text spells. -/
def boolean? (s : String) : Option Bool :=
  if ["true", "True", "TRUE"].contains s then some true
  else if ["false", "False", "FALSE"].contains s then some false
  else none

/-- A text without a plus sign in front. -/
def withoutPlus : List Char → List Char
  | '+' :: rest => rest
  | s => s

/-- Whether a text is a run of at least two digits of which the first is zero, with or without a
sign. -/
def isPaddedDigits (s : List Char) : Bool :=
  let digits := match s with
    | '-' :: rest => rest
    | '+' :: rest => rest
    | rest => rest
  match digits with
  | '0' :: rest => !rest.isEmpty && rest.all Char.isDigit
  | _ => false

/-- The value of a number with the mark of its base in front. -/
def marked? : List Char → Option Nat
  | '0' :: 'x' :: rest => Text.Numeral.value? 16 rest
  | '0' :: 'o' :: rest => Text.Numeral.value? 8 rest
  | '0' :: 'b' :: rest => Text.Numeral.value? 2 rest
  | _ => none

/-- The whole number that a text spells, if it fits 128 bits, with a sign or without. -/
def whole? (s : List Char) : Option Int :=
  let magnitude? (digits : List Char) : Option Nat :=
    match marked? digits with
    | some n => some n
    | none => if isPaddedDigits s then none else Text.Numeral.value? 10 digits
  match s with
  | '-' :: rest =>
    match magnitude? rest with
    | some n => if n ≤ 2 ^ 127 then some (-(n : Int)) else none
    | none => none
  | s =>
    match magnitude? (withoutPlus s) with
    | some n => if n < 2 ^ 128 then some n else none
    | none => none

/-- The digits of the number that a text spells, as one number, and the exponent of its last digit:
digits with at most one point among them, then perhaps an exponent. -/
def decimal? (s : List Char) : Option (Nat × Int) :=
  let whole := s.takeWhile Char.isDigit
  let afterWhole := s.dropWhile Char.isDigit
  let (fraction, rest) := match afterWhole with
    | '.' :: rest => (rest.takeWhile Char.isDigit, rest.dropWhile Char.isDigit)
    | rest => ([], rest)
  match Text.Numeral.value? 10 (whole ++ fraction) with
  | none => none
  | some digits =>
    let exponent? : Option Int := match rest with
      | [] => some 0
      | 'e' :: rest => Text.Numeral.integer? 10 rest
      | 'E' :: rest => Text.Numeral.integer? 10 rest
      | _ => none
    exponent?.map fun exponent => (digits, exponent - fraction.length)

/-- The floating point number that a text spells, if it is finite. -/
def finite? (s : List Char) : Option Binary64 :=
  let (negative, magnitude) := match s with
    | '-' :: rest => (true, rest)
    | '+' :: rest => (false, rest)
    | rest => (false, rest)
  match decimal? magnitude with
  | none => none
  | some (digits, exponent) => Binary64.ofDecimal? negative digits exponent

/-- Whether a text spells an infinity or the value that is no number. -/
def isNotFinite (s : List Char) : Bool :=
  [".inf", ".Inf", ".INF"].contains (String.ofList (withoutPlus s))
    || ["-.inf", "-.Inf", "-.INF", ".nan", ".NaN", ".NAN"].contains (String.ofList s)

/-- What a number that is not whole stands for. -/
def real? (s : List Char) : Option Meaning :=
  if isNotFinite s then some .notFinite else (finite? s).map .real

/-- What a plain scalar stands for. -/
def meaning (s : String) : Meaning :=
  let characters := s.toList
  if s.isEmpty || isNull s then .null
  else match boolean? s with
    | some b => .boolean b
    | none =>
      match whole? characters with
      | some n => .whole n
      | none =>
        if isPaddedDigits characters then .text
        else (real? characters).getD .text

end Variation.Yaml
