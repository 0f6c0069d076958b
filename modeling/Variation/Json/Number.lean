import Variation.Document.Basic
import Variation.Json.Error
import Variation.Text.Numeral

/-!
# Numbers in JSON

A number without a fraction and an exponent that fits 64 bits is a whole number; every other number
is a floating point one, the token `-0` among them.

A floating point number is not rounded from all its digits. As many digits as fit 64 bits make its
significand, further digits before the point only count, further digits behind it are dropped, and
the significand is multiplied or divided once by a power of ten. A quotient too large for any power
of ten is taken in steps of `10 ^ 308`.
-/

namespace Variation.Json

open Decimal (Binary64)

/-- What a reader of a text yields: a value and the rest of the text. -/
abbrev Reading (α : Type) := Except Stop (α × List Char)

/-- The longest run of digits that a significand can take up before it outgrows 64 bits. -/
structure DigitRun where
  significand : Nat
  /-- How many digits were taken up. -/
  taken : Nat
  rest : List Char

/-- Takes digits up into a significand. -/
def DigitRun.extend (significand taken : Nat) : List Char → DigitRun
  | [] => ⟨significand, taken, []⟩
  | c :: rest =>
    match Text.Numeral.digit? 10 c with
    | none => ⟨significand, taken, c :: rest⟩
    | some d =>
      if significand * 10 + d < 2 ^ 64 then extend (significand * 10 + d) (taken + 1) rest
      else ⟨significand, taken, c :: rest⟩

/-- The powers of ten that a significand is multiplied or divided by. -/
def tenToThe (n : Nat) : Binary64 :=
  (Binary64.ofNat? false (10 ^ n)).getD (.zero false)

/-- The largest exponent of a power of ten that is finite. -/
def largestPower : Nat := 308

/-- A value divided by a power of ten, in steps. -/
def dividedBy (x : Binary64) (exponent : Nat) : Binary64 :=
  if exponent ≤ largestPower then (x.div? (tenToThe exponent)).getD x
  else if x.steps = 0 then x
  else dividedBy ((x.div? (tenToThe largestPower)).getD x) (exponent - largestPower)
termination_by exponent
decreasing_by simp only [largestPower] at *; omega

/-- A significand scaled by a power of ten, unless the result is infinite. -/
def scaled? (significand : Nat) (exponent : Int) : Option Binary64 :=
  match Binary64.ofNat? false significand with
  | none => none
  | some x =>
    if exponent < 0 then some (dividedBy x exponent.natAbs)
    else if exponent ≤ largestPower then x.mul? (tenToThe exponent.natAbs)
    else if x.steps = 0 then some x
    else none

/-- The floating point number of a sign, a significand and an exponent. -/
def real (negative : Bool) (significand : Nat) (exponent : Int) (rest : List Char) :
    Reading Document :=
  match scaled? significand exponent with
  | some x => .ok (.real (x.withSign negative), rest)
  | none => .error (.before .numberOutOfRange rest)

/-- Whether a character is one of the ten digits. -/
def isDigit (c : Char) : Bool :=
  (Text.Numeral.digit? 10 c).isSome

/-- Reads the digits of an exponent after the digits worth `sofar`. An exponent that outgrows 31
bits settles the number: it is zero or out of range. -/
def exponentDigits (negative : Bool) (significand : Nat) (exponent : Int) (down : Bool)
    (sofar : Nat) : List Char → Reading Document
  | [] => real negative significand (if down then exponent - sofar else exponent + sofar) []
  | c :: rest =>
    match Text.Numeral.digit? 10 c with
    | none =>
      real negative significand (if down then exponent - sofar else exponent + sofar) (c :: rest)
    | some d =>
      if sofar * 10 + d < 2 ^ 31 then
        exponentDigits negative significand exponent down (sofar * 10 + d) rest
      else if significand = 0 || down then .ok (.real (.zero negative), rest.dropWhile isDigit)
      else .error (.before .numberOutOfRange rest)

/-- Reads the exponent that follows its letter. -/
def exponentPart (negative : Bool) (significand : Nat) (exponent : Int) (text : List Char) :
    Reading Document :=
  let (down, digits) := match text with
    | '+' :: rest => (false, rest)
    | '-' :: rest => (true, rest)
    | rest => (false, rest)
  match digits with
  | [] => .error (.before .endInValue [])
  | c :: _ =>
    if isDigit c then exponentDigits negative significand exponent down 0 digits
    else .error (.within .invalidNumber digits)

/-- Reads the fraction that follows the point, and the exponent if there is one. -/
def fractionPart (negative : Bool) (significand : Nat) (exponent : Nat) (text : List Char) :
    Reading Document :=
  match text with
  | [] => .error (.within .endInValue [])
  | c :: _ =>
    if isDigit c then
      let run := DigitRun.extend significand 0 text
      let places := (exponent : Int) - run.taken
      match run.rest.dropWhile isDigit with
      | 'e' :: rest => exponentPart negative run.significand places rest
      | 'E' :: rest => exponentPart negative run.significand places rest
      | rest => real negative run.significand places rest
    else .error (.within .invalidNumber text)

/-- The whole number of a sign and a magnitude; the negative zero and a magnitude that does not fit
are floating point numbers. -/
def wholeOrReal (negative : Bool) (magnitude : Nat) (rest : List Char) : Reading Document :=
  match negative && magnitude == 0, Document.ofInt? (if negative then -magnitude else magnitude) with
  | false, some document => .ok (document, rest)
  | _, _ => real negative magnitude 0 rest

/-- Reads a number from its first digit on, the sign having been read. -/
def unsignedNumber (negative : Bool) (text : List Char) : Reading Document :=
  match text with
  | [] => .error (.before .endInValue [])
  | c :: rest =>
    if c = '0' && (rest.head?.elim false isDigit) then .error (.within .invalidNumber rest)
    else if isDigit c then
      let run := DigitRun.extend 0 0 text
      let dropped := (run.rest.takeWhile isDigit).length
      match run.rest.dropWhile isDigit with
      | '.' :: rest => fractionPart negative run.significand dropped rest
      | 'e' :: rest => exponentPart negative run.significand dropped rest
      | 'E' :: rest => exponentPart negative run.significand dropped rest
      | rest =>
        if dropped = 0 then wholeOrReal negative run.significand rest
        else real negative run.significand dropped rest
    else .error (.within .invalidNumber text)

/-- Reads a number. -/
def number : List Char → Reading Document
  | '-' :: rest => unsignedNumber true rest
  | text => unsignedNumber false text

end Variation.Json
