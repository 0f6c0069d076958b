import Variation.Decimal.Power
import Variation.Path.Basic
import Variation.Text.Blank
import Variation.Text.Numeral
import Variation.Text.Pieces
import Variation.Text.Quoted

/-!
# Reading a key path

The text of a path is cut at its points. A piece that starts with a bracket is a position: digits up
to a closing bracket, with a plus sign allowed before them. Every other piece is a key, taken as it
stands; it has no escapes, so a key with a point in it has no text. The first piece that is neither
decides the error.
-/

namespace Variation

/-- What is wrong with one piece of the text of a path. -/
inductive PieceFault where
  | empty
  | unterminated
  | notIndex
deriving DecidableEq

/-- Why a text is no path. -/
inductive PathError where
  /-- There is nothing but blanks, or no segment at all. -/
  | empty
  /-- A piece of the text is malformed. -/
  | malformed (input : String) (fault : PieceFault)
deriving DecidableEq

/-- What is wrong with a piece, in words. -/
def PieceFault.reason : PieceFault → String
  | .empty => "empty segment"
  | .unterminated => "unterminated index segment"
  | .notIndex => "index segment is not a non-negative integer"

/-- Why a text is no path, in words. -/
def PathError.message : PathError → String
  | .empty => "key path must contain at least one segment"
  | .malformed input fault => "invalid key path " ++ Text.quote input ++ ": " ++ fault.reason

namespace KeyPath

/-- The position written between brackets. -/
def position? (digits : List Char) : Option UInt64 :=
  match Text.Numeral.natural? 10 digits with
  | some n => if n < 2 ^ 64 then some (UInt64.ofNat n) else none
  | none => none

/-- The segment that a piece stands for. -/
def segmentOf : List Char → Except PieceFault Segment
  | [] => .error .empty
  | '[' :: inner =>
    if inner.getLast? = some ']' then
      match position? inner.dropLast with
      | some n => .ok (.index n)
      | none => .error .notIndex
    else .error .unterminated
  | piece => .ok (.key (String.ofList piece))

/-- The segments of pieces, up to the first that is malformed. -/
def segmentsOf : List (List Char) → Except PieceFault (List Segment)
  | [] => .ok []
  | piece :: rest =>
    match segmentOf piece with
    | .error fault => .error fault
    | .ok segment =>
      match segmentsOf rest with
      | .error fault => .error fault
      | .ok segments => .ok (segment :: segments)

/-- The path that a text stands for. -/
def parse (input : String) : Except PathError KeyPath :=
  if Text.isAllBlank input then .error .empty
  else match segmentsOf (Text.pieces '.' input.toList) with
    | .error fault => .error (.malformed input fault)
    | .ok segments =>
      match ofSegments? segments with
      | none => .error .empty
      | some path => .ok path

end KeyPath

end Variation
