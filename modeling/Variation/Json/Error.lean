/-!
# Where a JSON text goes wrong

A reader stops at the first fault. `Stop` is what it knows there: the fault and how much of the text
is left. `JsonError` is what is reported: the fault and its place as a line and a column, which only
the whole text can tell. Both count in bytes of UTF-8, lines from one and columns from zero, so that
the column is the number of bytes of the line that were read.
-/

namespace Variation.Json

/-- What can be wrong with a JSON text. -/
inductive Fault where
  | endInValue
  | endInList
  | endInObject
  | endInString
  | expectedColon
  | expectedListMark
  | expectedObjectMark
  | expectedLiteral
  | expectedValue
  | invalidEscape
  | invalidNumber
  | numberOutOfRange
  | controlCharacter
  | keyNotString
  | loneSurrogate
  | brokenSurrogatePair
  | trailingComma
  | trailingCharacters
  | tooDeep
  /-- The reader stopped for want of steps; the steps that `parse` allows are always enough. -/
  | outOfSteps
deriving DecidableEq

/-- What is wrong, in words. -/
def Fault.reason : Fault → String
  | .endInValue => "EOF while parsing a value"
  | .endInList => "EOF while parsing a list"
  | .endInObject => "EOF while parsing an object"
  | .endInString => "EOF while parsing a string"
  | .expectedColon => "expected `:`"
  | .expectedListMark => "expected `,` or `]`"
  | .expectedObjectMark => "expected `,` or `\x7d`"
  | .expectedLiteral => "expected ident"
  | .expectedValue => "expected value"
  | .invalidEscape => "invalid escape"
  | .invalidNumber => "invalid number"
  | .numberOutOfRange => "number out of range"
  | .controlCharacter => "control character (\\u0000-\\u001F) found while parsing a string"
  | .keyNotString => "key must be a string"
  | .loneSurrogate => "lone leading surrogate in hex escape"
  | .brokenSurrogatePair => "unexpected end of hex escape"
  | .trailingComma => "trailing comma"
  | .trailingCharacters => "trailing characters"
  | .tooDeep => "recursion limit exceeded"
  | .outOfSteps => "out of steps"

/-- The number of bytes that characters take in UTF-8. -/
def byteCount (text : List Char) : Nat :=
  text.foldl (fun n c => n + c.utf8Size) 0

/-- A fault and the number of bytes that follow its place. -/
structure Stop where
  fault : Fault
  left : Nat

/-- A fault before the rest of the text. -/
def Stop.before (fault : Fault) (rest : List Char) : Stop :=
  ⟨fault, byteCount rest⟩

/-- A fault that shows in the first byte of the rest, or in its missing; the byte counts as read. -/
def Stop.within (fault : Fault) (rest : List Char) : Stop :=
  ⟨fault, byteCount rest - 1⟩

/-- A place in a text. -/
structure Position where
  line : Nat
  column : Nat
deriving DecidableEq

/-- The position so many bytes after `here`. -/
def Position.after (here : Position) : Nat → List Char → Position
  | 0, _ => here
  | _, [] => here
  | bytes, c :: rest =>
    if c = '\n' then after ⟨here.line + 1, 0⟩ (bytes - 1) rest
    else if bytes < c.utf8Size then ⟨here.line, here.column + bytes⟩
    else after ⟨here.line, here.column + c.utf8Size⟩ (bytes - c.utf8Size) rest

/-- The position that leaves so many bytes of a text. -/
def Position.leaving (left : Nat) (text : List Char) : Position :=
  after ⟨1, 0⟩ (byteCount text - left) text

/-- The place as it is appended to a message. -/
def Position.suffix (place : Position) : String :=
  " at line " ++ toString place.line ++ " column " ++ toString place.column

/-- A fault and its place. -/
structure JsonError where
  fault : Fault
  place : Position
deriving DecidableEq

/-- The fault of a text and its place in that text. -/
def Stop.located (stop : Stop) (text : List Char) : JsonError :=
  ⟨stop.fault, .leaving stop.left text⟩

/-- What is wrong and where, in words. -/
def JsonError.message (e : JsonError) : String :=
  e.fault.reason ++ e.place.suffix

end Variation.Json
