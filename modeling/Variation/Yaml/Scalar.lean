import Variation.Text.Numeral
import Variation.Yaml.Cursor
import Variation.Yaml.Error

/-!
# The text of a scalar

A scalar is written in one of five ways. Plain and quoted texts may run over several lines, which are
folded: a single break between two words is a space, and of several breaks all but the first stay. A
block scalar keeps its lines, or folds them, and leaves out their indentation.
-/

namespace Variation.Yaml

/-- What stands between two words of a plain or quoted text. -/
inductive Gap where
  /-- Blanks within a line. -/
  | blanks (characters : List Char)
  /-- A break, the breaks of the empty lines behind it, and indentation, which does not count. -/
  | lines (first : Char) (further : List Char)
  /-- A break that was escaped, and the breaks of the empty lines behind it. -/
  | joined (further : List Char)

/-- What a gap stands for. -/
def Gap.text : Gap → List Char
  | .blanks characters => characters
  | .lines '\n' [] => [' ']
  | .lines '\n' further => further
  | .lines first further => first :: further
  | .joined further => further

/-- Whether a gap goes over the end of a line. -/
def Gap.endsLine : Gap → Bool
  | .blanks _ => false
  | _ => true

/-- Reads empty lines, and the indentation of the line behind them; `seen` holds the breaks read so
far, last first. A tab before column `indent` is an error. -/
def readEmptyLines (indent : Nat) (seen : List Char) :
    Nat → Cursor → Except Fault (List Char × Cursor)
  | 0, _ => .error .outOfSteps
  | steps + 1, c =>
    let (indentation, next) := c.span isBlank
    if (indentation.takeWhile (· ≠ '\t')).length < min indent indentation.length then
      .error .tabIndentation
    else if next.atBreak then
      let (b, next) := next.readBreak
      readEmptyLines indent (b :: seen) steps next
    else .ok (seen.reverse, next)

/-- Reads what stands between two words. -/
def readGap (indent : Nat) (c : Cursor) : Except Fault (Gap × Cursor) :=
  let (blanks, next) := c.span isBlank
  if next.atBreak then
    let (first, next) := next.readBreak
    match readEmptyLines indent [] (next.rest.length + 1) next with
    | .error fault => .error fault
    | .ok (further, next) => .ok (.lines first further, next)
  else .ok (.blanks blanks, next)

/-! ## Plain texts -/

/-- Whether a character ends a plain text inside brackets. -/
def isFlowMark (c : Char) : Bool :=
  [',', '[', ']', '{', '}'].contains c

/-- Whether a character may not stand behind a colon in a plain text inside brackets. -/
def isFlowMarkOrQuestion (c : Char) : Bool :=
  c = '?' || isFlowMark c

/-- The next word of a plain text: up to a separator, a colon before a separator, or a mark of the
brackets that it stands in. -/
def plainWord (inFlow : Bool) : List Char → Except Fault (List Char)
  | [] => .ok []
  | c :: rest =>
    if isSeparator c then .ok []
    else if inFlow && c = ':' && rest.head?.elim false isFlowMarkOrQuestion then
      .error .unexpectedCharacter
    else if c = ':' && rest.head?.elim true isSeparator then .ok []
    else if inFlow && isFlowMark c then .ok []
    else (plainWord inFlow rest).map (c :: ·)

/-- The text of a scalar, whether the text ends behind the end of a line, and the place behind
it. -/
structure PlainText where
  text : List Char
  endsLine : Bool
  next : Cursor

/-- Reads a plain text, of which `seen` has been read and `gap` stands before the cursor. -/
def plainAfter (inFlow : Bool) (indent : Nat) (seen : List Char) (gap : Gap) :
    Nat → Cursor → Except Fault PlainText
  | 0, _ => .error .outOfSteps
  | steps + 1, c =>
    if c.atAnyDocumentMark || c.sees '#' then .ok ⟨seen, gap.endsLine, c⟩
    else match plainWord inFlow c.rest with
      | .error fault => .error fault
      | .ok [] => .ok ⟨seen, gap.endsLine, c⟩
      | .ok word =>
        let seen := seen ++ gap.text ++ word
        let next := c.skip word.length
        if next.atBlank || next.atBreak then
          match readGap indent next with
          | .error fault => .error fault
          | .ok (gap, next) =>
            if !inFlow && next.column < indent then .ok ⟨seen, gap.endsLine, next⟩
            else plainAfter inFlow indent seen gap steps next
        else .ok ⟨seen, false, next⟩

/-- Reads a plain text; outside brackets its further lines start at column `indent` or behind it. -/
def readPlain (inFlow : Bool) (indent : Nat) (c : Cursor) : Except Fault PlainText :=
  plainAfter inFlow indent [] (.blanks []) (c.rest.length + 1) c

/-! ## Quoted texts -/

/-- The character that a letter behind a backslash stands for. -/
def escapedCharacter? : Char → Option Char
  | '0' => some '\x00'
  | 'a' => some '\x07'
  | 'b' => some '\x08'
  | 't' => some '\t'
  | '\t' => some '\t'
  | 'n' => some '\n'
  | 'v' => some '\x0b'
  | 'f' => some '\x0c'
  | 'r' => some '\r'
  | 'e' => some '\x1b'
  | ' ' => some ' '
  | '"' => some '"'
  | '/' => some '/'
  | '\\' => some '\\'
  | 'N' => some '\u0085'
  | '_' => some '\u00a0'
  | 'L' => some '\u2028'
  | 'P' => some '\u2029'
  | _ => none

/-- How many hexadecimal digits follow a letter behind a backslash. -/
def escapeWidth? : Char → Option Nat
  | 'x' => some 2
  | 'u' => some 4
  | 'U' => some 8
  | _ => none

/-- Reads an escape from behind its backslash on. -/
def readEscape (c : Cursor) : Except Fault (Char × Cursor) :=
  match c.rest with
  | [] => .error .badEscape
  | letter :: rest =>
    match escapedCharacter? letter, escapeWidth? letter with
    | some meant, _ => .ok (meant, c.skip 1)
    | none, none => .error .badEscape
    | none, some width =>
      let digits := rest.take width
      match Text.Numeral.value? 16 digits with
      | none => .error .badEscape
      | some code =>
        if digits.length = width ∧ code.isValidChar then .ok (Char.ofNat code, c.skip (width + 1))
        else .error .badEscape

/-- Reads a quoted text from behind its opening quote to behind its closing one; `seen` holds the
characters read so far, last first. In single quotes a doubled quote stands for itself, and in
double quotes a backslash starts an escape. -/
def quotedAfter (quote : Char) (seen : List Char) : Nat → Cursor → Except Fault (List Char × Cursor)
  | 0, _ => .error .outOfSteps
  | steps + 1, c =>
    if c.atAnyDocumentMark then .error .unclosedQuote
    else match c.rest with
      | [] => .error .unclosedQuote
      | first :: _ =>
        if isSeparator first then
          match readGap 0 c with
          | .error fault => .error fault
          | .ok (gap, next) => quotedAfter quote (gap.text.reverse ++ seen) steps next
        else if first = quote then
          if quote = '\'' && c.at? 1 == some '\'' then
            quotedAfter quote ('\'' :: seen) steps (c.skip 2)
          else .ok (seen.reverse, c.skip 1)
        else if quote = '"' && first = '\\' then
          let next := c.skip 1
          if next.atBreak then
            let next := next.skipBreak
            match readEmptyLines 0 [] (next.rest.length + 1) next with
            | .error fault => .error fault
            | .ok (further, next) =>
              quotedAfter quote ((Gap.joined further).text.reverse ++ seen) steps next
          else match readEscape next with
            | .error fault => .error fault
            | .ok (meant, next) => quotedAfter quote (meant :: seen) steps next
        else quotedAfter quote (first :: seen) steps (c.skip 1)

/-- Reads a quoted text from its opening quote on. -/
def readQuoted (quote : Char) (c : Cursor) : Except Fault (List Char × Cursor) :=
  let next := c.skip 1
  quotedAfter quote [] (next.rest.length + 1) next

/-! ## Block scalars -/

/-- What becomes of the breaks at the end of a block scalar. -/
inductive Chomping where
  /-- None stays. -/
  | strip
  /-- One stays. -/
  | clip
  /-- All stay. -/
  | keep

/-- The sign that asks for a treatment of the last breaks. -/
def chomping? : Option Char → Option Chomping
  | some '-' => some .strip
  | some '+' => some .keep
  | _ => none

/-- The indentation that a digit asks for; zero is no indentation. -/
def increment? : Option Char → Except Fault (Option Nat)
  | none => .ok none
  | some c =>
    match Text.Numeral.digit? 10 c with
    | none => .ok none
    | some 0 => .error .badBlockHeader
    | some n => .ok (some n)

/-- Reads the sign and the digit of a block scalar, in either order, and the rest of the line. -/
def readBlockHeader (c : Cursor) : Except Fault (Chomping × Option Nat × Cursor) := do
  let (chomping, increment, next) ←
    match chomping? (c.at? 0) with
    | some chomping => do
      let increment ← increment? (c.at? 1)
      .ok (chomping, increment, c.skip (if increment.isSome then 2 else 1))
    | none => do
      match ← increment? (c.at? 0) with
      | none => .ok (Chomping.clip, none, c)
      | some n =>
        match chomping? (c.at? 1) with
        | some chomping => .ok (chomping, some n, c.skip 2)
        | none => .ok (Chomping.clip, some n, c.skip 1)
  let next := (next.skipWhile isBlank).skipComment
  if next.endsAt 0 && !next.atBlank then .ok (chomping, increment, next.skipBreak)
  else .error .badBlockHeader

/-- The empty lines before a line of a block scalar. -/
structure EmptyLines where
  breaks : List Char
  /-- The greatest column that indentation reached. -/
  widest : Nat
  next : Cursor

/-- Reads empty lines and the indentation of the line behind them, up to column `indent` if it is
known; `seen` holds the breaks read so far, last first. -/
def readBlockIndentation (indent : Option Nat) (seen : List Char) (widest : Nat) :
    Nat → Cursor → Except Fault EmptyLines
  | 0, _ => .error .outOfSteps
  | steps + 1, c =>
    let indentation := c.rest.takeWhile (· = ' ')
    let next := c.skip (indent.elim indentation.length (min indentation.length <| · - c.column))
    let widest := max widest next.column
    if next.sees '\t' && indent.elim true (next.column < ·) then .error .tabIndentation
    else if next.atBreak then
      let (b, next) := next.readBreak
      readBlockIndentation indent (b :: seen) widest steps next
    else .ok ⟨seen.reverse, widest, next⟩

/-- The text of a block scalar as far as it has been read. -/
structure BlockText where
  text : List Char
  /-- The break that ended the last line, if there was a line and it ended with one. -/
  lastBreak : List Char
  /-- Whether the last line started with a blank. -/
  lastBlank : Bool
  /-- The breaks of the empty lines behind it. -/
  further : List Char
  next : Cursor

/-- What joins the last line of a block scalar to the next one. -/
def BlockText.joint (block : BlockText) (folded nextBlank : Bool) : List Char :=
  if folded && block.lastBreak == ['\n'] && !block.lastBlank && !nextBlank then
    if block.further.isEmpty then [' '] else block.further
  else block.lastBreak ++ block.further

/-- Reads the lines of a block scalar that stand at column `indent`. -/
def readBlockLines (folded : Bool) (indent : Nat) (block : BlockText) :
    Nat → Except Fault BlockText
  | 0 => .error .outOfSteps
  | steps + 1 =>
    let c := block.next
    if c.column ≠ indent || c.rest.isEmpty then .ok block
    else
      let (line, next) := c.span (fun x => !isBreak x)
      let (lastBreak, next) :=
        if next.atBreak then
          let (b, next) := next.readBreak
          ([b], next)
        else ([], next)
      match readBlockIndentation (some indent) [] 0 (next.rest.length + 1) next with
      | .error fault => .error fault
      | .ok lines =>
        readBlockLines folded indent
          ⟨block.text ++ block.joint folded c.atBlank ++ line, lastBreak, c.atBlank, lines.breaks,
            lines.next⟩
          steps

/-- Reads a block scalar from behind its mark on, inside a block that stands at column `outer`, or
`-1` outside all blocks. The indentation is that of the first line that is not empty unless the
scalar itself says it. -/
def readBlock (folded : Bool) (outer : Int) (c : Cursor) : Except Fault (List Char × Cursor) := do
  let (chomping, increment, next) ← readBlockHeader c
  let declared := increment.map fun n => outer.toNat + n
  let lines ← readBlockIndentation declared [] 0 (next.rest.length + 1) next
  let indent := declared.getD (max lines.widest (max (outer + 1).toNat 1))
  let block ← readBlockLines folded indent ⟨[], [], false, lines.breaks, lines.next⟩
    (next.rest.length + 1)
  let ending := match chomping with
    | .strip => []
    | .clip => block.lastBreak
    | .keep => block.lastBreak ++ block.further
  .ok (block.text ++ ending, block.next)

end Variation.Yaml
