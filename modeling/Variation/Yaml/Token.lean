import Variation.Yaml.Scalar
import Variation.Yaml.Tag

/-!
# The tokens of a YAML text

Indentation becomes tokens that open and close blocks, so that what reads the tokens need not know
columns. Whether a text is a key shows only at the colon behind it: where a key might start, the
place is remembered, and when the colon comes, the tokens that announce a key, and open the mapping
if the key is its first, are put in front of the tokens of the key.

`Scan` is the state between two tokens. Every step reads at least one character until the text ends.
-/

namespace Variation.Yaml

/-- The tokens of a text. -/
inductive Token where
  | directive (directive : Directive)
  | documentStart
  | documentEnd
  | blockSequence
  | blockMapping
  | blockEnd
  | flowSequence
  | flowSequenceEnd
  | flowMapping
  | flowMappingEnd
  /-- The mark of an item in a block. -/
  | item
  /-- The comma between two items or entries inside brackets. -/
  | comma
  | key
  | value
  | alias (name : String)
  | anchor (name : String)
  | tag (tag : Tag)
  | scalar (text : String) (plain : Bool)

/-- A place where a key may have started. -/
structure KeyStart where
  /-- Whether a key has to follow, because the place is at the column of its mapping. -/
  required : Bool
  /-- How many tokens were read before it. -/
  tokens : Nat
  line : Nat
  column : Nat
  index : Nat

/-- The state between two tokens. -/
structure Scan where
  cursor : Cursor
  /-- The tokens read so far, last first. -/
  tokens : List Token
  /-- The column of the innermost block; `-1` outside all blocks. -/
  indent : Int
  /-- The columns of the blocks around it, innermost first. -/
  outer : List Int
  /-- Whether a key may start here. -/
  keyAllowed : Bool
  /-- Where a key may have started, outside all brackets. -/
  keyStart : Option KeyStart
  /-- Where a key may have started, for each open bracket, innermost first. -/
  flowKeys : List (Option KeyStart)

namespace Scan

/-- The state before the first token. -/
def start (text : List Char) : Scan :=
  ⟨.start text, [], -1, [], true, none, []⟩

/-- Whether a bracket is open. -/
def inFlow (s : Scan) : Bool :=
  !s.flowKeys.isEmpty

/-- Adds a token behind those read so far. -/
def emit (s : Scan) (token : Token) : Scan :=
  { s with tokens := token :: s.tokens }

/-- Adds a token and moves on. -/
def emitAt (s : Scan) (token : Token) (next : Cursor) : Scan :=
  { s with tokens := token :: s.tokens, cursor := next }

/-- Puts tokens in front of those that were read from the `count`-th on. -/
def insertAt (s : Scan) (count : Nat) (tokens : List Token) : Scan :=
  let behind := s.tokens.length - count
  { s with tokens := s.tokens.take behind ++ tokens.reverse ++ s.tokens.drop behind }

/-! ## Where a key may have started -/

/-- The place of the innermost bracket, or of the block outside all brackets. -/
def innerKey (s : Scan) : Option KeyStart :=
  match s.flowKeys with
  | [] => s.keyStart
  | inner :: _ => inner

/-- Replaces the innermost place. -/
def setInnerKey (s : Scan) (start : Option KeyStart) : Scan :=
  match s.flowKeys with
  | [] => { s with keyStart := start }
  | _ :: rest => { s with flowKeys := start :: rest }

/-- Forgets the innermost place; it is an error if a key had to follow. -/
def dropKey (s : Scan) : Except Fault Scan :=
  if s.innerKey.elim false (·.required) then .error .missingColon else .ok (s.setInnerKey none)

/-- Remembers that a key may start here. -/
def saveKey (s : Scan) : Except Fault Scan :=
  if s.keyAllowed then
    match s.dropKey with
    | .error fault => .error fault
    | .ok s =>
      let c := s.cursor
      let required := !s.inFlow && s.indent == c.column
      .ok (s.setInnerKey (some ⟨required, s.tokens.length, c.line, c.column, c.index⟩))
  else .ok s

/-- The longest key that needs no announcement, in characters. -/
def longestKey : Nat := 1024

/-- Whether a key that started at a place would have taken more than a line, or be too long. -/
def isStale (c : Cursor) (start : KeyStart) : Bool :=
  start.line < c.line || start.index + longestKey < c.index

/-- A place that is not stale. A stale one is an error if a key had to follow. -/
def fresh (c : Cursor) : Option KeyStart → Except Fault (Option KeyStart)
  | none => .ok none
  | some start =>
    if isStale c start then if start.required then .error .missingColon else .ok none
    else .ok (some start)

/-- The places of brackets that are not stale. -/
def freshAll (c : Cursor) : List (Option KeyStart) → Except Fault (List (Option KeyStart))
  | [] => .ok []
  | start :: rest => do
    let start ← fresh c start
    let rest ← freshAll c rest
    .ok (start :: rest)

/-- Forgets the places that are stale. -/
def dropStale (s : Scan) : Except Fault Scan := do
  let keyStart ← fresh s.cursor s.keyStart
  let flowKeys ← freshAll s.cursor s.flowKeys
  .ok { s with keyStart, flowKeys }

/-! ## Blocks -/

/-- Closes the blocks that are deeper than a column. -/
def closeBlocks (s : Scan) (column : Int) : Scan :=
  if s.inFlow then s
  else
    let rec close (tokens : List Token) (indent : Int) : List Int → Scan
      | [] => { s with tokens, indent, outer := [] }
      | next :: rest =>
        if column < indent then close (.blockEnd :: tokens) next rest
        else { s with tokens, indent, outer := next :: rest }
    close s.tokens s.indent s.outer

/-- Opens a block at a column, unless it is open already. -/
def openBlock (s : Scan) (column : Nat) (token : Token) : Scan :=
  if !s.inFlow && s.indent < column then
    { s.emit token with indent := column, outer := s.indent :: s.outer }
  else s

/-! ## Steps -/

/-- Passes over blanks, breaks and comments. A tab may not indent where a key may start. -/
def skipToToken (s : Scan) : Nat → Scan
  | 0 => s
  | steps + 1 =>
    let tabs := s.inFlow || !s.keyAllowed
    let c := (s.cursor.skipWhile fun x => x = ' ' || (tabs && x = '\t')).skipComment
    if c.atBreak then
      skipToToken
        { s with cursor := c.readBreak.2, keyAllowed := s.keyAllowed || !s.inFlow } steps
    else { s with cursor := c }

/-- Reads a mark that opens a bracket. -/
def openFlow (s : Scan) (token : Token) : Except Fault Scan := do
  let s ← s.saveKey
  .ok { s.emitAt token (s.cursor.skip 1) with keyAllowed := true, flowKeys := none :: s.flowKeys }

/-- Reads a mark that closes a bracket. -/
def closeFlow (s : Scan) (token : Token) : Except Fault Scan := do
  let s ← s.dropKey
  .ok { s.emitAt token (s.cursor.skip 1) with keyAllowed := false, flowKeys := s.flowKeys.tail }

/-- Reads a comma inside brackets, or outside them, where it is an error of the next stage. -/
def comma (s : Scan) : Except Fault Scan := do
  let s ← s.dropKey
  .ok { s.emitAt .comma (s.cursor.skip 1) with keyAllowed := true }

/-- Reads the mark of an item. -/
def item (s : Scan) : Except Fault Scan := do
  if !s.inFlow && !s.keyAllowed then .error .misplacedEntry
  else
    let s ← (s.openBlock s.cursor.column .blockSequence).dropKey
    .ok { s.emitAt .item (s.cursor.skip 1) with keyAllowed := true }

/-- Reads the mark that announces a key. -/
def announcedKey (s : Scan) : Except Fault Scan := do
  if !s.inFlow && !s.keyAllowed then .error .misplacedEntry
  else
    let s ← (s.openBlock s.cursor.column .blockMapping).dropKey
    .ok { s.emitAt .key (s.cursor.skip 1) with keyAllowed := !s.inFlow }

/-- Reads a colon. If a key may have started on the line, the tokens since then are its key. -/
def colon (s : Scan) : Except Fault Scan :=
  match s.innerKey with
  | some start =>
    let opens := !s.inFlow && s.indent < start.column
    let s := (s.setInnerKey none).insertAt start.tokens
      (if opens then [.blockMapping, .key] else [.key])
    let s := if opens then { s with indent := start.column, outer := s.indent :: s.outer } else s
    .ok { s.emitAt .value (s.cursor.skip 1) with keyAllowed := false }
  | none =>
    if !s.inFlow && !s.keyAllowed then .error .misplacedEntry
    else
      let s := s.openBlock s.cursor.column .blockMapping
      .ok { s.emitAt .value (s.cursor.skip 1) with keyAllowed := !s.inFlow }

/-- Reads an anchor or an alias. -/
def name (s : Scan) (token : String → Token) : Except Fault Scan := do
  let s ← s.saveKey
  let (name, next) ← readName s.cursor
  .ok { s.emitAt (token name) next with keyAllowed := false }

/-- Reads a tag. -/
def tag (s : Scan) : Except Fault Scan := do
  let s ← s.saveKey
  let (tag, next) ← readTag s.inFlow s.cursor
  .ok { s.emitAt (.tag tag) next with keyAllowed := false }

/-- Reads a quoted text. -/
def quoted (s : Scan) (quote : Char) : Except Fault Scan := do
  let s ← s.saveKey
  let (text, next) ← readQuoted quote s.cursor
  .ok { s.emitAt (.scalar (String.ofList text) false) next with keyAllowed := false }

/-- Reads a block scalar. -/
def block (s : Scan) (folded : Bool) : Except Fault Scan := do
  let s ← s.dropKey
  let (text, next) ← readBlock folded s.indent (s.cursor.skip 1)
  .ok { s.emitAt (.scalar (String.ofList text) false) next with keyAllowed := true }

/-- Reads a plain text. -/
def plain (s : Scan) : Except Fault Scan := do
  let s ← s.saveKey
  let text ← readPlain s.inFlow (s.indent + 1).toNat s.cursor
  .ok { s.emitAt (.scalar (String.ofList text.text) true) text.next with keyAllowed := text.endsLine }

/-- Reads a directive. -/
def directive (s : Scan) : Except Fault Scan := do
  let s ← (s.closeBlocks (-1)).dropKey
  let (directive, next) ← readDirective s.cursor
  .ok { s.emitAt (.directive directive) next with keyAllowed := false }

/-- Reads the marks that start or end a document. -/
def documentMark (s : Scan) (token : Token) : Except Fault Scan := do
  let s ← (s.closeBlocks (-1)).dropKey
  .ok { s.emitAt token (s.cursor.skip 3) with keyAllowed := false }

/-- Whether a plain text starts with a character, given whether a separator follows it. -/
def startsPlain (inFlow : Bool) (c : Char) (separated : Bool) : Bool :=
  if c = '-' then !separated
  else if c = '?' || c = ':' then !inFlow && !separated
  else !isSeparator c && !(isFlowMark c)
    && !(['#', '&', '*', '!', '|', '>', '\'', '"', '%', '@', '`'].contains c)

/-- Reads the token that starts with a character. -/
def token (s : Scan) (first : Char) : Except Fault Scan :=
  let c := s.cursor
  let separated := c.endsAt 1
  if c.column = 0 && first = '%' then s.directive
  else if c.atDocumentMark '-' then s.documentMark .documentStart
  else if c.atDocumentMark '.' then s.documentMark .documentEnd
  else if first = '[' then s.openFlow .flowSequence
  else if first = '{' then s.openFlow .flowMapping
  else if first = ']' then s.closeFlow .flowSequenceEnd
  else if first = '}' then s.closeFlow .flowMappingEnd
  else if first = ',' then s.comma
  else if first = '-' && separated then s.item
  else if first = '?' && (s.inFlow || separated) then s.announcedKey
  else if first = ':' && (s.inFlow || separated) then s.colon
  else if first = '*' then s.name .alias
  else if first = '&' then s.name .anchor
  else if first = '!' then s.tag
  else if first = '|' && !s.inFlow then s.block false
  else if first = '>' && !s.inFlow then s.block true
  else if first = '\'' || first = '"' then s.quoted first
  else if startsPlain s.inFlow first separated then s.plain
  else .error .unexpectedCharacter

/-- Reads the remaining tokens. -/
def toEnd (s : Scan) : Nat → Except Fault (List Token)
  | 0 => .error .outOfSteps
  | steps + 1 => do
    let s ← (s.skipToToken (s.cursor.rest.length + 1)).dropStale
    match s.cursor.rest with
    | [] =>
      let s ← (s.closeBlocks (-1)).dropKey
      .ok s.tokens.reverse
    | first :: _ =>
      let s ← (s.closeBlocks s.cursor.column).token first
      s.toEnd steps

end Scan

/-- A text without the byte order marks that may stand in front of it. -/
def withoutByteOrderMark : List Char → List Char
  | '\ufeff' :: '\ufeff' :: rest => rest
  | '\ufeff' :: rest => rest
  | text => text

/-- The tokens of a text. -/
def tokens (text : String) : Except Fault (List Token) :=
  let characters := withoutByteOrderMark text.toList
  if characters.all isAllowed then (Scan.start characters).toEnd (characters.length + 1)
  else .error .forbiddenCharacter

end Variation.Yaml
