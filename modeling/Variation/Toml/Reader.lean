import Variation.Decimal.Power
import Variation.Text.Numeral
import Variation.Toml.Table

/-!
# Reading TOML

A text is read line by line: a header opens a table, and every other line that is not blank stores
one value in the table that was opened last. All readers take the text that is left and yield
something with the text that is left after it, or nothing if the text is malformed.
-/

namespace Variation.Toml

/-- Something that was read, and the text that is left. -/
abbrev Reading (α : Type) := α × List Char

/-- Whether a space or a tab. -/
def isSpace (c : Char) : Bool := c = ' ' || c = '\t'

/-- Whether a character may not stand in a text or a comment. -/
def isControl (c : Char) : Bool :=
  (c.toNat < 0x20 && c ≠ '\t') || c.toNat = 0x7F

/-- A text from its first character on that is neither a space nor a tab. -/
def skipSpace (text : List Char) : List Char := text.dropWhile isSpace

/-- A text behind a break, if one is next. -/
def afterBreak? : List Char → Option (List Char)
  | '\n' :: rest => some rest
  | '\r' :: '\n' :: rest => some rest
  | _ => none

/-- A text behind a comment, if one is next. -/
def skipComment? (text : List Char) : Option (List Char) :=
  match text with
  | '#' :: rest =>
    let comment := rest.takeWhile fun c => c ≠ '\n' && c ≠ '\r'
    if comment.any isControl then none else some (rest.drop comment.length)
  | rest => some rest

/-- A text behind blanks, comments and breaks. -/
def skipLines? : Nat → List Char → Option (List Char)
  | 0, _ => none
  | steps + 1, text => do
    let rest ← skipComment? (skipSpace text)
    match afterBreak? rest with
    | some rest => skipLines? steps rest
    | none => some rest

/-- A text at the start of the next line, if nothing but a comment is left on this one. -/
def endLine? (text : List Char) : Option (List Char) := do
  match ← skipComment? (skipSpace text) with
  | [] => some []
  | rest => afterBreak? rest

/-! ## Texts -/

/-- The character that a letter behind a backslash stands for. -/
def escaped? : Char → Option Char
  | 'b' => some '\x08'
  | 't' => some '\t'
  | 'n' => some '\n'
  | 'f' => some '\x0c'
  | 'r' => some '\r'
  | '"' => some '"'
  | '\\' => some '\\'
  | _ => none

/-- Reads an escape from behind its backslash on. -/
def readEscape? (text : List Char) : Option (Reading Char) :=
  let code? (width : Nat) (rest : List Char) : Option (Reading Char) := do
    let digits := rest.take width
    let code ← Text.Numeral.value? 16 digits
    if digits.length = width ∧ code.isValidChar then some (Char.ofNat code, rest.drop width)
    else none
  match text with
  | 'u' :: rest => code? 4 rest
  | 'U' :: rest => code? 8 rest
  | c :: rest => (escaped? c).map fun meant => (meant, rest)
  | [] => none

/-- Reads a text on one line from behind its opening quote on; `seen` holds its characters, last
first. In single quotes there are no escapes. -/
def readLineText? (quote : Char) (seen : List Char) : Nat → List Char → Option (Reading String)
  | 0, _ => none
  | _, [] => none
  | steps + 1, c :: rest =>
    if c = quote then some (String.ofList seen.reverse, rest)
    else if c = '\\' && quote = '"' then do
      let (meant, rest) ← readEscape? rest
      readLineText? quote (meant :: seen) steps rest
    else if isControl c then none
    else readLineText? quote (c :: seen) steps rest

/-- Reads a text of several lines from behind its three opening quotes on. Up to two quotes may
stand before the three closing ones, and a backslash at the end of a line joins it to the next one
that is not blank. -/
def readLongText? (quote : Char) (seen : List Char) : Nat → List Char → Option (Reading String)
  | 0, _ => none
  | _, [] => none
  | steps + 1, c :: rest =>
    let quotes := (c :: rest).takeWhile (· = quote)
    if 3 ≤ quotes.length then
      let inside := min (quotes.length - 3) 2
      some (String.ofList ((quotes.take inside ++ seen).reverse), (c :: rest).drop (inside + 3))
    else if c = '\\' && quote = '"' then
      match afterBreak? (skipSpace rest) with
      | some rest =>
        readLongText? quote seen steps
          (rest.dropWhile fun x => isSpace x || x = '\n' || x = '\r')
      | none => do
        let (meant, rest) ← readEscape? rest
        readLongText? quote (meant :: seen) steps rest
    else match afterBreak? (c :: rest) with
      | some rest => readLongText? quote ('\n' :: seen) steps rest
      | none => if isControl c then none else readLongText? quote (c :: seen) steps rest

/-- Reads a text in quotes of a kind, from its opening quote on. -/
def readQuoted? (quote : Char) (long : Bool) (text : List Char) : Option (Reading String) :=
  if long && text.take 3 == [quote, quote, quote] then
    let body := text.drop 3
    readLongText? quote [] (text.length + 1) ((afterBreak? body).getD body)
  else readLineText? quote [] (text.length + 1) (text.drop 1)

/-! ## Keys -/

/-- Whether a character may stand in a key without quotes. -/
def isBare (c : Char) : Bool := c.isAlphanum || c = '_' || c = '-'

/-- Reads one part of a key. -/
def readPart? (text : List Char) : Option (Reading String) :=
  match text with
  | '"' :: _ => readQuoted? '"' false text
  | '\'' :: _ => readQuoted? '\'' false text
  | _ =>
    let name := text.takeWhile isBare
    if name.isEmpty then none else some (String.ofList name, text.drop name.length)

/-- Reads the parts of a dotted key. -/
def readKey? : Nat → List Char → Option (Reading (List String))
  | 0, _ => none
  | steps + 1, text => do
    let (part, rest) ← readPart? (skipSpace text)
    match skipSpace rest with
    | '.' :: rest => do
      let (parts, rest) ← readKey? steps rest
      some (part :: parts, rest)
    | rest => some ([part], rest)

/-! ## Numbers and times -/

/-- Digits without the underscores between them. -/
def digits? (base : Nat) (s : List Char) : Option (List Char) :=
  let isEdge (c : Option Char) : Bool := c.elim true (· = '_')
  if isEdge s.head? || isEdge s.getLast? then none
  else
    let rec joined : List Char → Option (List Char)
      | [] => some []
      | '_' :: '_' :: _ => none
      | '_' :: rest => joined rest
      | c :: rest => if (Text.Numeral.digit? base c).isSome then (joined rest).map (c :: ·) else none
    joined s

/-- Whether digits have a zero in front of others. -/
def isPadded : List Char → Bool
  | '0' :: _ :: _ => true
  | _ => false

/-- The whole number that a spelling stands for. -/
def whole? (s : List Char) : Option Int :=
  let marked? (base : Nat) (rest : List Char) : Option Int :=
    ((digits? base rest).bind (Text.Numeral.value? base)).map Int.ofNat
  let plain? (rest : List Char) : Option Int := do
    let digits ← digits? 10 rest
    if isPadded digits then none else (Text.Numeral.value? 10 digits).map Int.ofNat
  match s with
  | '0' :: 'x' :: rest => marked? 16 rest
  | '0' :: 'o' :: rest => marked? 8 rest
  | '0' :: 'b' :: rest => marked? 2 rest
  | '+' :: rest => plain? rest
  | '-' :: rest => (plain? rest).map (- ·)
  | rest => plain? rest

/-- A spelling without its sign. -/
def unsigned : List Char → List Char
  | '+' :: rest => rest
  | '-' :: rest => rest
  | s => s

/-- Whether a spelling is that of a number with a fraction or an exponent, or that is not finite. -/
def isReal (s : List Char) : Bool :=
  let body := unsigned s
  let isExponent (c : Char) : Bool := c = 'e' || c = 'E'
  let mantissa := body.takeWhile fun c => !isExponent c
  let exponent := (body.dropWhile fun c => !isExponent c).drop 1
  let whole := mantissa.takeWhile (· ≠ '.')
  let fraction := (mantissa.dropWhile (· ≠ '.')).drop 1
  let hasPoint := mantissa.contains '.'
  let hasExponent := body.any isExponent
  let good (digits : List Char) : Bool := (digits? 10 digits).isSome
  body == ['i', 'n', 'f'] || body == ['n', 'a', 'n']
    || ((hasPoint || hasExponent) && good whole && !isPadded whole && (!hasPoint || good fraction)
      && (!hasExponent || good (unsigned exponent)))

/-- Whether two digits are a number from `least` to `most`. -/
def isPair (least most : Nat) (s : List Char) : Bool :=
  s.length = 2 && (Text.Numeral.value? 10 s).any fun n => least ≤ n && n ≤ most

/-- How many days a month has. -/
def daysOf (year month : Nat) : Nat :=
  let leap := year % 4 = 0 ∧ (year % 100 ≠ 0 ∨ year % 400 = 0)
  if month = 2 then if leap then 29 else 28
  else if [4, 6, 9, 11].contains month then 30
  else 31

/-- Whether a spelling is that of a day. -/
def isDate (s : List Char) : Bool :=
  match Text.Numeral.value? 10 (s.take 4), Text.Numeral.value? 10 ((s.drop 5).take 2) with
  | some year, some month =>
    s.length = 10 && s[4]? == some '-' && s[7]? == some '-' && 1 ≤ month && month ≤ 12
      && isPair 1 (daysOf year month) (s.drop 8)
  | _, _ => false

/-- Whether a spelling is that of a time of day. -/
def isClock (s : List Char) : Bool :=
  let fraction := s.drop 8
  8 ≤ s.length && isPair 0 23 (s.take 2) && s[2]? == some ':' && isPair 0 59 ((s.drop 3).take 2)
    && s[5]? == some ':' && isPair 0 60 ((s.drop 6).take 2)
    && (fraction.isEmpty
      || (fraction.head? == some '.' && 2 ≤ fraction.length && (fraction.drop 1).all Char.isDigit))

/-- Whether a spelling is that of a distance from the time of Greenwich. -/
def isOffset (s : List Char) : Bool :=
  s.isEmpty || s == ['Z'] || s == ['z']
    || (s.length = 6 && (s.head? == some '+' || s.head? == some '-') && isPair 0 23 ((s.drop 1).take 2)
      && s[3]? == some ':' && isPair 0 59 (s.drop 4))

/-- Whether a spelling is that of a day, of a time of day, or of both. -/
def isTime (s : List Char) : Bool :=
  let clock := s.drop 11
  let isClockCharacter (c : Char) : Bool := c.isDigit || c = ':' || c = '.'
  isDate s || isClock s
    || (isDate (s.take 10) && (s[10]?).any (fun c => c = 'T' || c = 't' || c = ' ')
      && isClock (clock.takeWhile isClockCharacter) && isOffset (clock.dropWhile isClockCharacter))

/-- The value that a word without quotes stands for. -/
def wordValue? (word : List Char) : Option Value :=
  if word == ['t', 'r', 'u', 'e'] then some (.boolean true)
  else if word == ['f', 'a', 'l', 's', 'e'] then some (.boolean false)
  else if isTime word then some (.time (String.ofList word))
  else match whole? word with
    | some n => if -2 ^ 63 ≤ n ∧ n < 2 ^ 63 then some (.whole n) else none
    | none => if isReal word then some (.real (String.ofList word)) else none

/-- Whether a character may stand in a word without quotes. -/
def isWordCharacter (c : Char) : Bool :=
  isBare c || c = '+' || c = '.' || c = ':'

/-- Reads a word without quotes; a day may be joined to a time of day by a space. -/
def readWord? (text : List Char) : Option (Reading Value) :=
  let word := text.takeWhile isWordCharacter
  let rest := text.drop word.length
  match isDate word, rest with
  | true, ' ' :: after =>
    let clock := after.takeWhile isWordCharacter
    if isTime (word ++ ' ' :: clock) then
      some (.time (String.ofList (word ++ ' ' :: clock)), after.drop clock.length)
    else (wordValue? word).map fun value => (value, rest)
  | _, _ => (wordValue? word).map fun value => (value, rest)

/-! ## Values -/

mutual
/-- Reads a value. -/
def readValue? : Nat → List Char → Option (Reading Value)
  | 0, _ => none
  | steps + 1, text =>
    match text with
    | '"' :: _ => (readQuoted? '"' true text).map fun (s, rest) => (.text s, rest)
    | '\'' :: _ => (readQuoted? '\'' true text).map fun (s, rest) => (.text s, rest)
    | '[' :: rest => (readItems? steps rest).map fun (items, rest) => (.list items, rest)
    | '{' :: rest =>
      match skipSpace rest with
      | '}' :: rest => some (.table [], rest)
      | rest => (readEntries? [] steps rest).map fun (items, rest) =>
          (.table (entriesToValues items), rest)
    | _ => readWord? text

/-- Reads the items of a list, from behind its bracket or a comma on. -/
def readItems? : Nat → List Char → Option (Reading (List Value))
  | 0, _ => none
  | steps + 1, text => do
    match ← skipLines? (text.length + 1) text with
    | ']' :: rest => some ([], rest)
    | rest =>
      let (item, rest) ← readValue? steps rest
      match ← skipLines? (rest.length + 1) rest with
      | ',' :: rest =>
        let (items, rest) ← readItems? steps rest
        some (item :: items, rest)
      | ']' :: rest => some ([item], rest)
      | _ => none

/-- Reads the entries of a table in braces, from behind its brace or a comma on. -/
def readEntries? (items : Items) : Nat → List Char → Option (Reading Items)
  | 0, _ => none
  | steps + 1, text => do
    match ← readKey? (text.length + 1) text with
    | (key, '=' :: rest) =>
      let (value, rest) ← readValue? steps (skipSpace rest)
      let items ← store value key items
      match skipSpace rest with
      | ',' :: rest => readEntries? items steps rest
      | '}' :: rest => some (items, rest)
      | _ => none
    | _ => none
end

/-! ## Documents -/

/-- Reads a line: a header, or a key and its value. The state is the table so far and the path of
the table that was opened last. -/
def readLine? (items : Items) (opened : List String) (text : List Char) :
    Option (Items × List String × List Char) := do
  match text with
  | '[' :: '[' :: rest =>
    match ← readKey? (text.length + 1) rest with
    | (path, ']' :: ']' :: rest) => some (← openElement path items, path, ← endLine? rest)
    | _ => none
  | '[' :: rest =>
    match ← readKey? (text.length + 1) rest with
    | (path, ']' :: rest) => some (← openTable path items, path, ← endLine? rest)
    | _ => none
  | _ =>
    match ← readKey? (text.length + 1) text with
    | (key, '=' :: rest) =>
      let (value, rest) ← readValue? (text.length + 1) (skipSpace rest)
      some (← storeIn opened key value items, opened, ← endLine? rest)
    | _ => none

/-- Reads the lines that are left. -/
def readLines? (items : Items) (opened : List String) : Nat → List Char → Option Items
  | 0, _ => none
  | steps + 1, text => do
    match ← skipLines? (text.length + 1) text with
    | [] => some items
    | rest =>
      let (items, opened, rest) ← readLine? items opened rest
      readLines? items opened steps rest

/-- The entries of the table that a text stands for, unless it is malformed. -/
def parse? (text : String) : Option (List (String × Value)) :=
  let characters := match text.toList with
    | '\ufeff' :: rest => rest
    | rest => rest
  (readLines? [] [] (characters.length + 1) characters).map entriesToValues

end Variation.Toml
