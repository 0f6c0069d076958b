import Variation.Yaml.Token

/-!
# The nodes of a YAML text

Nodes are read from tokens by the grammar of the format. A node that is left out, behind a mark that
announces one, is an empty plain scalar. A pair inside square brackets is a mapping of one entry.

All readers take the tokens that are left and yield a node with those that are left after it. They
count their steps: each takes a token itself or is called once by one that does, so twice the number
of tokens is enough.
-/

namespace Variation.Yaml

/-- What a node is marked with. -/
structure Marks (ν : Type) where
  anchor : Option ν
  /-- The tag, its handle replaced by what it stands for. -/
  tag : Option String

/-- A node as it is written, its anchors and aliases named by values of a type. -/
inductive Node (ν : Type) where
  | alias (name : ν)
  | scalar (marks : Marks ν) (text : String) (plain : Bool)
  | sequence (marks : Marks ν) (items : List (Node ν))
  | mapping (marks : Marks ν) (entries : List (Node ν × Node ν))

/-- A node whose anchors have the names that the text gives them. -/
abbrev Written := Node String

namespace Node

/-- No marks. -/
def unmarked : Marks String := ⟨none, none⟩

/-- The node that is left out. -/
def empty : Written := .scalar unmarked "" true

/-- What a reader of tokens yields: nodes, and the tokens that are left. -/
abbrev Reading (α : Type) := α × List Token

/-- What handles stand for. -/
abbrev Handles := List (String × String)

/-- The handles that need no directive. -/
def defaultHandles : Handles := [("!", "!"), ("!!", "tag:yaml.org,2002:")]

/-- A tag with its handle replaced. -/
def resolveTag (handles : Handles) (tag : Tag) : Except Fault String :=
  if tag.handle.isEmpty then .ok tag.suffix
  else match handles.lookup tag.handle with
    | some expansion => .ok (expansion ++ tag.suffix)
    | none => .error .unknownHandle

/-- Reads the anchor and the tag of a node, in either order. -/
def readMarks (handles : Handles) : List Token → Except Fault (Reading (Marks String))
  | .anchor anchor :: .tag tag :: rest => do
    .ok (⟨some anchor, some (← resolveTag handles tag)⟩, rest)
  | .tag tag :: .anchor anchor :: rest => do
    .ok (⟨some anchor, some (← resolveTag handles tag)⟩, rest)
  | .anchor anchor :: rest => .ok (⟨some anchor, none⟩, rest)
  | .tag tag :: rest => do .ok (⟨none, some (← resolveTag handles tag)⟩, rest)
  | rest => .ok (unmarked, rest)

/-- Whether the next token ends what may be left out behind the mark of an item. -/
def endsItem (inKey : Bool) : List Token → Bool
  | .item :: _ => true
  | .blockEnd :: _ => true
  | .key :: _ => inKey
  | .value :: _ => inKey
  | _ => false

/-- Whether the next token ends what may be left out behind the mark of a key or of a value. -/
def endsEntry : List Token → Bool
  | .key :: _ => true
  | .value :: _ => true
  | .blockEnd :: _ => true
  | _ => false

/-- Whether the next token ends a value inside brackets. -/
def endsFlow (closing : Token → Bool) : List Token → Bool
  | .comma :: _ => true
  | token :: _ => closing token
  | [] => false

/-- The token that closes square brackets. -/
def closesSequence : Token → Bool
  | .flowSequenceEnd => true
  | _ => false

/-- The token that closes braces. -/
def closesMapping : Token → Bool
  | .flowMappingEnd => true
  | _ => false

/-- The token that stands between a key and a value. -/
def isValueMark : List Token → Bool
  | .value :: _ => true
  | _ => false

mutual
/-- Reads a node. Outside brackets a block may start; behind a key the items of a sequence may stand
at the column of the key, where they open no block. -/
def read (handles : Handles) (block inKey : Bool) : Nat → List Token → Except Fault (Reading Written)
  | 0, _ => .error .outOfSteps
  | _, .alias name :: rest => .ok (.alias name, rest)
  | steps + 1, tokens =>
    match readMarks handles tokens with
    | .error fault => .error fault
    | .ok (marks, tokens) =>
      match tokens, inKey, block with
      | .item :: _, true, _ => do
        let (items, rest) ← readBareItems handles steps tokens
        .ok (.sequence marks items, rest)
      | .scalar text plain :: rest, _, _ => .ok (.scalar marks text plain, rest)
      | .flowSequence :: rest, _, _ => do
        let (items, rest) ← readFlowItems handles true steps rest
        .ok (.sequence marks items, rest)
      | .flowMapping :: rest, _, _ => do
        let (entries, rest) ← readFlowEntries handles true steps rest
        .ok (.mapping marks entries, rest)
      | .blockSequence :: rest, _, true => do
        let (items, rest) ← readItems handles steps rest
        .ok (.sequence marks items, rest)
      | .blockMapping :: rest, _, true => do
        let (entries, rest) ← readEntries handles steps rest
        .ok (.mapping marks entries, rest)
      | rest, _, _ =>
        if marks.anchor.isSome || marks.tag.isSome then .ok (.scalar marks "" true, rest)
        else .error .expectedNode

/-- Reads the items of a block, up to its end. -/
def readItems (handles : Handles) : Nat → List Token → Except Fault (Reading (List Written))
  | 0, _ => .error .outOfSteps
  | steps + 1, .item :: rest => do
    let (item, rest) ←
      if endsItem false rest then .ok (empty, rest) else read handles true false steps rest
    let (items, rest) ← readItems handles steps rest
    .ok (item :: items, rest)
  | _, .blockEnd :: rest => .ok ([], rest)
  | _, _ => .error .expectedItem

/-- Reads the items of a sequence that opens no block. -/
def readBareItems (handles : Handles) : Nat → List Token → Except Fault (Reading (List Written))
  | 0, _ => .error .outOfSteps
  | steps + 1, .item :: rest => do
    let (item, rest) ←
      if endsItem true rest then .ok (empty, rest) else read handles true false steps rest
    let (items, rest) ← readBareItems handles steps rest
    .ok (item :: items, rest)
  | _, rest => .ok ([], rest)

/-- Reads the entries of a block, up to its end. -/
def readEntries (handles : Handles) : Nat → List Token → Except Fault (Reading (List (Written × Written)))
  | 0, _ => .error .outOfSteps
  | steps + 1, .key :: rest => do
    let (key, rest) ←
      if endsEntry rest then .ok (empty, rest) else read handles true true steps rest
    let (value, rest) ←
      match rest with
      | .value :: rest =>
        if endsEntry rest then .ok (empty, rest) else read handles true true steps rest
      | rest => .ok (empty, rest)
    let (entries, rest) ← readEntries handles steps rest
    .ok ((key, value) :: entries, rest)
  | _, .blockEnd :: rest => .ok ([], rest)
  | _, _ => .error .expectedKey

/-- Reads the items inside square brackets, up to the closing one. -/
def readFlowItems (handles : Handles) (first : Bool) : Nat → List Token → Except Fault (Reading (List Written))
  | 0, _ => .error .outOfSteps
  | _, .flowSequenceEnd :: rest => .ok ([], rest)
  | steps + 1, tokens => do
    let tokens ←
      match first, tokens with
      | true, tokens => .ok tokens
      | false, .comma :: rest => .ok rest
      | false, _ => .error Fault.expectedListMark
    match tokens with
    | .flowSequenceEnd :: rest => .ok ([], rest)
    | .key :: rest =>
      let (entry, rest) ← readPair handles steps rest
      let (items, rest) ← readFlowItems handles false steps rest
      .ok (.mapping unmarked [entry] :: items, rest)
    | tokens =>
      let (item, rest) ← read handles false false steps tokens
      let (items, rest) ← readFlowItems handles false steps rest
      .ok (item :: items, rest)

/-- Reads a pair inside square brackets, from behind the mark of its key on. A pair whose key is left
out has no value either: the token that stands in place of the key is passed over. -/
def readPair (handles : Handles) : Nat → List Token → Except Fault (Reading (Written × Written))
  | 0, _ => .error .outOfSteps
  | steps + 1, tokens => do
    let (key, rest) ←
      if isValueMark tokens || endsFlow closesSequence tokens then .ok (empty, tokens.drop 1)
      else read handles false false steps tokens
    match rest with
    | .value :: rest =>
      if endsFlow closesSequence rest then .ok ((key, empty), rest)
      else
        let (value, rest) ← read handles false false steps rest
        .ok ((key, value), rest)
    | rest => .ok ((key, empty), rest)

/-- Reads the entries inside braces, up to the closing one. -/
def readFlowEntries (handles : Handles) (first : Bool) :
    Nat → List Token → Except Fault (Reading (List (Written × Written)))
  | 0, _ => .error .outOfSteps
  | _, .flowMappingEnd :: rest => .ok ([], rest)
  | steps + 1, tokens => do
    let tokens ←
      match first, tokens with
      | true, tokens => .ok tokens
      | false, .comma :: rest => .ok rest
      | false, _ => .error Fault.expectedMappingMark
    match tokens with
    | .flowMappingEnd :: rest => .ok ([], rest)
    | .key :: rest =>
      let (key, rest) ←
        if isValueMark rest || endsFlow closesMapping rest then .ok (empty, rest)
        else read handles false false steps rest
      let (value, rest) ←
        match rest with
        | .value :: rest =>
          if endsFlow closesMapping rest then .ok (empty, rest)
          else read handles false false steps rest
        | rest => .ok (empty, rest)
      let (entries, rest) ← readFlowEntries handles false steps rest
      .ok ((key, value) :: entries, rest)
    | tokens =>
      let (key, rest) ← read handles false false steps tokens
      let (entries, rest) ← readFlowEntries handles false steps rest
      .ok ((key, empty) :: entries, rest)
end

/-! ## Documents -/

/-- Reads the directives in front of a document. -/
def readDirectives (handles : Handles) (versioned : Bool) : List Token → Except Fault (Reading Handles)
  | .directive (.version major minor) :: rest =>
    if versioned then .error .repeatedDirective
    else if major = 1 ∧ (minor = 1 ∨ minor = 2) then readDirectives handles true rest
    else .error .badVersion
  | .directive (.handle handle expansion) :: rest =>
    if (handles.lookup handle).isSome then .error .repeatedDirective
    else readDirectives ((handle, expansion) :: handles) versioned rest
  | rest => .ok (handles, rest)

/-- Whether nothing more comes but marks that end a document. -/
def nothingFollows : List Token → Bool
  | [] => true
  | .documentEnd :: rest => nothingFollows rest
  | _ => false

/-- Whether a document is left out: behind its mark comes another mark, a directive or nothing. -/
def leavesOut : List Token → Bool
  | [] => true
  | .documentStart :: _ => true
  | .documentEnd :: _ => true
  | .directive _ :: _ => true
  | _ => false

/-- Reads the content of a document, behind which no second document may start. -/
def readContent (handles : Handles) (tokens : List Token) : Except Fault Written := do
  let (node, rest) ← read handles true false (2 * tokens.length + 2) tokens
  if nothingFollows rest then .ok node
  else match rest with
    | .documentStart :: _ => .error .secondDocument
    | _ => .error .expectedDocument

/-- The node that the tokens of a text stand for; a text without any has none. -/
def ofTokens? (tokens : List Token) : Except Fault (Option Written) := do
  if tokens.isEmpty then .ok none
  else
    let (declared, rest) ← readDirectives [] false tokens
    let handles := declared ++ defaultHandles
    match rest with
    | .documentStart :: rest =>
      if leavesOut rest then
        if nothingFollows rest then .ok (some empty) else .error .secondDocument
      else .ok (some (← readContent handles rest))
    | rest =>
      if declared.isEmpty && rest.length = tokens.length then
        .ok (some (← readContent handles rest))
      else .error .expectedDocument

end Node

end Variation.Yaml
