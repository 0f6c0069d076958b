import Variation.Yaml.Meaning
import Variation.Yaml.Node

/-!
# Reading YAML

A document has no anchors: an alias stands for the node that its anchor marks. Anchors are numbered
as they come, each by the number of different names before it, and an alias takes the number that
its name has where it stands. A name that is used again makes a number stand for a later node, and
aliases that took the number before stand for that node too.

The conversion goes down a limited number of containers. That also ends it where an alias stands
inside the node that it stands for. Aliases are counted, so that a short text cannot ask for more
nodes than are worth making.
-/

namespace Variation.Yaml

namespace Node

/-! ## Anchors -/

/-- The number of every name, the last one first. -/
abbrev Names := List (String × Nat)

/-- A node whose anchors have numbers. -/
abbrev Linked := Node Nat

/-- Numbers the anchor of a node, if it has one. -/
def numberAnchor (names : Names) (marks : Marks String) : Marks Nat × Names :=
  match marks.anchor with
  | none => (⟨none, marks.tag⟩, names)
  | some name =>
    let number := (names.map (·.1)).eraseDups.length
    (⟨some number, marks.tag⟩, (name, number) :: names)

mutual
/-- Numbers the anchors and aliases of a node, in the order of the text. -/
def link (names : Names) : Written → Except Fault (Linked × Names)
  | .alias name =>
    match names.lookup name with
    | some number => .ok (.alias number, names)
    | none => .error .unknownAnchor
  | .scalar marks text plain =>
    let (marks, names) := numberAnchor names marks
    .ok (.scalar marks text plain, names)
  | .sequence marks items =>
    let (marks, names) := numberAnchor names marks
    match linkItems names items with
    | .error fault => .error fault
    | .ok (items, names) => .ok (.sequence marks items, names)
  | .mapping marks entries =>
    let (marks, names) := numberAnchor names marks
    match linkEntries names entries with
    | .error fault => .error fault
    | .ok (entries, names) => .ok (.mapping marks entries, names)

/-- Numbers the anchors and aliases of items. -/
def linkItems (names : Names) : List Written → Except Fault (List Linked × Names)
  | [] => .ok ([], names)
  | item :: rest =>
    match link names item with
    | .error fault => .error fault
    | .ok (item, names) =>
      match linkItems names rest with
      | .error fault => .error fault
      | .ok (items, names) => .ok (item :: items, names)

/-- Numbers the anchors and aliases of entries, a key before its value. -/
def linkEntries (names : Names) :
    List (Written × Written) → Except Fault (List (Linked × Linked) × Names)
  | [] => .ok ([], names)
  | (key, value) :: rest =>
    match link names key with
    | .error fault => .error fault
    | .ok (key, names) =>
      match link names value with
      | .error fault => .error fault
      | .ok (value, names) =>
        match linkEntries names rest with
        | .error fault => .error fault
        | .ok (entries, names) => .ok ((key, value) :: entries, names)
end

/-- The node with its anchor, if it has one. -/
def anchored (marks : Marks Nat) (node : Linked) : List (Nat × Linked) :=
  marks.anchor.toList.map fun number => (number, node)

mutual
/-- The nodes with anchors, in the order of the text. -/
def targets : Linked → List (Nat × Linked)
  | .alias _ => []
  | .scalar marks text plain => anchored marks (.scalar marks text plain)
  | .sequence marks items => anchored marks (.sequence marks items) ++ targetsOfItems items
  | .mapping marks entries => anchored marks (.mapping marks entries) ++ targetsOfEntries entries

/-- The nodes with anchors among items and under them. -/
def targetsOfItems : List Linked → List (Nat × Linked)
  | [] => []
  | item :: rest => targets item ++ targetsOfItems rest

/-- The nodes with anchors among entries and under them. -/
def targetsOfEntries : List (Linked × Linked) → List (Nat × Linked)
  | [] => []
  | (key, value) :: rest => targets key ++ targets value ++ targetsOfEntries rest
end

mutual
/-- How many marks a node takes in the text: one, or two around what a container holds. -/
def weight : Linked → Nat
  | .sequence _ items => weightOfItems items + 2
  | .mapping _ entries => weightOfEntries entries + 2
  | _ => 1

/-- How many marks items take. -/
def weightOfItems : List Linked → Nat
  | [] => 0
  | item :: rest => weight item + weightOfItems rest

/-- How many marks entries take. -/
def weightOfEntries : List (Linked × Linked) → Nat
  | [] => 0
  | (key, value) :: rest => weight key + weight value + weightOfEntries rest
end

/-! ## Documents -/

/-- The document of a plain scalar. -/
def plainDocument (text : String) : Except Fault Document :=
  match meaning text with
  | .null => .ok .null
  | .boolean b => .ok (.boolean b)
  | .whole n => (Document.ofInt? n).elim (.error .numberTooLarge) .ok
  | .real x => .ok (.real x)
  | .notFinite => .ok .null
  | .text => .ok (.text text)

/-- The document of a scalar whose tag is one of the format's own. A tag for one kind of scalar asks
for that kind, however the text is quoted; any other makes the scalar a text. -/
def taggedDocument (tag text : String) : Except Fault Document :=
  match tag with
  | "tag:yaml.org,2002:bool" => (boolean? text).elim (.error .tagMismatch) (.ok <| .boolean ·)
  | "tag:yaml.org,2002:int" =>
    match whole? text.toList with
    | some n => (Document.ofInt? n).elim (.error .numberTooLarge) .ok
    | none => .error .tagMismatch
  | "tag:yaml.org,2002:float" =>
    match real? text.toList with
    | some (.real x) => .ok (.real x)
    | some _ => .ok .null
    | none => .error .tagMismatch
  | "tag:yaml.org,2002:null" => if isNull text then .ok .null else .error .tagMismatch
  | _ => .ok (.text text)

/-- Whether a tag is none of the format's own. -/
def isCustom (tag : Option String) : Bool :=
  tag.elim false fun name => name.toList.head? == some '!'

/-- The document of a scalar. -/
def scalarDocument (tag : Option String) (text : String) (plain : Bool) : Except Fault Document :=
  match tag with
  | some name => if isCustom tag then .error .customTag else taggedDocument name text
  | none => if plain then plainDocument text else .ok (.text text)

/-- What the aliases of a text stand for. -/
structure Links where
  targets : List (Nat × Linked)

/-- The node that a number stands for: the last one that has it. -/
def Links.find? (links : Links) (number : Nat) : Option Linked :=
  links.targets.reverse.lookup number

/-- The node that is meant by a node, and how many aliases may still be followed. -/
def follow (links : Links) (left : Nat) : Linked → Except Fault (Linked × Nat)
  | .alias number =>
    if left = 0 then .error .tooManyAliases
    else match links.find? number with
      | some node => .ok (node, left - 1)
      | none => .error .unknownAnchor
  | node => .ok (node, left)

/-- What is made of nodes, and how many aliases may still be followed. -/
abbrev Made (α : Type) := Except Fault (α × Nat)

/-- Makes a document of every item in turn. -/
def makeItems (make : Nat → Linked → Made Document) (left : Nat) :
    List Linked → Made (List Document)
  | [] => .ok ([], left)
  | item :: rest =>
    match make left item with
    | .error fault => .error fault
    | .ok (document, left) =>
      match makeItems make left rest with
      | .error fault => .error fault
      | .ok (documents, left) => .ok (document :: documents, left)

/-- Makes a text of a key and a document of its value, for every entry in turn. -/
def makeEntries (links : Links) (make : Nat → Linked → Made Document) (left : Nat) :
    List (Linked × Linked) → Made (List (String × Document))
  | [] => .ok ([], left)
  | (key, value) :: rest =>
    match follow links left key with
    | .error fault => .error fault
    | .ok (.scalar _ text _, left) =>
      match make left value with
      | .error fault => .error fault
      | .ok (document, left) =>
        match makeEntries links make left rest with
        | .error fault => .error fault
        | .ok (pairs, left) => .ok ((text, document) :: pairs, left)
    | .ok _ => .error .keyNotText

/-- Makes a document of a node in which at most `depth` containers are open at a time. -/
def make (links : Links) : Nat → Nat → Linked → Made Document
  | depth, left, node =>
    match follow links left node with
    | .error fault => .error fault
    | .ok (.alias _, _) => .error .unknownAnchor
    | .ok (.scalar marks text plain, left) =>
      (scalarDocument marks.tag text plain).map fun document => (document, left)
    | .ok (.sequence marks items, left) =>
      if isCustom marks.tag then .error .customTag
      else match depth with
        | 0 => .error .tooDeep
        | depth + 1 =>
          (makeItems (make links depth) left items).map fun (documents, left) =>
            (.sequence documents, left)
    | .ok (.mapping marks entries, left) =>
      if isCustom marks.tag then .error .customTag
      else match depth with
        | 0 => .error .tooDeep
        | depth + 1 =>
          (makeEntries links (make links depth) left entries).map fun (pairs, left) =>
            (.ofPairs pairs, left)

/-- How many containers may be open at a time. -/
def largestDepth : Nat := 128

/-- How many aliases may be followed for every mark of the text. -/
def aliasesPerMark : Nat := 100

/-- The document that a node stands for. -/
def toDocument (node : Written) : Except Fault Document := do
  let (linked, _) ← link [] node
  let (document, _) ← make ⟨targets linked⟩ largestDepth (aliasesPerMark * weight linked) linked
  .ok document

end Node

/-- The document that a text stands for. A text without any node stands for null. -/
def parse (text : String) : Except Fault Document := do
  let tokens ← tokens text
  match ← Node.ofTokens? tokens with
  | none => .ok .null
  | some node => node.toDocument

end Variation.Yaml
