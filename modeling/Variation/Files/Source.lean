import Variation.Files.Tree
import Variation.Json.Reader
import Variation.Output.Render
import Variation.Yaml.Reader

/-!
# Documents in files

The extension of a path decides how its file is read: as JSON if it is exactly `json`, and as YAML
otherwise. Documents are written to numbered files of one folder, which is made if it is missing.
-/

namespace Variation

/-- Why documents cannot be read from files or written to them. -/
inductive SourceError where
  /-- A file or folder cannot be used. -/
  | access (path : String) (fault : FileFault)
  | json (path : String) (error : Json.JsonError)
  | yaml (path : String) (fault : Yaml.Fault)
  /-- A path has no last component that could be a file. -/
  | noFileName (path : String)

/-- What went wrong with a file, in words. -/
def SourceError.message : SourceError → String
  | .access path fault => "failed to access " ++ path ++ ": " ++ fault.message
  | .json path error => "failed to parse " ++ path ++ ": " ++ error.message
  | .yaml path fault => "failed to parse " ++ path ++ ": " ++ fault.reason
  | .noFileName path => "invalid path " ++ path ++ ": path is missing a filename"

/-- The document that the text of a file stands for. -/
def parseDocument (path contents : String) : Except SourceError Document :=
  if FilePath.extension? path = some "json" then
    match Json.parse contents with
    | .error error => .error (.json path error)
    | .ok document => .ok document
  else
    match Yaml.parse contents with
    | .error fault => .error (.yaml path fault)
    | .ok document => .ok document

/-- The text of a file. A folder that cannot be used is reported by its own path. -/
def readFile (tree : Tree) (path : String) : Except SourceError String :=
  match FilePath.fileName? path with
  | none => .error (.noFileName path)
  | some name =>
    let parent := FilePath.parent path
    let folder := if parent.isEmpty then "." else parent
    match tree.openFolder (FilePath.components folder) with
    | .error fault => .error (.access folder fault)
    | .ok location =>
      match tree.readText (location ++ [name]) with
      | .error fault => .error (.access path fault)
      | .ok text => .ok text

/-- The document in a file. -/
def readDocument (tree : Tree) (path : String) : Except SourceError Document :=
  match readFile tree path with
  | .error error => .error error
  | .ok contents => parseDocument path contents

/-- A number in decimal digits, with zeros in front of it up to four. -/
def paddedNumber (n : Nat) : List Char :=
  let digits := Nat.toDigits 10 n
  List.replicate (4 - digits.length) '0' ++ digits

/-- The name of the file of a document, counted from one. -/
def outputName (number : Nat) (format : OutputFormat) : String :=
  "matrix-" ++ String.ofList (paddedNumber number) ++ "." ++ format.name

/-- What a write to files leaves: the files afterwards, and the paths written or what went wrong. -/
structure FileWrite where
  tree : Tree
  result : Except SourceError (List String)

/-- Writes documents to the files of a folder, numbered from `number` on. -/
def writeNumbered (folder : String) (location : Location) (format : OutputFormat) (tree : Tree)
    (number : Nat) : List Document → FileWrite
  | [] => ⟨tree, .ok []⟩
  | document :: rest =>
    let name := outputName number format
    let path := FilePath.join folder name
    match tree.writeText (location ++ [name]) (format.renderDocument document) with
    | .error fault => ⟨tree, .error (.access path fault)⟩
    | .ok tree =>
      let later := writeNumbered folder location format tree (number + 1) rest
      ⟨later.tree, later.result.map (path :: ·)⟩

/-- Writes each document to a file of a folder, in order. -/
def writeDocuments (tree : Tree) (folder : String) (documents : List Document)
    (format : OutputFormat) : FileWrite :=
  match tree.createFolders folder with
  | .error fault => ⟨tree, .error (.access folder fault)⟩
  | .ok tree =>
    match tree.openFolder (FilePath.components folder) with
    | .error fault => ⟨tree, .error (.access folder fault)⟩
    | .ok location => writeNumbered folder location format tree 1 documents

end Variation
