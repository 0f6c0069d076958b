import Variation.Text.Pieces

/-!
# File paths

A file path is a text whose components are separated by slashes. Empty components and single points
do not count, except for a point at the very start. The functions here look at the text alone and
ask no file system.
-/

namespace Variation.FilePath

/-- One component of a path. -/
inductive Component where
  | root
  /-- A single point at the start. -/
  | here
  /-- Two points, for the folder above. -/
  | up
  | name (name : String)
deriving DecidableEq

/-- The component that a piece between two slashes stands for, if it counts. -/
def ofPiece : List Char → List Component
  | [] => []
  | ['.'] => []
  | ['.', '.'] => [.up]
  | piece => [.name (String.ofList piece)]

/-- The component that the piece before the first slash stands for. -/
def ofFirst (absolute : Bool) : List Char → List Component
  | [] => if absolute then [.root] else []
  | ['.'] => [.here]
  | piece => ofPiece piece

/-- The components of a path. -/
def components (path : String) : List Component :=
  match Text.pieces '/' path.toList with
  | [] => []
  | first :: rest => ofFirst (!rest.isEmpty) first ++ rest.flatMap ofPiece

/-- The last component of a path, if it is a name. -/
def fileName? (path : String) : Option String :=
  match (components path).getLast? with
  | some (.name name) => some name
  | _ => none

/-- A reversed path without the slashes and single points at its end. -/
def trimEnd : List Char → List Char
  | '/' :: c :: rest => trimEnd (c :: rest)
  | '.' :: '/' :: rest => trimEnd ('/' :: rest)
  | reversed => reversed

/-- The path of the folder that holds the last component; the empty text stands for no folder in
particular. -/
def parent (path : String) : String :=
  let reversed := trimEnd path.toList.reverse
  String.ofList (trimEnd (reversed.dropWhile (· ≠ '/'))).reverse

/-- What follows the last point of a name, if anything stands before that point. -/
def extensionOf? (name : List Char) : Option (List Char) :=
  let reversed := name.reverse
  match reversed.dropWhile (· ≠ '.') with
  | [] => none
  | [_] => none
  | _ => some (reversed.takeWhile (· ≠ '.')).reverse

/-- The extension of a path, if its last component has one. -/
def extension? (path : String) : Option String :=
  (fileName? path).bind fun name => (extensionOf? name.toList).map String.ofList

/-- The path of a file in a folder. -/
def join (folder name : String) : String :=
  if folder.isEmpty then name
  else if folder.toList.getLast? = some '/' then folder ++ name
  else folder ++ "/" ++ name

end Variation.FilePath
