import Variation.Files.Path

/-!
# Files and folders

A `Tree` holds the files and folders around a working folder. A location is the list of names that
leads to a file; above the working folder it starts with as many pairs of points as there are
folders to go up. Folders above the working folder exist, and nothing else there is known.

Paths are followed component by component, and every component but the last has to be a folder.
-/

namespace Variation

/-- What a file holds. -/
inductive Contents where
  | text (text : String)
  /-- Bytes that are no text. -/
  | bytes
deriving DecidableEq

/-- What bytes hold. -/
def Contents.ofBytes (bytes : ByteArray) : Contents :=
  match String.fromUTF8? bytes with
  | some s => .text s
  | none => .bytes

/-- What is found at a location. -/
inductive FileEntry where
  | folder
  | file (contents : Contents)
deriving DecidableEq

/-- The names that lead to a file or folder. -/
abbrev Location := List String

/-- Why a file or folder cannot be used. -/
inductive FileFault where
  | notFound
  | alreadyExists
  | notFolder
  | isFolder
  | notText
deriving DecidableEq

/-- Why a file or folder cannot be used, in words. -/
def FileFault.message : FileFault → String
  | .notFound => "No such file or directory (os error 2)"
  | .alreadyExists => "File exists (os error 17)"
  | .notFolder => "Not a directory (os error 20)"
  | .isFolder => "Is a directory (os error 21)"
  | .notText => "stream did not contain valid UTF-8"

/-- The location of the folder above. -/
def Location.above (location : Location) : Location :=
  if location = ["/"] then location
  else match location.getLast? with
    | none => [".."]
    | some ".." => location ++ [".."]
    | some _ => location.dropLast

/-- Files and folders, each at a location of its own. -/
structure Tree where
  entries : List (Location × FileEntry)

namespace Tree

/-- The working folder alone. -/
def empty : Tree := ⟨[]⟩

/-- What is found at a location. -/
def find? (tree : Tree) (location : Location) : Option FileEntry :=
  if location.all (· = "..") || location == ["/"] then some .folder
  else tree.entries.lookup location

/-- The tree with an entry at a location, in place of what was there. -/
def insert (tree : Tree) (location : Location) (entry : FileEntry) : Tree :=
  ⟨(location, entry) :: tree.entries.filter (·.1 ≠ location)⟩

/-- A location that is known to be a folder. -/
def folder (tree : Tree) (location : Location) : Except FileFault Location :=
  match tree.find? location with
  | some .folder => .ok location
  | some (.file _) => .error .notFolder
  | none => .error .notFound

/-- The location that a component leads to from a folder. -/
def follow (location : Location) : FilePath.Component → Location
  | .root => ["/"]
  | .here => location
  | .up => location.above
  | .name name => location ++ [name]

/-- The location that components lead to, each being taken from a folder. -/
def walk (tree : Tree) (location : Location) : List FilePath.Component → Except FileFault Location
  | [] => .ok location
  | component :: rest => do
    let location ← tree.folder location
    tree.walk (follow location component) rest

/-- The location of the folder that components lead to; no components lead nowhere. -/
def openFolder (tree : Tree) (components : List FilePath.Component) : Except FileFault Location :=
  if components.isEmpty then .error .notFound
  else do tree.folder (← tree.walk [] components)

/-- What a file holds, if it is a text. -/
def readText (tree : Tree) (location : Location) : Except FileFault String :=
  match tree.find? location with
  | none => .error .notFound
  | some .folder => .error .isFolder
  | some (.file .bytes) => .error .notText
  | some (.file (.text text)) => .ok text

/-- The tree with a text in a file. -/
def writeText (tree : Tree) (location : Location) (text : String) : Except FileFault Tree :=
  match tree.find? location with
  | some .folder => .error .isFolder
  | _ => .ok (tree.insert location (.file (.text text)))

/-- Makes the folder that the last component names, in a folder that exists. -/
def createFolder (tree : Tree) (before : List FilePath.Component) (last : FilePath.Component) :
    Except FileFault Tree := do
  let location ← tree.walk [] before
  let location ← tree.folder location
  let target := follow location last
  match tree.find? target with
  | some _ => .error .alreadyExists
  | none => .ok (tree.insert target .folder)

/-- Makes a folder and those on the way to it that are missing. The components come in reverse
order. That the folder exists already is no error. -/
def createFoldersFrom (tree : Tree) : List FilePath.Component → Except FileFault Tree
  | [] => .ok tree
  | last :: before =>
    let exists? (tree : Tree) (fault : FileFault) : Except FileFault Tree :=
      if (tree.openFolder (last :: before).reverse).isOk then .ok tree else .error fault
    match tree.createFolder before.reverse last with
    | .ok tree => .ok tree
    | .error .notFound => do
      let tree ← tree.createFoldersFrom before
      match tree.createFolder before.reverse last with
      | .ok tree => .ok tree
      | .error fault => exists? tree fault
    | .error fault => exists? tree fault

/-- Makes the folder that a path names and those on the way to it that are missing. -/
def createFolders (tree : Tree) (path : String) : Except FileFault Tree :=
  tree.createFoldersFrom (FilePath.components path).reverse

/-- The tree with a file that is known to be there, and the folders on the way to it. -/
def withFile (tree : Tree) (path : String) (contents : Contents) : Tree :=
  match tree.createFolders (FilePath.parent path) with
  | .error _ => tree
  | .ok tree => tree.insert ((FilePath.components path).foldl follow []) (.file contents)

/-- The text of components, without a point at the start. -/
def nameOf (components : List FilePath.Component) : String :=
  "/".intercalate (components.filterMap fun
    | .root => some ""
    | .here => none
    | .up => some ".."
    | .name name => some name)

/-- The files under a folder, with their names from the working folder on. -/
def filesUnder (tree : Tree) (path : String) : List (String × Contents) :=
  let components := FilePath.components path
  match tree.openFolder components with
  | .error _ => []
  | .ok location =>
    tree.entries.filterMap fun
      | (place, .file contents) =>
        if location.isPrefixOf place ∧ location ≠ place then
          some (nameOf (components ++ (place.drop location.length).map .name), contents)
        else none
      | _ => none

end Tree

end Variation
