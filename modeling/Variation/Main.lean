import Variation.Command.Run

/-!
# The program

The outer layer: it looks up the environment and the files that a run asks for, runs the command on
them, and writes back what the command made of the files. All decisions are in `Command.Run`.
-/

namespace Variation

/-- A path and the folders on the way to it, outermost first. -/
def ancestors : Nat → String → List String
  | 0, _ => []
  | steps + 1, path => if path.isEmpty then [] else ancestors steps (FilePath.parent path) ++ [path]

/-- Whether a folder is at a path. -/
def isFolderAt (path : String) : IO Bool := do
  try
    (← IO.FS.realPath path).isDir
  catch _ => return false

/-- The files known so far, and what is at a path. -/
def lookAt (tree : Tree) (path : String) : IO Tree := do
  if ← isFolderAt path then
    return (tree.createFolders path).toOption.getD tree
  try
    let bytes ← IO.FS.readBinFile path
    return tree.withFile path (.ofBytes bytes)
  catch _ => return tree

/-- The files known so far, and what is on the way to paths and at them. -/
def lookAtAll (tree : Tree) (paths : List String) : IO Tree :=
  paths.foldlM
    (fun tree path => (ancestors (path.length + 1) path).foldlM lookAt tree) tree

/-- The environment variables that settings depend on. -/
def readEnvironment : IO Environment := do
  let names := ["HOME", "CONFMATRIX_CONFIG_PATH", "CONFMATRIX_BASE_DOCUMENT",
    "CONFMATRIX_MATRIX_FILE", "CONFMATRIX_MAX_DOCUMENTS", "CONFMATRIX_OUTPUT_FORMAT"]
  let values ← names.mapM fun name => return (name, ← IO.getEnv name)
  return values.filterMap fun (name, value?) => value?.map fun value => (name, value)

/-- The paths that a command looks at once its settings are known. -/
def pathsOf (command : Command) (settings : Settings) : List String :=
  let (base, matrix, folder) := match command with
    | .expand base matrix _ _ folder => (base, matrix, folder)
    | .count base matrix => (base, matrix, none)
    | .get base _ _ => (base, none, none)
  let settings := settings.override base matrix none none
  settings.basePath.toOption.toList ++ settings.matrixPath.toOption.toList ++ folder.toList

/-- The path of a location. -/
def pathOf (location : Location) : String :=
  match location with
  | "/" :: names => "/" ++ "/".intercalate names
  | names => "/".intercalate names

/-- Writes the entries of a tree that differ from those of an earlier one, folders first. -/
def writeBack (before after : Tree) : IO Unit := do
  let changed := after.entries.filter fun (location, entry) => before.find? location ≠ some entry
  for (location, entry) in changed do
    if entry = .folder then IO.FS.createDirAll (pathOf location)
  for (location, entry) in changed do
    if let .file (.text text) := entry then IO.FS.writeFile (pathOf location) text

/-- The files that a run depends on. -/
def gather (arguments : List String) (environment : Environment) : IO Tree := do
  let tree ← lookAtAll .empty (Settings.candidatePaths environment)
  match Command.ofArguments? arguments, Settings.load tree environment with
  | some command, .ok settings => lookAtAll tree (pathsOf command settings)
  | _, _ => return tree

/-- Runs the program on its arguments; the result is the exit code. -/
def runProgram (arguments : List String) : IO UInt32 := do
  let environment ← readEnvironment
  let tree ← gather arguments environment
  let outcome := runArguments arguments environment tree
  try
    writeBack tree outcome.tree
  catch error =>
    (← IO.getStderr).putStrLn ("failed to write output: " ++ toString error)
    return 1
  (← IO.getStdout).putStr outcome.output
  (← IO.getStderr).putStr outcome.errors
  return outcome.code.toUInt32

end Variation

/-- The entry point. -/
def main (arguments : List String) : IO UInt32 :=
  Variation.runProgram arguments
