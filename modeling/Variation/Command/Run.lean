import Variation.Command.Arguments
import Variation.Path.Reading
import Variation.Settings.Source

/-!
# Running a command

A command is run on the settings and the files around it. What it leaves is the text that it prints,
or the error that stopped it, and the files afterwards. Nothing is printed by a command that fails.
-/

namespace Variation

/-- Why a command fails. -/
inductive CommandError where
  | settings (error : SettingsError)
  | source (error : SourceError)
  | matrix (error : MatrixError)
  | path (error : PathError)
  | access (error : AccessError)

/-- Why a command fails, in words. -/
def CommandError.message : CommandError → String
  | .settings error => "configuration error: " ++ error.message
  | .source error => error.message
  | .matrix error => error.message
  | .path error => error.message
  | .access error => error.message

namespace Settings

/-- Settings with the values that a command line gives in place of their own. -/
def override (s : Settings) (base matrix format : Option String) (limit : Option Nat) : Settings where
  baseDocument := base.or s.baseDocument
  matrixFile := matrix.or s.matrixFile
  maxDocuments := limit.getD s.maxDocuments
  outputFormat := format.getD s.outputFormat

/-- The base document and the matrix that settings name. -/
def loadMatrix (s : Settings) (tree : Tree) : Except CommandError (Document × Matrix) := do
  let basePath ← s.basePath.mapError .settings
  let matrixPath ← s.matrixPath.mapError .settings
  let base ← (readDocument tree basePath).mapError .source
  let file ← (readDocument tree matrixPath).mapError .source
  let matrix ← (Matrix.ofDocument file base).mapError .matrix
  .ok (base, matrix)

/-- The documents that settings ask for, and their format. -/
def expandDocuments (s : Settings) (tree : Tree) :
    Except CommandError (List Document × OutputFormat) := do
  s.validate.mapError .settings
  let (base, matrix) ← s.loadMatrix tree
  let limit ← s.limit.mapError .settings
  let documents ← (matrix.expand base limit).mapError .matrix
  let format ← s.format.mapError .settings
  .ok (documents, format)

end Settings

/-- What a command leaves. -/
structure CommandResult where
  tree : Tree
  /-- What is printed, or why the command failed. -/
  output : Except CommandError String

/-- A text with the end of its line. -/
def line (s : String) : String := s ++ "\n"

namespace Command

/-- Makes the documents of a matrix, and prints them or writes them to the files of a folder. -/
def runExpand (s : Settings) (tree : Tree) (folder : Option String) : CommandResult :=
  match s.expandDocuments tree with
  | .error error => ⟨tree, .error error⟩
  | .ok (documents, format) =>
    match folder with
    | none => ⟨tree, .ok (format.renderStream documents)⟩
    | some folder =>
      let write := writeDocuments tree folder documents format
      match write.result with
      | .error error => ⟨write.tree, .error (.source error)⟩
      | .ok paths => ⟨write.tree, .ok (String.join (paths.map line))⟩

/-- Counts the documents of a matrix. -/
def runCount (s : Settings) (tree : Tree) : Except CommandError String := do
  let (_, matrix) ← s.loadMatrix tree
  let n ← matrix.count.mapError .matrix
  .ok (line (String.ofList (Nat.toDigits 10 n)))

/-- Shows one value of the base document. -/
def runGet (s : Settings) (tree : Tree) (path : String) : Except CommandError String := do
  let path ← (KeyPath.parse path).mapError .path
  let basePath ← s.basePath.mapError .settings
  let base ← (readDocument tree basePath).mapError .source
  let value ← (base.get path).mapError .access
  let format ← s.format.mapError .settings
  .ok (format.renderDocument value)

/-- Runs a command on settings. -/
def runWith (s : Settings) (tree : Tree) : Command → CommandResult
  | .expand base matrix format limit folder =>
    runExpand (s.override base matrix format limit) tree folder
  | .count base matrix => ⟨tree, runCount (s.override base matrix none none) tree⟩
  | .get base format path => ⟨tree, runGet (s.override base none format none) tree path⟩

/-- Runs a command, the settings being loaded first. -/
def run (command : Command) (environment : Environment) (tree : Tree) : CommandResult :=
  match Settings.load tree environment with
  | .error error => ⟨tree, .error (.settings error)⟩
  | .ok settings => command.runWith settings tree

end Command

/-- How a run ends, as the caller sees it. -/
structure Outcome where
  code : Nat
  output : String
  errors : String
  tree : Tree

/-- What is said to a caller whose arguments are not well formed. -/
def usage : String :=
  "Usage: confmatrix expand [--base PATH] [--matrix PATH] [--format FORMAT]"
    ++ " [--max-documents N] [--output-dir DIR]\n"
    ++ "       confmatrix count [--base PATH] [--matrix PATH]\n"
    ++ "       confmatrix get [--base PATH] [--format FORMAT] KEY_PATH\n"

/-- Runs the command that arguments stand for. -/
def runArguments (arguments : List String) (environment : Environment) (tree : Tree) : Outcome :=
  match Command.ofArguments? arguments with
  | none => ⟨2, "", usage, tree⟩
  | some command =>
    match command.run environment tree with
    | ⟨tree, .ok output⟩ => ⟨0, output, "", tree⟩
    | ⟨tree, .error error⟩ => ⟨1, "", line error.message, tree⟩

end Variation
