import Variation.Matrix.Resolution
import Variation.Output.Format
import Variation.Text.Blank

/-!
# Settings

The settings of a run, as they were given. They are checked where they are needed: the path of a
file only by a command that reads it, and so on. A path is taken without the blanks around it, and
one that is all blank counts as not given.
-/

namespace Variation

/-- The settings that name a file. -/
inductive PathSetting where
  | base
  | matrix
deriving DecidableEq

namespace PathSetting

/-- What a path is for. -/
def description : PathSetting → String
  | .base => "base document path"
  | .matrix => "matrix file path"

/-- The flag that gives a path. -/
def flag : PathSetting → String
  | .base => "--base"
  | .matrix => "--matrix"

/-- The key of a path in a settings file. -/
def key : PathSetting → String
  | .base => "base_document"
  | .matrix => "matrix_file"

/-- The environment variable that gives a path. -/
def environmentName : PathSetting → String
  | .base => "CONFMATRIX_BASE_DOCUMENT"
  | .matrix => "CONFMATRIX_MATRIX_FILE"

end PathSetting

/-- What is wrong with settings. -/
inductive SettingsError where
  | missingPath (setting : PathSetting)
  | unknownFormat (name : String)
  | zeroLimit
  /-- A settings file or an environment variable cannot be read. -/
  | unreadable
deriving DecidableEq

/-- What is wrong with settings, in words. -/
def SettingsError.message : SettingsError → String
  | .missingPath setting =>
    "missing configuration field: missing " ++ setting.description ++ ": pass " ++ setting.flag
      ++ ", set " ++ setting.environmentName ++ ", or add " ++ setting.key ++ " to confmatrix.toml"
  | .unknownFormat name => "invalid output_format: " ++ OutputFormat.unknownMessage name
  | .zeroLimit =>
    "invalid max_documents: must be greater than zero (CONFMATRIX_MAX_DOCUMENTS or --max-documents)"
  | .unreadable => "configuration parsing failed: a source has a malformed or unfitting value"

/-- The settings of a run. -/
structure Settings where
  baseDocument : Option String
  matrixFile : Option String
  maxDocuments : Nat
  outputFormat : String
deriving DecidableEq

namespace Settings

/-- The settings of a run for which nothing was set. -/
def default : Settings := ⟨none, none, Matrix.defaultLimit, "json"⟩

/-- A path that has to be given. -/
def requirePath (setting : PathSetting) (given : Option String) : Except SettingsError String :=
  match given.map Text.trimmed with
  | none => .error (.missingPath setting)
  | some path => if path.isEmpty then .error (.missingPath setting) else .ok path

/-- The path of the base document. -/
def basePath (s : Settings) : Except SettingsError String :=
  requirePath .base s.baseDocument

/-- The path of the matrix file. -/
def matrixPath (s : Settings) : Except SettingsError String :=
  requirePath .matrix s.matrixFile

/-- The format of the output. -/
def format (s : Settings) : Except SettingsError OutputFormat :=
  match OutputFormat.parse s.outputFormat with
  | .error name => .error (.unknownFormat name)
  | .ok format => .ok format

/-- The largest number of documents. -/
def limit (s : Settings) : Except SettingsError Nat :=
  if s.maxDocuments = 0 then .error .zeroLimit else .ok s.maxDocuments

/-- Checks what every expansion needs. -/
def validate (s : Settings) : Except SettingsError Unit :=
  match s.format with
  | .error e => .error e
  | .ok _ =>
    match s.limit with
    | .error e => .error e
    | .ok _ => .ok ()

end Settings

end Variation
