import Variation.Files.Source
import Variation.Settings.Basic
import Variation.Settings.Variable
import Variation.Toml.Reader

/-!
# Where settings come from

A setting has the value of its environment variable, else that of the settings file, else its
default. The settings file is the first of three that is there and can be read: the one that a
variable names, one in the home folder, one in the working folder. A file that cannot be read is an
error only if no other can.
-/

namespace Variation

/-- The environment variables of a run. -/
abbrev Environment := List (String × String)

namespace Settings

/-- The paths of settings files, in the order in which they are tried. -/
def candidatePaths (environment : Environment) : List String :=
  (environment.lookup "CONFMATRIX_CONFIG_PATH").toList
    ++ (environment.lookup "HOME").toList.map (FilePath.join · ".confmatrix.toml")
    ++ ["confmatrix.toml"]

/-- What trying to read a settings file comes to. -/
inductive Attempt where
  | absent
  | failed
  | read (entries : List (String × Toml.Value))

/-- Tries to read a settings file. -/
def attempt (tree : Tree) (path : String) : Attempt :=
  match readFile tree path with
  | .error (.access _ .notFound) => .absent
  | .error (.access _ .notFolder) => .absent
  | .error (.noFileName _) => .absent
  | .error _ => .failed
  | .ok text =>
    match Toml.parse? text with
    | none => .failed
    | some entries => .read entries

/-- The entries of the first settings file that can be read; `failed` says whether one before could
not. -/
def firstReadable (tree : Tree) (failed : Bool) :
    List String → Except SettingsError (List (String × Toml.Value))
  | [] => if failed then .error .unreadable else .ok []
  | path :: rest =>
    match attempt tree path with
    | .absent => firstReadable tree failed rest
    | .failed => firstReadable tree true rest
    | .read entries => .ok entries

/-- What a value of a settings file sets a setting to. -/
def ofToml : Toml.Value → RawValue
  | .text s => .text s
  | .whole n => .number n
  | _ => .other

/-- What a setting is set to, if anything. -/
def given (environment : Environment) (entries : List (String × Toml.Value)) (name key : String) :
    Option RawValue :=
  match environment.lookup name with
  | some text => some (Variable.value text)
  | none => (entries.lookup key).map ofToml

/-- A setting that is a text. -/
def givenText : Option RawValue → Except SettingsError (Option String)
  | none => .ok none
  | some (.text s) => .ok (some s)
  | some _ => .error .unreadable

/-- A setting that is a whole number of 64 bits. -/
def givenNumber : Option RawValue → Except SettingsError (Option Nat)
  | none => .ok none
  | some (.number n) =>
    if 0 ≤ n ∧ n < 2 ^ 64 then .ok (some n.toNat) else .error .unreadable
  | some _ => .error .unreadable

/-- The settings of a run. -/
def load (tree : Tree) (environment : Environment) : Except SettingsError Settings := do
  let entries ← firstReadable tree false (candidatePaths environment)
  let given := given environment entries
  let base ← givenText (given PathSetting.base.environmentName PathSetting.base.key)
  let matrix ← givenText (given PathSetting.matrix.environmentName PathSetting.matrix.key)
  let limit ← givenNumber (given "CONFMATRIX_MAX_DOCUMENTS" "max_documents")
  let format ← givenText (given "CONFMATRIX_OUTPUT_FORMAT" "output_format")
  .ok
    { baseDocument := base
      matrixFile := matrix
      maxDocuments := limit.getD default.maxDocuments
      outputFormat := format.getD default.outputFormat }

end Settings

end Variation
