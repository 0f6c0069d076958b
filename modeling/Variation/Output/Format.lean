import Variation.Text.Blank
import Variation.Text.Quoted

/-!
# Output formats
-/

namespace Variation

/-- The formats that documents are written in. -/
inductive OutputFormat where
  | json
  | yaml
deriving DecidableEq

namespace OutputFormat

/-- The name of a format, which is also the extension of its files. -/
def name : OutputFormat → String
  | .json => "json"
  | .yaml => "yaml"

/-- The format that a name stands for. Blanks around the name and the case of its ASCII letters do
not matter; a name that stands for no format is returned without blanks and in lower case. -/
def parse (text : String) : Except String OutputFormat :=
  let name := (Text.trimmed text).map Char.toLower
  if name = "json" then .ok .json
  else if name = "yaml" ∨ name = "yml" then .ok .yaml
  else .error name

/-- What is said about a name that stands for no format. -/
def unknownMessage (name : String) : String :=
  "unknown output format " ++ Text.quote name ++ "; expected json or yaml"

end OutputFormat

end Variation
