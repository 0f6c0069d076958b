import Variation.Codec.Basic
import Variation.Document.Lookup
import Variation.Path.Basic

/-!
# Reading a typed value at a path
-/

namespace Variation

/-- Why a document holds no value of a type at a path. -/
inductive LoadError where
  | access (error : AccessError)
  | mismatch (path : KeyPath) (reason : Codec.Mismatch)

/-- Why no value was read, in words. -/
def LoadError.message : LoadError → String
  | .access error => error.message
  | .mismatch path reason =>
    "serialization failed: decoding " ++ path.text ++ ": " ++ reason.message

/-- The value of a type that a document holds at a path. -/
def Document.load {α : Type} (document : Document) (path : KeyPath) (codec : Codec α) :
    Except LoadError α :=
  match document.get path with
  | .error error => .error (.access error)
  | .ok found =>
    match codec.decode found with
    | .error reason => .error (.mismatch path reason)
    | .ok value => .ok value

end Variation
