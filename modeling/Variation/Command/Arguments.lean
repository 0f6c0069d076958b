import Variation.Decimal.Power
import Variation.Text.Numeral

/-!
# Command lines

A command line names a command and gives options, each at most once and each with a value: in the
argument behind it, or behind a sign in the same argument. An argument that starts with a dash is an
option unless it is the dash alone, or stands behind two dashes alone.
-/

namespace Variation

/-- The commands, with what their arguments give. -/
inductive Command where
  /-- Makes the documents of a matrix. -/
  | expand (base matrix format : Option String) (limit : Option Nat) (folder : Option String)
  /-- Counts the documents of a matrix. -/
  | count (base matrix : Option String)
  /-- Shows one value of the base document. -/
  | get (base format : Option String) (path : String)
deriving DecidableEq

namespace Command

/-- The arguments of a command, sorted out. -/
structure Arguments where
  options : List (String × String)
  operands : List String

/-- The arguments with an option, unless it is unknown or given already. -/
def Arguments.withOption (known : List String) (name value : String) (arguments : Arguments) :
    Option Arguments :=
  if known.contains name && (arguments.options.lookup name).isNone then
    some { arguments with options := (name, value) :: arguments.options }
  else none

/-- Whether an argument is an option, or none that is known. -/
def isDashed (argument : String) : Bool :=
  argument ≠ "-" && argument.toList.head? == some '-'

/-- Sorts arguments out; `none` where they do not fit the options that are known. -/
def sortOut? (known : List String) (sorted : Arguments) : List String → Option Arguments
  | [] => some sorted
  | "--" :: rest => some { sorted with operands := sorted.operands ++ rest }
  | argument :: rest =>
    if !isDashed argument then
      sortOut? known { sorted with operands := sorted.operands ++ [argument] } rest
    else
      let name := argument.toList.takeWhile (· ≠ '=')
      match argument.toList.drop name.length with
      | _ :: value => do
        sortOut? known (← sorted.withOption known (String.ofList name) (String.ofList value)) rest
      | [] =>
        match rest with
        | [] => none
        | value :: rest =>
          if isDashed value then none
          else do sortOut? known (← sorted.withOption known argument value) rest

/-- The number that the value of an option spells, if it fits 64 bits. -/
def readLimit? (value : String) : Option Nat := do
  let n ← Text.Numeral.natural? 10 value.toList
  if n < 2 ^ 64 then some n else none

/-- The command that arguments stand for, if they are well formed. -/
def ofArguments? : List String → Option Command
  | "expand" :: rest => do
    let known := ["--base", "--matrix", "--format", "--max-documents", "--output-dir"]
    let ⟨options, operands⟩ ← sortOut? known ⟨[], []⟩ rest
    let limit ←
      match options.lookup "--max-documents" with
      | none => some none
      | some value => (readLimit? value).map some
    if operands.isEmpty then
      some (.expand (options.lookup "--base") (options.lookup "--matrix")
        (options.lookup "--format") limit (options.lookup "--output-dir"))
    else none
  | "count" :: rest => do
    let ⟨options, operands⟩ ← sortOut? ["--base", "--matrix"] ⟨[], []⟩ rest
    if operands.isEmpty then
      some (.count (options.lookup "--base") (options.lookup "--matrix"))
    else none
  | "get" :: rest => do
    match ← sortOut? ["--base", "--format"] ⟨[], []⟩ rest with
    | ⟨options, [path]⟩ => some (.get (options.lookup "--base") (options.lookup "--format") path)
    | _ => none
  | _ => none

end Command

end Variation
