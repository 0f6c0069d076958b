import Variation.Decimal.Binary64

/-!
# Documents

A document is a tree of scalars, sequences and mappings with text keys, which is what a
configuration file holds. Whole numbers and floating point numbers are different kinds of scalar, so
that `1` and `1.0` are different documents, and `Document.same` is the equality of documents: it is
equality of trees except that the two floating point zeros are equal.

A mapping keeps its entries in ascending order of their keys. `Entries.insert` and `Entries.lookup?`
walk the entries only as far as that order allows, and `lookup?_insert` says that they agree on any
list of entries, ordered or not.
-/

namespace Variation

open Decimal (Binary64)

/-- A whole number that a document can hold: it fits 64 bits, signed or unsigned. -/
structure Whole where
  value : Int
  lower : -2 ^ 63 ≤ value
  upper : value < 2 ^ 64
deriving DecidableEq

/-- The whole number with a value, if it fits. -/
def Whole.ofInt? (value : Int) : Option Whole :=
  if h : -2 ^ 63 ≤ value ∧ value < 2 ^ 64 then some ⟨value, h.1, h.2⟩ else none

/-- A word is a whole number. -/
def Whole.ofWord (word : UInt64) : Whole :=
  ⟨word.toNat, by omega, by have := word.toNat_lt; omega⟩

/-- A nested configuration value. -/
inductive Document where
  | null
  | boolean (value : Bool)
  | whole (number : Whole)
  | real (number : Binary64)
  | text (value : String)
  | sequence (items : List Document)
  | mapping (entries : List (String × Document))
deriving Inhabited

/-- The entries of a mapping, in ascending order of their keys. -/
abbrev Entries (α : Type) := List (String × α)

namespace Entries

variable {α : Type}

/-- The value stored at a key. Past a greater key nothing is looked for. -/
def lookup? (key : String) : Entries α → Option α
  | [] => none
  | (k, v) :: rest => if key = k then some v else if key < k then none else lookup? key rest

/-- The entries with a value stored at a key, in place of the value that was there. -/
def insert (key : String) (value : α) : Entries α → Entries α
  | [] => [(key, value)]
  | (k, v) :: rest =>
    if key = k then (key, value) :: rest
    else if key < k then (key, value) :: (k, v) :: rest
    else (k, v) :: insert key value rest

/-- The entries of a list of pairs in any order; the last value of a repeated key stays. -/
def ofPairs (pairs : List (String × α)) : Entries α :=
  pairs.foldl (fun entries pair => entries.insert pair.1 pair.2) []

/-- What is stored is found. -/
theorem lookup?_insert (key : String) (value : α) (entries : Entries α) :
    (insert key value entries).lookup? key = some value := by
  fun_induction insert key value entries <;> simp_all [lookup?]

/-- Storing at one key leaves what is found at another. -/
theorem lookup?_insert_of_ne {key other : String} (value : α) (entries : Entries α)
    (h : other ≠ key) : (insert key value entries).lookup? other = entries.lookup? other := by
  fun_induction insert key value entries with
  | case1 => simp [lookup?, h]
  | case2 v rest => simp [lookup?, h]
  | case3 k v rest hne hlt =>
    by_cases ho : other < key
    · have : other < k := String.lt_trans ho hlt
      have hk : other ≠ k := fun e => by subst e; exact String.lt_irrefl _ this
      simp [lookup?, h, ho, hk, this]
    · simp [lookup?, h, ho]
  | case4 k v rest hne hlt ih => simp only [lookup?, ih]

/-- A second value stored at a key replaces the first. -/
theorem insert_insert (key : String) (first second : α) (entries : Entries α) :
    insert key second (insert key first entries) = insert key second entries := by
  fun_induction insert key first entries <;> grind [insert]

/-- Values stored at two keys may be stored in either order. -/
theorem insert_comm {key other : String} (value value' : α) (entries : Entries α)
    (h : key ≠ other) :
    insert other value' (insert key value entries)
      = insert key value (insert other value' entries) := by
  have total : key < other ∨ other < key := by
    by_cases hlt : key < other
    · exact .inl hlt
    · exact .inr (String.not_le.mp fun hle => h (String.le_antisymm hle (String.not_lt.mp hlt)))
  induction entries with
  | nil => grind [insert, String.lt_asymm]
  | cons entry rest ih =>
    obtain ⟨k, v⟩ := entry
    grind [insert, String.lt_asymm, String.lt_trans]

/-- Storing what is found changes nothing. -/
theorem insert_of_lookup? {key : String} {value : α} {entries : Entries α}
    (h : entries.lookup? key = some value) : insert key value entries = entries := by
  fun_induction lookup? key entries <;> simp_all [insert]

end Entries

/-- The six shapes of a document. Both kinds of number have the same shape. -/
inductive Shape where
  | null
  | boolean
  | number
  | string
  | sequence
  | mapping
deriving DecidableEq

/-- The name of a shape in messages. -/
def Shape.name : Shape → String
  | .null => "null"
  | .boolean => "boolean"
  | .number => "number"
  | .string => "string"
  | .sequence => "sequence"
  | .mapping => "mapping"

namespace Document

/-- The shape of a document. -/
def shape : Document → Shape
  | .null => .null
  | .boolean _ => .boolean
  | .whole _ => .number
  | .real _ => .number
  | .text _ => .string
  | .sequence _ => .sequence
  | .mapping _ => .mapping

mutual
/-- Equality of documents. -/
def same : Document → Document → Bool
  | .null, .null => true
  | .boolean a, .boolean b => a == b
  | .whole a, .whole b => a == b
  | .real a, .real b => a.same b
  | .text a, .text b => a == b
  | .sequence a, .sequence b => sameItems a b
  | .mapping a, .mapping b => sameEntries a b
  | _, _ => false

/-- Equality of sequences: as long as each other and equal at every position. -/
def sameItems : List Document → List Document → Bool
  | [], [] => true
  | a :: as, b :: bs => a.same b && sameItems as bs
  | _, _ => false

/-- Equality of mappings: the same keys with equal values. -/
def sameEntries : List (String × Document) → List (String × Document) → Bool
  | [], [] => true
  | (k, a) :: as, (l, b) :: bs => k == l && a.same b && sameEntries as bs
  | _, _ => false
end

/-- The whole number with a value, if it fits. -/
def ofInt? (value : Int) : Option Document :=
  (Whole.ofInt? value).map .whole

/-- The mapping of a list of pairs in any order; the last value of a repeated key stays. -/
def ofPairs (pairs : List (String × Document)) : Document :=
  .mapping (Entries.ofPairs pairs)

end Document

end Variation
