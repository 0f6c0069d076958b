/-!
# Tables

What a TOML text stands for is a table. Tables are put together entry by entry, and the format
forbids to say anything twice: a key has one value, a table has one header, and a table that dotted
keys or braces have made is not opened again by a header. `Item` remembers how a table came about so
that the functions here can refuse.
-/

namespace Variation.Toml

/-- A value of a key. Numbers with a fraction and times keep their spelling. -/
inductive Value where
  | text (text : String)
  | whole (number : Int)
  | real (spelling : String)
  | boolean (value : Bool)
  | time (spelling : String)
  | list (items : List Value)
  | table (entries : List (String × Value))

/-- How a table came about. -/
inductive Origin where
  /-- By a header of its own. -/
  | header
  /-- By the header of a table inside it. -/
  | implied
  /-- By a dotted key. -/
  | dotted
deriving DecidableEq

/-- What stands at a key while a table is put together. -/
inductive Item where
  | value (value : Value)
  | table (origin : Origin) (entries : List (String × Item))
  /-- Tables that share a header in double brackets, the last one first. -/
  | tables (last : List (String × Item)) (before : List (List (String × Item)))

/-- A table while it is put together. -/
abbrev Items := List (String × Item)

/-- Entries with another item at a key. -/
def put (key : String) (item : Item) : Items → Items
  | [] => [(key, item)]
  | (k, i) :: rest => if k = key then (key, item) :: rest else (k, i) :: put key item rest

/-- Changes the table that a header names, making the tables on the way to it; `none` where the
format forbids it. -/
def atHeader (change : Option Item → Option Item) : List String → Items → Option Items
  | [], _ => none
  | [key], items => (change (items.lookup key)).map fun item => put key item items
  | key :: rest, items =>
    match items.lookup key with
    | none => (atHeader change rest []).map fun inner => put key (.table .implied inner) items
    | some (.table origin inner) =>
      (atHeader change rest inner).map fun inner => put key (.table origin inner) items
    | some (.tables last before) =>
      (atHeader change rest last).map fun last => put key (.tables last before) items
    | some (.value _) => none

/-- Opens a table by its header. -/
def openTable (path : List String) (items : Items) : Option Items :=
  atHeader
    (fun
      | none => some (.table .header [])
      | some (.table .implied inner) => some (.table .header inner)
      | some _ => none)
    path items

/-- Opens one more of the tables that share a header. -/
def openElement (path : List String) (items : Items) : Option Items :=
  atHeader
    (fun
      | none => some (.tables [] [])
      | some (.tables last before) => some (.tables [] (last :: before))
      | some _ => none)
    path items

/-- Stores a value at a dotted key. No table on the way may have a header of its own. -/
def store (value : Value) : List String → Items → Option Items
  | [], _ => none
  | [key], items =>
    match items.lookup key with
    | none => some (put key (.value value) items)
    | some _ => none
  | key :: rest, items =>
    match items.lookup key with
    | none => (store value rest []).map fun inner => put key (.table .dotted inner) items
    | some (.table .header _) => none
    | some (.table origin inner) =>
      (store value rest inner).map fun inner => put key (.table origin inner) items
    | some _ => none

/-- Stores a value at a dotted key of the table that was opened last. -/
def storeIn (opened : List String) (key : List String) (value : Value) (items : Items) :
    Option Items :=
  if opened.isEmpty then store value key items
  else atHeader
    (fun
      | some (.table origin inner) => (store value key inner).map (.table origin)
      | some (.tables last before) => (store value key last).map (.tables · before)
      | _ => none)
    opened items

mutual
/-- The value that an item stands for. -/
def Item.toValue : Item → Value
  | .value value => value
  | .table _ entries => .table (entriesToValues entries)
  | .tables last before =>
    .list (elementsToValues before [.table (entriesToValues last)])

/-- The values of entries. -/
def entriesToValues : List (String × Item) → List (String × Value)
  | [] => []
  | (key, item) :: rest => (key, item.toValue) :: entriesToValues rest

/-- The tables that share a header, in front of those that come after them. -/
def elementsToValues : List (List (String × Item)) → List Value → List Value
  | [], after => after
  | entries :: before, after => elementsToValues before (.table (entriesToValues entries) :: after)
end

end Variation.Toml
