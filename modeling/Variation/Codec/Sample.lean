import Variation.Codec.Record

/-!
# Two records

A group of machines as a cluster's configuration holds it, which may have further fields, and a
small record that refuses them.
-/

namespace Variation

/-- A group of machines that serve the same roles. -/
structure NodePool where
  name : String
  quantity : Int
  roles : List String
deriving DecidableEq

/-- A name with an optional size. -/
structure Strict where
  name : String
  size : Option Int
deriving DecidableEq

namespace Codec

/-- The form of a group of machines. -/
def nodePoolForm : RecordForm NodePool where
  name := "NodePool"
  strict := false
  blank := ⟨"", 0, []⟩
  fields :=
    [.of "name" true text.decode fun name pool => { pool with name },
     .of "quantity" true (unsigned 32).decode fun quantity pool => { pool with quantity },
     .of "roles" true (list text).decode fun roles pool => { pool with roles }]

/-- Groups of machines. -/
def nodePool : Codec NodePool where
  encode pool := do
    let name ← text.encode pool.name
    let quantity ← (unsigned 32).encode pool.quantity
    let roles ← (list text).encode pool.roles
    .ok (.ofPairs [("name", name), ("quantity", quantity), ("roles", roles)])
  decode := nodePoolForm.decode

/-- The form of a name with an optional size. -/
def strictForm : RecordForm Strict where
  name := "Strict"
  strict := true
  blank := ⟨"", none⟩
  fields :=
    [.of "name" true text.decode fun name record => { record with name },
     .of "size" false (optional (signed 16)).decode fun size record => { record with size }]

/-- Names with optional sizes. -/
def strict : Codec Strict where
  encode record := do
    let name ← text.encode record.name
    let size ← (optional (signed 16)).encode record.size
    .ok (.ofPairs [("name", name), ("size", size)])
  decode := strictForm.decode

end Codec

end Variation
