import Variation.Axis.Basic

/-!
# Counting without expanding

The number of documents that a list of axes makes does not depend on the base document: the numbers
of the axes multiply, the candidates of an axis add up, and a candidate counts once for every
combination of the branches of its relationships.

`expectedCount` computes it with a counter of 64 bits. A sum or a product that outgrows the counter
is an error, even where a factor that is looked at later would have been zero; an axis without
branches ends the count before the axes behind it are looked at.
-/

namespace Variation

/-- A number that fits the counter. -/
def fits? (n : Nat) : Option Nat :=
  if n < 2 ^ 64 then some n else none

/-- The sum of what `f` says of every element, added to `total`, as long as it fits. -/
def sumEach {α : Type} (f : α → Option Nat) (total : Nat) : List α → Option Nat
  | [] => some total
  | item :: rest =>
    match f item with
    | none => none
    | some n =>
      match fits? (total + n) with
      | none => none
      | some total => sumEach f total rest

mutual
/-- The number of documents that axes make of one document. -/
def countAxes : List Axis → Option Nat
  | [] => some 1
  | axis :: rest =>
    match countAxis axis with
    | none => none
    | some 0 => some 0
    | some total =>
      match countAxes rest with
      | none => none
      | some tail => fits? (total * tail)

/-- The number of branches of one axis. -/
def countAxis : Axis → Option Nat
  | ⟨_, candidates, relationships⟩ =>
    sumEach (fun chosen => countRelationships relationships chosen 1) 0 candidates

/-- The number of branches that relationships make of `product` branches. -/
def countRelationships : List Relationship → Document → Nat → Option Nat
  | [], _, product => some product
  | ⟨parent, _, children⟩ :: rest, chosen, product =>
    if parent.same chosen then
      match countAxes children with
      | none => none
      | some n =>
        match fits? (product * n) with
        | none => none
        | some product => countRelationships rest chosen product
    else countRelationships rest chosen product
end

/-- The number of documents that `permute` makes, computed without making them. -/
def expectedCount (axes : List Axis) : Except ExpansionError Nat :=
  if axes.isEmpty then .error .noAxes
  else match countAxes axes with
    | none => .error .countOverflow
    | some n => .ok n

end Variation
