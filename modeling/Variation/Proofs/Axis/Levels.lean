import Variation.Proofs.Axis.Count

/-!
# Levels of an expansion

`permute` refuses an empty list of axes once, at the outermost level; below, having no axes means that
there is nothing left to vary. One may just as well let every level be an expansion of its own, which
refuses to work without axes, and ask before each of them whether there are any. `permuteByLevel` and
`countByLevel` do that. A level that is asked for always has axes, so that nothing changes
(`permuteByLevel_eq`, `countByLevel_eq`): the refusal of an empty list never comes from below.
-/

namespace Variation

/-! ## Expansion -/

mutual
/-- The documents that axes make, if there are axes. -/
def permuteByLevel : List Axis → Document → Except ExpansionError (List Document)
  | [], _ => .error .noAxes
  | axis :: rest, base =>
    (branchesByLevel axis base).bind fun branches =>
      if rest.isEmpty then .ok branches
      else concatEach (fun branch => permuteByLevel rest branch) branches

def branchesByLevel : Axis → Document → Except ExpansionError (List Document)
  | ⟨path, candidates, relationships⟩, base =>
    concatEach
      (fun chosen => ((base.replace path chosen).done.mapError .access).bind fun branch =>
        followByLevel relationships chosen branch)
      candidates

def followByLevel :
    List Relationship → Document → Document → Except ExpansionError (List Document)
  | [], _, document => .ok [document]
  | relationship :: rest, chosen, document =>
    (followOneByLevel relationship chosen document).bind fun branches =>
      concatEach (fun branch => followByLevel rest chosen branch) branches

def followOneByLevel : Relationship → Document → Document → Except ExpansionError (List Document)
  | ⟨parent, assignment, children⟩, chosen, document =>
    if parent.same chosen then
      ((document.assigned assignment).mapError .access).bind fun branch =>
        if children.isEmpty then .ok [branch] else permuteByLevel children branch
    else .ok [document]
end

section MapError

variable {α β ε ε' : Type} {f : ε → ε'}

theorem mapError_bind (step : Except ε α) (next : α → Except ε β) :
    (step.bind next).mapError f = (step.mapError f).bind fun value => (next value).mapError f := by
  cases step <;> rfl

/-- To rename the error of a run over elements is to rename that of each step. -/
theorem mapError_concatEach (step : α → Except ε (List β)) (items : List α) :
    (concatEach step items).mapError f = concatEach (fun item => (step item).mapError f) items := by
  induction items with
  | nil => rfl
  | cons item rest ih =>
    rw [concatEach_cons, concatEach_cons, mapError_bind]
    congr 1
    funext parts
    rw [mapError_bind, ih]
    rfl

end MapError

mutual
/-- Where there are axes, a level is what they expand to. A level below is asked for only if there
are axes for it. -/
theorem permuteByLevel_of_ne_nil : ∀ (axes : List Axis) (base : Document), axes ≠ [] →
    permuteByLevel axes base = (expandAxes axes base).mapError .access
  | [], _, nonempty => absurd rfl nonempty
  | axis :: rest, base, _ => by
    rw [permuteByLevel, expandAxes_cons, mapError_bind, branchesByLevel_eq axis base]
    congr 1
    funext branches
    cases rest with
    | nil =>
      -- Behind the last axis the expansion goes on, and makes one document of each branch.
      have hnil : expandAxes [] = fun document => .ok [document] := rfl
      rw [hnil, concatEach_ok_singleton]
      rfl
    | cons next more =>
      rw [mapError_concatEach]
      simp only [permuteByLevel_of_ne_nil (next :: more) _ (List.cons_ne_nil _ _)]
      rfl

theorem branchesByLevel_eq : ∀ (axis : Axis) (base : Document),
    branchesByLevel axis base = (expandAxis axis base).mapError .access
  | ⟨path, candidates, relationships⟩, base => by
    rw [branchesByLevel, expandAxis_mk, mapError_concatEach]
    simp only [mapError_bind, followByLevel_eq relationships]

theorem followByLevel_eq : ∀ (relationships : List Relationship) (chosen document : Document),
    followByLevel relationships chosen document
      = (expandRelationships relationships chosen document).mapError .access
  | [], _, _ => rfl
  | relationship :: rest, chosen, document => by
    rw [followByLevel, expandRelationships_cons, mapError_bind, followOneByLevel_eq relationship]
    simp only [mapError_concatEach, followByLevel_eq rest]

/-- A relationship without child axes asks for no level below. -/
theorem followOneByLevel_eq : ∀ (relationship : Relationship) (chosen document : Document),
    followOneByLevel relationship chosen document
      = (expandRelationship relationship chosen document).mapError .access
  | ⟨parent, assignment, children⟩, chosen, document => by
    rw [followOneByLevel, expandRelationship_mk]
    split
    · rw [mapError_bind]
      congr 1
      funext branch
      cases children with
      | nil => rfl
      | cons axis rest => exact permuteByLevel_of_ne_nil _ branch (List.cons_ne_nil _ _)
    · rfl
end

/-- **No level is without axes.** -/
theorem permuteByLevel_eq (axes : List Axis) (base : Document) :
    permuteByLevel axes base = permute axes base := by
  cases axes with
  | nil => rfl
  | cons axis rest =>
    rw [permuteByLevel_of_ne_nil _ _ (List.cons_ne_nil _ _), permute]
    cases expandAxes (axis :: rest) base <;> rfl

/-! ## Count -/

/-- A number that the counter may not hold. -/
def orOverflow : Option Nat → Except ExpansionError Nat
  | none => .error .countOverflow
  | some n => .ok n

/-- The sum of what `f` says of every element, added to `total`, as long as it fits. -/
def sumByLevel {α : Type} (f : α → Except ExpansionError Nat) (total : Nat) :
    List α → Except ExpansionError Nat
  | [] => .ok total
  | item :: rest =>
    (f item).bind fun n => (orOverflow (fits? (total + n))).bind fun total => sumByLevel f total rest

mutual
/-- The number of documents that axes make, if there are axes. -/
def countByLevel : List Axis → Except ExpansionError Nat
  | [] => .error .noAxes
  | axis :: rest =>
    (branchCountByLevel axis).bind fun total =>
      if rest.isEmpty ∨ total = 0 then .ok total
      else (countByLevel rest).bind fun tail => orOverflow (fits? (total * tail))

def branchCountByLevel : Axis → Except ExpansionError Nat
  | ⟨_, candidates, relationships⟩ =>
    sumByLevel (fun chosen => factorByLevel relationships chosen 1) 0 candidates

/-- Relationships without child axes are passed over. -/
def factorByLevel : List Relationship → Document → Nat → Except ExpansionError Nat
  | [], _, product => .ok product
  | ⟨parent, _, children⟩ :: rest, chosen, product =>
    if parent.same chosen ∧ ¬ children.isEmpty then
      (countByLevel children).bind fun n =>
        (orOverflow (fits? (product * n))).bind fun product => factorByLevel rest chosen product
    else factorByLevel rest chosen product
end

theorem orOverflow_bind (step : Option Nat) (next : Nat → Option Nat) :
    orOverflow (step.bind next) = (orOverflow step).bind fun n => orOverflow (next n) := by
  cases step <;> rfl

/-- Both sums overflow at the same element. -/
theorem sumByLevel_eq {α : Type} (f : α → Option Nat) (items : List α) (total : Nat) :
    sumByLevel (fun item => orOverflow (f item)) total items = orOverflow (sumEach f total items) := by
  induction items generalizing total with
  | nil => rfl
  | cons item rest ih =>
    rw [sumByLevel, sumEach_cons, orOverflow_bind]
    simp only [orOverflow_bind, ih]

theorem fits?_mul_one {n : Nat} (fit : n < 2 ^ 64) : fits? (n * 1) = some n :=
  fits?_eq_some.mpr ⟨Nat.mul_one n, fit⟩

mutual
/-- Where there are axes, a level is counted as they are. The counter multiplies by one behind the
last axis, which the level does not; the product fits since its other factor does. -/
theorem countByLevel_of_ne_nil : ∀ axes : List Axis, axes ≠ [] →
    countByLevel axes = orOverflow (countAxes axes)
  | [], nonempty => absurd rfl nonempty
  | axis :: rest, _ => by
    rw [countByLevel, countAxes_cons, orOverflow_bind, branchCountByLevel_eq axis]
    cases htotal : countAxis axis with
    | none => rfl
    | some total =>
      have fit : total < 2 ^ 64 := (countAxis_exact axis htotal).2
      show (if rest.isEmpty ∨ total = 0 then .ok total else _)
        = orOverflow (if total = 0 then some 0 else _)
      by_cases zero : total = 0
      · rw [if_pos (.inr zero), if_pos zero, zero]
        rfl
      · rw [if_neg zero]
        cases rest with
        | nil =>
          rw [if_pos (.inl rfl), countAxes, Option.bind_some, fits?_mul_one fit]
          rfl
        | cons next more =>
          rw [if_neg (by simp [zero]), orOverflow_bind,
            countByLevel_of_ne_nil _ (List.cons_ne_nil _ _)]

theorem branchCountByLevel_eq : ∀ axis : Axis,
    branchCountByLevel axis = orOverflow (countAxis axis)
  | ⟨_, candidates, relationships⟩ => by
    rw [branchCountByLevel, countAxis, ← sumByLevel_eq]
    congr 1
    funext chosen
    exact factorByLevel_eq relationships chosen (by decide)

/-- Likewise for a relationship without child axes: the counter multiplies by one, and the level
passes over it. -/
theorem factorByLevel_eq : ∀ (relationships : List Relationship) (chosen : Document)
    {product : Nat}, product < 2 ^ 64 → factorByLevel relationships chosen product
      = orOverflow (countRelationships relationships chosen product)
  | [], _, _, _ => rfl
  | ⟨parent, assignment, children⟩ :: rest, chosen, product, fit => by
    rw [factorByLevel]
    by_cases holds : parent.same chosen = true
    · rw [countRelationships_of_holds holds]
      cases children with
      | nil =>
        rw [if_neg (by simp), countAxes, Option.bind_some, fits?_mul_one fit, Option.bind_some]
        exact factorByLevel_eq rest chosen fit
      | cons axis more =>
        rw [if_pos (by simp [holds]), countByLevel_of_ne_nil _ (List.cons_ne_nil _ _),
          orOverflow_bind]
        congr 1
        funext n
        rw [orOverflow_bind]
        cases hgrown : fits? (product * n) with
        | none => rfl
        | some grown => exact factorByLevel_eq rest chosen (fits?_eq_some.mp hgrown).2
    · rw [if_neg (by simp [holds]), countRelationships_of_fails holds]
      exact factorByLevel_eq rest chosen fit
end

/-- **No level that is counted is without axes.** -/
theorem countByLevel_eq (axes : List Axis) : countByLevel axes = expectedCount axes := by
  cases axes with
  | nil => rfl
  | cons axis rest =>
    rw [countByLevel_of_ne_nil _ (List.cons_ne_nil _ _), expectedCount]
    cases countAxes (axis :: rest) <;> rfl

end Variation
