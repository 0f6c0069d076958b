import Mathlib
import Variation.Axis.Count
import Variation.Proofs.Axis.Expansion

/-!
# The counter is exact

`exactCount` is the number of documents that axes make, with no bound on it: a sum over the
candidates of an axis, a product over the relationships that hold for a candidate, a product over the
axes. The expansion makes this many documents (`length_expandAxes`) and the counter, where it gives a
number at all, gives this one (`countAxes_exact`). Neither recursion looks at the other.

The counter stops at an axis without branches and skips relationships without children; that such a
step leaves the product what it is needs no argument once both sides speak of the same number.
-/

namespace Variation

/-! ## The exact number -/

mutual
/-- The number of documents that axes make of one document. -/
def exactCount : List Axis → Nat
  | [] => 1
  | axis :: rest => axis.branchCount * exactCount rest

/-- The number of branches that one axis makes of a document. -/
def Axis.branchCount : Axis → Nat
  | ⟨_, candidates, relationships⟩ =>
    (candidates.map fun chosen => branchFactor relationships chosen).sum

/-- How many times as many branches there are behind relationships. -/
def branchFactor : List Relationship → Document → Nat
  | [], _ => 1
  | ⟨parent, _, children⟩ :: rest, chosen =>
    (if parent.same chosen then exactCount children else 1) * branchFactor rest chosen
end

/-! ## The expansion makes that many -/

/-- What is concatenated is as long as its parts are together. -/
theorem length_concatEach {α β ε : Type} {f : α → Except ε (List β)} {items : List α}
    {out : List β} (h : concatEach f items = .ok out) (size : α → Nat)
    (hsize : ∀ item parts, f item = .ok parts → parts.length = size item) :
    out.length = (items.map size).sum := by
  -- Seen without its elements a list is its length.
  have hseen := map_concatEach h (fun _ => ()) (fun item => List.replicate (size item) ())
    fun item parts hp => by rw [List.map_const', hsize item parts hp]
  have hlength := congrArg List.length hseen
  simpa [List.length_flatMap] using hlength

theorem length_concatEach_of_const {α β ε : Type} {f : α → Except ε (List β)} {items : List α}
    {out : List β} (h : concatEach f items = .ok out) (size : Nat)
    (hsize : ∀ item parts, f item = .ok parts → parts.length = size) :
    out.length = items.length * size := by
  rw [length_concatEach h (fun _ => size) hsize, List.map_const', List.sum_replicate_nat]

mutual
/-- Each branch of the first axis is expanded to as many documents as any other, so the numbers
multiply. -/
theorem length_expandAxes : ∀ (axes : List Axis) {document : Document} {documents : List Document},
    expandAxes axes document = .ok documents → documents.length = exactCount axes
  | [], _, _, h => by cases h; rfl
  | axis :: rest, document, documents, h => by
    rw [expandAxes_cons] at h
    obtain ⟨branches, hb, hd⟩ := bind_eq_ok.mp h
    rw [length_concatEach_of_const hd _ fun _ _ => length_expandAxes rest,
      length_expandAxis axis hb, exactCount]

theorem length_expandAxis : ∀ (axis : Axis) {document : Document} {branches : List Document},
    expandAxis axis document = .ok branches → branches.length = axis.branchCount
  | ⟨path, candidates, relationships⟩, document, branches, h => by
    rw [expandAxis_mk] at h
    refine length_concatEach h _ fun chosen parts hp => ?_
    obtain ⟨branch, _, hp⟩ := bind_eq_ok.mp hp
    exact length_expandRelationships relationships hp

theorem length_expandRelationships : ∀ (relationships : List Relationship)
    {chosen document : Document} {documents : List Document},
    expandRelationships relationships chosen document = .ok documents →
      documents.length = branchFactor relationships chosen
  | [], _, _, _, h => by cases h; rfl
  | ⟨parent, assignment, children⟩ :: rest, chosen, document, documents, h => by
    rw [expandRelationships_cons, expandRelationship_mk] at h
    obtain ⟨branches, hb, hd⟩ := bind_eq_ok.mp h
    rw [length_concatEach_of_const hd _ fun _ _ => length_expandRelationships rest, branchFactor]
    congr 1
    split at hb
    next holds =>
      obtain ⟨branch, _, hb⟩ := bind_eq_ok.mp hb
      rw [length_expandAxes children hb, if_pos holds]
    next fails =>
      cases hb
      rw [if_neg fails]
      rfl
end

/-! ## The steps of the counter -/

theorem sumEach_cons {α : Type} (f : α → Option Nat) (total : Nat) (item : α) (rest : List α) :
    sumEach f total (item :: rest)
      = (f item).bind fun n => (fits? (total + n)).bind fun total => sumEach f total rest := by
  rw [sumEach]
  cases f item with
  | none => rfl
  | some n => cases h : fits? (total + n) <;> simp [h]

/-- At an axis without branches the counter stops. -/
theorem countAxes_cons (axis : Axis) (rest : List Axis) :
    countAxes (axis :: rest)
      = (countAxis axis).bind fun total =>
          if total = 0 then some 0 else (countAxes rest).bind fun tail => fits? (total * tail) := by
  rw [countAxes]
  cases countAxis axis with
  | none => rfl
  | some total => cases total <;> cases countAxes rest <;> rfl

section Relationships

variable {parent chosen : Document} {assignment : Option Assignment} {children : List Axis}
  {rest : List Relationship} {product : Nat}

theorem countRelationships_of_holds (holds : parent.same chosen = true) :
    countRelationships (⟨parent, assignment, children⟩ :: rest) chosen product
      = (countAxes children).bind fun n =>
          (fits? (product * n)).bind (countRelationships rest chosen) := by
  rw [countRelationships, if_pos holds]
  cases countAxes children with
  | none => rfl
  | some n => cases h : fits? (product * n) <;> simp [h]

theorem countRelationships_of_fails (fails : ¬ parent.same chosen = true) :
    countRelationships (⟨parent, assignment, children⟩ :: rest) chosen product
      = countRelationships rest chosen product := by
  rw [countRelationships, if_neg fails]

end Relationships

/-! ## The counter gives no other number -/

theorem fits?_eq_some {n m : Nat} : fits? n = some m ↔ n = m ∧ m < 2 ^ 64 := by
  unfold fits?
  split <;> simp <;> omega

/-- A sum that the counter gives is the sum of the sizes. -/
theorem sumEach_exact {α : Type} {f : α → Option Nat} {items : List α} {total n : Nat}
    (h : sumEach f total items = some n) (htotal : total < 2 ^ 64) (size : α → Nat)
    (hsize : ∀ item n, f item = some n → n = size item) :
    n = total + (items.map size).sum ∧ n < 2 ^ 64 := by
  induction items generalizing total with
  | nil => cases h; exact ⟨rfl, htotal⟩
  | cons item rest ih =>
    rw [sumEach_cons] at h
    obtain ⟨m, hm, h⟩ := Option.bind_eq_some_iff.mp h
    obtain ⟨total', hfits, h⟩ := Option.bind_eq_some_iff.mp h
    obtain ⟨rfl, hlt⟩ := fits?_eq_some.mp hfits
    obtain ⟨hn, hbound⟩ := ih h hlt
    refine ⟨?_, hbound⟩
    rw [hn, hsize item m hm, List.map_cons, List.sum_cons, Nat.add_assoc]

mutual
/-- A number that the counter gives is the exact one. -/
theorem countAxes_exact : ∀ (axes : List Axis) {n : Nat},
    countAxes axes = some n → n = exactCount axes ∧ n < 2 ^ 64
  | [], n, h => by cases h; exact ⟨rfl, by omega⟩
  | axis :: rest, n, h => by
    rw [countAxes_cons] at h
    rw [exactCount]
    obtain ⟨total, htotal, h⟩ := Option.bind_eq_some_iff.mp h
    obtain ⟨rfl, _⟩ := countAxis_exact axis htotal
    by_cases zero : axis.branchCount = 0
    · -- The counter stops here with zero, which is the product whatever stands behind.
      rw [if_pos zero] at h
      cases h
      rw [zero, Nat.zero_mul]
      exact ⟨rfl, by omega⟩
    · rw [if_neg zero] at h
      obtain ⟨tail, htail, h⟩ := Option.bind_eq_some_iff.mp h
      obtain ⟨rfl, _⟩ := countAxes_exact rest htail
      obtain ⟨rfl, hlt⟩ := fits?_eq_some.mp h
      exact ⟨rfl, hlt⟩

theorem countAxis_exact : ∀ (axis : Axis) {n : Nat},
    countAxis axis = some n → n = axis.branchCount ∧ n < 2 ^ 64
  | ⟨_, candidates, relationships⟩, n, h => by
    rw [countAxis] at h
    have hsum := sumEach_exact h (by omega) (branchFactor relationships) fun chosen m hm => by
      rw [countRelationships_exact relationships hm, Nat.one_mul]
    rwa [Nat.zero_add] at hsum

theorem countRelationships_exact : ∀ (relationships : List Relationship) {chosen : Document}
    {product n : Nat}, countRelationships relationships chosen product = some n →
      n = product * branchFactor relationships chosen
  | [], _, _, _, h => by cases h; exact (Nat.mul_one _).symm
  | ⟨parent, _, children⟩ :: rest, chosen, product, n, h => by
    rw [branchFactor]
    by_cases holds : parent.same chosen = true
    · rw [countRelationships_of_holds holds] at h
      obtain ⟨m, hm, h⟩ := Option.bind_eq_some_iff.mp h
      obtain ⟨grown, hfits, h⟩ := Option.bind_eq_some_iff.mp h
      obtain ⟨rfl, _⟩ := fits?_eq_some.mp hfits
      rw [if_pos holds, countRelationships_exact rest h, (countAxes_exact children hm).1,
        Nat.mul_assoc]
    · rw [countRelationships_of_fails holds] at h
      rw [if_neg holds, countRelationships_exact rest h, Nat.one_mul]
end

/-! ## The count and the documents -/

theorem expectedCount_eq_ok {axes : List Axis} {n : Nat} (h : expectedCount axes = .ok n) :
    n = exactCount axes ∧ n < 2 ^ 64 := by
  rw [expectedCount] at h
  split at h
  · cases h
  · split at h
    · cases h
    next hcount =>
      cases h
      exact countAxes_exact axes hcount

/-- Axes that are not counted are too many for the counter. -/
theorem expectedCount_eq_error {axes : List Axis} {e : ExpansionError} (nonempty : axes ≠ [])
    (h : expectedCount axes = .error e) : e = .countOverflow := by
  rw [expectedCount, if_neg (by simpa using nonempty)] at h
  split at h
  · cases h; rfl
  · cases h

theorem length_permute {axes : List Axis} {base : Document} {documents : List Document}
    (h : permute axes base = .ok documents) : documents.length = exactCount axes := by
  rw [permute] at h
  split at h
  · cases h
  · split at h
    · cases h
    next hexpand =>
      cases h
      exact length_expandAxes axes hexpand

/-- **The count is exact.** Where axes are counted and expanded the number of documents is the count;
a count is the exact number; and a number that outgrows 64 bits is reported as such. -/
theorem expectedCount_exact (axes : List Axis) (base : Document) :
    (∀ n documents, expectedCount axes = .ok n → permute axes base = .ok documents →
      documents.length = n) ∧
    (∀ n, expectedCount axes = .ok n → n = exactCount axes) ∧
    (axes ≠ [] → 2 ^ 64 ≤ exactCount axes → expectedCount axes = .error .countOverflow) := by
  refine ⟨fun n documents hcount hpermute => ?_, fun n h => (expectedCount_eq_ok h).1,
    fun nonempty hlarge => ?_⟩
  · rw [length_permute hpermute, (expectedCount_eq_ok hcount).1]
  · cases hcount : expectedCount axes with
    | ok n =>
      obtain ⟨rfl, hlt⟩ := expectedCount_eq_ok hcount
      omega
    | error e => rw [expectedCount_eq_error nonempty hcount]

example :
    expectedCount
      [⟨⟨.key "a", []⟩, [.boolean true, .null],
          [⟨.boolean true, none, [⟨⟨.key "b", []⟩, [.null, .boolean true, .boolean false], []⟩]⟩]⟩,
        ⟨⟨.key "c", []⟩, [.null, .boolean true], []⟩] = .ok ((3 + 1) * 2) :=
  rfl

end Variation
