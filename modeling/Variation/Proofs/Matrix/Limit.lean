import Variation.Matrix.Resolution
import Variation.Proofs.Axis.Branches

/-!
# The limit on an expansion

A matrix is counted before it is expanded. The count is exact, so the limit that it is compared with
bounds what the expansion makes, and an expansion that would make more is refused as a whole.

The limit is less of a bound on what an expansion holds on the way. It bounds the branches of every
axis from which a selection can come to its end, because these branches end up in documents. In front
of an axis without candidates they do not: the count is zero, whatever the axes before have.
`branchesWithin_limit` says which matrices are affected.
-/

namespace Variation.Matrix

open Pending (ofAxes)

/-! ## Documents -/

theorem expand_eq_ok {matrix : Matrix} {base : Document} {limit : Nat}
    {documents : List Document} :
    matrix.expand base limit = .ok documents ↔
      (∃ n, matrix.count = .ok n ∧ n ≤ limit) ∧ permute matrix.axes base = .ok documents := by
  rw [expand]
  cases matrix.count with
  | error e => simp
  | ok n =>
    by_cases hlimit : limit < n
    · simp [hlimit, Nat.not_le.mpr hlimit]
    · cases permute matrix.axes base <;> simp [hlimit, Nat.not_lt.mp hlimit]

theorem count_eq_ok {matrix : Matrix} {n : Nat} (h : matrix.count = .ok n) :
    expectedCount matrix.axes = .ok n := by
  rw [count] at h
  cases hcount : expectedCount matrix.axes with
  | error e => rw [hcount] at h; cases h
  | ok m => rw [hcount] at h; cases h; rfl

/-- What is counted is what is made, where anything is made. -/
theorem count_of_expand {matrix : Matrix} {base : Document} {limit : Nat}
    {documents : List Document} (h : matrix.expand base limit = .ok documents) :
    matrix.count = .ok documents.length ∧ documents.length ≤ limit := by
  obtain ⟨⟨n, hcount, hlimit⟩, hpermute⟩ := expand_eq_ok.mp h
  have hn : n = documents.length := by
    rw [length_permute hpermute, (expectedCount_eq_ok (count_eq_ok hcount)).1]
  exact hn ▸ ⟨hcount, hlimit⟩

/-- **The limit holds.** An expansion that is let through makes what `permute` makes, and no more
documents than the limit. Where `permute` makes more, the expansion is an error that names their
exact number, or the number does not fit the counter. -/
theorem expand_within_limit (matrix : Matrix) (base : Document) (limit : Nat) :
    (∀ documents, matrix.expand base limit = .ok documents →
      documents.length ≤ limit ∧ permute matrix.axes base = .ok documents) ∧
    (∀ documents, permute matrix.axes base = .ok documents → limit < documents.length →
      matrix.expand base limit = .error (.tooManyDocuments documents.length limit) ∨
      matrix.expand base limit = .error (.expansion .countOverflow)) := by
  refine ⟨fun documents h => ?_, fun documents h hlarge => ?_⟩
  · obtain ⟨⟨n, hcount, hlimit⟩, hpermute⟩ := expand_eq_ok.mp h
    rw [length_permute hpermute, ← (expectedCount_eq_ok (count_eq_ok hcount)).1]
    exact ⟨hlimit, hpermute⟩
  · cases hcount : expectedCount matrix.axes with
    | error e =>
      -- There are axes, or there would be no documents; so the counter has overflowed.
      have nonempty : matrix.axes ≠ [] := fun hnil => by rw [hnil] at h; cases h
      rw [expectedCount_eq_error nonempty hcount] at hcount
      exact .inr (by rw [expand, count, hcount])
    | ok n =>
      have hn : n = documents.length := by
        rw [length_permute h, (expectedCount_eq_ok hcount).1]
      refine .inl ?_
      rw [expand, count, hcount, ← hn]
      exact if_pos (hn ▸ hlarge)

/-! ## Branches -/

/-- No list of branches that the expansion makes on the way is longer than the limit. -/
def BranchesWithin (matrix : Matrix) (base : Document) (limit : Nat) : Prop :=
  ∀ branches ∈ branchLists matrix.axes base, branches.length ≤ limit

/-- An axis that some selection comes to has no more branches than the limit if no selection comes
through what lies behind it. -/
def DeadEndsWithin (matrix : Matrix) (limit : Nat) : Prop :=
  ∀ axis left, Leads (ofAxes matrix.axes) (.axis axis :: left) → ¬ Leads left [] →
    axis.branchCount ≤ limit

section Branches

variable {matrix : Matrix} {base : Document} {limit : Nat}

theorem branchCount_le_limit {n : Nat} (hcount : matrix.count = .ok n) (hlimit : n ≤ limit)
    (h : matrix.DeadEndsWithin limit) {axis : Axis} {left : List Pending}
    (hl : Leads (ofAxes matrix.axes) (.axis axis :: left)) : axis.branchCount ≤ limit := by
  by_cases through : Leads left []
  · have hexact := branchCount_le_of_leads_nil hl through
    rw [← (expectedCount_eq_ok (count_eq_ok hcount)).1] at hexact
    exact Nat.le_trans hexact hlimit
  · exact h axis left hl through

/-- Without an axis that lacks candidates there are no dead ends. -/
theorem deadEndsWithin_of_candidates
    (h : ∀ axis left, Leads (ofAxes matrix.axes) (.axis axis :: left) → axis.candidates ≠ []) :
    matrix.DeadEndsWithin limit := by
  intro axis left hl hdead
  have through : Leads (.axis axis :: left) [] :=
    .nil_of_candidates fun axis' left' hl' => h axis' left' (hl.trans hl')
  rcases Leads.of_append [.axis axis] through with ⟨_, _, _, hnil⟩ | ⟨_, hleft⟩
  · cases hnil
  · exact absurd hleft hdead

/-- An expansion that succeeds has made the branches of every axis in front of a dead end. -/
theorem deadEndsWithin_of_branchesWithin {documents : List Document}
    (hexpand : matrix.expand base limit = .ok documents) (h : matrix.BranchesWithin base limit) :
    matrix.DeadEndsWithin limit := by
  intro axis left hl _
  have hpermute := (expand_eq_ok.mp hexpand).2
  have nonempty : matrix.axes ≠ [] := fun hnil => by rw [hnil] at hpermute; cases hpermute
  rw [permute_eq_ok nonempty, expandPending_ofAxes, ← result_recordAxes] at hpermute
  obtain ⟨branches, hb, hlength⟩ := covers_recordAxes matrix.axes hpermute axis left hl
  exact hlength ▸ h branches hb

/-- **Dead ends escape the limit.** An expansion that is let through keeps every list of branches
within the limit if its dead ends are, and, where it succeeds, only then. It does in particular if no
axis that a selection comes to lacks candidates. -/
theorem branchesWithin_limit (matrix : Matrix) (base : Document) (limit n : Nat)
    (hcount : matrix.count = .ok n) (hlimit : n ≤ limit) :
    (matrix.DeadEndsWithin limit → matrix.BranchesWithin base limit) ∧
    (∀ documents, matrix.expand base limit = .ok documents →
      (matrix.BranchesWithin base limit ↔ matrix.DeadEndsWithin limit)) ∧
    ((∀ axis left, Leads (ofAxes matrix.axes) (.axis axis :: left) → axis.candidates ≠ []) →
      matrix.BranchesWithin base limit) := by
  have within : matrix.DeadEndsWithin limit → matrix.BranchesWithin base limit := by
    intro h branches hb
    obtain ⟨axis, left, hl, hlength⟩ := branchesOf_recordAxes matrix.axes hb
    rw [hlength]
    exact branchCount_le_limit hcount hlimit h hl
  refine ⟨within, fun documents hexpand => ⟨deadEndsWithin_of_branchesWithin hexpand, within⟩, ?_⟩
  exact fun h => within (deadEndsWithin_of_candidates h)

/-- Two branches in front of a dead end are within a limit of two. -/
theorem deadEndsWithin_two :
    let matrix : Matrix :=
      ⟨[⟨⟨.key "a", []⟩, [.boolean true, .null], []⟩, ⟨⟨.key "b", []⟩, [], []⟩]⟩
    matrix.count = .ok 0 ∧ 0 ≤ 2 ∧ matrix.expand (.mapping []) 2 = .ok [] ∧
      matrix.DeadEndsWithin 2 := by
  refine ⟨rfl, by decide, rfl, ?_⟩
  refine ((branchesWithin_limit _ (.mapping []) 2 0 rfl (by decide)).2.1 [] rfl).mp ?_
  unfold BranchesWithin
  decide

/-- Three branches in front of a dead end are not. The third is there before it is found to have no
place for what the next axis writes. -/
theorem branches_beyond_limit :
    let zero : Document := .mapping [("x", .whole (.ofWord 0))]
    let matrix : Matrix :=
      ⟨[⟨⟨.key "a", []⟩, [zero, zero, .whole (.ofWord 3)], []⟩,
        ⟨⟨.key "a", [.key "x"]⟩, [.whole (.ofWord 1)], []⟩, ⟨⟨.key "b", []⟩, [], []⟩]⟩
    let base : Document := .mapping [("a", .null), ("b", .null)]
    matrix.count = .ok 0 ∧ 0 ≤ 2 ∧ (∃ branches ∈ branchLists matrix.axes base, 2 < branches.length) ∧
      matrix.expand base 2 = .error (.expansion (.access
        (.typeMismatch [.key "a", .key "x"] .mapping .number))) := by
  exact ⟨rfl, by decide, by decide, rfl⟩

end Branches

end Variation.Matrix
