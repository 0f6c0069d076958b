import Variation.Proofs.Axis.Branches
import Variation.Proofs.Axis.Reordering

/-!
# The numbers that the counter comes to

`tallies` lists the sums and products that the counter forms, with no bound on them. The counter
gives the exact number if all of them fit and no number otherwise (`countAxes_eq_exact_iff`), so
what there is to say about an overflow is said of this list.

If every axis has a candidate nothing in the list is more than the number in the end: each count on
the way is at least one, so no step makes the number smaller (`le_of_mem_tallies`). The counter then
overflows exactly if the number in the end does not fit (`expectedCount_overflow_iff`).

An axis without candidates breaks this, because a number that does not fit on the way may be zero in
the end. The counter stops at an axis without branches and does not look at the axes behind it, but
it goes on behind a relationship that leaves no branch. So it may overflow where there are no
documents at all: `count_of_no_documents` says when, and `no_documents_uncounted` is such a case.
-/

namespace Variation

/-! ## The list of numbers -/

/-- The totals that a sum comes to, each behind the numbers that its summand takes. -/
def runningTotals {α : Type} (notes : α → List Nat) (size : α → Nat) (total : Nat) :
    List α → List Nat
  | [] => []
  | item :: rest =>
    notes item ++ (total + size item) :: runningTotals notes size (total + size item) rest

mutual
/-- The numbers that counting axes takes, in the order in which the counter comes to them. Behind an
axis without branches it does not go on. -/
def tallies : List Axis → List Nat
  | [] => []
  | axis :: rest =>
    axis.tallies ++
      if axis.branchCount = 0 then [] else tallies rest ++ [axis.branchCount * exactCount rest]

def Axis.tallies : Axis → List Nat
  | ⟨_, candidates, relationships⟩ =>
    runningTotals (fun chosen => talliesBehind relationships chosen 1) (branchFactor relationships) 0
      candidates

def talliesBehind : List Relationship → Document → Nat → List Nat
  | [], _, _ => []
  | ⟨parent, _, children⟩ :: rest, chosen, product =>
    if parent.same chosen then
      tallies children ++
        (product * exactCount children) :: talliesBehind rest chosen (product * exactCount children)
    else talliesBehind rest chosen product
end

/-! ## The counter counts if all of them fit

Where the counter gives a number it is the exact one (`countAxes_exact`). What is left is whether it
gives one, so each step below is opened at the exact number. -/

/-- All numbers of the list fit the counter. -/
def AllFit (numbers : List Nat) : Prop :=
  ∀ n ∈ numbers, n < 2 ^ 64

instance (numbers : List Nat) : Decidable (AllFit numbers) :=
  inferInstanceAs (Decidable (∀ n ∈ numbers, n < 2 ^ 64))

section AllFit

variable {n : Nat} {front back : List Nat}

theorem allFit_nil : AllFit [] := by
  intro n h
  cases h

theorem allFit_append : AllFit (front ++ back) ↔ AllFit front ∧ AllFit back :=
  List.forall_mem_append

theorem allFit_cons : AllFit (n :: back) ↔ n < 2 ^ 64 ∧ AllFit back :=
  List.forall_mem_cons

theorem allFit_singleton : AllFit [n] ↔ n < 2 ^ 64 :=
  List.forall_mem_singleton

theorem fits?_eq_self_iff : fits? n = some n ↔ n < 2 ^ 64 := by
  rw [fits?_eq_some]
  exact and_iff_right rfl

/-- A step that gives no other number than the exact one is defined if it gives that. -/
theorem bind_eq_some_of_exact {α : Type} {step : Option Nat} {exact : Nat} {next : Nat → Option α}
    {out : α} (h : ∀ n, step = some n → n = exact) :
    step.bind next = some out ↔ step = some exact ∧ next exact = some out := by
  rw [Option.bind_eq_some_iff]
  constructor
  · rintro ⟨n, hstep, hnext⟩
    obtain rfl := h n hstep
    exact ⟨hstep, hnext⟩
  · rintro ⟨hstep, hnext⟩
    exact ⟨exact, hstep, hnext⟩

theorem eq_of_fits? {m : Nat} (h : fits? n = some m) : m = n :=
  (fits?_eq_some.mp h).1.symm

end AllFit

/-- A sum is formed if every summand is and every total on the way fits. -/
theorem sumEach_eq_exact_iff {α : Type} {f : α → Option Nat} {notes : α → List Nat} {size : α → Nat}
    (exact : ∀ item n, f item = some n → n = size item)
    (defined : ∀ item, f item = some (size item) ↔ AllFit (notes item)) {items : List α}
    {total : Nat} :
    sumEach f total items = some (total + (items.map size).sum) ↔
      AllFit (runningTotals notes size total items) := by
  induction items generalizing total with
  | nil =>
    rw [sumEach, runningTotals]
    exact iff_of_true rfl allFit_nil
  | cons item rest ih =>
    rw [sumEach_cons, bind_eq_some_of_exact (exact item),
      bind_eq_some_of_exact fun _ => eq_of_fits?, defined, fits?_eq_self_iff,
      List.map_cons, List.sum_cons, ← Nat.add_assoc, ih, runningTotals, allFit_append, allFit_cons]

mutual
/-- **The counter gives the exact number if every number on the way fits.** -/
theorem countAxes_eq_exact_iff : ∀ (axes : List Axis),
    countAxes axes = some (exactCount axes) ↔ AllFit (tallies axes)
  | [] => by
    rw [countAxes, exactCount, tallies]
    exact iff_of_true rfl allFit_nil
  | axis :: rest => by
    rw [countAxes_cons, bind_eq_some_of_exact fun n h => (countAxis_exact axis h).1,
      countAxis_eq_exact_iff axis, tallies, allFit_append, exactCount]
    refine and_congr_right fun _ => ?_
    by_cases zero : axis.branchCount = 0
    · rw [if_pos zero, if_pos zero, zero, Nat.zero_mul]
      exact iff_of_true rfl allFit_nil
    · rw [if_neg zero, if_neg zero,
        bind_eq_some_of_exact fun n h => (countAxes_exact rest h).1,
        countAxes_eq_exact_iff rest, fits?_eq_self_iff, allFit_append, allFit_singleton]

theorem countAxis_eq_exact_iff : ∀ (axis : Axis),
    countAxis axis = some axis.branchCount ↔ AllFit axis.tallies
  | ⟨_, candidates, relationships⟩ => by
    rw [countAxis, Axis.branchCount, Axis.tallies, ← Nat.zero_add (List.sum _)]
    refine sumEach_eq_exact_iff (fun chosen n h => ?_) fun chosen => ?_
    · rw [countRelationships_exact relationships h, Nat.one_mul]
    · have behind := countRelationships_eq_exact_iff relationships chosen 1
      rwa [Nat.one_mul] at behind

theorem countRelationships_eq_exact_iff : ∀ (relationships : List Relationship) (chosen : Document)
    (product : Nat),
    countRelationships relationships chosen product
        = some (product * branchFactor relationships chosen) ↔
      AllFit (talliesBehind relationships chosen product)
  | [], chosen, product => by
    rw [countRelationships, branchFactor, talliesBehind, Nat.mul_one]
    exact iff_of_true rfl allFit_nil
  | ⟨parent, _, children⟩ :: rest, chosen, product => by
    rw [branchFactor, talliesBehind]
    by_cases holds : parent.same chosen = true
    · rw [if_pos holds, if_pos holds, countRelationships_of_holds holds,
        bind_eq_some_of_exact fun n h => (countAxes_exact children h).1,
        bind_eq_some_of_exact fun _ => eq_of_fits?, countAxes_eq_exact_iff children,
        fits?_eq_self_iff, ← Nat.mul_assoc, countRelationships_eq_exact_iff rest, allFit_append,
        allFit_cons]
    · rw [if_neg holds, if_neg holds, countRelationships_of_fails holds, Nat.one_mul]
      exact countRelationships_eq_exact_iff rest chosen product
end

theorem expectedCount_eq_exact_iff {axes : List Axis} (nonempty : axes ≠ []) :
    expectedCount axes = .ok (exactCount axes) ↔ AllFit (tallies axes) := by
  rw [← countAxes_eq_exact_iff, expectedCount, if_neg (by simpa using nonempty)]
  cases countAxes axes <;> simp

/-! ## Numbers that do not shrink -/

theorem countPending_pos {todo : List Pending} (filled : ∀ next ∈ todo, next.Filled) :
    0 < countPending todo :=
  (Leads.nil_of_filled filled).countPending_le

theorem exactCount_pos {axes : List Axis} (filled : ∀ axis ∈ axes, axis.Filled) :
    0 < exactCount axes := by
  rw [← countPending_ofAxes]
  apply countPending_pos
  intro next member
  obtain ⟨axis, ha, rfl⟩ := List.mem_map.mp member
  exact filled axis ha

theorem branchCount_pos {axis : Axis} (filled : axis.Filled) : 0 < axis.branchCount := by
  have whole : 0 < exactCount [axis] := exactCount_pos (by simpa using filled)
  rwa [exactCount, exactCount, Nat.mul_one] at whole

theorem branchFactor_pos {relationships : List Relationship} (chosen : Document)
    (below : ∀ relationship ∈ relationships, ∀ child ∈ relationship.children, child.Filled) :
    0 < branchFactor relationships chosen := by
  rw [← countPending_ofRelationships]
  apply countPending_pos
  intro next member
  obtain ⟨relationship, hr, rfl⟩ := List.mem_map.mp member
  exact below relationship hr

theorem le_of_mem_runningTotals {α : Type} {notes : α → List Nat} {size : α → Nat}
    (h : ∀ item, ∀ n ∈ notes item, n ≤ size item) {items : List α} {total n : Nat}
    (member : n ∈ runningTotals notes size total items) : n ≤ total + (items.map size).sum := by
  induction items generalizing total with
  | nil => cases member
  | cons item rest ih =>
    rw [runningTotals] at member
    rw [List.map_cons, List.sum_cons]
    rcases List.mem_append.mp member with inside | member
    · have bound := h item n inside
      omega
    · rcases List.mem_cons.mp member with rfl | later
      · omega
      · have bound := ih later
        omega

mutual
/-- **Where every axis has a candidate no number on the way is more than the number in the end.** -/
theorem le_of_mem_tallies : ∀ {axes : List Axis}, (∀ axis ∈ axes, axis.Filled) →
    ∀ {n : Nat}, n ∈ tallies axes → n ≤ exactCount axes
  | [], _, _, member => by cases member
  | axis :: rest, filled, n, member => by
    obtain ⟨first, behind⟩ := List.forall_mem_cons.mp filled
    have positive : 0 < axis.branchCount := branchCount_pos first
    rw [tallies, if_neg (Nat.ne_of_gt positive)] at member
    rw [exactCount]
    rcases List.mem_append.mp member with inside | member
    · obtain ⟨_, below⟩ := first
      calc n ≤ axis.branchCount := le_of_mem_axis_tallies below inside
        _ ≤ axis.branchCount * exactCount rest := Nat.le_mul_of_pos_right _ (exactCount_pos behind)
    · rcases List.mem_append.mp member with later | last
      · calc n ≤ exactCount rest := le_of_mem_tallies behind later
          _ ≤ axis.branchCount * exactCount rest := Nat.le_mul_of_pos_left _ positive
      · exact Nat.le_of_eq (List.mem_singleton.mp last)

theorem le_of_mem_axis_tallies : ∀ {axis : Axis},
    (∀ relationship ∈ axis.relationships, ∀ child ∈ relationship.children, child.Filled) →
    ∀ {n : Nat}, n ∈ axis.tallies → n ≤ axis.branchCount
  | ⟨_, candidates, relationships⟩, below, n, member => by
    rw [Axis.tallies] at member
    rw [Axis.branchCount, ← Nat.zero_add (List.sum _)]
    apply le_of_mem_runningTotals _ member
    intro chosen m hm
    have bound := le_of_mem_talliesBehind below Nat.one_pos hm
    rwa [Nat.one_mul] at bound

theorem le_of_mem_talliesBehind : ∀ {relationships : List Relationship},
    (∀ relationship ∈ relationships, ∀ child ∈ relationship.children, child.Filled) →
    ∀ {chosen : Document} {product n : Nat}, 0 < product →
      n ∈ talliesBehind relationships chosen product →
        n ≤ product * branchFactor relationships chosen
  | [], _, _, _, _, _, member => by cases member
  | ⟨parent, _, children⟩ :: rest, below, chosen, product, n, positive, member => by
    obtain ⟨first, behind⟩ := List.forall_mem_cons.mp below
    rw [talliesBehind] at member
    rw [branchFactor]
    by_cases holds : parent.same chosen = true
    · rw [if_pos holds] at member ⊢
      have product_pos : 0 < product * exactCount children :=
        Nat.mul_pos positive (exactCount_pos first)
      -- What stands behind multiplies by at least one, so the product so far is no more than all.
      have grown : product * exactCount children
          ≤ product * (exactCount children * branchFactor rest chosen) := by
        rw [← Nat.mul_assoc]
        exact Nat.le_mul_of_pos_right _ (branchFactor_pos chosen behind)
      rcases List.mem_append.mp member with inside | member
      · calc n ≤ exactCount children := le_of_mem_tallies first inside
          _ ≤ product * exactCount children := Nat.le_mul_of_pos_left _ positive
          _ ≤ _ := grown
      · rcases List.mem_cons.mp member with rfl | later
        · exact grown
        · have bound := le_of_mem_talliesBehind behind product_pos later
          rwa [Nat.mul_assoc] at bound
    · rw [if_neg holds] at member ⊢
      rw [Nat.one_mul]
      exact le_of_mem_talliesBehind behind positive member
end

/-- **Where every axis has a candidate the counter overflows only if the number does not fit.** No
sum and no product on the way is more than the number in the end. -/
theorem expectedCount_overflow_iff (axes : List Axis) (nonempty : axes ≠ [])
    (filled : ∀ axis ∈ axes, axis.Filled) :
    (expectedCount axes = .error .countOverflow ↔ 2 ^ 64 ≤ exactCount axes) ∧
    (exactCount axes < 2 ^ 64 → expectedCount axes = .ok (exactCount axes)) ∧
    ∀ n ∈ tallies axes, n ≤ exactCount axes := by
  have counted : exactCount axes < 2 ^ 64 → expectedCount axes = .ok (exactCount axes) := by
    intro fit
    apply (expectedCount_eq_exact_iff nonempty).mpr
    intro n member
    exact Nat.lt_of_le_of_lt (le_of_mem_tallies filled member) fit
  refine ⟨⟨?_, ?_⟩, counted, fun n member => le_of_mem_tallies filled member⟩
  · intro overflow
    apply Nat.le_of_not_lt
    intro fit
    rw [counted fit] at overflow
    cases overflow
  · intro large
    cases hcount : expectedCount axes with
    | ok n =>
      obtain ⟨rfl, fit⟩ := expectedCount_eq_ok hcount
      exact absurd large (Nat.not_le.mpr fit)
    | error e => rw [expectedCount_eq_error nonempty hcount]

/-- A candidate that brings in 63 axes of two candidates: the number is one more than half of what
fits, and another axis of two candidates makes it too large. -/
theorem expectedCount_overflow_iff_pairs :
    let pair : Axis := ⟨⟨.key "b", []⟩, [.null, .boolean true], []⟩
    let wide : Axis :=
      ⟨⟨.key "a", []⟩, [.null, .boolean true], [⟨.null, none, List.replicate 63 pair⟩]⟩
    [wide, pair] ≠ [] ∧ (∀ axis ∈ [wide, pair], axis.Filled) ∧
      expectedCount [wide] = .ok (2 ^ 63 + 1) ∧
      expectedCount [wide, pair] = .error .countOverflow := by
  intro pair wide
  have filledPair : pair.Filled := .mk (by simp [pair]) (by simp [pair])
  have filledWide : wide.Filled := by
    refine .mk (by simp [wide]) ?_
    intro relationship hr child hc
    rw [List.mem_singleton.mp hr] at hc
    rw [List.eq_of_mem_replicate hc]
    exact filledPair
  have filled : ∀ axis ∈ [wide, pair], axis.Filled := by simp [filledWide, filledPair]
  refine ⟨List.cons_ne_nil _ _, filled, ?_, ?_⟩
  · have count : exactCount [wide] = 2 ^ 63 + 1 := by decide
    rw [← count]
    exact (expectedCount_overflow_iff [wide] (by simp) (by simpa using filledWide)).2.1 (by decide)
  · exact (expectedCount_overflow_iff [wide, pair] (by simp) filled).1.mpr (by decide)

/-! ## No documents -/

section DeadEnd

variable {front back : List Axis} {dead : Axis}

theorem exactCount_dead_end (lacking : dead.candidates = []) :
    exactCount (front ++ dead :: back) = 0 := by
  induction front with
  | nil =>
    obtain ⟨path, candidates, relationships⟩ := dead
    cases lacking
    rw [List.nil_append, exactCount]
    exact Nat.zero_mul _
  | cons axis rest ih => rw [List.cons_append, exactCount, ih, Nat.mul_zero]

/-- An axis without candidates ends the count, whatever stands behind it. -/
theorem allFit_dead_end (lacking : dead.candidates = [])
    (small : ∀ axis ∈ front, axis.branchCount < 2 ^ 64)
    (below : ∀ axis ∈ front, ∀ relationship ∈ axis.relationships,
      ∀ child ∈ relationship.children, child.Filled) :
    AllFit (tallies (front ++ dead :: back)) := by
  induction front with
  | nil =>
    obtain ⟨path, candidates, relationships⟩ := dead
    cases lacking
    have branchless : (Axis.mk path [] relationships).branchCount = 0 := rfl
    rw [List.nil_append, tallies, if_pos branchless]
    exact allFit_nil
  | cons axis rest ih =>
    obtain ⟨smallFirst, smallRest⟩ := List.forall_mem_cons.mp small
    obtain ⟨belowFirst, belowRest⟩ := List.forall_mem_cons.mp below
    rw [List.cons_append, tallies, allFit_append]
    constructor
    · intro n member
      exact Nat.lt_of_le_of_lt (le_of_mem_axis_tallies belowFirst member) smallFirst
    · split
      · exact allFit_nil
      · -- The tail is counted as zero, and so is its product with whatever stands in front.
        rw [allFit_append, allFit_singleton, exactCount_dead_end lacking, Nat.mul_zero]
        exact ⟨ih smallRest belowRest, by decide⟩

end DeadEnd

/-- **No documents are counted as none unless a number on the way does not fit.** The counter then
overflows. It does not if an axis of the list lacks candidates before any axis of a relationship does
and each axis in front of it has a number of branches that fits. -/
theorem count_of_no_documents (axes : List Axis) (base : Document) (h : permute axes base = .ok []) :
    (expectedCount axes = .ok 0 ∨ expectedCount axes = .error .countOverflow) ∧
    (expectedCount axes = .ok 0 ↔ AllFit (tallies axes)) ∧
    ∀ front dead back, axes = front ++ dead :: back → dead.candidates = [] →
      (∀ axis ∈ front, axis.branchCount < 2 ^ 64) →
      (∀ axis ∈ front, ∀ relationship ∈ axis.relationships,
        ∀ child ∈ relationship.children, child.Filled) →
      expectedCount axes = .ok 0 := by
  have nonempty : axes ≠ [] := by
    rintro rfl
    cases h
  have zero : exactCount axes = 0 := (length_permute h).symm
  have counted := expectedCount_eq_exact_iff nonempty
  rw [zero] at counted
  refine ⟨?_, counted, ?_⟩
  · cases hcount : expectedCount axes with
    | ok n =>
      obtain ⟨rfl, _⟩ := expectedCount_eq_ok hcount
      exact .inl (congrArg Except.ok zero)
    | error e => exact .inr (by rw [expectedCount_eq_error nonempty hcount])
  · rintro front dead back rfl lacking small below
    exact counted.mpr (allFit_dead_end lacking small below)

/-- A relationship that leaves no branch in front of one that would make four of each. -/
theorem count_of_no_documents_four :
    let pair (key : String) : Axis := ⟨⟨.key key, []⟩, [.null, .boolean true], []⟩
    let axes : List Axis :=
      [⟨⟨.key "a", []⟩, [.null],
        [⟨.null, none, [⟨⟨.key "b", []⟩, [], []⟩]⟩, ⟨.null, none, [pair "c", pair "d"]⟩]⟩]
    permute axes (.mapping []) = .ok [] ∧ expectedCount axes = .ok 0 := by
  intro pair axes
  have nothing : permute axes (.mapping []) = .ok [] := rfl
  exact ⟨nothing, (count_of_no_documents axes (.mapping []) nothing).2.1.mpr (by decide)⟩

/-- Behind a relationship that leaves no branch the counter goes on to one that would make more of
each than fit. -/
theorem no_documents_uncounted :
    let pair : Axis := ⟨⟨.key "c", []⟩, [.null, .boolean true], []⟩
    let axes : List Axis :=
      [⟨⟨.key "a", []⟩, [.null],
        [⟨.null, none, [⟨⟨.key "b", []⟩, [], []⟩]⟩, ⟨.null, none, List.replicate 64 pair⟩]⟩]
    permute axes (.mapping []) = .ok [] ∧ expectedCount axes = .error .countOverflow :=
  ⟨rfl, rfl⟩

end Variation
