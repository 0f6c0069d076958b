import Variation.Proofs.Codec.Path
import Variation.Proofs.Json.Token

/-!
# Copies

A copy is what is read from the document that a value is written as. Where every item of a list is
written, the list is copied item by item, and the first item that is refused is what the whole is
refused for (`copy_list`).

A document has no floating point values but finite ones, and the others are all written as `null`.
What becomes of them is up to who reads the `null`. A number is not read from it, so a list that
holds such a value has no copy (`copy_floats`). A number that may be absent is read from it as an
absent one, so there the copy is made and the value is gone (`copy_optional_floats`).
-/

namespace Variation.Codec

variable {α : Type}

theorem copy_eq_ok {codec : Codec α} {a b : α} :
    codec.copy a = .ok b ↔
      ∃ document, codec.encode a = .ok document ∧ codec.decode document = .ok b := by
  unfold copy
  cases codec.encode a with
  | error reason => simp
  | ok document => cases hdecode : codec.decode document <;> simp [hdecode]

/-! ## Lists -/

section Lists

variable {β ε : Type} {f : α → Except ε β}

theorem exists_each {items : List α} (h : ∀ item ∈ items, ∃ value, f item = .ok value) :
    ∃ values, each f items = .ok values := by
  induction items with
  | nil => exact ⟨[], rfl⟩
  | cons item rest ih =>
    obtain ⟨value, hitem⟩ := h item List.mem_cons_self
    obtain ⟨values, hrest⟩ := ih fun other member => h other (List.mem_cons_of_mem _ member)
    exact ⟨value :: values, each_cons_ok hitem hrest⟩

/-- Where all items that are refused are refused for one reason, it does not matter which of them
comes first. -/
theorem each_of_test {f : α → Except ε α} {test : α → Bool} {reason : ε} {items : List α}
    (h : ∀ item ∈ items, f item = if test item then .ok item else .error reason) :
    each f items = if items.all test then .ok items else .error reason := by
  induction items with
  | nil => rfl
  | cons item rest ih =>
    have hitem := h item List.mem_cons_self
    have hrest := ih fun other member => h other (List.mem_cons_of_mem _ member)
    rw [each, hitem, List.all_cons]
    cases test item with
    | false => rfl
    | true =>
      rw [if_pos rfl, hrest, Bool.true_and]
      cases rest.all test <;> rfl

/-- A list is copied item by item. -/
theorem copy_list {inner : Codec α} {items : List α}
    (h : ∀ item ∈ items, ∃ document, inner.encode item = .ok document) :
    (list inner).copy items = each inner.copy items := by
  induction items with
  | nil => rfl
  | cons item rest ih =>
    have hbehind : ∀ other ∈ rest, ∃ document, inner.encode other = .ok document := by
      intro other member
      exact h other (List.mem_cons_of_mem _ member)
    obtain ⟨document, hitem⟩ := h item List.mem_cons_self
    obtain ⟨documents, hrest⟩ := exists_each hbehind
    have hcopy := ih hbehind
    -- The documents of the rest are the same on their own and behind the first one.
    simp only [copy, list, each, hitem, hrest, Except.map, decodeList] at hcopy ⊢
    rw [← hcopy]
    cases inner.decode document with
    | error reason => rfl
    | ok value => cases each inner.decode documents <;> rfl

end Lists

/-! ## Numbers -/

theorem integer_decode_whole {name : String} {low high : Int} {n : Whole}
    (h : low ≤ n.value ∧ n.value < high) :
    (integer name low high).decode (.whole n) = .ok n.value := by
  simp only [integer]
  exact if_pos h

/-- A whole number is copied if it fits a document. -/
theorem copy_integer {name : String} {low high n : Int} (h : low ≤ n ∧ n < high) :
    (integer name low high).copy n
      = if -2 ^ 63 ≤ n ∧ n < 2 ^ 64 then .ok n else .error (.unfit .outOfRange) := by
  by_cases hfits : -2 ^ 63 ≤ n ∧ n < 2 ^ 64
  · rw [if_pos hfits]
    let whole : Whole := ⟨n, hfits.1, hfits.2⟩
    refine copy_eq_ok.mpr ⟨.whole whole, ?_, integer_decode_whole h⟩
    show (Document.ofInt? whole.value).elim _ _ = _
    rw [Json.ofInt?_value]
    rfl
  · have hnone : Document.ofInt? n = none := by
      rw [Document.ofInt?, Whole.ofInt?, dif_neg hfits]
      rfl
    rw [if_neg hfits]
    simp only [copy, integer, hnone, Option.elim_none]

/-- Neither infinite nor no number. -/
def Float64.isFinite : Float64 → Bool
  | .finite _ => true
  | _ => false

theorem exists_float_encode (x : Float64) : ∃ document, float.encode x = .ok document := by
  cases x <;> exact ⟨_, rfl⟩

theorem float_encode_eq_null {x : Float64} : float.encode x = .ok .null ↔ x.isFinite = false := by
  cases x <;> simp [float, Float64.isFinite]

theorem copy_float (x : Float64) :
    float.copy x = if x.isFinite then .ok x else .error (.mismatch (.wrongType .null "f64")) := by
  cases x <;> rfl

/-- One value that is not finite, wherever it stands, and there is no copy. -/
theorem copy_floats (items : List Float64) :
    (list float).copy items
      = if items.all Float64.isFinite then .ok items
        else .error (.mismatch (.wrongType .null "f64")) := by
  rw [copy_list fun item _ => exists_float_encode item]
  exact each_of_test fun item _ => copy_float item

/-! ## Values that may be absent -/

section Optional

variable {inner : Codec α} {a : α}

/-- What is written as `null` is taken for an absent value. -/
theorem copy_optional_of_null (h : inner.encode a = .ok .null) :
    (optional inner).copy (some a) = .ok none := by
  simp only [copy, optional, h]
  rfl

theorem copy_optional_of_ne_null (h : inner.encode a ≠ .ok .null) :
    (optional inner).copy (some a) = (inner.copy a).map some := by
  simp only [copy, optional]
  cases hencode : inner.encode a with
  | error reason => rfl
  | ok document =>
    have hne : document ≠ .null := by
      intro heq
      exact h (heq ▸ hencode)
    simp only [decodeOptional_of_ne_null hne]
    cases inner.decode document <;> rfl

end Optional

theorem exists_optional_float_encode (x : Option Float64) :
    ∃ document, (optional float).encode x = .ok document := by
  cases x with
  | none => exact ⟨_, rfl⟩
  | some x => exact exists_float_encode x

theorem copy_optional_float (x : Option Float64) :
    (optional float).copy x = .ok (x.filter Float64.isFinite) := by
  cases x with
  | none => rfl
  | some x =>
    cases hfinite : x.isFinite with
    | false =>
      rw [copy_optional_of_null (float_encode_eq_null.mpr hfinite), Option.filter_some, hfinite]
      rfl
    | true =>
      have hne : float.encode x ≠ .ok .null := by
        intro hnull
        rw [float_encode_eq_null.mp hnull] at hfinite
        cases hfinite
      rw [copy_optional_of_ne_null hne, copy_float, Option.filter_some, hfinite]
      rfl

theorem map_filter_eq_self_iff {test : α → Bool} {items : List (Option α)} :
    items.map (Option.filter test) = items ↔ ∀ a, some a ∈ items → test a = true := by
  have hmap : items.map (Option.filter test) = items.map id ↔
      ∀ item ∈ items, item.filter test = id item := List.map_inj_left
  rw [List.map_id] at hmap
  rw [hmap]
  constructor
  · intro h a member
    exact (Option.filter_eq_some_iff.mp (h (some a) member)).2
  · intro h item member
    cases item with
    | none => rfl
    | some a => exact Option.filter_eq_some_iff.mpr ⟨rfl, h a member⟩

/-- **Lists of numbers that may be absent** always have a copy, in which an absent number stands for
each one that is not finite. So the copy is the list itself if and only if all numbers in it are
finite. -/
theorem copy_optional_floats (items : List (Option Float64)) :
    (list (optional float)).copy items = .ok (items.map (Option.filter Float64.isFinite)) ∧
    ((list (optional float)).copy items = .ok items ↔
      ∀ x, some x ∈ items → x.isFinite = true) := by
  have hcopy : (list (optional float)).copy items
      = .ok (items.map (Option.filter Float64.isFinite)) := by
    rw [copy_list fun item _ => exists_optional_float_encode item]
    have heach : each (optional float).copy (items.map id)
        = .ok (items.map (Option.filter Float64.isFinite)) :=
      each_map fun item _ => copy_optional_float item
    rw [List.map_id] at heach
    exact heach
  refine ⟨hcopy, ?_⟩
  rw [hcopy, Except.ok.injEq]
  exact map_filter_eq_self_iff

/-- A value that is no number is neither kept nor refused. -/
theorem not_a_number_copied_as_absent :
    (list (optional float)).copy [some .notANumber] = .ok [none] ∧
      ¬ ∀ items, (list (optional float)).copy items = .ok items ∨
        ∃ reason, (list (optional float)).copy items = .error reason := by
  have hcopy : (list (optional float)).copy [some .notANumber] = .ok [none] := rfl
  refine ⟨hcopy, fun h => ?_⟩
  rcases h [some .notANumber] with hkept | ⟨reason, hrefused⟩
  · rw [hcopy] at hkept
    cases hkept
  · rw [hcopy] at hrefused
    cases hrefused

end Variation.Codec
