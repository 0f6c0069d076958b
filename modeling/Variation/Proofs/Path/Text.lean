import Mathlib.Data.List.Forall2
import Variation.Path.Reading
import Variation.Proofs.Text.Numeral

/-!
# Paths and their texts

A key is written as it stands, so a text gives a path back only if no key of it can be taken for
something else: a key with a point falls apart, a key that starts with a bracket is taken for a
position, an empty key leaves nothing between two points, and a single blank key leaves a text in
which there is nothing to read. `Legible` says that none of this happens.

The legible paths are the paths that have a text at all (`legible_of_parse`), and each of them is
read back from the text that it is shown with (`parse_text_of_legible`).
-/

namespace Variation

open Text (pieces isBlank isAllBlank)

/-- A segment that stands for itself between two points. -/
def Segment.Legible : Segment → Prop
  | .key name => name ≠ "" ∧ '.' ∉ name.toList ∧ name.toList.head? ≠ some '['
  | .index _ => True

namespace KeyPath

/-- A path that can be told from its text. -/
def Legible (path : KeyPath) : Prop :=
  (∀ segment ∈ path.segments, segment.Legible) ∧
  ∀ name, path.segments = [.key name] → isAllBlank name = false

/-! ## One piece -/

theorem position?_toDigits (position : UInt64) :
    position? (Nat.toDigits 10 position.toNat) = some position := by
  have hbound : position.toNat < 2 ^ 64 := position.toNat_lt
  simp only [position?, Text.Numeral.natural?_toDigits]
  rw [if_pos hbound, UInt64.ofNat_toNat]

theorem toList_text_index (position : UInt64) : (Segment.index position).text.toList
    = '[' :: (Nat.toDigits 10 position.toNat ++ [']']) := by
  simp [Segment.text]

theorem point_not_mem_text {segment : Segment} (h : segment.Legible) :
    '.' ∉ segment.text.toList := by
  cases segment with
  | key name => exact h.2.1
  | index position =>
    rw [toList_text_index]
    intro hpoint
    have hdigit : '.' ∈ Nat.toDigits 10 position.toNat := by simpa using hpoint
    obtain ⟨d, hd, hchar⟩ := Text.Numeral.mem_toDigits hdigit
    revert d
    decide

/-- A piece without a bracket in front is a key. -/
theorem segmentOf_key {piece : List Char} (hne : piece ≠ []) (h : piece.head? ≠ some '[') :
    segmentOf piece = .ok (.key (String.ofList piece)) := by
  fun_cases segmentOf piece <;> simp_all

theorem segmentOf_text {segment : Segment} (h : segment.Legible) :
    segmentOf segment.text.toList = .ok segment := by
  cases segment with
  | key name =>
    obtain ⟨hne, -, hhead⟩ := h
    have hlist : name.toList ≠ [] := fun heq => hne (String.toList_inj.mp heq)
    rw [Segment.text, segmentOf_key hlist hhead, String.ofList_toList]
  | index position =>
    rw [toList_text_index]
    simp [segmentOf, position?_toDigits]

theorem legible_of_segmentOf {piece : List Char} {segment : Segment} (hpoint : '.' ∉ piece)
    (h : segmentOf piece = .ok segment) : segment.Legible := by
  revert h
  fun_cases segmentOf piece with
  | case1 => intro h; cases h
  | case2 inner hclosed n hposition => intro h; cases h; trivial
  | case3 inner hclosed hnone => intro h; cases h
  | case4 inner hopen => intro h; cases h
  | case5 piece hne hhead =>
    intro h
    cases h
    have hbracket : piece.head? ≠ some '[' := by
      intro hfirst
      obtain ⟨rest, rfl⟩ := List.head?_eq_some_iff.mp hfirst
      exact hhead rest rfl
    refine ⟨?_, ?_, ?_⟩
    · simpa using hne
    · rwa [String.toList_ofList]
    · rwa [String.toList_ofList]

theorem toList_of_segmentOf {piece : List Char} {name : String}
    (h : segmentOf piece = .ok (.key name)) : name.toList = piece := by
  revert h
  fun_cases segmentOf piece with
  | case5 piece hne hhead => intro h; cases h; exact String.toList_ofList
  | _ => intro h; cases h

/-! ## All pieces -/

theorem segmentsOf_eq_ok {texts : List (List Char)} {segments : List Segment} :
    segmentsOf texts = .ok segments ↔
      List.Forall₂ (fun piece segment => segmentOf piece = .ok segment) texts segments := by
  induction texts generalizing segments with
  | nil => cases segments <;> simp [segmentsOf]
  | cons piece rest ih =>
    simp only [segmentsOf]
    cases hpiece : segmentOf piece with
    | error fault => cases segments <;> simp [hpiece]
    | ok segment =>
      cases hrest : segmentsOf rest with
      | error fault => cases segments <;> simp [hpiece, ← ih, hrest]
      | ok behind => cases segments <;> simp [hpiece, ← ih, hrest]

/-- What a text that is read holds: a piece for each segment. -/
theorem parse_eq_ok {input : String} {path : KeyPath} :
    parse input = .ok path ↔ isAllBlank input = false ∧
      List.Forall₂ (fun piece segment => segmentOf piece = .ok segment)
        (pieces '.' input.toList) path.segments := by
  rw [← segmentsOf_eq_ok, parse]
  cases isAllBlank input with
  | true => simp
  | false =>
    cases hsegments : segmentsOf (pieces '.' input.toList) with
    | error fault => simp
    | ok segments =>
      cases segments with
      | nil => simp [ofSegments?, segments]
      | cons first rest =>
        simp only [ofSegments?, segments, Bool.false_eq_true, if_false, true_and]
        constructor
        · intro h
          cases h
          rfl
        · intro h
          cases h
          rfl

theorem toList_textOf (segments : List Segment) :
    (textOf segments).toList = ['.'].intercalate (segments.map fun segment => segment.text.toList) := by
  rw [textOf, String.toList_intercalate, List.map_map]
  rfl

/-- The text of segments is cut between them again. -/
theorem pieces_textOf {segments : List Segment} (hne : segments ≠ [])
    (h : ∀ segment ∈ segments, segment.Legible) :
    pieces '.' (textOf segments).toList = segments.map fun segment => segment.text.toList := by
  rw [toList_textOf]
  refine Text.pieces_intercalate (by simpa using hne) ?_
  intro text member
  obtain ⟨segment, hsegment, rfl⟩ := List.mem_map.mp member
  exact point_not_mem_text (h segment hsegment)

/-- A text with a point or a bracket in it is not blank; one segment that is a key is the key. -/
theorem not_isAllBlank_text {path : KeyPath} (h : path.Legible) : isAllBlank path.text = false := by
  obtain ⟨first, rest⟩ := path
  rw [text, isAllBlank, toList_textOf]
  cases rest with
  | nil =>
    cases first with
    | key name => simpa [segments, Segment.text, isAllBlank] using h.2 name rfl
    | index position =>
      simp only [segments, List.map_cons, List.map_nil, List.intercalate_singleton,
        toList_text_index, List.all_cons]
      rfl
  | cons second rest =>
    have hpoint : isBlank '.' = false := by decide
    simp [segments, List.intercalate_cons_cons, hpoint]

/-! ## The two ways -/

theorem legible_of_parse {input : String} {path : KeyPath} (h : parse input = .ok path) :
    path.Legible := by
  obtain ⟨hblank, hpieces⟩ := parse_eq_ok.mp h
  refine ⟨fun segment member => ?_, fun name hsingle => ?_⟩
  · obtain ⟨i, hi, rfl⟩ := List.getElem_of_mem member
    have hlength := hpieces.length_eq
    have hpoint := Text.not_mem_of_mem_pieces (List.getElem_mem (hlength ▸ hi))
    exact legible_of_segmentOf hpoint (hpieces.get _ hi)
  · -- One key is the whole text, since a text is its pieces with points between them.
    rw [hsingle, List.forall₂_cons_right_iff] at hpieces
    obtain ⟨piece, rest, hpiece, hrest, hcut⟩ := hpieces
    rw [List.forall₂_nil_right_iff.mp hrest] at hcut
    have hwhole : input.toList = piece := by
      rw [← Text.intercalate_pieces '.' input.toList, hcut, List.intercalate_singleton]
    rw [isAllBlank, toList_of_segmentOf hpiece, ← hwhole]
    exact hblank

theorem parse_text_of_legible {path : KeyPath} (h : path.Legible) : parse path.text = .ok path := by
  refine parse_eq_ok.mpr ⟨not_isAllBlank_text h, ?_⟩
  rw [text, pieces_textOf (by simp [segments]) h.1, List.forall₂_map_left_iff, List.forall₂_same]
  exact fun segment member => segmentOf_text (h.1 segment member)

/-- **Texts of paths.** A path is read back from its text if and only if it is legible. What any text
is read as is legible, so it is read back from the text that it is shown with; and no two paths that
have been read are shown alike. -/
theorem parse_text_iff_legible :
    (∀ path : KeyPath, parse path.text = .ok path ↔ path.Legible) ∧
    (∀ (input : String) (path : KeyPath), parse input = .ok path →
      path.Legible ∧ parse path.text = .ok path) ∧
    (∀ (input input' : String) (path path' : KeyPath), parse input = .ok path →
      parse input' = .ok path' → path.text = path'.text → path = path') := by
  refine ⟨fun path => ⟨legible_of_parse, parse_text_of_legible⟩, fun input path h => ?_,
    fun input input' path path' h h' hsame => ?_⟩
  · have hlegible := legible_of_parse h
    exact ⟨hlegible, parse_text_of_legible hlegible⟩
  · have hback := parse_text_of_legible (legible_of_parse h)
    rw [hsame, parse_text_of_legible (legible_of_parse h')] at hback
    cases hback
    rfl

/-- A position may be written with a plus sign and zeros in front, and a bracket may close a key; the
path is shown without the first two and read back. A key with a point in it is shown as two. -/
theorem parse_text_iff_legible_pools :
    let pool : KeyPath := ⟨.key "node pools", [.index 1, .key "name]"]⟩
    let pointed : KeyPath := ⟨.key "node.pools", []⟩
    parse "node pools.[+01].name]" = .ok pool ∧ pool.text = "node pools.[1].name]" ∧
      parse pool.text = .ok pool ∧ parse pointed.text ≠ .ok pointed ∧
      parse pointed.text = .ok ⟨.key "node", [.key "pools"]⟩ := by
  intro pool pointed
  obtain ⟨hiff, hread, -⟩ := parse_text_iff_legible
  have hparsed : parse "node pools.[+01].name]" = .ok pool := by rfl
  have hpointed : pointed.text = "node.pools" := by rfl
  refine ⟨hparsed, by rfl, (hread _ pool hparsed).2, ?_, ?_⟩
  · rw [Ne, hiff pointed]
    rintro ⟨hkeys, -⟩
    have hpoint := (hkeys (.key "node.pools") List.mem_cons_self).2.1
    exact hpoint (by decide)
  · rw [hpointed]
    rfl

end KeyPath

end Variation
