import Variation.Proofs.Path.Text

/-!
# The syntax of key paths

Which texts are read as a path, as which one, and what the error says about the others, without the
reader: `Cut` says what the pieces of a text are, `StandsFor` which segment a piece stands for and
`Malformed` what is wrong with a piece that stands for none. A piece is always one of the two
(`segmentOf_eq_ok_iff`, `segmentOf_eq_error_iff`), and the first malformed one decides the error
(`segmentsOf_eq_error`).

Only the numeral of a position is not shown as it was written: `ShownAs` allows it to lose a plus
sign and the zeros in front.
-/

namespace Variation.KeyPath

open Text (pieces isBlank isAllBlank)
open Text.Numeral (Digits Signed Plain)

/-- The pieces of a text: no point in any of them, and one point between two. -/
structure Cut (input : String) (texts : List (List Char)) : Prop where
  nonempty : texts ≠ []
  points : ∀ piece ∈ texts, '.' ∉ piece
  joined : ['.'].intercalate texts = input.toList

/-- A piece and the segment that it stands for. -/
inductive StandsFor : List Char → Segment → Prop where
  | key {piece : List Char} (hne : piece ≠ []) (hhead : piece.head? ≠ some '[') :
      StandsFor piece (.key (String.ofList piece))
  | index {inner digits : List Char} (hdigits : Signed inner digits)
      (hbound : Nat.ofDigitChars 10 digits 0 < 2 ^ 64) :
      StandsFor ('[' :: (inner ++ [']'])) (.index (UInt64.ofNat (Nat.ofDigitChars 10 digits 0)))

/-- A piece that stands for some segment. -/
def WellFormed (piece : List Char) : Prop :=
  ∃ segment, StandsFor piece segment

/-- A piece that stands for no segment, and why. -/
inductive Malformed : List Char → PieceFault → Prop where
  | empty : Malformed [] .empty
  | unterminated {inner : List Char} (hopen : inner.getLast? ≠ some ']') :
      Malformed ('[' :: inner) .unterminated
  | notIndex {inner : List Char} (hnone : ∀ digits, Signed inner digits →
      2 ^ 64 ≤ Nat.ofDigitChars 10 digits 0) : Malformed ('[' :: (inner ++ [']'])) .notIndex

/-- A piece and how it is shown once it has been read: a key as it stands, and a position by the
digits of the same number without a plus sign or a zero in front of them. -/
inductive ShownAs : List Char → List Char → Prop where
  | key {piece : List Char} (hhead : piece.head? ≠ some '[') : ShownAs piece piece
  | index {inner digits plain : List Char} (hdigits : Signed inner digits) (hplain : Plain plain)
      (hsame : Nat.ofDigitChars 10 plain 0 = Nat.ofDigitChars 10 digits 0) :
      ShownAs ('[' :: (inner ++ [']'])) ('[' :: (plain ++ [']']))

/-! ## Pieces -/

theorem cut_pieces (input : String) : Cut input (pieces '.' input.toList) where
  nonempty := Text.pieces_ne_nil '.' input.toList
  points _ member := Text.not_mem_of_mem_pieces member
  joined := Text.intercalate_pieces '.' input.toList

/-- There is only one way to cut a text. -/
theorem Cut.eq_pieces {input : String} {texts : List (List Char)} (h : Cut input texts) :
    texts = pieces '.' input.toList := by
  rw [← h.joined, Text.pieces_intercalate h.nonempty h.points]

/-! ## One piece -/

theorem position?_eq_some {inner : List Char} {position : UInt64} :
    position? inner = some position ↔ ∃ digits, Signed inner digits ∧
      Nat.ofDigitChars 10 digits 0 < 2 ^ 64 ∧
      UInt64.ofNat (Nat.ofDigitChars 10 digits 0) = position := by
  unfold position?
  constructor
  · intro h
    cases hnatural : Text.Numeral.natural? 10 inner with
    | none =>
      rw [hnatural] at h
      cases h
    | some n =>
      obtain ⟨digits, hdigits, rfl⟩ := Text.Numeral.natural?_ten_eq_some.mp hnatural
      simp only [hnatural, Option.ite_none_right_eq_some, Option.some.injEq] at h
      exact ⟨digits, hdigits, h⟩
  · rintro ⟨digits, hdigits, hbound, rfl⟩
    simp only [Text.Numeral.natural?_ten_eq_some.mpr ⟨digits, hdigits, rfl⟩, if_pos hbound]

theorem position?_eq_none {inner : List Char} : position? inner = none ↔
    ∀ digits, Signed inner digits → 2 ^ 64 ≤ Nat.ofDigitChars 10 digits 0 := by
  constructor
  · intro h digits hdigits
    by_contra hsmall
    have hsome := position?_eq_some.mpr ⟨digits, hdigits, Nat.not_le.mp hsmall, rfl⟩
    rw [h] at hsome
    cases hsome
  · intro h
    cases hposition : position? inner with
    | none => rfl
    | some position =>
      obtain ⟨digits, hdigits, hbound, -⟩ := position?_eq_some.mp hposition
      exact absurd hbound (Nat.not_lt.mpr (h digits hdigits))

/-- What is read behind an opening bracket, when the closing one stands at the end. -/
theorem segmentOf_bracket (inner : List Char) : segmentOf ('[' :: (inner ++ [']'])) =
    match position? inner with
    | some position => .ok (.index position)
    | none => .error .notIndex := by
  cases h : position? inner with
  | none => simp [segmentOf, h]
  | some position => simp [segmentOf, h]

theorem segmentOf_of_standsFor {piece : List Char} {segment : Segment}
    (h : StandsFor piece segment) : segmentOf piece = .ok segment := by
  cases h with
  | key hne hhead => exact segmentOf_key hne hhead
  | index hdigits hbound =>
    rw [segmentOf_bracket, position?_eq_some.mpr ⟨_, hdigits, hbound, rfl⟩]

theorem segmentOf_of_malformed {piece : List Char} {fault : PieceFault}
    (h : Malformed piece fault) : segmentOf piece = .error fault := by
  cases h with
  | empty => rfl
  | unterminated hopen => exact if_neg hopen
  | notIndex hnone => rw [segmentOf_bracket, position?_eq_none.mpr hnone]

/-- No piece is left over: it stands for a segment, or something is wrong with it. -/
theorem wellFormed_or_malformed (piece : List Char) :
    WellFormed piece ∨ ∃ fault, Malformed piece fault := by
  by_cases hempty : piece = []
  · exact .inr ⟨.empty, hempty ▸ Malformed.empty⟩
  by_cases hhead : piece.head? = some '['
  · obtain ⟨inner, rfl⟩ := List.head?_eq_some_iff.mp hhead
    by_cases hclosed : inner.getLast? = some ']'
    · obtain ⟨within, rfl⟩ := List.getLast?_eq_some_iff.mp hclosed
      cases hposition : position? within with
      | none => exact .inr ⟨_, .notIndex (position?_eq_none.mp hposition)⟩
      | some position =>
        obtain ⟨digits, hdigits, hbound, -⟩ := position?_eq_some.mp hposition
        exact .inl ⟨_, .index hdigits hbound⟩
    · exact .inr ⟨_, .unterminated hclosed⟩
  · exact .inl ⟨_, .key hempty hhead⟩

theorem segmentOf_eq_ok_iff {piece : List Char} {segment : Segment} :
    segmentOf piece = .ok segment ↔ StandsFor piece segment := by
  constructor
  · intro h
    obtain ⟨other, hother⟩ | ⟨fault, hfault⟩ := wellFormed_or_malformed piece
    · have hsame := segmentOf_of_standsFor hother
      rw [h] at hsame
      cases hsame
      exact hother
    · have hfails := segmentOf_of_malformed hfault
      rw [h] at hfails
      cases hfails
  · exact segmentOf_of_standsFor

theorem segmentOf_eq_error_iff {piece : List Char} {fault : PieceFault} :
    segmentOf piece = .error fault ↔ Malformed piece fault := by
  constructor
  · intro h
    obtain ⟨segment, hsegment⟩ | ⟨other, hother⟩ := wellFormed_or_malformed piece
    · have hreads := segmentOf_of_standsFor hsegment
      rw [h] at hreads
      cases hreads
    · have hsame := segmentOf_of_malformed hother
      rw [h] at hsame
      cases hsame
      exact hother
  · exact segmentOf_of_malformed

theorem StandsFor.shownAs {piece : List Char} {segment : Segment} (h : StandsFor piece segment) :
    ShownAs piece segment.text.toList := by
  cases h with
  | key hne hhead =>
    rw [Segment.text, String.toList_ofList]
    exact .key hhead
  | @index inner digits hdigits hbound =>
    rw [toList_text_index, UInt64.toNat_ofNat_of_lt' hbound]
    exact .index hdigits (Text.Numeral.plain_toDigits _) Nat.ofDigitChars_ten_toDigits

/-! ## All pieces -/

/-- Reading stops at the first piece that is malformed, with what is wrong with it. -/
theorem segmentsOf_eq_error {texts : List (List Char)} {fault : PieceFault} :
    segmentsOf texts = .error fault ↔ ∃ before piece behind, texts = before ++ piece :: behind ∧
      (∀ front ∈ before, WellFormed front) ∧ Malformed piece fault := by
  induction texts with
  | nil => simp [segmentsOf]
  | cons first rest ih =>
    simp only [List.cons_eq_append_iff]
    constructor
    · intro h
      simp only [segmentsOf] at h
      cases hfirst : segmentOf first with
      | error other =>
        rw [hfirst] at h
        cases h
        exact ⟨[], first, rest, .inl ⟨rfl, rfl⟩, by simp, segmentOf_eq_error_iff.mp hfirst⟩
      | ok segment =>
        have hrest : segmentsOf rest = .error fault := by
          cases hrest : segmentsOf rest with
          | error other => simpa [hfirst, hrest] using h
          | ok segments => simp [hfirst, hrest] at h
        obtain ⟨before, piece, behind, rfl, hbefore, hpiece⟩ := ih.mp hrest
        refine ⟨first :: before, piece, behind, .inr ⟨before, rfl, rfl⟩, ?_, hpiece⟩
        exact List.forall_mem_cons.mpr ⟨⟨segment, segmentOf_eq_ok_iff.mp hfirst⟩, hbefore⟩
    · rintro ⟨before, piece, behind, ⟨rfl, hsame⟩ | ⟨front, rfl, rfl⟩, hbefore, hpiece⟩
      · cases hsame
        simp only [segmentsOf, segmentOf_of_malformed hpiece]
      · obtain ⟨⟨segment, hsegment⟩, hfront⟩ := List.forall_mem_cons.mp hbefore
        have hrest := ih.mpr ⟨front, piece, behind, rfl, hfront, hpiece⟩
        simp only [segmentsOf, segmentOf_of_standsFor hsegment, hrest]

theorem isAllBlank_iff {input : String} :
    isAllBlank input = true ↔ ∀ c ∈ input.toList, isBlank c = true := by
  rw [isAllBlank, List.all_eq_true]

/-- A text that is not blank has pieces, so only a malformed one of them keeps it from being read. -/
theorem parse_eq_error_iff {input : String} (hblank : isAllBlank input = false)
    {error : PathError} : parse input = .error error ↔
      ∃ before piece behind fault, pieces '.' input.toList = before ++ piece :: behind ∧
        (∀ front ∈ before, WellFormed front) ∧ Malformed piece fault ∧
        error = .malformed input fault := by
  have hsegments : parse input = .error error ↔
      ∃ fault, segmentsOf (pieces '.' input.toList) = .error fault ∧
        error = .malformed input fault := by
    rw [parse, hblank, if_neg Bool.false_ne_true]
    cases hsegments : segmentsOf (pieces '.' input.toList) with
    | error fault => simp [eq_comm]
    | ok segments =>
      have hlength := (segmentsOf_eq_ok.mp hsegments).length_eq
      cases segments with
      | nil => exact absurd (List.length_eq_zero_iff.mp hlength) (Text.pieces_ne_nil _ _)
      | cons first rest => simp [ofSegments?]
  rw [hsegments]
  constructor
  · rintro ⟨fault, hfails, rfl⟩
    obtain ⟨before, piece, behind, hpieces, hbefore, hpiece⟩ := segmentsOf_eq_error.mp hfails
    exact ⟨before, piece, behind, fault, hpieces, hbefore, hpiece, rfl⟩
  · rintro ⟨before, piece, behind, fault, hpieces, hbefore, hpiece, rfl⟩
    exact ⟨fault, segmentsOf_eq_error.mpr ⟨before, piece, behind, hpieces, hbefore, hpiece⟩, rfl⟩

theorem parse_eq_empty_iff {input : String} :
    parse input = .error .empty ↔ ∀ c ∈ input.toList, isBlank c = true := by
  rw [← isAllBlank_iff]
  by_cases hblank : isAllBlank input = true
  · refine iff_of_true ?_ hblank
    rw [parse, if_pos hblank]
  · refine iff_of_false ?_ hblank
    intro h
    obtain ⟨before, piece, behind, fault, -, -, -, hfault⟩ :=
      (parse_eq_error_iff (Bool.eq_false_iff.mpr hblank)).mp h
    cases hfault

theorem WellFormed.not_malformed {piece : List Char} {fault : PieceFault} (h : WellFormed piece) :
    ¬ Malformed piece fault := by
  intro hfault
  obtain ⟨segment, hsegment⟩ := h
  have hreads := segmentOf_of_standsFor hsegment
  rw [segmentOf_of_malformed hfault] at hreads
  cases hreads

theorem standsFor_of_parse {input : String} {path : KeyPath} (h : parse input = .ok path) :
    List.Forall₂ StandsFor (pieces '.' input.toList) path.segments :=
  (parse_eq_ok.mp h).2.imp fun _ _ hpiece => segmentOf_eq_ok_iff.mp hpiece

/-- **The syntax of key paths.** A text is refused as empty if and only if there is nothing but
blanks in it. Every other text is read if and only if each of its pieces is well formed; the path has
one segment for each piece, in their order, and is shown as the text except for the numerals of the
positions. If a piece is malformed, the first one that is decides the error. -/
theorem parse_follows_pieces (input : String) :
    (parse input = .error .empty ↔ ∀ c ∈ input.toList, isBlank c = true) ∧
    (∃ texts, Cut input texts) ∧
    ∀ texts, Cut input texts → (∃ c ∈ input.toList, isBlank c = false) →
      ((∃ path, parse input = .ok path) ↔ ∀ piece ∈ texts, WellFormed piece) ∧
      (∀ path, parse input = .ok path →
        List.Forall₂ StandsFor texts path.segments ∧
        ∃ shown, List.Forall₂ ShownAs texts shown ∧
          path.text.toList = ['.'].intercalate shown) ∧
      ∀ error, parse input = .error error ↔
        ∃ before piece behind fault, texts = before ++ piece :: behind ∧
          (∀ front ∈ before, WellFormed front) ∧ Malformed piece fault ∧
          error = .malformed input fault := by
  refine ⟨parse_eq_empty_iff, ⟨_, cut_pieces input⟩, ?_⟩
  rintro texts hcut ⟨c, member, hvisible⟩
  rw [hcut.eq_pieces]
  have hblank : isAllBlank input = false := by
    rw [isAllBlank, List.all_eq_false]
    exact ⟨c, member, Bool.not_eq_true _ ▸ hvisible⟩
  refine ⟨⟨?_, fun hwell => ?_⟩, fun path h => ⟨standsFor_of_parse h, ?_⟩,
    fun error => parse_eq_error_iff hblank⟩
  · rintro ⟨path, h⟩ piece hpiece
    obtain ⟨i, hi, rfl⟩ := List.getElem_of_mem hpiece
    have hsegments := standsFor_of_parse h
    exact ⟨_, hsegments.get hi (hsegments.length_eq ▸ hi)⟩
  · cases h : parse input with
    | ok path => exact ⟨path, rfl⟩
    | error error =>
      obtain ⟨before, piece, behind, fault, hpieces, -, hpiece, -⟩ :=
        (parse_eq_error_iff hblank).mp h
      have hmember : piece ∈ pieces '.' input.toList := by simp [hpieces]
      exact absurd hpiece (hwell piece hmember).not_malformed
  · refine ⟨path.segments.map fun segment => segment.text.toList, ?_, ?_⟩
    · rw [List.forall₂_map_right_iff]
      exact (standsFor_of_parse h).imp fun _ _ hpiece => hpiece.shownAs
    · rw [text, toList_textOf]

/-- A plus sign and zeros in front are read and not shown; the largest position is one below two to
the power 64, and of two malformed pieces the error names the first. -/
theorem parse_follows_pieces_pools :
    let input := "node pools.[+007].name"
    let texts := ["node pools".toList, "[+007]".toList, "name".toList]
    let beyond := "[18446744073709551615].[18446744073709551616]..name"
    let rejected := ["[18446744073709551615]".toList, "[18446744073709551616]".toList, [],
      "name".toList]
    Cut input texts ∧ Cut beyond rejected ∧
      (∃ path, parse input = .ok path ∧ List.Forall₂ StandsFor texts path.segments ∧
        path.text = "node pools.[7].name") ∧
      parse beyond = .error (.malformed beyond .notIndex) := by
  intro input texts beyond rejected
  have hcut : Cut input texts := ⟨by decide, by decide, by decide⟩
  have hrejected : Cut beyond rejected := ⟨by decide, by decide, by decide⟩
  refine ⟨hcut, hrejected, ?_, ?_⟩
  · have hpath : parse "node pools.[+007].name"
        = .ok ⟨.key "node pools", [.index 7, .key "name"]⟩ := by rfl
    obtain ⟨-, -, hread⟩ := parse_follows_pieces input
    obtain ⟨-, hsegments, -⟩ := hread texts hcut ⟨'n', by decide, by decide⟩
    exact ⟨_, hpath, (hsegments _ hpath).1, by rfl⟩
  · obtain ⟨-, -, hread⟩ := parse_follows_pieces beyond
    obtain ⟨-, -, herror⟩ := hread rejected hrejected ⟨'[', by decide, by decide⟩
    refine (herror _).mpr ⟨["[18446744073709551615]".toList], "[18446744073709551616]".toList,
      [[], "name".toList], .notIndex, by rfl, ?_, segmentOf_eq_error_iff.mp (by rfl), rfl⟩
    intro front member
    rw [List.mem_singleton.mp member]
    exact ⟨.index 18446744073709551615, segmentOf_eq_ok_iff.mp (by rfl)⟩

end Variation.KeyPath
