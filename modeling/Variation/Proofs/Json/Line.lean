import Variation.Json.Writer

/-!
# JSON on one line

A document that is written without line ends between its tokens has none at all: a string writes a
line end as an escape, and numbers are written in digits, signs, points and the letter of the
exponent. This holds of every document, floating point numbers and all.
-/

namespace Variation

namespace Decimal.Layout

theorem newline_not_mem_toDigits (n : Nat) : '\n' ∉ Nat.toDigits 10 n := by
  intro h
  have hdigit : Char.isDigit '\n' = true := Nat.isDigit_of_mem_toDigits (by decide) (by decide) h
  exact absurd hdigit (by decide)

/-- Zeros and a point are all that is put to the digits. -/
theorem newline_not_mem_plain {digits : List Char} (h : '\n' ∉ digits) (point : Int) :
    '\n' ∉ plain digits point := by
  unfold plain
  split
  · simp [List.mem_replicate, h]
  · split
    · simp [List.mem_replicate, h]
    · have hfront : '\n' ∉ digits.take point.toNat := fun member => h (List.mem_of_mem_take member)
      have hback : '\n' ∉ digits.drop point.toNat := fun member => h (List.mem_of_mem_drop member)
      simp [hfront, hback]

/-- A point is put between the digits, and behind them a letter, a sign and the exponent. -/
theorem newline_not_mem_scientific (layout : Layout) {digits : List Char} (h : '\n' ∉ digits)
    (exponent : Int) : '\n' ∉ layout.scientific digits exponent := by
  have hfront : '\n' ∉ digits.take 1 := fun member => h (List.mem_of_mem_take member)
  have hback : '\n' ∉ digits.drop 1 := fun member => h (List.mem_of_mem_drop member)
  have hexponent := newline_not_mem_toDigits exponent.natAbs
  simp only [scientific]
  refine List.not_mem_append (List.not_mem_append (List.not_mem_append hfront ?_) ?_) hexponent
  · split
    · decide
    · simpa using hback
  · split
    · decide
    · split <;> decide

/-- A number has no line end, in whichever way it is laid out. -/
theorem newline_not_mem_render (layout : Layout) (x : Binary64) : '\n' ∉ layout.render x := by
  have hsign : '\n' ∉ if x.negative then ['-'] else [] := by
    split <;> decide
  have hdigits := newline_not_mem_toDigits x.shortest.digits
  simp only [render]
  by_cases hzero : x.steps = 0
  · rw [if_pos hzero]
    exact List.not_mem_append hsign (by decide)
  · rw [if_neg hzero]
    split
    · exact List.not_mem_append hsign (newline_not_mem_plain hdigits _)
    · exact List.not_mem_append hsign (newline_not_mem_scientific layout hdigits _)

end Decimal.Layout

namespace Json

/-- No line ends between tokens. -/
structure Style.OneLine (style : Style) : Prop where
  gap : ∀ depth, '\n' ∉ style.gap depth
  afterColon : '\n' ∉ style.afterColon

theorem Style.compact_oneLine : Style.compact.OneLine := ⟨by simp [compact], by simp [compact]⟩

theorem newline_not_mem_unitEscape (n : Nat) : '\n' ∉ unitEscape n := by
  have digit : ∀ m, '\n' ≠ hexDigit m := by
    intro m
    have all : ∀ d < 16, '\n' ≠ d.digitChar := by decide
    exact all (m % 16) (Nat.mod_lt m (by decide))
  simp [unitEscape, digit]

/-- A line end is written as an escape, and no escape has one in it. -/
theorem newline_not_mem_escape (style : Style) (c : Char) : '\n' ∉ style.escape c := by
  unfold Style.escape
  split
  case h_8 hquote hbackslash hb hf hn hr ht =>
    split
    · unfold unicodeEscape
      split <;> simp [newline_not_mem_unitEscape]
    · simp
      exact fun h => hn h.symm
  all_goals decide

theorem newline_not_mem_string (style : Style) (s : String) : '\n' ∉ style.string s := by
  simp [Style.string, newline_not_mem_escape]

section Write

variable {style : Style}

mutual
/-- A document has no line end at whatever depth it is written. -/
theorem newline_not_mem_write (h : style.OneLine) :
    ∀ (document : Document) (depth : Nat), '\n' ∉ style.write depth document
  | .null, _ | .boolean true, _ | .boolean false, _ | .sequence [], _ | .mapping [], _ => by
    simp [Style.write]
  | .whole n, _ => by
    rw [Style.write, Text.Numeral.decimal]
    split
    · simp [Decimal.Layout.newline_not_mem_toDigits]
    · exact Decimal.Layout.newline_not_mem_toDigits _
  | .real x, _ => Decimal.Layout.newline_not_mem_render realLayout x
  | .text s, _ => newline_not_mem_string style s
  | .sequence (first :: rest), depth => by
    simp [Style.write, h.gap, newline_not_mem_write h first, newline_not_mem_writeItems h rest]
  | .mapping ((key, first) :: rest), depth => by
    simp [Style.write, h.gap, h.afterColon, newline_not_mem_string,
      newline_not_mem_write h first, newline_not_mem_writeEntries h rest]

theorem newline_not_mem_writeItems (h : style.OneLine) :
    ∀ (items : List Document) (depth : Nat), '\n' ∉ style.writeItems depth items
  | [], _ => by simp [Style.writeItems]
  | item :: rest, depth => by
    simp [Style.writeItems, h.gap, newline_not_mem_write h item, newline_not_mem_writeItems h rest]

theorem newline_not_mem_writeEntries (h : style.OneLine) :
    ∀ (entries : List (String × Document)) (depth : Nat), '\n' ∉ style.writeEntries depth entries
  | [], _ => by simp [Style.writeEntries]
  | (key, first) :: rest, depth => by
    simp [Style.writeEntries, h.gap, h.afterColon, newline_not_mem_string,
      newline_not_mem_write h first, newline_not_mem_writeEntries h rest]
end

/-- The text of a document on one line is one line. -/
theorem newline_not_mem_render (h : style.OneLine) (document : Document) :
    '\n' ∉ (render style document).toList := by
  rw [render, String.toList_ofList]
  exact newline_not_mem_write h document 0

end Write

end Json

end Variation
