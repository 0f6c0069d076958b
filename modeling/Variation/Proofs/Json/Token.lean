import Variation.Json.Reader
import Variation.Json.Writer
import Variation.Proofs.Text.Numeral

/-!
# Tokens of JSON that read back

A whole number and a string are read back from what the writer makes of them, whatever text stands
behind. A number ends where its digits do, so what stands behind it must not go on with the number
(`Breaks`); a string ends at its closing quote. The steps that a reader of strings is given are as
many as there are characters left, and each takes one character of the string.
-/

namespace Variation.Json

open Text.Numeral

/-! ## Whole numbers -/

/-- A text that cannot go on with a number in front of it. -/
def Breaks (text : List Char) : Prop :=
  ∀ c rest, text = c :: rest → isDigit c = false ∧ c ≠ '.' ∧ c ≠ 'e' ∧ c ≠ 'E'

theorem breaks_cons {c : Char} {text : List Char}
    (h : isDigit c = false ∧ c ≠ '.' ∧ c ≠ 'e' ∧ c ≠ 'E') : Breaks (c :: text) := by
  intro c' rest hc
  cases hc
  exact h

theorem isDigit_digitChar {d : Nat} (h : d < 10) : isDigit d.digitChar = true := by
  rw [isDigit, digit?_digitChar (by decide) h]
  rfl

theorem extend_digitChar {d significand taken : Nat} {text : List Char} (h : d < 10)
    (hfits : significand * 10 + d < 2 ^ 64) :
    DigitRun.extend significand taken (d.digitChar :: text)
      = DigitRun.extend (significand * 10 + d) (taken + 1) text := by
  rw [DigitRun.extend, digit?_digitChar (by decide) h]
  exact if_pos hfits

/-- All digits of a number are taken: what they come to on the way is never more than the number. -/
theorem extend_toDigits {n : Nat} (hn : n < 2 ^ 64) (text : List Char) :
    ∃ taken, DigitRun.extend 0 0 (Nat.toDigits 10 n ++ text) = DigitRun.extend n taken text := by
  induction n using Nat.strongRecOn generalizing text with
  | ind n ih =>
    by_cases hsmall : n < 10
    · rw [Nat.toDigits_of_lt_base hsmall, List.singleton_append]
      rw [extend_digitChar hsmall (by omega)]
      exact ⟨1, by simp⟩
    · obtain ⟨taken, hfront⟩ := ih (n / 10) (by omega) (by omega) ((n % 10).digitChar :: text)
      refine ⟨taken + 1, ?_⟩
      rw [Nat.toDigits_of_base_le (by decide) (Nat.not_lt.mp hsmall), List.append_assoc,
        List.singleton_append, hfront, extend_digitChar (by omega) (by omega)]
      congr 1
      omega

/-- A run of digits ends where the text does not go on with it. -/
theorem extend_of_breaks {text : List Char} (h : Breaks text) (significand taken : Nat) :
    DigitRun.extend significand taken text = ⟨significand, taken, text⟩ := by
  cases text with
  | nil => rfl
  | cons c rest =>
    have hc : isDigit c = false := (h c rest rfl).1
    rw [isDigit, Option.isSome_eq_false_iff, Option.isNone_iff_eq_none] at hc
    rw [DigitRun.extend, hc]

/-- No digit stands in front of digits in vain. -/
theorem not_leading_zero {n : Nat} {c : Char} {digits text : List Char} (htext : Breaks text)
    (h : Nat.toDigits 10 n = c :: digits) :
    (decide (c = '0') && (digits ++ text).head?.elim false isDigit) = false := by
  by_cases hc : c = '0'
  · subst hc
    have hzero := eq_zero_of_toDigits h
    subst hzero
    cases h
    cases text with
    | nil => rfl
    | cons c rest => simpa using (htext c rest rfl).1
  · simp [hc]

theorem unsignedNumber_toDigits {n : Nat} (hn : n < 2 ^ 64) {text : List Char}
    (htext : Breaks text) (negative : Bool) :
    unsignedNumber negative (Nat.toDigits 10 n ++ text) = wholeOrReal negative n text := by
  obtain ⟨taken, hrun⟩ := extend_toDigits hn text
  rw [extend_of_breaks htext] at hrun
  cases hdigits : Nat.toDigits 10 n with
  | nil => exact absurd hdigits Nat.toDigits_ne_nil
  | cons c digits =>
    obtain ⟨d, hd, rfl⟩ := mem_toDigits (hdigits ▸ List.mem_cons_self : c ∈ Nat.toDigits 10 n)
    rw [hdigits, List.cons_append] at hrun
    rw [List.cons_append, unsignedNumber, not_leading_zero htext hdigits, isDigit_digitChar hd]
    simp only [Bool.false_eq_true, if_false, if_true, hrun]
    cases text with
    | nil => rfl
    | cons c rest =>
      obtain ⟨hdigit, hpoint, he, hE⟩ := htext c rest rfl
      rw [List.dropWhile_cons_of_neg (by simp [hdigit]),
        List.takeWhile_cons_of_neg (by simp [hdigit])]
      split
      next heq => exact absurd (List.cons.inj heq).1 hpoint
      next heq => exact absurd (List.cons.inj heq).1 he
      next heq => exact absurd (List.cons.inj heq).1 hE
      · rfl

theorem ofInt?_value (n : Whole) : Document.ofInt? n.value = some (.whole n) := by
  rw [Document.ofInt?, Whole.ofInt?, dif_pos ⟨n.lower, n.upper⟩]
  rfl

theorem wholeOrReal_natAbs (n : Whole) (text : List Char) :
    wholeOrReal (decide (n.value < 0)) n.value.natAbs text = .ok (.whole n, text) := by
  by_cases hneg : n.value < 0
  · have hvalue : -(n.value.natAbs : Int) = n.value := by omega
    have hzero : (n.value.natAbs == 0) = false := by
      rw [beq_eq_false_iff_ne]
      omega
    simp only [wholeOrReal, hneg, decide_true, Bool.true_and, hzero, if_true, hvalue,
      ofInt?_value]
  · have hvalue : (n.value.natAbs : Int) = n.value := by omega
    simp only [wholeOrReal, hneg, decide_false, Bool.false_and, Bool.false_eq_true, if_false,
      hvalue, ofInt?_value]

/-- A whole number is read back. -/
theorem number_decimal (n : Whole) {text : List Char} (htext : Breaks text) :
    number (decimal n.value ++ text) = .ok (.whole n, text) := by
  have hlower := n.lower
  have hupper := n.upper
  have hmagnitude : n.value.natAbs < 2 ^ 64 := by omega
  rw [← wholeOrReal_natAbs n text, decimal]
  by_cases hneg : n.value < 0
  · rw [if_pos hneg, List.cons_append, number, unsignedNumber_toDigits hmagnitude htext]
    simp [hneg]
  · rw [if_neg hneg, number, unsignedNumber_toDigits hmagnitude htext]
    · simp [hneg]
    · -- A digit is not taken for a sign.
      intro rest h
      cases hdigits : Nat.toDigits 10 n.value.natAbs with
      | nil => exact Nat.toDigits_ne_nil hdigits
      | cons c digits =>
        obtain ⟨d, hd, hc⟩ := mem_toDigits (hdigits ▸ List.mem_cons_self)
        rw [hdigits, hc] at h
        have sign : ∀ d < 10, d.digitChar ≠ '-' := by decide
        exact sign d hd (List.cons.inj h).1

/-! ## Characters of strings -/

theorem byteCount_foldl (text : List Char) (n : Nat) :
    text.foldl (fun n c => n + c.utf8Size) n = n + byteCount text := by
  induction text generalizing n with
  | nil => rfl
  | cons c rest ih =>
    rw [byteCount, List.foldl_cons, List.foldl_cons, ih, ih]
    omega

theorem length_le_byteCount (text : List Char) : text.length ≤ byteCount text := by
  induction text with
  | nil => exact Nat.le_refl 0
  | cons c rest ih =>
    have hc : 0 < c.utf8Size := Char.utf8Size_pos c
    rw [byteCount, List.foldl_cons, byteCount_foldl, List.length_cons]
    omega

theorem digit?_hexDigit (n : Nat) : digit? 16 (hexDigit n) = some (n % 16) :=
  digit?_digitChar (by decide) (Nat.mod_lt n (by decide))

/-- The digits in the escape of a UTF-16 unit. -/
def unitDigits (n : Nat) : List Char :=
  [hexDigit (n / 4096), hexDigit (n / 256), hexDigit (n / 16), hexDigit n]

theorem unicodeUnit_unitDigits {n : Nat} (h : n < 0x10000) (text : List Char) :
    unicodeUnit (unitDigits n ++ text) = .ok (n, text) := by
  have hlength := length_le_byteCount (unitDigits n ++ text)
  have hvalue : fourDigits? (unitDigits n) = some n := by
    simp only [unitDigits, fourDigits?, value?, valueAfter?, digit?_hexDigit, List.length_cons,
      List.length_nil, List.isEmpty_cons, Bool.false_eq_true, if_false, if_true]
    congr 1
    omega
  have hfour : (unitDigits n).length = 4 := rfl
  rw [List.length_append, hfour] at hlength
  rw [unicodeUnit, if_neg (by omega), List.take_left' hfour, List.drop_left' hfour, hvalue]

/-- A character is no half of a character. -/
theorem toNat_not_surrogate (c : Char) : c.toNat < 0xD800 ∨ 0xDFFF < c.toNat ∧ c.toNat < 0x110000 :=
  c.valid

/-- A character is read back from its escape, whether it takes one UTF-16 unit or two. -/
theorem escaped_unicodeEscape (c : Char) :
    ∃ letters, unicodeEscape c = '\\' :: letters ∧
      ∀ text, escaped (letters ++ text) = .ok (c, text) := by
  have hvalid := toNat_not_surrogate c
  by_cases hbasic : c.toNat < 0x10000
  · refine ⟨'u' :: unitDigits c.toNat, ?_, fun text => ?_⟩
    · rw [unicodeEscape, if_pos hbasic]
      rfl
    · simp only [List.cons_append, escaped, unicodeUnit_unitDigits hbasic]
      rw [if_neg (by omega), if_neg (by omega), Char.ofNat_toNat]
  · let high := 0xD800 + (c.toNat - 0x10000) / 0x400
    let low := 0xDC00 + (c.toNat - 0x10000) % 0x400
    have hhigh : 0xD800 ≤ high ∧ high ≤ 0xDBFF := by omega
    have hlow : 0xDC00 ≤ low ∧ low ≤ 0xDFFF := by omega
    have hchar : 0x10000 + (high - 0xD800) * 0x400 + (low - 0xDC00) = c.toNat := by omega
    refine ⟨'u' :: unitDigits high ++ '\\' :: 'u' :: unitDigits low, ?_, fun text => ?_⟩
    · rw [unicodeEscape, if_neg hbasic]
      rfl
    · simp only [List.cons_append, List.append_assoc, escaped,
        unicodeUnit_unitDigits (by omega : high < 0x10000), secondHalf,
        unicodeUnit_unitDigits (by omega : low < 0x10000)]
      rw [if_neg (by omega), if_pos hhigh, if_pos hlow, hchar, Char.ofNat_toNat]

/-! ## Strings -/

theorem stringBody_backslash {letters text : List Char} {c : Char} (seen : List Char) (steps : Nat)
    (h : escaped letters = .ok (c, text)) :
    stringBody seen (steps + 1) ('\\' :: letters) = stringBody (c :: seen) steps text := by
  rw [stringBody, if_neg (by decide), if_pos rfl, h]

/-- A character of a string takes one step. -/
theorem stringBody_escape (style : Style) (c : Char) (seen : List Char) (steps : Nat)
    (text : List Char) :
    stringBody seen (steps + 1) (style.escape c ++ text) = stringBody (c :: seen) steps text := by
  unfold Style.escape
  split
  case h_8 hquote hbackslash hb hf hn hr ht =>
    split
    · obtain ⟨letters, hletters, hread⟩ := escaped_unicodeEscape c
      rw [hletters, List.cons_append]
      exact stringBody_backslash seen steps (hread text)
    next hplain =>
      have hprintable : ¬ c.toNat < 0x20 := by
        intro h
        simp [h] at hplain
      rw [List.singleton_append, stringBody, if_neg hquote, if_neg hbackslash, if_neg hprintable]
  all_goals exact stringBody_backslash seen steps rfl

/-- The characters of a string are read back in their order, up to the closing quote. -/
theorem stringBody_flatMap (style : Style) (s seen : List Char) {steps : Nat}
    (h : s.length < steps) (text : List Char) :
    stringBody seen steps (s.flatMap style.escape ++ '"' :: text)
      = .ok (String.ofList (seen.reverse ++ s), text) := by
  induction s generalizing seen steps with
  | nil =>
    obtain ⟨steps, rfl⟩ : ∃ n, steps = n + 1 := ⟨steps - 1, by simp at h; omega⟩
    rw [List.flatMap_nil, List.nil_append, stringBody, if_pos rfl, List.append_nil]
  | cons c rest ih =>
    obtain ⟨steps, rfl⟩ : ∃ n, steps = n + 1 := ⟨steps - 1, by simp at h; omega⟩
    rw [List.length_cons] at h
    rw [List.flatMap_cons, List.append_assoc, stringBody_escape, ih _ (by omega),
      List.reverse_cons, List.append_assoc, List.singleton_append]

theorem escape_ne_nil (style : Style) (c : Char) : style.escape c ≠ [] := by
  unfold Style.escape
  split
  case h_8 =>
    split
    · obtain ⟨letters, hletters, -⟩ := escaped_unicodeEscape c
      rw [hletters]
      exact List.cons_ne_nil _ _
    · exact List.cons_ne_nil c []
  all_goals exact List.cons_ne_nil _ _

theorem length_le_flatMap_escape (style : Style) (s : List Char) :
    s.length ≤ (s.flatMap style.escape).length := by
  induction s with
  | nil => exact Nat.le_refl 0
  | cons c rest ih =>
    have hc : 0 < (style.escape c).length := List.length_pos_iff.mpr (escape_ne_nil style c)
    rw [List.flatMap_cons, List.length_append, List.length_cons]
    omega

/-- A string is read back, its opening quote having been read. -/
theorem stringAfterQuote_string (style : Style) (s : String) (text : List Char) :
    stringAfterQuote (s.toList.flatMap style.escape ++ '"' :: text) = .ok (s, text) := by
  have hlength := length_le_flatMap_escape style s.toList
  rw [stringAfterQuote, stringBody_flatMap]
  · rw [List.reverse_nil, List.nil_append, String.ofList_toList]
  · rw [List.length_append]
    omega

end Variation.Json
