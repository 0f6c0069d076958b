import Variation.Text.Numeral

/-!
# Digits of whole numbers

What the digits of a whole number in base ten are, one by one. A whole number below the base has one
digit, and of a larger one the last digit is split off (`Nat.toDigits_of_base_le`), so the proofs
about its digits are by induction on the number. The other way is by induction on the text: which
texts are read as a whole number, and as which one (`natural?_ten_eq_some`). Its digits are one of
them.
-/

namespace Variation.Text.Numeral

theorem digit?_digitChar {base n : Nat} (hbase : base ≤ 16) (h : n < base) :
    digit? base n.digitChar = some n := by
  have all : ∀ base ≤ 16, ∀ n < base, digit? base n.digitChar = some n := by decide
  exact all base hbase n h

theorem mem_toDigits {n : Nat} {c : Char} (h : c ∈ Nat.toDigits 10 n) :
    ∃ d < 10, c = d.digitChar := by
  induction n using Nat.strongRecOn with
  | ind n ih =>
    by_cases hn : n < 10
    · rw [Nat.toDigits_of_lt_base hn] at h
      exact ⟨n, hn, List.mem_singleton.mp h⟩
    · rw [Nat.toDigits_of_base_le (by decide) (Nat.not_lt.mp hn)] at h
      rcases List.mem_append.mp h with h | h
      · exact ih (n / 10) (by omega) h
      · exact ⟨n % 10, by omega, List.mem_singleton.mp h⟩

/-- Only zero is written with a zero in front. -/
theorem eq_zero_of_toDigits {n : Nat} {rest : List Char} (h : Nat.toDigits 10 n = '0' :: rest) :
    n = 0 := by
  induction n using Nat.strongRecOn generalizing rest with
  | ind n ih =>
    by_cases hn : n < 10
    · rw [Nat.toDigits_of_lt_base hn] at h
      exact Nat.digitChar_eq_zero.mp (List.cons.inj h).1
    · rw [Nat.toDigits_of_base_le (by decide) (Nat.not_lt.mp hn)] at h
      cases hfront : Nat.toDigits 10 (n / 10) with
      | nil => exact absurd hfront Nat.toDigits_ne_nil
      | cons c front =>
        rw [hfront] at h
        have hc : c = '0' := (List.cons.inj h).1
        have hzero := ih (n / 10) (by omega) (hc ▸ hfront)
        omega

/-- Different whole numbers have different digits. -/
theorem toDigits_injective {m n : Nat} (h : Nat.toDigits 10 m = Nat.toDigits 10 n) : m = n := by
  rw [← Nat.ofDigitChars_ten_toDigits (n := m), h, Nat.ofDigitChars_ten_toDigits]

/-! ## Numerals in base ten -/

/-- One or more of the ten digits. -/
def Digits (s : List Char) : Prop :=
  s ≠ [] ∧ ∀ c ∈ s, c.isDigit = true

/-- Digits as they may be written: with or without a plus sign in front. -/
def Signed (s digits : List Char) : Prop :=
  (s = digits ∨ s = '+' :: digits) ∧ Digits digits

/-- Digits without a zero in front of another digit. -/
def Plain (s : List Char) : Prop :=
  Digits s ∧ (s.head? = some '0' → s = ['0'])

theorem digit?_ten (c : Char) :
    digit? 10 c = if c.isDigit then some (c.toNat - '0'.toNat) else none := by
  have hdigit : c.isDigit = true ↔ '0' ≤ c ∧ c ≤ '9' := by
    simp [Char.isDigit, Char.le_def]
  unfold digit?
  by_cases h : '0' ≤ c ∧ c ≤ '9'
  · have hnine : c.toNat ≤ '9'.toNat := h.2
    have hvalue : c.toNat - '0'.toNat < 10 := by
      simp only [Char.reduceToNat] at hnine ⊢
      omega
    rw [if_pos h, if_pos (hdigit.mpr h)]
    exact if_pos hvalue
  · rw [if_neg h, if_neg (fun hd => h (hdigit.mp hd))]
    -- a letter counts ten at least
    refine if_neg (Nat.not_lt.mpr ?_)
    split
    · exact Nat.le_add_left 10 _
    · split
      · exact Nat.le_add_left 10 _
      · exact Nat.le_refl 10

theorem valueAfter?_ten_eq_some {s : List Char} {before n : Nat} :
    valueAfter? 10 before s = some n
      ↔ (∀ c ∈ s, c.isDigit = true) ∧ Nat.ofDigitChars 10 s before = n := by
  induction s generalizing before with
  | nil => simp [valueAfter?]
  | cons c rest ih =>
    simp only [valueAfter?, digit?_ten, Nat.ofDigitChars_cons, List.forall_mem_cons]
    by_cases h : c.isDigit = true
    · simp [h, ih, Nat.mul_comm]
    · simp [h]

theorem value?_ten_eq_some {s : List Char} {n : Nat} :
    value? 10 s = some n ↔ Digits s ∧ Nat.ofDigitChars 10 s 0 = n := by
  cases s with
  | nil => simp [value?, Digits]
  | cons c rest =>
    rw [value?, List.isEmpty_cons, if_neg Bool.false_ne_true, valueAfter?_ten_eq_some]
    simp [Digits]

theorem not_digits_plus (rest : List Char) : ¬ Digits ('+' :: rest) := by
  intro h
  have hplus := h.2 '+' List.mem_cons_self
  revert hplus
  decide

theorem natural?_ten_eq_some {s : List Char} {n : Nat} :
    natural? 10 s = some n ↔ ∃ digits, Signed s digits ∧ Nat.ofDigitChars 10 digits 0 = n := by
  fun_cases natural? 10 s with
  | case1 rest =>
    rw [value?_ten_eq_some]
    constructor
    · intro h
      exact ⟨rest, ⟨.inr rfl, h.1⟩, h.2⟩
    · rintro ⟨digits, ⟨rfl | hsign, hdigits⟩, hvalue⟩
      · exact absurd hdigits (not_digits_plus rest)
      · cases hsign
        exact ⟨hdigits, hvalue⟩
  | case2 s hplus =>
    rw [value?_ten_eq_some]
    constructor
    · intro h
      exact ⟨s, ⟨.inl rfl, h.1⟩, h.2⟩
    · rintro ⟨digits, ⟨rfl | hsign, hdigits⟩, hvalue⟩
      · exact ⟨hdigits, hvalue⟩
      · exact absurd hsign (hplus digits)

theorem plain_toDigits (n : Nat) : Plain (Nat.toDigits 10 n) := by
  refine ⟨⟨Nat.toDigits_ne_nil, fun c member => ?_⟩, fun hzero => ?_⟩
  · exact Nat.isDigit_of_mem_toDigits (by decide) (by decide) member
  · obtain ⟨rest, hrest⟩ := List.head?_eq_some_iff.mp hzero
    rw [eq_zero_of_toDigits hrest]
    rfl

/-- A whole number is read back from its digits. -/
theorem natural?_toDigits (n : Nat) : natural? 10 (Nat.toDigits 10 n) = some n := by
  have hsigned : Signed (Nat.toDigits 10 n) (Nat.toDigits 10 n) :=
    ⟨.inl rfl, (plain_toDigits n).1⟩
  exact natural?_ten_eq_some.mpr ⟨_, hsigned, Nat.ofDigitChars_ten_toDigits⟩

end Variation.Text.Numeral
