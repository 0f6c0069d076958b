/-!
# Texts cut at a separator
-/

namespace Variation.Text

/-- The pieces of a text between its separators; always at least one. -/
def pieces (separator : Char) : List Char → List (List Char)
  | [] => [[]]
  | c :: rest =>
    if c = separator then [] :: pieces separator rest
    else match pieces separator rest with
      | [] => [[c]]
      | piece :: more => (c :: piece) :: more

/-- A text that holds no separator is one piece. -/
theorem pieces_of_not_mem {separator : Char} {s : List Char} (h : separator ∉ s) :
    pieces separator s = [s] := by
  induction s with
  | nil => rfl
  | cons c rest ih =>
    have hc : c ≠ separator := fun e => h (e ▸ List.mem_cons_self)
    simp [pieces, hc, ih fun hr => h (List.mem_cons_of_mem _ hr)]

/-- No piece is ever lost: there is always one. -/
theorem pieces_ne_nil (separator : Char) (s : List Char) : pieces separator s ≠ [] := by
  fun_cases pieces separator s <;> simp [*]

/-- A separator keeps the pieces before it and behind it apart. -/
theorem pieces_append (separator : Char) (s rest : List Char) :
    pieces separator (s ++ separator :: rest) = pieces separator s ++ pieces separator rest := by
  induction s with
  | nil => simp [pieces]
  | cons c more ih =>
    obtain ⟨piece, others, hmore⟩ := List.exists_cons_of_ne_nil (pieces_ne_nil separator more)
    by_cases hc : c = separator <;> simp [pieces, hc, ih, hmore]

/-- A text that holds no separator is the piece before the separator behind it. -/
theorem pieces_append_separator {separator : Char} {s : List Char} (h : separator ∉ s)
    (rest : List Char) :
    pieces separator (s ++ separator :: rest) = s :: pieces separator rest := by
  rw [pieces_append, pieces_of_not_mem h, List.singleton_append]

/-- Texts without the separator, each with the separator behind it, and nothing behind the last. -/
theorem pieces_flatMap {separator : Char} {texts : List (List Char)}
    (h : ∀ text ∈ texts, separator ∉ text) :
    pieces separator (texts.flatMap (· ++ [separator])) = texts ++ [[]] := by
  induction texts with
  | nil => rfl
  | cons text rest ih =>
    have hrest : ∀ text ∈ rest, separator ∉ text :=
      fun other member => h other (List.mem_cons_of_mem _ member)
    rw [List.flatMap_cons, List.append_assoc, List.singleton_append,
      pieces_append_separator (h text List.mem_cons_self), ih hrest, List.cons_append]

/-! ## Pieces and the text they are cut from -/

theorem intercalate_pieces (separator : Char) (s : List Char) :
    [separator].intercalate (pieces separator s) = s := by
  fun_induction pieces separator s with
  | case1 => rfl
  | case2 rest ih =>
    obtain ⟨piece, more, hpieces⟩ := List.exists_cons_of_ne_nil (pieces_ne_nil separator rest)
    rw [hpieces] at ih ⊢
    rw [List.intercalate_cons_cons, ih]
    rfl
  | case3 c rest hc hnil => exact absurd hnil (pieces_ne_nil separator rest)
  | case4 c rest hc piece more hpieces ih =>
    rw [hpieces] at ih
    cases more with
    | nil => simpa using ih
    | cons next more => simpa [List.intercalate_cons_cons] using ih

theorem not_mem_of_mem_pieces {separator : Char} {s piece : List Char}
    (h : piece ∈ pieces separator s) : separator ∉ piece := by
  fun_induction pieces separator s generalizing piece with
  | case1 => simp_all
  | case2 rest ih =>
    rcases List.mem_cons.mp h with rfl | h
    · simp
    · exact ih h
  | case3 c rest hc hnil => exact absurd hnil (pieces_ne_nil separator rest)
  | case4 c rest hc front more hpieces ih =>
    rw [hpieces] at ih
    rcases List.mem_cons.mp h with rfl | h
    · simp [Ne.symm hc, ih List.mem_cons_self]
    · exact ih (List.mem_cons_of_mem _ h)

theorem pieces_intercalate {separator : Char} {texts : List (List Char)} (hne : texts ≠ [])
    (h : ∀ text ∈ texts, separator ∉ text) :
    pieces separator ([separator].intercalate texts) = texts := by
  induction texts with
  | nil => exact absurd rfl hne
  | cons text rest ih =>
    have htext : separator ∉ text := h text List.mem_cons_self
    cases rest with
    | nil => simpa using pieces_of_not_mem htext
    | cons next more =>
      have hrest := ih (by simp) fun other member => h other (List.mem_cons_of_mem _ member)
      rw [List.intercalate_cons_cons, List.append_assoc, List.singleton_append,
        pieces_append_separator htext, hrest]

end Variation.Text
