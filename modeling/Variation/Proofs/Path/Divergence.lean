import Variation.Path.Basic

/-!
# Divergent paths

Two paths *diverge* if at the first position where they differ they have two different keys or two
different indices. What lies at one is then not part of what lies at the other. A path does not
diverge from one that goes on where it ends, which leads into the same value, and a key does not
diverge from an index, which may lead to one of the elements that the key is followed into.
-/

namespace Variation

/-- Segments that agree up to a point and have two different keys or two different indices there. -/
inductive Diverge : List Segment → List Segment → Prop
  | keys {a b : String} {p q : List Segment} (ne : a ≠ b) : Diverge (.key a :: p) (.key b :: q)
  | indices {i j : UInt64} {p q : List Segment} (ne : i ≠ j) :
      Diverge (.index i :: p) (.index j :: q)
  | step (segment : Segment) {p q : List Segment} (behind : Diverge p q) :
      Diverge (segment :: p) (segment :: q)

def KeyPath.Diverges (path other : KeyPath) : Prop :=
  Diverge path.segments other.segments

namespace Diverge

variable {p q : List Segment}

theorem symm (h : Diverge p q) : Diverge q p := by
  induction h with
  | keys ne => exact .keys ne.symm
  | indices ne => exact .indices ne.symm
  | step segment _ ih => exact .step segment ih

theorem cons_iff {segment : Segment} :
    Diverge (segment :: p) (segment :: q) ↔ Diverge p q := by
  constructor
  · intro h
    cases h with
    | keys ne => exact absurd rfl ne
    | indices ne => exact absurd rfl ne
    | step _ behind => exact behind
  · exact .step segment

/-- The text of the definition: a common part, and two different keys or two different indices
behind it. -/
theorem iff_exists : Diverge p q ↔
    ∃ (common : List Segment) (a b : Segment) (p' q' : List Segment),
      p = common ++ a :: p' ∧ q = common ++ b :: q' ∧ a ≠ b ∧
      ((∃ k l, a = .key k ∧ b = .key l) ∨ ∃ i j, a = .index i ∧ b = .index j) := by
  constructor
  · intro h
    induction h with
    | keys ne => exact ⟨[], _, _, _, _, rfl, rfl, by simpa using ne, .inl ⟨_, _, rfl, rfl⟩⟩
    | indices ne => exact ⟨[], _, _, _, _, rfl, rfl, by simpa using ne, .inr ⟨_, _, rfl, rfl⟩⟩
    | step segment _ ih =>
      obtain ⟨common, a, b, p', q', rfl, rfl, rest⟩ := ih
      exact ⟨segment :: common, a, b, p', q', rfl, rfl, rest⟩
  · rintro ⟨common, a, b, p', q', rfl, rfl, ne, kinds⟩
    induction common with
    | cons segment common ih => exact .step segment ih
    | nil =>
      rcases kinds with ⟨k, l, rfl, rfl⟩ | ⟨i, j, rfl, rfl⟩
      · exact .keys (by simpa using ne)
      · exact .indices (by simpa using ne)

/-- Whether segments diverge is decided by the first place where they differ. -/
instance decidable : (p q : List Segment) → Decidable (Diverge p q)
  | [], _ => isFalse nofun
  | _ :: _, [] => isFalse nofun
  | .key a :: p, .key b :: q =>
    if h : a = b then
      have := decidable p q
      decidable_of_iff (Diverge p q) (by rw [h, cons_iff])
    else isTrue (.keys h)
  | .index i :: p, .index j :: q =>
    if h : i = j then
      have := decidable p q
      decidable_of_iff (Diverge p q) (by rw [h, cons_iff])
    else isTrue (.indices h)
  | .key _ :: _, .index _ :: _ => isFalse nofun
  | .index _ :: _, .key _ :: _ => isFalse nofun

end Diverge

namespace KeyPath

theorem Diverges.symm {path other : KeyPath} (h : path.Diverges other) : other.Diverges path :=
  Diverge.symm h

instance (path other : KeyPath) : Decidable (path.Diverges other) :=
  Diverge.decidable path.segments other.segments

end KeyPath

example : (⟨.key "a", [.key "x"]⟩ : KeyPath).Diverges ⟨.key "a", [.key "y", .index 0]⟩ := by decide

example : ¬ (⟨.key "a", [.index 0]⟩ : KeyPath).Diverges ⟨.key "a", [.key "x"]⟩ := by decide

end Variation
