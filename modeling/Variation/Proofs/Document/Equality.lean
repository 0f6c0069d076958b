import Variation.Proofs.Document.Reading

/-!
# Equality of documents and what is read

Equality of documents is equality of trees up to the sign of zero. It is an equivalence, and what is
read at one path of equal documents is equal where both give a value.
-/

namespace Variation.Document

/-! ## An equivalence -/

mutual
/-- Every document equals itself: all numbers in it are finite. -/
theorem same_refl : ∀ document : Document, document.same document = true
  | .null => rfl
  | .boolean _ | .whole _ | .text _ => by simp [same]
  | .real x => by simp [same, Decimal.Binary64.same_refl x]
  | .sequence items => by rw [same, sameItems_refl items]
  | .mapping entries => by rw [same, sameEntries_refl entries]

theorem sameItems_refl : ∀ items : List Document, sameItems items items = true
  | [] => rfl
  | item :: rest => by rw [sameItems, same_refl item, sameItems_refl rest]; rfl

theorem sameEntries_refl : ∀ entries : List (String × Document), sameEntries entries entries = true
  | [] => rfl
  | (key, child) :: rest => by simp [sameEntries, same_refl child, sameEntries_refl rest]
end

mutual
theorem same_comm : ∀ a b : Document, a.same b = b.same a
  | .sequence a, b => by
    cases b with
    | sequence b => rw [same, same, sameItems_comm a b]
    | _ => rfl
  | .mapping a, b => by
    cases b with
    | mapping b => rw [same, same, sameEntries_comm a b]
    | _ => rfl
  | .real a, b => by
    cases b with
    | real b => rw [same, same, Decimal.Binary64.same_comm a b]
    | _ => rfl
  | .null, b | .boolean _, b | .whole _, b | .text _, b => by
    cases b <;> simp [same, Bool.beq_comm]

theorem sameItems_comm : ∀ a b : List Document, sameItems a b = sameItems b a
  | [], [] => rfl
  | [], _ :: _ | _ :: _, [] => rfl
  | a :: as, b :: bs => by rw [sameItems, sameItems, same_comm a b, sameItems_comm as bs]

theorem sameEntries_comm : ∀ a b : List (String × Document), sameEntries a b = sameEntries b a
  | [], [] => rfl
  | [], _ :: _ | _ :: _, [] => rfl
  | (k, a) :: as, (l, b) :: bs => by
    rw [sameEntries, sameEntries, same_comm a b, sameEntries_comm as bs, Bool.beq_comm]
end

mutual
/-- Equality carries over from one document to the next. -/
theorem same_trans : ∀ a b c : Document, a.same b = true → b.same c = true → a.same c = true
  | .sequence as, b, c, hab, hbc => by
    cases b with
    | sequence bs =>
      cases c with
      | sequence cs => exact sameItems_trans as bs cs hab hbc
      | _ => cases hbc
    | _ => cases hab
  | .mapping as, b, c, hab, hbc => by
    cases b with
    | mapping bs =>
      cases c with
      | mapping cs => exact sameEntries_trans as bs cs hab hbc
      | _ => cases hbc
    | _ => cases hab
  | .real x, b, c, hab, hbc => by
    cases b with
    | real y =>
      cases c with
      | real z => exact Decimal.Binary64.same_trans hab hbc
      | _ => cases hbc
    | _ => cases hab
  | .null, b, c, hab, hbc | .boolean _, b, c, hab, hbc | .whole _, b, c, hab, hbc
  | .text _, b, c, hab, hbc => by
    cases b <;> simp only [same, Bool.false_eq_true, beq_iff_eq] at hab
    all_goals try subst hab
    all_goals exact hbc

theorem sameItems_trans : ∀ as bs cs : List Document,
    sameItems as bs = true → sameItems bs cs = true → sameItems as cs = true
  | [], [], _, _, hbc => hbc
  | [], _ :: _, _, hab, _ | _ :: _, [], _, hab, _ => by cases hab
  | _ :: _, _ :: _, [], _, hbc => by cases hbc
  | a :: as, b :: bs, c :: cs, hab, hbc => by
    simp only [sameItems, Bool.and_eq_true] at hab hbc ⊢
    exact ⟨same_trans a b c hab.1 hbc.1, sameItems_trans as bs cs hab.2 hbc.2⟩

theorem sameEntries_trans : ∀ as bs cs : List (String × Document),
    sameEntries as bs = true → sameEntries bs cs = true → sameEntries as cs = true
  | [], [], _, _, hbc => hbc
  | [], _ :: _, _, hab, _ | _ :: _, [], _, hab, _ => by cases hab
  | _ :: _, _ :: _, [], _, hbc => by cases hbc
  | (k, a) :: as, (l, b) :: bs, (m, c) :: cs, hab, hbc => by
    simp only [sameEntries, Bool.and_eq_true, beq_iff_eq] at hab hbc ⊢
    obtain ⟨⟨hkl, hab⟩, habs⟩ := hab
    obtain ⟨⟨hlm, hbc⟩, hbcs⟩ := hbc
    exact ⟨⟨hkl.trans hlm, same_trans a b c hab hbc⟩, sameEntries_trans as bs cs habs hbcs⟩
end

/-! ## What equal documents give -/

/-- Equal sequences have equal elements. -/
theorem same_of_getElem? {as bs : List Document} {i : Nat} {a b : Document}
    (h : sameItems as bs = true) (ha : as[i]? = some a) (hb : bs[i]? = some b) :
    a.same b = true := by
  induction as generalizing bs i with
  | nil => simp at ha
  | cons item rest ih =>
    cases bs with
    | nil => simp at hb
    | cons item' rest' =>
      simp only [sameItems, Bool.and_eq_true] at h
      cases i with
      | zero =>
        simp only [List.getElem?_cons_zero, Option.some.injEq] at ha hb
        rw [← ha, ← hb]
        exact h.1
      | succ i => exact ih h.2 ha hb

/-- Equal mappings have equal values at a key. -/
theorem same_of_lookup? {as bs : List (String × Document)} {key : String} {a b : Document}
    (h : sameEntries as bs = true) (ha : Entries.lookup? key as = some a)
    (hb : Entries.lookup? key bs = some b) : a.same b = true := by
  induction as generalizing bs with
  | nil => simp [Entries.lookup?] at ha
  | cons entry rest ih =>
    cases bs with
    | nil => simp [Entries.lookup?] at hb
    | cons entry' rest' =>
      simp only [sameEntries, Bool.and_eq_true, beq_iff_eq] at h
      obtain ⟨⟨hk, hv⟩, hrest⟩ := h
      simp only [Entries.lookup?, ← hk] at ha hb
      split at ha
      next heq =>
        rw [if_pos heq] at hb
        cases ha
        cases hb
        exact hv
      next hne =>
        rw [if_neg hne] at hb
        split at ha
        · cases ha
        next hnlt =>
          rw [if_neg hnlt] at hb
          exact ih hrest ha hb

section Spread

variable {place place' : List Segment} {read read' : Document → Except AccessError Document}

mutual
/-- If reading a node gives equal documents for equal ones, then so does reading all the nodes under
nested sequences. -/
theorem same_of_spread (hread : ∀ {a b v w : Document}, a.same b = true → read a = .ok v →
    read' b = .ok w → v.same w = true) : ∀ (a b : Document) {v w : Document},
      a.same b = true → spread place read a = .ok v → spread place' read' b = .ok w →
        v.same w = true
  | .sequence as, b, v, w, h, ha, hb => by
    cases b with
    | sequence bs => exact same_of_spreadItems hread as bs h (by simp) ha hb
    | _ => cases h
  | .mapping _, b, v, w, h, ha, hb | .null, b, v, w, h, ha, hb | .boolean _, b, v, w, h, ha, hb
  | .whole _, b, v, w, h, ha, hb | .real _, b, v, w, h, ha, hb | .text _, b, v, w, h, ha, hb => by
    cases b with
    | sequence bs => cases h
    | _ => exact hread h ha hb

theorem same_of_spreadItems (hread : ∀ {a b v w : Document}, a.same b = true → read a = .ok v →
    read' b = .ok w → v.same w = true) : ∀ (as bs : List Document)
      {agreed agreed' : Option Document} {v w : Document}, sameItems as bs = true →
        (∀ x y, agreed = some x → agreed' = some y → x.same y = true) →
          spreadItems place read agreed as = .ok v → spreadItems place' read' agreed' bs = .ok w →
            v.same w = true
  | [], bs, agreed, agreed', v, w, h, hagreed, ha, hb => by
    cases bs with
    | cons _ _ => cases h
    | nil =>
      cases agreed <;> cases ha
      cases agreed' <;> cases hb
      exact hagreed v w rfl rfl
  | a :: as, bs, agreed, agreed', v, w, h, hagreed, ha, hb => by
    cases bs with
    | nil => cases h
    | cons b bs =>
      simp only [sameItems, Bool.and_eq_true] at h
      simp only [spreadItems] at ha hb
      split at ha
      · cases ha
      next x hx =>
        split at hb
        · cases hb
        next y hy =>
          have hxy := same_of_spread hread a b h.1 hx hy
          -- Each run goes on only if the element agrees with what it has, or is its first.
          split at ha <;> split at hb <;> try contradiction
          refine same_of_spreadItems hread as bs h.2 ?_ ha hb
          intro x' y' hx' hy'
          cases hx'
          cases hy'
          exact hxy
end

end Spread

/-- What is read at one path of equal documents is equal, where both give a value. -/
theorem same_of_lookupFrom {segments place place' : List Segment} {a b v w : Document}
    (h : a.same b = true) (ha : a.lookupFrom place segments = .ok v)
    (hb : b.lookupFrom place' segments = .ok w) : v.same w = true := by
  induction segments generalizing place place' a b v w with
  | nil =>
    cases ha
    cases hb
    exact h
  | cons segment rest ih =>
    cases segment with
    | key name =>
      rw [lookupFrom_key] at ha hb
      refine same_of_spread ?_ a b h ha hb
      intro a b v w h ha hb
      obtain ⟨as, child, rfl, found, ha⟩ := readKey_eq_ok.mp ha
      obtain ⟨bs, child', rfl, found', hb⟩ := readKey_eq_ok.mp hb
      exact ih (same_of_lookup? h found found') ha hb
    | index position =>
      obtain ⟨as, child, rfl, found, ha⟩ := lookupFrom_index_eq_ok.mp ha
      obtain ⟨bs, child', rfl, found', hb⟩ := lookupFrom_index_eq_ok.mp hb
      exact ih (same_of_getElem? h found found') ha hb

end Variation.Document
