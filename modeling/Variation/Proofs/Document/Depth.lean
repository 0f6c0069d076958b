import Variation.Matrix.Declaration
import Variation.Proofs.Document.Position

/-!
# The depth of a document

What lies in a document is less deep than the document, and a document does not get less deep by
what is stored at a position that held nothing before (`depth_le_setAt`).
-/

namespace Variation.Document

theorem depthOfEntries_append (front back : List (String × Document)) :
    depthOfEntries (front ++ back) = max (depthOfEntries front) (depthOfEntries back) := by
  induction front with
  | nil => simp [depthOfEntries]
  | cons entry rest ih => simp [depthOfEntries, ih, Nat.max_assoc]

theorem depth_le_depthOfItems {items : List Document} {item : Document} (h : item ∈ items) :
    item.depth ≤ depthOfItems items := by
  induction items with
  | nil => cases h
  | cons first rest ih =>
    rw [depthOfItems]
    rcases List.mem_cons.mp h with rfl | h
    · exact Nat.le_max_left ..
    · exact Nat.le_trans (ih h) (Nat.le_max_right ..)

/-- A mapping does not get less deep if a value is replaced by one that is as deep or deeper. -/
theorem depthOfEntries_le_insert {name : String} {value : Document}
    {entries : List (String × Document)}
    (h : ∀ child, Entries.lookup? name entries = some child → child.depth ≤ value.depth) :
    depthOfEntries entries ≤ depthOfEntries (Entries.insert name value entries) := by
  induction entries with
  | nil => exact Nat.zero_le _
  | cons entry rest ih =>
    obtain ⟨k, v⟩ := entry
    rw [Entries.insert]
    simp only [Entries.lookup?] at h
    split
    · next heq =>
      have hvalue := h v (if_pos heq)
      simp only [depthOfEntries]
      omega
    · next hne =>
      split
      · simp only [depthOfEntries]
        omega
      · next hlt =>
        have hrest := ih fun child hchild => h child (by rw [if_neg hne, if_neg hlt, hchild])
        simp only [depthOfEntries]
        omega

theorem depthOfItems_le_set {item child : Document} {items : List Document} {i : Nat}
    (hchild : items[i]? = some child) (h : child.depth ≤ item.depth) :
    depthOfItems items ≤ depthOfItems (items.set i item) := by
  induction items generalizing i with
  | nil => exact Nat.zero_le _
  | cons first rest ih =>
    cases i with
    | zero =>
      cases hchild
      simp only [List.set_cons_zero, depthOfItems]
      omega
    | succ i =>
      have hrest := ih hchild
      simp only [List.set_cons_succ, depthOfItems]
      omega

/-- A document does not get less deep by what is stored where there was nothing. -/
theorem depth_le_setAt {slot : List Step} {document : Document} (value : Document)
    (h : document.at? slot = none) : document.depth ≤ (document.setAt slot value).depth := by
  induction slot generalizing document with
  | nil => cases h
  | cons step rest ih =>
    cases document <;> cases step <;> try exact Nat.le_refl _
    case mapping.entry entries name =>
      cases found : Entries.lookup? name entries with
      | some child =>
        rw [at?, slot?_entry found] at h
        rw [setAt_entry found, depth, depth]
        refine Nat.succ_le_succ (depthOfEntries_le_insert fun other hother => ?_)
        cases found.symm.trans hother
        exact ih h
      | none =>
        simp only [setAt, found, depth]
        split
        · refine Nat.succ_le_succ (depthOfEntries_le_insert fun other hother => ?_)
          cases found.symm.trans hother
        · exact Nat.le_refl _
    case sequence.element items i =>
      cases found : items[i]? with
      | some child =>
        rw [at?, slot?_element found] at h
        rw [setAt_element found, depth, depth]
        exact Nat.succ_le_succ (depthOfItems_le_set found (ih h))
      | none =>
        have hsame : setAt (.sequence items) (.element i :: rest) value
            = .sequence items := by
          rw [setAt, found]
        exact Nat.le_of_eq (congrArg Document.depth hsame.symm)

end Variation.Document
