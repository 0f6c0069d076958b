import Variation.Proofs.Document.Equality
import Variation.Proofs.Document.Overwriting

/-!
# Writing at one path more than once

Three laws of a write at a path. What is written has no say in whether the write goes through, nor
in how it fails (`fault?_writeFrom`). A second write at the same path finds its way whenever the
first one did, and covers it up (`Puts.again`). A value that was read at a path can be written there,
and changes nothing but signs of zero: where a key has been looked up in all elements of a sequence,
each of them gets the value that was read from the last (`puts_of_lookupFrom`).
-/

namespace Variation.Document

/-! ## The fault of a write -/

section Fault

variable {write write' : Document → Written}

mutual
theorem fault?_writeEach_congr (h : ∀ node, (write node).fault? = (write' node).fault?) :
    ∀ node : Document, (node.writeEach write).fault? = (node.writeEach write').fault?
  | .sequence items => fault?_writeItems_congr h items
  | .mapping _ | .null | .boolean _ | .whole _ | .real _ | .text _ => h _

theorem fault?_writeItems_congr (h : ∀ node, (write node).fault? = (write' node).fault?) :
    ∀ items : List Document, (writeItems write items).2 = (writeItems write' items).2
  | [] => rfl
  | item :: rest => by
    have hitem := fault?_writeEach_congr h item
    have hrest := fault?_writeItems_congr h rest
    simp only [writeItems]
    cases hw : item.writeEach write with
    | mk first fault? =>
      cases hw' : item.writeEach write' with
      | mk first' fault?' =>
        rw [hw, hw'] at hitem
        simp only at hitem
        subst hitem
        cases fault? with
        | some fault => rfl
        | none => exact hrest
end

end Fault

theorem fault?_writeKey {value value' : Document} {place : List Segment} {name : String}
    {rest : List Segment}
    (behind : ∀ (place : List Segment) (node : Document),
      (writeFrom value place rest node).fault? = (writeFrom value' place rest node).fault?)
    (node : Document) :
    (writeKey value place name rest node).fault?
      = (writeKey value' place name rest node).fault? := by
  cases node with
  | mapping entries =>
    simp only [writeKey]
    by_cases hlast : rest.isEmpty = true
    · rw [if_pos hlast, if_pos hlast]
    · rw [if_neg hlast, if_neg hlast]
      cases Entries.lookup? name entries with
      | none => rfl
      | some child => exact behind _ child
  | _ => rfl

/-- Whether a write succeeds, and how it fails, does not depend on what is written. -/
theorem fault?_writeFrom (value value' : Document) (segments place : List Segment)
    (node : Document) :
    (writeFrom value place segments node).fault?
      = (writeFrom value' place segments node).fault? := by
  induction segments generalizing place node with
  | nil => rfl
  | cons segment rest ih =>
    cases segment with
    | key name =>
      rw [writeFrom_key, writeFrom_key]
      exact fault?_writeEach_congr (fault?_writeKey ih) node
    | index position =>
      cases node with
      | sequence items =>
        simp only [writeFrom]
        cases items[position.toNat]? with
        | none => rfl
        | some child => exact ih _ child
      | _ => rfl

/-! ## A second write -/

section Throughout

variable {R S : Entries Document → Entries Document → Prop}

theorem Throughout.again
    (step : ∀ {before middle}, R before middle → ∃ after, S middle after ∧ S before after)
    {node middle : Document} (h : Throughout R node middle) :
    ∃ after, Throughout S middle after ∧ Throughout S node after := by
  refine Throughout.induction
    (motive := fun node middle => ∃ after, Throughout S middle after ∧ Throughout S node after)
    (fun items middle => ∃ after, ThroughoutItems S middle after ∧ ThroughoutItems S items after)
    ?_ ?_ ?_ ?_ h
  · intro before middle hr
    obtain ⟨after, hmiddle, hbefore⟩ := step hr
    exact ⟨.mapping after, .mapping hmiddle, .mapping hbefore⟩
  · rintro before middle ⟨after, hmiddle, hbefore⟩
    exact ⟨.sequence after, .sequence hmiddle, .sequence hbefore⟩
  · exact ⟨[], .nil, .nil⟩
  · rintro item item' rest rest' ⟨after, hmiddle, hbefore⟩ ⟨behind, hmiddles, hbefores⟩
    exact ⟨after :: behind, .cons hmiddle hmiddles, .cons hbefore hbefores⟩

end Throughout

/-- **The last write wins.** A write after a write at the same path succeeds, and leaves what it
would have left alone. -/
theorem Puts.again {value value' : Document} {segments : List Segment} {slot : Option Document}
    {middle : Document} (h : Puts value segments slot middle) :
    ∃ after, Puts value' segments (some middle) after ∧ Puts value' segments slot after := by
  induction segments generalizing slot middle with
  | nil => exact ⟨value', rfl, rfl⟩
  | cons segment rest ih =>
    obtain ⟨node, rfl⟩ := puts_of_cons h
    cases segment with
    | key name =>
      refine Throughout.again ?_ h
      rintro before _ ⟨child, hchild, rfl⟩
      obtain ⟨last, hmiddle, hbefore⟩ := ih hchild
      refine ⟨before.insert name last, ⟨last, ?_, ?_⟩, last, hbefore, rfl⟩
      · rw [Entries.lookup?_insert]
        exact hmiddle
      · rw [Entries.insert_insert]
    | index position =>
      obtain ⟨items, item, child, rfl, found, hchild, rfl⟩ := h
      obtain ⟨last, hmiddle, hbefore⟩ := ih hchild
      have bound : position.toNat < items.length := (List.getElem?_eq_some_iff.mp found).1
      refine ⟨.sequence (items.set position.toNat last), ?_, ?_⟩
      · refine ⟨_, child, last, rfl, List.getElem?_set_self bound, hmiddle, ?_⟩
        rw [List.set_set]
      · exact ⟨items, item, last, rfl, found, hbefore, rfl⟩

/-! ## Writing what was read -/

theorem sameEntries_insert {entries : Entries Document} {name : String} {child after : Document}
    (found : entries.lookup? name = some child) (h : after.same child = true) :
    sameEntries (entries.insert name after) entries = true := by
  induction entries with
  | nil => cases found
  | cons entry rest ih =>
    obtain ⟨key, value⟩ := entry
    simp only [Entries.lookup?] at found
    simp only [Entries.insert]
    by_cases heq : name = key
    · rw [if_pos heq] at found ⊢
      cases found
      simp [sameEntries, heq, h, sameEntries_refl]
    · rw [if_neg heq] at found ⊢
      by_cases hlt : name < key
      · rw [if_pos hlt] at found
        cases found
      · rw [if_neg hlt] at found ⊢
        simp [sameEntries, same_refl, ih found]

theorem sameItems_set {items : List Document} {i : Nat} {child after : Document}
    (found : items[i]? = some child) (h : after.same child = true) :
    sameItems (items.set i after) items = true := by
  induction items generalizing i with
  | nil => cases found
  | cons item rest ih =>
    cases i with
    | zero =>
      cases found
      simp [sameItems, h, sameItems_refl]
    | succ i =>
      rw [List.getElem?_cons_succ] at found
      simp [sameItems, same_refl, ih found]

section Spread

variable {place : List Segment} {read : Document → Except AccessError Document}
  {R : Entries Document → Entries Document → Prop} {value : Document}

/-- The elements have yielded one value: what the elements before have yielded is what comes out. -/
theorem same_of_agreed {agreed result : Document} {items : List Document}
    (h : spreadItems place read (some agreed) items = .ok result) :
    agreed.same result = true := by
  induction items generalizing agreed with
  | nil =>
    cases h
    exact same_refl _
  | cons item rest ih =>
    simp only [spreadItems] at h
    split at h
    · cases h
    next next hnext =>
      split at h
      next hagree => exact same_trans _ _ _ (by simpa using hagree) (ih h)
      · cases h

mutual
theorem throughout_of_spread
    (step : ∀ {node result : Document}, read node = .ok result → result.same value = true →
      ∃ before after, node = .mapping before ∧ R before after ∧ sameEntries after before = true) :
    ∀ (node : Document) {result : Document}, spread place read node = .ok result →
      result.same value = true → ∃ after, Throughout R node after ∧ after.same node = true
  | .sequence items, result, h, hresult => by
    obtain ⟨after, hafter, hsame⟩ := throughoutItems_of_spreadItems step items none h hresult
    exact ⟨.sequence after, .sequence hafter, hsame⟩
  | .mapping _, _, h, hresult | .null, _, h, hresult | .boolean _, _, h, hresult
  | .whole _, _, h, hresult | .real _, _, h, hresult | .text _, _, h, hresult => by
    obtain ⟨before, after, hnode, hstep, hsame⟩ := step h hresult
    rw [hnode]
    exact ⟨.mapping after, .mapping hstep, hsame⟩

theorem throughoutItems_of_spreadItems
    (step : ∀ {node result : Document}, read node = .ok result → result.same value = true →
      ∃ before after, node = .mapping before ∧ R before after ∧ sameEntries after before = true) :
    ∀ (items : List Document) (agreed : Option Document) {result : Document},
      spreadItems place read agreed items = .ok result → result.same value = true →
        ∃ after, ThroughoutItems R items after ∧ sameItems after items = true
  | [], _, _, _, _ => ⟨[], .nil, rfl⟩
  | item :: rest, agreed, result, h, hresult => by
    simp only [spreadItems] at h
    split at h
    · cases h
    next first hfirst =>
      split at h
      · -- What this element has yielded is carried on to the end.
        have hcarried := same_trans _ _ _ (same_of_agreed h) hresult
        obtain ⟨after, hafter, hsame⟩ := throughout_of_spread step item hfirst hcarried
        obtain ⟨behind, hbehind, hsames⟩ :=
          throughoutItems_of_spreadItems step rest (some first) h hresult
        refine ⟨after :: behind, .cons hafter hbehind, ?_⟩
        rw [sameItems, hsame, hsames]
        rfl
      · cases h
end

end Spread

/-- **What was read can be written**, and leaves an equal document. -/
theorem puts_of_lookupFrom {segments place : List Segment} {node result value : Document}
    (h : lookupFrom place segments node = .ok result) (hresult : result.same value = true) :
    ∃ after, Puts value segments (some node) after ∧ after.same node = true := by
  induction segments generalizing place node result with
  | nil =>
    cases h
    exact ⟨value, rfl, by rw [same_comm]; exact hresult⟩
  | cons segment rest ih =>
    cases segment with
    | key name =>
      rw [lookupFrom_key] at h
      refine throughout_of_spread ?_ node h hresult
      intro node result hread hresult
      obtain ⟨before, child, rfl, found, hchild⟩ := readKey_eq_ok.mp hread
      obtain ⟨after, hputs, hsame⟩ := ih hchild hresult
      refine ⟨before, Entries.insert name after before, rfl, ⟨after, ?_, rfl⟩, ?_⟩
      · rw [found]
        exact hputs
      · exact sameEntries_insert found hsame
    | index position =>
      obtain ⟨items, child, rfl, found, hchild⟩ := lookupFrom_index_eq_ok.mp h
      obtain ⟨after, hputs, hsame⟩ := ih hchild hresult
      refine ⟨.sequence (items.set position.toNat after), ?_, ?_⟩
      · exact ⟨items, child, after, rfl, found, hputs, rfl⟩
      · exact sameItems_set found hsame

/-! ## The laws -/

/-- **The laws of a write.** What was read at a path can be written there, and leaves an equal
document. Whether and how a write fails does not depend on what is written. A write after a write
at the same path leaves what it would have left alone. -/
theorem replace_lawful (document : Document) (path : KeyPath) (value other : Document) :
    (document.get path = .ok value →
      ∃ after, (document.replace path value).done = .ok after ∧ after.same document = true) ∧
    ((document.replace path value).fault? = (document.replace path other).fault?) ∧
    (∀ after, (document.replace path value).done = .ok after →
      ∃ last, (after.replace path other).done = .ok last ∧
        (document.replace path other).done = .ok last) := by
  refine ⟨fun hget => ?_, ?_, fun after hwrite => ?_⟩
  · obtain ⟨after, hputs, hsame⟩ := puts_of_lookupFrom hget (same_refl value)
    exact ⟨after, replace_eq_ok.mpr hputs, hsame⟩
  · exact fault?_writeFrom value other path.segments [] document
  · obtain ⟨last, hafter, hdocument⟩ := Puts.again (replace_eq_ok.mp hwrite)
    exact ⟨last, replace_eq_ok.mpr hafter, replace_eq_ok.mpr hdocument⟩

/-- Two pools whose weights are zero with different signs agree on the weight. Written back, it
leaves an equal document, which is not the one there was; a weight of one can be written over it. -/
theorem replace_lawful_signed_zeros :
    let weight : KeyPath := ⟨.key "pools", [.key "weight"]⟩
    let pools (first second : Document) : Document := .mapping [("pools", .sequence
      [.mapping [("weight", first)], .sequence [.mapping [("weight", second)]]])]
    let plus : Document := .real (.zero false)
    let minus : Document := .real (.zero true)
    let one : Document := .whole (.ofWord 1)
    (pools plus minus).get weight = .ok minus ∧
      ((pools plus minus).replace weight minus).done = .ok (pools minus minus) ∧
      (pools minus minus).same (pools plus minus) = true ∧
      ((pools minus minus).replace weight one).done = .ok (pools one one) := by
  intro weight pools plus minus one
  obtain ⟨back, -, again⟩ := replace_lawful (pools plus minus) weight minus one
  obtain ⟨after, hwrite, hsame⟩ := back rfl
  obtain ⟨last, hlast, hdirect⟩ := again after hwrite
  have hafter : after = pools minus minus := Except.ok.inj (hwrite.symm.trans rfl)
  have hone : last = pools one one := Except.ok.inj (hdirect.symm.trans rfl)
  rw [hafter] at hwrite hsame hlast
  rw [hone] at hlast
  exact ⟨rfl, hwrite, hsame, hlast⟩

end Variation.Document
