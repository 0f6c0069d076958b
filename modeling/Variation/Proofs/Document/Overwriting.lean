import Variation.Document.Write
import Variation.Proofs.Path.Divergence

/-!
# Overwriting as a relation

A write that succeeds relates the document before to the document after. `Puts` is that relation, by
recursion on the segments. It starts from a *slot*, which holds a node or, behind the last key of a
mapping, may hold nothing. `Throughout` carries one step of a key through nested sequences: it
relates nodes whose sequences are of the same lengths and whose ends are mappings, since a key
writes into nothing else.

`writeFrom_eq_done` says that `Puts` is what writing does where it succeeds. Laws about writes are
proved of the relation: first what holds of one step of a key under sequences, then an induction
along the path. The first of them is here, `Puts.comm`: writes at divergent paths can be made in
either order.
-/

namespace Variation.Document

/-! ## A step of a key under nested sequences -/

mutual
/-- The same nesting of sequences, with related mappings at its ends. -/
inductive Throughout (R : Entries Document → Entries Document → Prop) :
    Document → Document → Prop
  | mapping {before after : Entries Document} (step : R before after) :
      Throughout R (.mapping before) (.mapping after)
  | sequence {before after : List Document} (items : ThroughoutItems R before after) :
      Throughout R (.sequence before) (.sequence after)

inductive ThroughoutItems (R : Entries Document → Entries Document → Prop) :
    List Document → List Document → Prop
  | nil : ThroughoutItems R [] []
  | cons {item item' : Document} {rest rest' : List Document} (first : Throughout R item item')
      (behind : ThroughoutItems R rest rest') : ThroughoutItems R (item :: rest) (item' :: rest')
end

mutual
theorem writeEach_eq_done {write : Document → Written}
    (only : ∀ {node after}, write node = ⟨after, none⟩ →
      ∃ before entries, node = .mapping before ∧ after = .mapping entries) :
    ∀ {node after : Document}, writeEach write node = ⟨after, none⟩ ↔
      Throughout (fun before entries => write (.mapping before) = ⟨.mapping entries, none⟩)
        node after
  | .mapping before, after => by
    constructor
    · intro h
      obtain ⟨_, entries, _, rfl⟩ := only h
      exact .mapping h
    · intro h
      cases h with
      | mapping step => exact step
  | .sequence items, after => by
    rw [writeEach]
    constructor
    · intro h
      injection h with hafter hfault
      subst hafter
      exact .sequence ((writeItems_eq_done only).mp (Prod.ext rfl hfault))
    · intro h
      cases h with
      | sequence behind =>
        rw [(writeItems_eq_done only).mpr behind]
  | .null, after | .boolean _, after | .whole _, after | .real _, after | .text _, after => by
    constructor
    · intro h
      obtain ⟨_, _, hnode, _⟩ := only h
      cases hnode
    · intro h
      cases h

theorem writeItems_eq_done {write : Document → Written}
    (only : ∀ {node after}, write node = ⟨after, none⟩ →
      ∃ before entries, node = .mapping before ∧ after = .mapping entries) :
    ∀ {items after : List Document}, writeItems write items = (after, none) ↔
      ThroughoutItems (fun before entries => write (.mapping before) = ⟨.mapping entries, none⟩)
        items after
  | [], after => by
    constructor
    · intro h
      cases h
      exact .nil
    · intro h
      cases h
      rfl
  | item :: rest, after => by
    rw [writeItems]
    constructor
    · intro h
      split at h
      · cases h
      next first hfirst =>
        injection h with hafter hfault
        subst hafter
        exact .cons ((writeEach_eq_done only).mp hfirst)
          ((writeItems_eq_done only).mp (Prod.ext rfl hfault))
    · intro h
      cases h with
      | cons first behind =>
        rw [(writeEach_eq_done only).mpr first, (writeItems_eq_done only).mpr behind]
end

section Throughout

variable {R S : Entries Document → Entries Document → Prop}

/-- Induction along the nesting, with a statement about nodes and one about the elements of a
sequence. -/
theorem Throughout.induction {motive : Document → Document → Prop}
    (items : List Document → List Document → Prop)
    (mapping : ∀ {before after}, R before after → motive (.mapping before) (.mapping after))
    (sequence : ∀ {before after}, items before after → motive (.sequence before) (.sequence after))
    (nil : items [] [])
    (cons : ∀ {item item' rest rest'}, motive item item' → items rest rest' →
      items (item :: rest) (item' :: rest'))
    {node after : Document} (h : Throughout R node after) : motive node after :=
  @Throughout.rec R (fun node after _ => motive node after) (fun before after _ => items before after)
    mapping (fun _ ih => sequence ih) nil (fun _ _ first behind => cons first behind) node after h

/-- Two steps that change places at every end change places as a whole. -/
theorem Throughout.comm (swap : ∀ {a b c}, R a b → S b c → ∃ b', S a b' ∧ R b' c)
    {before middle after : Document} (first : Throughout R before middle)
    (second : Throughout S middle after) :
    ∃ middle', Throughout S before middle' ∧ Throughout R middle' after := by
  refine Throughout.induction
    (motive := fun before middle => ∀ after, Throughout S middle after →
      ∃ middle', Throughout S before middle' ∧ Throughout R middle' after)
    (fun before middle => ∀ after, ThroughoutItems S middle after →
      ∃ middle', ThroughoutItems S before middle' ∧ ThroughoutItems R middle' after)
    ?_ ?_ ?_ ?_ first after second
  · intro before middle hr after hs
    cases hs with
    | mapping hs =>
      obtain ⟨entries, hs', hr'⟩ := swap hr hs
      exact ⟨.mapping entries, .mapping hs', .mapping hr'⟩
  · intro before middle ih after hs
    cases hs with
    | sequence hs =>
      obtain ⟨items, hs', hr'⟩ := ih _ hs
      exact ⟨.sequence items, .sequence hs', .sequence hr'⟩
  · intro after hs
    cases hs
    exact ⟨[], .nil, .nil⟩
  · intro item item' rest rest' ihItem ihRest after hs
    cases hs with
    | cons hs hss =>
      obtain ⟨item'', hs', hr'⟩ := ihItem _ hs
      obtain ⟨rest'', hss', hrs'⟩ := ihRest _ hss
      exact ⟨item'' :: rest'', .cons hs' hss', .cons hr' hrs'⟩

end Throughout

/-! ## The relation -/

/-- Writing `value` at the end of the segments from a slot leaves `after` in it. -/
def Puts (value : Document) : List Segment → Option Document → Document → Prop
  | [], _, after => after = value
  | _ :: _, none, _ => False
  | .key name :: rest, some node, after =>
    Throughout (fun before entries => ∃ child, Puts value rest (before.lookup? name) child ∧
      entries = before.insert name child) node after
  | .index position :: rest, some node, after =>
    ∃ items item child, node = .sequence items ∧ items[position.toNat]? = some item ∧
      Puts value rest (some item) child ∧ after = .sequence (items.set position.toNat child)

/-- What writing at `.key name :: rest` does at a node that is no sequence. -/
def writeKey (value : Document) (place : List Segment) (name : String) (rest : List Segment) :
    Document → Written
  | .mapping entries =>
    if rest.isEmpty then ⟨.mapping (Entries.insert name value entries), none⟩
    else match Entries.lookup? name entries with
      | none => ⟨.mapping entries, some (.missingKey (place ++ [.key name]))⟩
      | some child =>
        let inner := writeFrom value (place ++ [.key name]) rest child
        ⟨.mapping (Entries.insert name inner.document entries), inner.fault?⟩
  | other => ⟨other, some (.typeMismatch (place ++ [.key name]) .mapping other.shape)⟩

section Steps

variable {value : Document} {place rest : List Segment} {name : String} {position : UInt64}
  {node after : Document}

theorem writeFrom_key : writeFrom value place (.key name :: rest) node
    = node.writeEach (writeKey value place name rest) := by
  rw [writeFrom]
  congr 1

theorem puts_of_cons {segment : Segment} {slot : Option Document}
    (h : Puts value (segment :: rest) slot after) : ∃ node, slot = some node := by
  cases slot with
  | none => exact h.elim
  | some node => exact ⟨node, rfl⟩

theorem mapping_of_writeKey (h : writeKey value place name rest node = ⟨after, none⟩) :
    ∃ before entries, node = .mapping before ∧ after = .mapping entries := by
  cases node with
  | mapping before =>
    simp only [writeKey] at h
    split at h
    · cases h
      exact ⟨before, _, rfl, rfl⟩
    · split at h
      · cases h
      · injection h with hafter
        exact ⟨before, _, rfl, hafter.symm⟩
  | _ => cases h

/-- The step of a key, given what happens behind it. -/
theorem writeKey_eq_done {before entries : Entries Document}
    (behind : ∀ {place : List Segment} {child child' : Document},
      writeFrom value place rest child = ⟨child', none⟩ ↔ Puts value rest (some child) child') :
    writeKey value place name rest (.mapping before) = ⟨.mapping entries, none⟩ ↔
      ∃ child, Puts value rest (before.lookup? name) child ∧
        entries = before.insert name child := by
  simp only [writeKey]
  cases rest with
  | nil => simp [Puts, eq_comm]
  | cons segment more =>
    cases found : Entries.lookup? name before with
    | none => simp [Puts]
    | some child =>
      simp only [List.isEmpty_cons, Bool.false_eq_true, if_false]
      cases hw : writeFrom value (place ++ [.key name]) (segment :: more) child with
      | mk child' fault? =>
        constructor
        · intro h
          cases h
          exact ⟨child', behind.mp hw, rfl⟩
        · rintro ⟨child'', hputs, rfl⟩
          rw [behind.mpr hputs] at hw
          cases hw
          rfl

/-- The step of an index, given what happens behind it. -/
theorem writeFrom_index_eq_done
    (behind : ∀ {place : List Segment} {child child' : Document},
      writeFrom value place rest child = ⟨child', none⟩ ↔ Puts value rest (some child) child') :
    writeFrom value place (.index position :: rest) node = ⟨after, none⟩ ↔
      Puts value (.index position :: rest) (some node) after := by
  rw [Puts]
  cases node with
  | sequence items =>
    simp only [writeFrom]
    cases found : items[position.toNat]? with
    | none => simp [found]
    | some child =>
      cases hw : writeFrom value (place ++ [.index position]) rest child with
      | mk child' fault? =>
        simp only [hw]
        constructor
        · intro h
          cases h
          exact ⟨items, child, child', rfl, found, behind.mp hw, rfl⟩
        · rintro ⟨_, item, child'', hnode, hitem, hputs, rfl⟩
          cases hnode
          rw [found] at hitem
          cases hitem
          rw [behind.mpr hputs] at hw
          cases hw
          rfl
  | _ => simp [writeFrom]

end Steps

/-- **A write that succeeds is the relation.** -/
theorem writeFrom_eq_done {value : Document} {place segments : List Segment}
    {node after : Document} :
    writeFrom value place segments node = ⟨after, none⟩ ↔ Puts value segments (some node) after := by
  induction segments generalizing place node after with
  | nil => simp [writeFrom, Puts, eq_comm]
  | cons segment rest ih =>
    cases segment with
    | key name =>
      rw [writeFrom_key, writeEach_eq_done mapping_of_writeKey, Puts]
      simp only [writeKey_eq_done ih]
    | index position => exact writeFrom_index_eq_done ih

theorem Written.done_eq_ok {written : Written} {after : Document} :
    written.done = .ok after ↔ written = ⟨after, none⟩ := by
  obtain ⟨document, fault?⟩ := written
  cases fault? <;> simp [Written.done]

theorem replace_eq_ok {document after value : Document} {path : KeyPath} :
    (document.replace path value).done = .ok after ↔
      Puts value path.segments (some document) after := by
  rw [Written.done_eq_ok, replace, writeFrom_eq_done]

/-! ## Writes at divergent paths -/

/-- **Writes at divergent paths change places**, one succeeding whether or not the other has been
made. -/
theorem Puts.comm {p q : List Segment} (h : Diverge p q) {v w : Document}
    {slot : Option Document} {middle after : Document} (first : Puts v p slot middle)
    (second : Puts w q (some middle) after) :
    ∃ middle', Puts w q slot middle' ∧ Puts v p (some middle') after := by
  induction h generalizing slot middle after with
  | @keys a b p q ne =>
    obtain ⟨node, rfl⟩ := puts_of_cons first
    refine Throughout.comm ?_ first second
    rintro entries _ _ ⟨x, hx, rfl⟩ ⟨y, hy, rfl⟩
    rw [Entries.lookup?_insert_of_ne x entries ne.symm] at hy
    refine ⟨_, ⟨y, hy, rfl⟩, x, ?_, Entries.insert_comm x y entries ne⟩
    rw [Entries.lookup?_insert_of_ne y entries ne]
    exact hx
  | @indices i j p q ne =>
    obtain ⟨node, rfl⟩ := puts_of_cons first
    obtain ⟨items, a, x, rfl, ha, hx, rfl⟩ := first
    obtain ⟨_, b, y, hnode, hb, hy, rfl⟩ := second
    cases hnode
    have apart : i.toNat ≠ j.toNat := fun h => ne (UInt64.toNat_inj.mp h)
    rw [List.getElem?_set_ne apart] at hb
    refine ⟨_, ⟨items, b, y, rfl, hb, hy, rfl⟩, _, a, x, rfl, ?_, hx, ?_⟩
    · rw [List.getElem?_set_ne apart.symm]
      exact ha
    · rw [List.set_comm _ _ apart]
  | @step segment p q _ ih =>
    obtain ⟨node, rfl⟩ := puts_of_cons first
    cases segment with
    | key name =>
      refine Throughout.comm ?_ first second
      rintro entries _ _ ⟨x, hx, rfl⟩ ⟨y, hy, rfl⟩
      rw [Entries.lookup?_insert] at hy
      -- The second write ends where the first would have ended, with both made behind the key.
      obtain ⟨x', hy', hx'⟩ := ih hx hy
      refine ⟨_, ⟨x', hy', rfl⟩, y, ?_, ?_⟩
      · rw [Entries.lookup?_insert]
        exact hx'
      · rw [Entries.insert_insert, Entries.insert_insert]
    | index i =>
      obtain ⟨items, a, x, rfl, ha, hx, rfl⟩ := first
      obtain ⟨_, b, y, hnode, hb, hy, rfl⟩ := second
      cases hnode
      have bound : i.toNat < items.length := (List.getElem?_eq_some_iff.mp ha).1
      rw [List.getElem?_set_self bound] at hb
      cases hb
      obtain ⟨x', hy', hx'⟩ := ih hx hy
      refine ⟨_, ⟨items, a, x', rfl, ha, hy', rfl⟩, _, x', y, rfl, ?_, hx', ?_⟩
      · rw [List.getElem?_set_self bound]
      · rw [List.set_set, List.set_set]

end Variation.Document
