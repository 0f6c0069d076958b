import Variation.Document.Basic

/-!
# The nodes of a document

`Every` says something of all nodes of a document. A document is *ordered* if in each of its
mappings the keys ascend, which is how mappings come out of `Entries.insert`: a key that is greater
than all keys of a mapping is stored at its end. It is *indexed* if no sequence has more elements
than there are indices, which memory sees to. `nesting` is the number of containers that are open
at a time when a document is written from its beginning to its end.
-/

namespace Variation

namespace Entries

variable {α : Type}

def Ascending (entries : Entries α) : Prop :=
  entries.Pairwise fun entry later => entry.1 < later.1

instance (entries : Entries α) : Decidable (Ascending entries) :=
  inferInstanceAs (Decidable (entries.Pairwise fun entry later => entry.1 < later.1))

/-- A key is stored behind all the entries whose keys are less. -/
theorem insert_append_of_forall_lt {front back : Entries α} {key : String} (value : α)
    (h : ∀ entry ∈ front, entry.1 < key) :
    insert key value (front ++ back) = front ++ insert key value back := by
  induction front with
  | nil => rfl
  | cons entry rest ih =>
    have hlt : entry.1 < key := h entry List.mem_cons_self
    have hne : key ≠ entry.1 := fun heq => String.lt_irrefl entry.1 (heq ▸ hlt)
    rw [List.cons_append, insert, if_neg hne, if_neg (String.lt_asymm hlt)]
    rw [ih fun entry member => h entry (List.mem_cons_of_mem _ member), List.cons_append]

theorem insert_of_forall_lt {entries : Entries α} {key : String} (value : α)
    (h : ∀ entry ∈ entries, entry.1 < key) :
    entries.insert key value = entries ++ [(key, value)] := by
  have happend : insert key value (entries ++ []) = entries ++ insert key value [] :=
    insert_append_of_forall_lt value h
  rw [List.append_nil] at happend
  exact happend

theorem mem_of_mem_insert {key : String} {value : α} {entries : Entries α}
    {entry : String × α} (h : entry ∈ entries.insert key value) :
    entry = (key, value) ∨ entry ∈ entries := by
  induction entries with
  | nil => exact .inl (List.mem_singleton.mp h)
  | cons first rest ih =>
    obtain ⟨k, v⟩ := first
    rw [insert] at h
    split at h
    · exact (List.mem_cons.mp h).imp_right (List.mem_cons_of_mem _)
    · split at h
      · exact List.mem_cons.mp h
      · rcases List.mem_cons.mp h with rfl | h
        · exact .inr List.mem_cons_self
        · exact (ih h).imp_right (List.mem_cons_of_mem _)

/-- Storing at a key that is not there adds one entry to those that are. -/
theorem insert_perm {entries : Entries α} {key : String} (value : α)
    (h : key ∉ entries.map Prod.fst) : (entries.insert key value).Perm ((key, value) :: entries) := by
  fun_induction insert key value entries with
  | case1 => exact .refl _
  | case2 => simp at h
  | case3 => exact .refl _
  | case4 k v rest hne hlt ih =>
    have hrest : key ∉ rest.map Prod.fst := by
      intro member
      exact h (List.mem_cons_of_mem _ member)
    exact ((ih hrest).cons (k, v)).trans (.swap _ _ _)

/-- Pairs that are stored one after the other join the entries that are there. -/
theorem foldl_insert_perm {entries : Entries α} {pairs : List (String × α)}
    (h : ((entries ++ pairs).map Prod.fst).Nodup) :
    (pairs.foldl (fun entries pair => entries.insert pair.1 pair.2) entries).Perm
      (entries ++ pairs) := by
  induction pairs generalizing entries with
  | nil => rw [List.foldl_nil, List.append_nil]
  | cons pair rest ih =>
    -- The pair joins the entries, and the rest is stored among all of them.
    have hmiddle : (entries ++ pair :: rest).Perm ((pair :: entries) ++ rest) := List.perm_middle
    have hnodup : (((pair :: entries) ++ rest).map Prod.fst).Nodup :=
      (hmiddle.map Prod.fst).nodup_iff.mp h
    have hfresh : pair.1 ∉ entries.map Prod.fst := by
      intro member
      rw [List.cons_append, List.map_cons, List.map_append] at hnodup
      exact (List.nodup_cons.mp hnodup).1 (List.mem_append_left _ member)
    have hinsert : (entries.insert pair.1 pair.2).Perm (pair :: entries) := insert_perm pair.2 hfresh
    have hstored := hinsert.append_right rest
    have hrest := ih ((hstored.map Prod.fst).nodup_iff.mpr hnodup)
    exact (hrest.trans hstored).trans hmiddle.symm

/-- Pairs with different keys are all stored. -/
theorem ofPairs_perm {pairs : List (String × α)} (h : (pairs.map Prod.fst).Nodup) :
    (ofPairs pairs).Perm pairs :=
  foldl_insert_perm h

/-- Storing a value keeps the keys in order. -/
theorem ascending_insert {entries : Entries α} (key : String) (value : α)
    (h : Ascending entries) : Ascending (entries.insert key value) := by
  induction entries with
  | nil => exact List.pairwise_singleton _ _
  | cons first rest ih =>
    obtain ⟨k, v⟩ := first
    obtain ⟨hfirst, hrest⟩ := List.pairwise_cons.mp h
    rw [insert]
    split
    next heq => exact List.pairwise_cons.mpr ⟨heq ▸ hfirst, hrest⟩
    next hne =>
      split
      next hlt =>
        refine List.pairwise_cons.mpr ⟨fun entry member => ?_, h⟩
        rcases List.mem_cons.mp member with rfl | member
        · exact hlt
        · exact String.lt_trans hlt (hfirst entry member)
      next hnlt =>
        have hk : k < key :=
          String.not_le.mp fun hle => hne (String.le_antisymm hle (String.not_lt.mp hnlt))
        refine List.pairwise_cons.mpr ⟨fun entry member => ?_, ih hrest⟩
        rcases mem_of_mem_insert member with rfl | member
        · exact hk
        · exact hfirst entry member

/-- Entries that are stored one after the other in the order of their keys stay in this order. -/
theorem insert_of_ascending {front back : Entries α} {key : String} {value : α}
    (h : Ascending (front ++ (key, value) :: back)) :
    front.insert key value = front ++ [(key, value)] := by
  refine insert_of_forall_lt value fun entry member => ?_
  exact (List.pairwise_append.mp h).2.2 entry member (key, value) List.mem_cons_self

theorem lookup?_of_forall_lt {front back : Entries α} {key : String}
    (h : ∀ entry ∈ front, entry.1 < key) :
    lookup? key (front ++ back) = lookup? key back := by
  induction front with
  | nil => rfl
  | cons entry rest ih =>
    have hlt : entry.1 < key := h entry List.mem_cons_self
    have hne : key ≠ entry.1 := fun heq => String.lt_irrefl entry.1 (heq ▸ hlt)
    rw [List.cons_append, lookup?, if_neg hne, if_neg (String.lt_asymm hlt)]
    exact ih fun entry member => h entry (List.mem_cons_of_mem _ member)

theorem mem_of_lookup? {entries : Entries α} {key : String} {value : α}
    (h : lookup? key entries = some value) : (key, value) ∈ entries := by
  induction entries with
  | nil => cases h
  | cons entry rest ih =>
    rw [lookup?] at h
    split at h
    next heq =>
      cases h
      rw [heq]
      exact List.mem_cons_self
    next hne =>
      split at h
      · cases h
      · exact List.mem_cons_of_mem _ (ih h)

/-- Where the keys ascend every entry is found at its key. -/
theorem lookup?_of_mem {entries : Entries α} {key : String} {value : α}
    (h : Ascending entries) (member : (key, value) ∈ entries) :
    lookup? key entries = some value := by
  obtain ⟨front, back, rfl⟩ := List.append_of_mem member
  rw [lookup?_of_forall_lt fun entry hentry =>
    (List.pairwise_append.mp h).2.2 entry hentry (key, value) List.mem_cons_self]
  exact if_pos rfl

end Entries

namespace Document

/-- A node that has no nodes in it. -/
def Scalar (node : Document) : Prop :=
  node.shape ≠ .sequence ∧ node.shape ≠ .mapping

instance : DecidablePred Scalar :=
  fun node => inferInstanceAs (Decidable (node.shape ≠ .sequence ∧ node.shape ≠ .mapping))

theorem not_scalar_sequence (items : List Document) : ¬ Scalar (.sequence items) :=
  fun h => h.1 rfl

theorem not_scalar_mapping (entries : Entries Document) : ¬ Scalar (.mapping entries) :=
  fun h => h.2 rfl

/-- Induction on the nodes of a document, from those that are in a node to the node itself. -/
theorem induction {motive : Document → Prop} (scalar : ∀ node, node.Scalar → motive node)
    (sequence : ∀ items, (∀ item ∈ items, motive item) → motive (.sequence items))
    (mapping : ∀ entries : Entries Document, (∀ entry ∈ entries, motive entry.2) →
      motive (.mapping entries)) (node : Document) : motive node := by
  cases node with
  | sequence items => exact sequence items fun item _ => induction scalar sequence mapping item
  | mapping entries =>
    refine mapping entries fun entry member => ?_
    have hentry : sizeOf entry < sizeOf entries := List.sizeOf_lt_of_mem member
    have hvalue : sizeOf entry.2 < sizeOf entry := by
      cases entry
      simp only [Prod.mk.sizeOf_spec]
      omega
    exact induction scalar sequence mapping entry.2
  | _ => exact scalar _ ⟨nofun, nofun⟩

/-! ## What holds of every node -/

mutual
/-- A property of every node of a document, the root among them. -/
def Every (p : Document → Prop) : Document → Prop
  | .sequence items => p (.sequence items) ∧ EveryItem p items
  | .mapping entries => p (.mapping entries) ∧ EveryValue p entries
  | node => p node

def EveryItem (p : Document → Prop) : List Document → Prop
  | [] => True
  | item :: rest => item.Every p ∧ EveryItem p rest

def EveryValue (p : Document → Prop) : List (String × Document) → Prop
  | [] => True
  | (_, value) :: rest => value.Every p ∧ EveryValue p rest
end

section Decidable

variable (p : Document → Prop) [DecidablePred p]

mutual
instance Every.decidable : (document : Document) → Decidable (document.Every p)
  | .sequence items =>
    have := EveryItem.decidable items
    inferInstanceAs (Decidable (p (.sequence items) ∧ EveryItem p items))
  | .mapping entries =>
    have := EveryValue.decidable entries
    inferInstanceAs (Decidable (p (.mapping entries) ∧ EveryValue p entries))
  | .null | .boolean _ | .whole _ | .real _ | .text _ => inferInstanceAs (Decidable (p _))

instance EveryItem.decidable : (items : List Document) → Decidable (EveryItem p items)
  | [] => inferInstanceAs (Decidable True)
  | item :: rest =>
    have := Every.decidable item
    have := EveryItem.decidable rest
    inferInstanceAs (Decidable (item.Every p ∧ EveryItem p rest))

instance EveryValue.decidable :
    (entries : List (String × Document)) → Decidable (EveryValue p entries)
  | [] => inferInstanceAs (Decidable True)
  | (_, value) :: rest =>
    have := Every.decidable value
    have := EveryValue.decidable rest
    inferInstanceAs (Decidable (value.Every p ∧ EveryValue p rest))
end

end Decidable

theorem everyItem_iff {p : Document → Prop} {items : List Document} :
    EveryItem p items ↔ ∀ item ∈ items, item.Every p := by
  induction items with
  | nil => simp [EveryItem]
  | cons item rest ih => simp [EveryItem, ih]

theorem everyValue_iff {p : Document → Prop} {entries : Entries Document} :
    EveryValue p entries ↔ ∀ entry ∈ entries, entry.2.Every p := by
  induction entries with
  | nil => simp [EveryValue]
  | cons entry rest ih => simp [EveryValue, ih]

def KeysAscend : Document → Prop
  | .mapping entries => Entries.Ascending entries
  | _ => True

instance : DecidablePred KeysAscend
  | .mapping entries => inferInstanceAs (Decidable (Entries.Ascending entries))
  | .null | .boolean _ | .whole _ | .real _ | .text _ | .sequence _ =>
    inferInstanceAs (Decidable True)

/-- The keys of every mapping ascend. -/
def Ordered (document : Document) : Prop :=
  document.Every KeysAscend

instance (document : Document) : Decidable document.Ordered :=
  Every.decidable KeysAscend document

theorem ordered_sequence {items : List Document} :
    Ordered (.sequence items) ↔ ∀ item ∈ items, item.Ordered := by
  simp [Ordered, Every, KeysAscend, everyItem_iff]

theorem ordered_mapping {entries : Entries Document} :
    Ordered (.mapping entries) ↔
      Entries.Ascending entries ∧ ∀ entry ∈ entries, entry.2.Ordered := by
  simp only [Ordered, Every, KeysAscend, everyValue_iff]

def ItemsIndexed : Document → Prop
  | .sequence items => items.length ≤ 2 ^ 64
  | _ => True

instance : DecidablePred ItemsIndexed
  | .sequence items => inferInstanceAs (Decidable (items.length ≤ 2 ^ 64))
  | .null | .boolean _ | .whole _ | .real _ | .text _ | .mapping _ =>
    inferInstanceAs (Decidable True)

/-- Every element of every sequence has an index. -/
def Indexed (document : Document) : Prop :=
  document.Every ItemsIndexed

instance (document : Document) : Decidable document.Indexed :=
  Every.decidable ItemsIndexed document

theorem indexed_sequence {items : List Document} :
    Indexed (.sequence items) ↔ items.length ≤ 2 ^ 64 ∧ ∀ item ∈ items, item.Indexed := by
  simp only [Indexed, Every, ItemsIndexed, everyItem_iff]

theorem indexed_mapping {entries : Entries Document} :
    Indexed (.mapping entries) ↔ ∀ entry ∈ entries, entry.2.Indexed := by
  simp [Indexed, Every, ItemsIndexed, everyValue_iff]

def NotReal : Document → Prop
  | .real _ => False
  | _ => True

instance : DecidablePred NotReal
  | .real _ => inferInstanceAs (Decidable False)
  | .null | .boolean _ | .whole _ | .text _ | .sequence _ | .mapping _ =>
    inferInstanceAs (Decidable True)

/-- Every number is a whole one. -/
def WithoutReals (document : Document) : Prop :=
  document.Every NotReal

instance (document : Document) : Decidable document.WithoutReals :=
  Every.decidable NotReal document

theorem not_withoutReals_real (x : Decimal.Binary64) : ¬ WithoutReals (.real x) := id

theorem withoutReals_sequence {items : List Document} :
    WithoutReals (.sequence items) ↔ ∀ item ∈ items, item.WithoutReals := by
  simp [WithoutReals, Every, NotReal, everyItem_iff]

theorem withoutReals_mapping {entries : Entries Document} :
    WithoutReals (.mapping entries) ↔ ∀ entry ∈ entries, entry.2.WithoutReals := by
  simp [WithoutReals, Every, NotReal, everyValue_iff]

/-! ## Containers in containers -/

mutual
/-- How many containers lie on the longest way down from the root. -/
def nesting : Document → Nat
  | .sequence items => nestingOfItems items + 1
  | .mapping entries => nestingOfEntries entries + 1
  | _ => 0

def nestingOfItems : List Document → Nat
  | [] => 0
  | item :: rest => max item.nesting (nestingOfItems rest)

def nestingOfEntries : List (String × Document) → Nat
  | [] => 0
  | (_, value) :: rest => max value.nesting (nestingOfEntries rest)
end

theorem nestingOfItems_le_iff {items : List Document} {n : Nat} :
    nestingOfItems items ≤ n ↔ ∀ item ∈ items, item.nesting ≤ n := by
  induction items with
  | nil => simp [nestingOfItems]
  | cons item rest ih => rw [nestingOfItems, Nat.max_le, ih, List.forall_mem_cons]

theorem nestingOfEntries_le_iff {entries : Entries Document} {n : Nat} :
    nestingOfEntries entries ≤ n ↔ ∀ entry ∈ entries, entry.2.nesting ≤ n := by
  induction entries with
  | nil => simp [nestingOfEntries]
  | cons entry rest ih => rw [nestingOfEntries, Nat.max_le, ih, List.forall_mem_cons]

end Document

end Variation
