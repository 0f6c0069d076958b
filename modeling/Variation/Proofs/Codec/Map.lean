import Variation.Codec.Map
import Variation.Proofs.Codec.Copy
import Variation.Proofs.Document.Nodes
import Variation.Proofs.Json.RoundTrip

/-!
# Copies of maps

A map goes through a mapping, whose entries stand in the order of the texts of their keys, and is
sorted again when it is read. It comes back complete and in its own order if every key is given back
by its text (`KeyForm.Lawful`): different keys then have different texts, so no entry takes the place
of another, and the entries that are read are those that were written in some order.
-/

namespace Variation.Codec

variable {α κ : Type}

/-! ## Lists read back -/

section Each

variable {β ε ε' : Type} {f : α → Except ε β}

theorem exists_each_back {g : β → Except ε' α} {items : List α}
    (h : ∀ item ∈ items, ∃ value, f item = .ok value ∧ g value = .ok item) :
    ∃ values, each f items = .ok values ∧ each g values = .ok items := by
  induction items with
  | nil => exact ⟨[], rfl, rfl⟩
  | cons item rest ih =>
    obtain ⟨value, hitem, hvalue⟩ := h item List.mem_cons_self
    obtain ⟨values, hrest, hvalues⟩ := ih fun other member => h other (List.mem_cons_of_mem _ member)
    exact ⟨value :: values, each_cons_ok hitem hrest, each_cons_ok hvalue hvalues⟩

theorem exists_of_mem_each {items : List α} {values : List β} {item : α}
    (h : each f items = .ok values) (member : item ∈ items) :
    ∃ value ∈ values, f item = .ok value := by
  induction items generalizing values with
  | nil => cases member
  | cons first rest ih =>
    obtain ⟨value, behind, hfirst, hrest, rfl⟩ := each_cons_eq_ok.mp h
    rcases List.mem_cons.mp member with rfl | member
    · exact ⟨value, List.mem_cons_self, hfirst⟩
    · obtain ⟨found, hfound, hitem⟩ := ih hrest member
      exact ⟨found, List.mem_cons_of_mem _ hfound, hitem⟩

/-- What tells any two values apart tells the items apart that they are the values of. -/
theorem pairwise_of_each {R : α → α → Prop} {S : β → β → Prop} {items : List α} {values : List β}
    (h : each f items = .ok values) (hvalues : values.Pairwise S)
    (himp : ∀ {item other value value'}, f item = .ok value → f other = .ok value' →
      S value value' → R item other) : items.Pairwise R := by
  induction items generalizing values with
  | nil => exact .nil
  | cons first rest ih =>
    obtain ⟨value, behind, hfirst, hrest, rfl⟩ := each_cons_eq_ok.mp h
    obtain ⟨hvalue, hbehind⟩ := List.pairwise_cons.mp hvalues
    refine List.pairwise_cons.mpr ⟨fun other member => ?_, ih hrest hbehind⟩
    obtain ⟨value', hmem, hother⟩ := exists_of_mem_each hrest member
    exact himp hfirst hother (hvalue value' hmem)

/-- In another order the same values come out in another order. -/
theorem each_perm {items other : List α} {values : List β} (hperm : items.Perm other)
    (h : each f items = .ok values) :
    ∃ values', each f other = .ok values' ∧ values'.Perm values := by
  induction hperm generalizing values with
  | nil => exact ⟨values, h, .refl values⟩
  | cons item _ ih =>
    obtain ⟨value, behind, hitem, hrest, rfl⟩ := each_cons_eq_ok.mp h
    obtain ⟨behind', hother, hbehind⟩ := ih hrest
    exact ⟨value :: behind', each_cons_ok hitem hother, hbehind.cons value⟩
  | swap first second rest =>
    obtain ⟨value, behind, hsecond, htail, rfl⟩ := each_cons_eq_ok.mp h
    obtain ⟨value', behind', hfirst, hrest, rfl⟩ := each_cons_eq_ok.mp htail
    exact ⟨value' :: value :: behind', each_cons_ok hfirst (each_cons_ok hsecond hrest),
      .swap _ _ _⟩
  | trans _ _ ih ih' =>
    obtain ⟨values', hmiddle, hperm⟩ := ih h
    obtain ⟨values'', hother, hperm'⟩ := ih' hmiddle
    exact ⟨values'', hother, hperm'.trans hperm⟩

end Each

/-! ## Keys and entries -/

/-- Each of the keys that a map may have is given back by its text, and the order of keys is
total. -/
structure KeyForm.Lawful (key : KeyForm κ) (legal : κ → Prop) : Prop where
  readBack : ∀ k, legal k → ∃ name, key.write k = .ok name ∧ key.read name = .ok k
  trans : ∀ a b c, key.ordered a b = true → key.ordered b c = true → key.ordered a c = true
  total : ∀ a b, (key.ordered a b || key.ordered b a) = true

/-- The entries of a map: in the order of their keys, and no key stands twice. -/
def KeyForm.Ascending (key : KeyForm κ) (entries : List (κ × α)) : Prop :=
  entries.Pairwise fun entry later => key.ordered later.1 entry.1 = false

section Entries

variable {key : KeyForm κ} {value : Codec α} {legal : κ → Prop} {entries : List (κ × α)}

def writeEntry (key : KeyForm κ) (value : Codec α) (entry : κ × α) :
    Except Unfit (String × Document) := do
  let name ← key.write entry.1
  let document ← value.encode entry.2
  .ok (name, document)

def readEntry (key : KeyForm κ) (value : Codec α) (entry : String × Document) :
    Except Mismatch (κ × α) := do
  let k ← key.read entry.1
  let a ← value.decode entry.2
  .ok (k, a)

theorem map_encode :
    (map key value).encode entries = (each (writeEntry key value) entries).map .ofPairs :=
  rfl

theorem map_decode (read : List (String × Document)) :
    (map key value).decode (.mapping read) = (each (readEntry key value) read).map fun pairs =>
      pairs.mergeSort fun p q => key.ordered p.1 q.1 :=
  rfl

theorem exists_readEntry {entry : κ × α} (hkey : key.Lawful legal) (hlegal : legal entry.1)
    (hvalue : value.copy entry.2 = .ok entry.2) :
    ∃ pair, writeEntry key value entry = .ok pair ∧ readEntry key value pair = .ok entry := by
  obtain ⟨name, hwrite, hread⟩ := hkey.readBack entry.1 hlegal
  obtain ⟨document, hencode, hdecode⟩ := copy_eq_ok.mp hvalue
  refine ⟨(name, document), ?_, ?_⟩
  · rw [writeEntry, hwrite, hencode]
    rfl
  · rw [readEntry, hread, hdecode]
    rfl

theorem read_of_readEntry {pair : String × Document} {entry : κ × α}
    (h : readEntry key value pair = .ok entry) : key.read pair.1 = .ok entry.1 := by
  rw [readEntry] at h
  cases hread : key.read pair.1 with
  | error reason =>
    rw [hread] at h
    cases h
  | ok k =>
    rw [hread] at h
    cases hdecode : value.decode pair.2 with
    | error reason =>
      rw [hdecode] at h
      cases h
    | ok a =>
      rw [hdecode] at h
      cases h
      rfl

/-- Different keys are read from different texts. -/
theorem nodup_of_readEntry {pairs : List (String × Document)} (hkey : key.Lawful legal)
    (hread : each (readEntry key value) pairs = .ok entries) (hascending : key.Ascending entries) :
    (pairs.map Prod.fst).Nodup := by
  refine List.pairwise_map.mpr (pairwise_of_each hread hascending ?_)
  intro pair other entry later hentry hlater hordered hname
  -- From one text one key is read, and no key comes after itself.
  have hsame : entry.1 = later.1 := by
    have hfirst := read_of_readEntry hentry
    rw [hname, read_of_readEntry hlater] at hfirst
    exact (Except.ok.inj hfirst).symm
  have hself := hkey.total later.1 later.1
  rw [← hsame, Bool.or_self] at hself
  rw [← hsame, hself] at hordered
  cases hordered

theorem mergeSort_of_perm {read : List (κ × α)} (hkey : key.Lawful legal)
    (hascending : key.Ascending entries) (hperm : read.Perm entries) :
    read.mergeSort (fun p q => key.ordered p.1 q.1) = entries := by
  have hall : (read.mergeSort fun p q => key.ordered p.1 q.1).Perm entries :=
    (List.mergeSort_perm read _).trans hperm
  have hsorted : (read.mergeSort fun p q => key.ordered p.1 q.1).Pairwise fun p q =>
      key.ordered p.1 q.1 = true :=
    List.pairwise_mergeSort (fun a b c => hkey.trans a.1 b.1 c.1) (fun a b => hkey.total a.1 b.1) read
  -- No two keys are in order both ways, which does not depend on the order of the entries.
  have hapart : (read.mergeSort fun p q => key.ordered p.1 q.1).Pairwise fun p q =>
      key.ordered p.1 q.1 = false ∨ key.ordered q.1 p.1 = false :=
    (hall.pairwise_iff Or.symm).mpr (hascending.imp Or.inr)
  have hstrict : key.Ascending (read.mergeSort fun p q => key.ordered p.1 q.1) := by
    refine (hsorted.and hapart).imp fun {p q} h => ?_
    rcases h with ⟨hpq, hback | hback⟩
    · rw [hpq] at hback
      cases hback
    · exact hback
  refine List.Perm.eq_of_pairwise ?_ hstrict hascending hall
  intro p q _ _ hpq hqp
  have htotal := hkey.total p.1 q.1
  rw [hpq, hqp] at htotal
  cases htotal

/-- **A map is copied** if its values are and its keys are given back by their texts. -/
theorem copy_map (hkey : key.Lawful legal) (hlegal : ∀ entry ∈ entries, legal entry.1)
    (hvalues : ∀ entry ∈ entries, value.copy entry.2 = .ok entry.2)
    (hascending : key.Ascending entries) : (map key value).copy entries = .ok entries := by
  have hentries : ∀ entry ∈ entries, ∃ pair,
      writeEntry key value entry = .ok pair ∧ readEntry key value pair = .ok entry :=
    fun entry member => exists_readEntry hkey (hlegal entry member) (hvalues entry member)
  obtain ⟨pairs, hwrite, hread⟩ := exists_each_back hentries
  have hstored : (Entries.ofPairs pairs).Perm pairs :=
    Entries.ofPairs_perm (nodup_of_readEntry hkey hread hascending)
  obtain ⟨read, hfound, hperm⟩ := each_perm hstored.symm hread
  refine copy_eq_ok.mpr ⟨.ofPairs pairs, ?_, ?_⟩
  · rw [map_encode, hwrite]
    rfl
  · rw [Document.ofPairs, map_decode, hfound, Except.map]
    rw [mergeSort_of_perm hkey hascending hperm]

end Entries

/-! ## Whole numbers as keys -/

theorem readInteger_decimal {number : Codec Int} {n : Whole}
    (h : number.decode (.whole n) = .ok n.value) :
    KeyForm.readInteger number (String.ofList (Text.Numeral.decimal n.value)) = .ok n.value := by
  have hend : Json.Breaks [] := by
    intro c rest hnil
    cases hnil
  have hnumber := Json.number_decimal n hend
  obtain ⟨c, rest, hdecimal, hc⟩ := Json.exists_decimal n
  have hstart : (decide (c = '-') || Json.isDigit c) = true := by
    rcases hc with rfl | hc
    · rfl
    · rw [hc, Bool.or_true]
  rw [List.append_nil, hdecimal] at hnumber
  rw [KeyForm.readInteger, String.toList_ofList, hdecimal]
  simp only [List.head?_cons, Option.elim_some, hstart, if_true, hnumber, h, List.isEmpty_nil]

/-- Whole numbers that fit a document are given back by their digits. -/
theorem lawful_integer {name : String} {low high : Int} (hlow : -2 ^ 63 ≤ low)
    (hhigh : high ≤ 2 ^ 64) :
    (KeyForm.integer (integer name low high)).Lawful fun n => low ≤ n ∧ n < high where
  readBack n hn := by
    let whole : Whole := ⟨n, Int.le_trans hlow hn.1, Int.lt_of_lt_of_le hn.2 hhigh⟩
    have hdecode : (integer name low high).decode (.whole whole) = .ok whole.value :=
      integer_decode_whole hn
    have hread := readInteger_decimal hdecode
    exact ⟨String.ofList (Text.Numeral.decimal n), rfl, hread⟩
  trans a b c hab hbc :=
    decide_eq_true (Int.le_trans (of_decide_eq_true hab) (of_decide_eq_true hbc))
  total a b := by
    show (decide (a ≤ b) || decide (b ≤ a)) = true
    rw [Bool.or_eq_true, decide_eq_true_iff, decide_eq_true_iff]
    exact Int.le_total a b

/-- A map from whole numbers to documents is copied, whatever the documents are. -/
theorem copy_integer_map {entries : List (Int × Document)}
    (hascending : entries.Pairwise fun entry later => entry.1 < later.1)
    (hkeys : ∀ entry ∈ entries, -2 ^ 63 ≤ entry.1 ∧ entry.1 < 2 ^ 63) :
    (map (.integer (signed 64)) document).copy entries = .ok entries := by
  have hlawful : (KeyForm.integer (signed 64)).Lawful fun n => -2 ^ 63 ≤ n ∧ n < 2 ^ 63 :=
    lawful_integer (by decide) (by decide)
  refine copy_map hlawful hkeys (fun entry _ => rfl) (hascending.imp fun hlt => ?_)
  exact decide_eq_false (Int.not_le.mpr hlt)

/-- **What is copied is kept, and only what has no document is refused.** A map whose keys are whole
numbers of 64 bits comes back entry for entry, and so does every path. A list of numbers comes back
if all of them are finite, and a whole number of 128 bits if 64 suffice; otherwise there is no
copy. -/
theorem copy_keeps_or_refuses :
    (∀ entries : List (Int × Document),
      (entries.Pairwise fun entry later => entry.1 < later.1) →
      (∀ entry ∈ entries, -2 ^ 63 ≤ entry.1 ∧ entry.1 < 2 ^ 63) →
      (map (.integer (signed 64)) document).copy entries = .ok entries) ∧
    (∀ path, keyPath.copy path = .ok path) ∧
    (∀ items, (list float).copy items =
      if items.all Float64.isFinite then .ok items
      else .error (.mismatch (.wrongType .null "f64"))) ∧
    (∀ n : Nat, n < 2 ^ 128 → (unsigned 128).copy n =
      if n < 2 ^ 64 then .ok (n : Int) else .error (.unfit .outOfRange)) := by
  refine ⟨fun entries => copy_integer_map, copy_keyPath, copy_floats, fun n hn => ?_⟩
  have hrange : (0 : Int) ≤ n ∧ (n : Int) < 2 ^ 128 := by omega
  rw [unsigned, copy_integer hrange]
  by_cases hfits : n < 2 ^ 64
  · rw [if_pos hfits, if_pos (by omega)]
  · rw [if_neg hfits, if_neg (by omega)]

/-- The order of these keys as texts is another one. -/
theorem copy_keeps_or_refuses_outermost :
    let entries : List (Int × Document) :=
      [(-9223372036854775808, .null), (-2, .text "b"), (9, .sequence [.null]),
        (10, .mapping [("d", .boolean true)]), (9223372036854775807, .null)]
    let path : KeyPath := ⟨.key "a.b", [.index 18446744073709551615]⟩
    (entries.Pairwise fun entry later => entry.1 < later.1) ∧
    (∀ entry ∈ entries, -2 ^ 63 ≤ entry.1 ∧ entry.1 < 2 ^ 63) ∧
    (map (.integer (signed 64)) document).copy entries = .ok entries ∧
    keyPath.copy path = .ok path ∧
    (list float).copy [.finite (.zero true), .infinite true]
      = .error (.mismatch (.wrongType .null "f64")) ∧
    18446744073709551615 < 2 ^ 128 ∧ (unsigned 128).copy 18446744073709551615
      = .ok 18446744073709551615 ∧
    18446744073709551616 < 2 ^ 128 ∧ (unsigned 128).copy 18446744073709551616
      = .error (.unfit .outOfRange) := by
  intro entries path
  have hascending : entries.Pairwise fun entry later => entry.1 < later.1 := by decide
  have hkeys : ∀ entry ∈ entries, -2 ^ 63 ≤ entry.1 ∧ entry.1 < 2 ^ 63 := by decide
  obtain ⟨hmaps, hpaths, hfloats, hwide⟩ := copy_keeps_or_refuses
  refine ⟨hascending, hkeys, hmaps entries hascending hkeys, hpaths path, hfloats _, ?_⟩
  exact ⟨by decide, hwide 18446744073709551615 (by decide), by decide,
    hwide 18446744073709551616 (by decide)⟩

end Variation.Codec
