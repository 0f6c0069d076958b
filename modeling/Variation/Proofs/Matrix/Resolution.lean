import Mathlib.Data.List.Forall2
import Variation.Matrix.Resolution
import Variation.Proofs.Axis.Expansion

/-!
# What a matrix file resolves to

Resolving keeps the tree that a file declares and gives every axis of it its candidates. `ResolvesTo`
says so without the order of the work. The order matters when the file is at fault: the axes are gone
through in pre-order, an axis before those under its relationships, and the first that does not say in
exactly one way what its candidates are, or whose candidates cannot be taken from the base document,
decides the error (`FirstOffence`).

The candidates come from the base document as it stands at the start, so a file that is resolved
against one document may have them listed instead, and no longer depends on any document.
-/

namespace Variation

open List (Forall₂)

/-! ## The candidates of one axis -/

/-- The axis lists the candidates, or names the sequence of the base document that they are in. -/
inductive AxisDeclaration.Supplies (base : Document) : AxisDeclaration → List Document → Prop
  | listed {path : KeyPath} {values : List Document}
      {relationships : List RelationshipDeclaration} :
      Supplies base ⟨path, some values, none, relationships⟩ values
  | taken {path source : KeyPath} {items : List Document}
      {relationships : List RelationshipDeclaration}
      (read : base.get source = .ok (.sequence items)) :
      Supplies base ⟨path, none, some source, relationships⟩ items

/-- What is wrong with an axis that has no candidates to supply. -/
inductive AxisDeclaration.Offends (base : Document) : AxisDeclaration → MatrixError → Prop
  | both {path source : KeyPath} {values : List Document}
      {relationships : List RelationshipDeclaration} :
      Offends base ⟨path, some values, some source, relationships⟩ (.invalidAxis path .both)
  | neither {path : KeyPath} {relationships : List RelationshipDeclaration} :
      Offends base ⟨path, none, none, relationships⟩ (.invalidAxis path .neither)
  | unread {path source : KeyPath} {relationships : List RelationshipDeclaration}
      {fault : AccessError} (read : base.get source = .error fault) :
      Offends base ⟨path, none, some source, relationships⟩ (.candidates fault)
  | noSequence {path source : KeyPath} {relationships : List RelationshipDeclaration}
      {held : Document} (read : base.get source = .ok held) (other : held.shape ≠ .sequence) :
      Offends base ⟨path, none, some source, relationships⟩
        (.candidates (.typeMismatch source.segments .sequence held.shape))

section Candidates

variable {base : Document} {axis : AxisDeclaration} {candidates : List Document}
  {error other : MatrixError}

theorem AxisDeclaration.Supplies.resolveCandidates_eq (h : axis.Supplies base candidates) :
    resolveCandidates base axis.path axis.values axis.source = .ok candidates := by
  cases h with
  | listed => rfl
  | taken read => simp [resolveCandidates, Axis.fromCandidates, read]

theorem AxisDeclaration.Offends.resolveCandidates_eq (h : axis.Offends base error) :
    resolveCandidates base axis.path axis.values axis.source = .error error := by
  cases h with
  | both => rfl
  | neither => rfl
  | unread read => simp [resolveCandidates, Axis.fromCandidates, read]
  | @noSequence _ _ _ held read other =>
    simp only [resolveCandidates, Axis.fromCandidates, read]
    cases held with
    | sequence items => exact absurd rfl other
    | _ => rfl

/-- There is no third way: an axis supplies candidates, or something is wrong with it. -/
theorem AxisDeclaration.supplies_or_offends (base : Document) (axis : AxisDeclaration) :
    (∃ candidates, axis.Supplies base candidates) ∨ ∃ error, axis.Offends base error := by
  obtain ⟨path, values, source, relationships⟩ := axis
  cases values with
  | some values =>
    cases source with
    | none => exact .inl ⟨values, .listed⟩
    | some source => exact .inr ⟨_, .both⟩
  | none =>
    cases source with
    | none => exact .inr ⟨_, .neither⟩
    | some source =>
      cases read : base.get source with
      | error fault => exact .inr ⟨_, .unread read⟩
      | ok held =>
        by_cases hshape : held.shape = .sequence
        · cases held <;> cases hshape
          exact .inl ⟨_, .taken read⟩
        · exact .inr ⟨_, .noSequence read hshape⟩

theorem resolveCandidates_eq_ok :
    resolveCandidates base axis.path axis.values axis.source = .ok candidates ↔
      axis.Supplies base candidates := by
  constructor
  · intro h
    rcases axis.supplies_or_offends base with ⟨candidates', supplies⟩ | ⟨error, offends⟩
    · rw [supplies.resolveCandidates_eq] at h
      cases h
      exact supplies
    · rw [offends.resolveCandidates_eq] at h
      cases h
  · intro h
    exact h.resolveCandidates_eq

theorem resolveCandidates_eq_error :
    resolveCandidates base axis.path axis.values axis.source = .error error ↔
      axis.Offends base error := by
  constructor
  · intro h
    rcases axis.supplies_or_offends base with ⟨candidates, supplies⟩ | ⟨error', offends⟩
    · rw [supplies.resolveCandidates_eq] at h
      cases h
    · rw [offends.resolveCandidates_eq] at h
      cases h
      exact offends
  · intro h
    exact h.resolveCandidates_eq

theorem AxisDeclaration.Offends.not_supplies (offends : axis.Offends base error) :
    ¬ axis.Supplies base candidates := by
  intro supplies
  have heq := supplies.resolveCandidates_eq
  rw [offends.resolveCandidates_eq] at heq
  cases heq

/-- One thing only is wrong with an axis. -/
theorem AxisDeclaration.Offends.unique (first : axis.Offends base error)
    (second : axis.Offends base other) : error = other := by
  have heq := first.resolveCandidates_eq
  rw [second.resolveCandidates_eq] at heq
  cases heq
  rfl

end Candidates

/-! ## The order of the axes -/

mutual
/-- An axis and the axes below it, each before those under its own relationships. -/
def AxisDeclaration.preorder : AxisDeclaration → List AxisDeclaration
  | ⟨path, values, source, relationships⟩ =>
    ⟨path, values, source, relationships⟩ :: preorderBelow relationships

def preorderAxes : List AxisDeclaration → List AxisDeclaration
  | [] => []
  | axis :: rest => axis.preorder ++ preorderAxes rest

def preorderBelow : List RelationshipDeclaration → List AxisDeclaration
  | [] => []
  | ⟨_, _, children⟩ :: rest => preorderAxes children ++ preorderBelow rest
end

/-- All axes supply candidates. -/
def AllSupply (base : Document) (axes : List AxisDeclaration) : Prop :=
  ∀ axis ∈ axes, ∃ candidates, axis.Supplies base candidates

/-- The first axis that supplies no candidates offends in the way that an error says. -/
inductive FirstOffence (base : Document) : List AxisDeclaration → MatrixError → Prop
  | here {axis : AxisDeclaration} {behind : List AxisDeclaration} {error : MatrixError}
      (offends : axis.Offends base error) : FirstOffence base (axis :: behind) error
  | later {axis : AxisDeclaration} {behind : List AxisDeclaration} {error : MatrixError}
      {candidates : List Document} (supplies : axis.Supplies base candidates)
      (offence : FirstOffence base behind error) : FirstOffence base (axis :: behind) error

section Order

variable {base : Document} {front back : List AxisDeclaration} {error other : MatrixError}

theorem allSupply_append (hfront : AllSupply base front) (hback : AllSupply base back) :
    AllSupply base (front ++ back) := by
  intro axis member
  rcases List.mem_append.mp member with member | member
  · exact hfront axis member
  · exact hback axis member

/-- Axes behind the one at fault are not looked at. -/
theorem FirstOffence.append_right (h : FirstOffence base front error)
    (back : List AxisDeclaration) : FirstOffence base (front ++ back) error := by
  induction h with
  | here offends => exact .here offends
  | later supplies _ ih => exact .later supplies ih

/-- Axes that supply candidates are gone past. -/
theorem FirstOffence.behind (supply : AllSupply base front) (h : FirstOffence base back error) :
    FirstOffence base (front ++ back) error := by
  induction front with
  | nil => exact h
  | cons axis rest ih =>
    obtain ⟨⟨candidates, supplies⟩, hrest⟩ := List.forall_mem_cons.mp supply
    exact .later supplies (ih hrest)

theorem FirstOffence.not_allSupply (h : FirstOffence base front error) : ¬ AllSupply base front := by
  intro supply
  induction h with
  | here offends =>
    obtain ⟨candidates, supplies⟩ := supply _ List.mem_cons_self
    exact offends.not_supplies supplies
  | later _ _ ih => exact ih fun axis member => supply axis (List.mem_cons_of_mem _ member)

theorem FirstOffence.unique (first : FirstOffence base front error)
    (second : FirstOffence base front other) : error = other := by
  induction first with
  | here offends =>
    cases second with
    | here offends' => exact offends.unique offends'
    | later supplies _ => exact absurd supplies offends.not_supplies
  | later supplies _ ih =>
    cases second with
    | here offends => exact absurd supplies offends.not_supplies
    | later _ offence => exact ih offence

end Order

/-! ## The tree -/

mutual
/-- The axis has the path of the declaration and the candidates that it supplies, and relationships
for those of the declaration, in their order. -/
inductive AxisDeclaration.ResolvesTo (base : Document) : AxisDeclaration → Axis → Prop
  | axis {path : KeyPath} {values : Option (List Document)} {source : Option KeyPath}
      {declared : List RelationshipDeclaration} {candidates : List Document}
      {relationships : List Relationship}
      (supplies : AxisDeclaration.Supplies base ⟨path, values, source, declared⟩ candidates)
      (below : Forall₂ (RelationshipDeclaration.ResolvesTo base) declared relationships) :
      AxisDeclaration.ResolvesTo base ⟨path, values, source, declared⟩
        ⟨path, candidates, relationships⟩

inductive RelationshipDeclaration.ResolvesTo (base : Document) :
    RelationshipDeclaration → Relationship → Prop
  | relationship {parent : Document} {assignment : Option Assignment}
      {declared : List AxisDeclaration} {children : List Axis}
      (below : Forall₂ (AxisDeclaration.ResolvesTo base) declared children) :
      RelationshipDeclaration.ResolvesTo base ⟨parent, assignment, declared⟩
        ⟨parent, assignment, children⟩
end

/-! ## The steps of resolving -/

section Steps

variable {base : Document}

/-- A list is resolved if its first part and the others are. -/
theorem bind_cons_eq_ok {α ε : Type} {step : Except ε α} {more : Except ε (List α)} {out : List α} :
    (step.bind fun first => more.bind fun behind => .ok (first :: behind)) = .ok out ↔
      ∃ first behind, step = .ok first ∧ more = .ok behind ∧ out = first :: behind := by
  simp only [bind_eq_ok]
  constructor
  · rintro ⟨first, hfirst, behind, hbehind, h⟩
    cases h
    exact ⟨first, behind, hfirst, hbehind, rfl⟩
  · rintro ⟨first, behind, hfirst, hbehind, rfl⟩
    exact ⟨first, hfirst, behind, hbehind, rfl⟩

/-- An axis has its own candidates resolved before its relationships. -/
theorem resolveAxis_mk (path : KeyPath) (values : Option (List Document)) (source : Option KeyPath)
    (relationships : List RelationshipDeclaration) :
    resolveAxis base ⟨path, values, source, relationships⟩
      = (resolveCandidates base path values source).bind fun candidates =>
          (resolveRelationships base relationships).bind fun relationships =>
            .ok ⟨path, candidates, relationships⟩ := by
  rw [resolveAxis]
  cases resolveCandidates base path values source with
  | error error => rfl
  | ok candidates => cases resolveRelationships base relationships <;> rfl

theorem resolveAxes_cons (axis : AxisDeclaration) (rest : List AxisDeclaration) :
    resolveAxes base (axis :: rest)
      = (resolveAxis base axis).bind fun first =>
          (resolveAxes base rest).bind fun behind => .ok (first :: behind) := by
  rw [resolveAxes]
  cases resolveAxis base axis with
  | error error => rfl
  | ok first => cases resolveAxes base rest <;> rfl

theorem resolveRelationship_mk (parent : Document) (assignment : Option Assignment)
    (children : List AxisDeclaration) :
    resolveRelationship base ⟨parent, assignment, children⟩
      = (resolveAxes base children).bind fun children => .ok ⟨parent, assignment, children⟩ := by
  rw [resolveRelationship]
  cases resolveAxes base children <;> rfl

theorem resolveRelationships_cons (relationship : RelationshipDeclaration)
    (rest : List RelationshipDeclaration) :
    resolveRelationships base (relationship :: rest)
      = (resolveRelationship base relationship).bind fun first =>
          (resolveRelationships base rest).bind fun behind => .ok (first :: behind) := by
  rw [resolveRelationships]
  cases resolveRelationship base relationship with
  | error error => rfl
  | ok first => cases resolveRelationships base rest <;> rfl

end Steps

/-! ## Success and failure -/

/-- The outcome of resolving axes in this order: none of them is at fault, or the first that is
decides the error. -/
def Verdict {α : Type} (base : Document) (axes : List AxisDeclaration) :
    Except MatrixError α → Prop
  | .ok _ => AllSupply base axes
  | .error error => FirstOffence base axes error

section Verdict

variable {α β : Type} {base : Document} {front back : List AxisDeclaration}
  {step : Except MatrixError α}

theorem verdict_nil (value : α) : Verdict base [] (.ok value : Except MatrixError α) := by
  intro axis member
  cases member

/-- Of two pieces of work, the second is looked at only if there is no fault in the first. -/
theorem Verdict.bind {next : α → Except MatrixError β} (first : Verdict base front step)
    (second : ∀ value, Verdict base back (next value)) :
    Verdict base (front ++ back) (step.bind next) := by
  cases step with
  | error error => exact FirstOffence.append_right first back
  | ok value =>
    show Verdict base (front ++ back) (next value)
    have hnext := second value
    cases hresult : next value with
    | ok result =>
      rw [hresult] at hnext
      exact allSupply_append first hnext
    | error error =>
      rw [hresult] at hnext
      exact FirstOffence.behind first hnext

/-- Putting parts together is never at fault. -/
theorem Verdict.bind_ok {f : α → β} (h : Verdict base front step) :
    Verdict base front (step.bind fun value => .ok (f value)) := by
  cases step <;> exact h

/-- Work on axes succeeds if all of them supply candidates. -/
theorem Verdict.exists_ok_iff (h : Verdict base front step) :
    (∃ value, step = .ok value) ↔ AllSupply base front := by
  cases step with
  | ok value => exact iff_of_true ⟨value, rfl⟩ h
  | error error =>
    refine iff_of_false ?_ (FirstOffence.not_allSupply h)
    rintro ⟨value, hvalue⟩
    cases hvalue

/-- Otherwise it fails as the first offence says. -/
theorem Verdict.eq_error_iff (h : Verdict base front step) {error : MatrixError} :
    step = .error error ↔ FirstOffence base front error := by
  cases step with
  | ok value =>
    refine iff_of_false (by simp) ?_
    intro offence
    exact offence.not_allSupply h
  | error error' =>
    constructor
    · intro heq
      cases heq
      exact h
    · intro offence
      rw [FirstOffence.unique h offence]

/-- The candidates of an axis are work on this axis alone. -/
theorem verdict_candidates (axis : AxisDeclaration) :
    Verdict base [axis] (resolveCandidates base axis.path axis.values axis.source) := by
  cases h : resolveCandidates base axis.path axis.values axis.source with
  | error error => exact .here (resolveCandidates_eq_error.mp h)
  | ok candidates =>
    intro other member
    rw [List.mem_singleton.mp member]
    exact ⟨candidates, resolveCandidates_eq_ok.mp h⟩

end Verdict

section Resolving

variable {base : Document}

mutual
/-- The work follows the pre-order, from an axis to those below it. -/
theorem verdict_resolveAxis : ∀ axis : AxisDeclaration,
    Verdict base axis.preorder (resolveAxis base axis)
  | ⟨path, values, source, relationships⟩ => by
    rw [resolveAxis_mk, AxisDeclaration.preorder]
    have first : Verdict base [⟨path, values, source, relationships⟩]
        (resolveCandidates base path values source) := verdict_candidates _
    exact first.bind fun _ => (verdict_resolveRelationships relationships).bind_ok

theorem verdict_resolveAxes : ∀ axes : List AxisDeclaration,
    Verdict base (preorderAxes axes) (resolveAxes base axes)
  | [] => verdict_nil []
  | axis :: rest => by
    rw [resolveAxes_cons, preorderAxes]
    exact (verdict_resolveAxis axis).bind fun _ => (verdict_resolveAxes rest).bind_ok

theorem verdict_resolveRelationships : ∀ relationships : List RelationshipDeclaration,
    Verdict base (preorderBelow relationships) (resolveRelationships base relationships)
  | [] => verdict_nil []
  | ⟨parent, assignment, children⟩ :: rest => by
    rw [resolveRelationships_cons, resolveRelationship_mk, preorderBelow]
    have first := (verdict_resolveAxes children).bind_ok (f := Relationship.mk parent assignment)
    exact first.bind fun _ => (verdict_resolveRelationships rest).bind_ok
end

mutual
/-- What an axis resolves to is what it declares with the candidates put in, and nothing else. -/
theorem resolveAxis_eq_ok : ∀ (declared : AxisDeclaration) {axis : Axis},
    resolveAxis base declared = .ok axis ↔ declared.ResolvesTo base axis
  | ⟨path, values, source, declared⟩, axis => by
    rw [resolveAxis_mk]
    constructor
    · intro h
      obtain ⟨candidates, hcandidates, h⟩ := bind_eq_ok.mp h
      obtain ⟨relationships, hrelationships, h⟩ := bind_eq_ok.mp h
      cases h
      have supplies : AxisDeclaration.Supplies base ⟨path, values, source, declared⟩ candidates :=
        resolveCandidates_eq_ok.mp hcandidates
      exact .axis supplies ((resolveRelationships_eq_ok declared).mp hrelationships)
    · intro h
      cases h with
      | axis supplies below =>
        have hcandidates := supplies.resolveCandidates_eq
        have hrelationships := (resolveRelationships_eq_ok declared).mpr below
        exact bind_eq_ok.mpr ⟨_, hcandidates, bind_eq_ok.mpr ⟨_, hrelationships, rfl⟩⟩

theorem resolveAxes_eq_ok : ∀ (declared : List AxisDeclaration) {axes : List Axis},
    resolveAxes base declared = .ok axes ↔ Forall₂ (AxisDeclaration.ResolvesTo base) declared axes
  | [], axes => by
    rw [List.forall₂_nil_left_iff, resolveAxes]
    simp [eq_comm]
  | first :: rest, axes => by
    rw [resolveAxes_cons, bind_cons_eq_ok, List.forall₂_cons_left_iff]
    simp only [resolveAxis_eq_ok first, resolveAxes_eq_ok rest]

theorem resolveRelationship_eq_ok : ∀ (declared : RelationshipDeclaration)
    {relationship : Relationship}, resolveRelationship base declared = .ok relationship ↔
      declared.ResolvesTo base relationship
  | ⟨parent, assignment, declared⟩, relationship => by
    rw [resolveRelationship_mk]
    constructor
    · intro h
      obtain ⟨children, hchildren, h⟩ := bind_eq_ok.mp h
      cases h
      exact .relationship ((resolveAxes_eq_ok declared).mp hchildren)
    · intro h
      cases h with
      | relationship below =>
        exact bind_eq_ok.mpr ⟨_, (resolveAxes_eq_ok declared).mpr below, rfl⟩

theorem resolveRelationships_eq_ok : ∀ (declared : List RelationshipDeclaration)
    {relationships : List Relationship}, resolveRelationships base declared = .ok relationships ↔
      Forall₂ (RelationshipDeclaration.ResolvesTo base) declared relationships
  | [], relationships => by
    rw [List.forall₂_nil_left_iff, resolveRelationships]
    simp [eq_comm]
  | first :: rest, relationships => by
    rw [resolveRelationships_cons, bind_cons_eq_ok, List.forall₂_cons_left_iff]
    simp only [resolveRelationship_eq_ok first, resolveRelationships_eq_ok rest]
end

end Resolving

/-! ## Candidates listed instead -/

mutual
/-- The axis with those candidates listed that are taken from a sequence of the base document. -/
def AxisDeclaration.inlined (base : Document) : AxisDeclaration → AxisDeclaration
  | ⟨path, none, some source, relationships⟩ =>
    match base.get source with
    | .ok (.sequence items) => ⟨path, some items, none, inlinedBelow base relationships⟩
    | _ => ⟨path, none, some source, inlinedBelow base relationships⟩
  | ⟨path, values, source, relationships⟩ =>
    ⟨path, values, source, inlinedBelow base relationships⟩

def inlinedAxes (base : Document) : List AxisDeclaration → List AxisDeclaration
  | [] => []
  | axis :: rest => axis.inlined base :: inlinedAxes base rest

def inlinedBelow (base : Document) : List RelationshipDeclaration → List RelationshipDeclaration
  | [] => []
  | ⟨parent, assignment, children⟩ :: rest =>
    ⟨parent, assignment, inlinedAxes base children⟩ :: inlinedBelow base rest
end

def MatrixFile.inlined (file : MatrixFile) (base : Document) : MatrixFile :=
  ⟨inlinedAxes base file.axes⟩

section Inlined

variable {base : Document} (other : Document)

mutual
/-- What the axis resolves to no longer depends on a document. -/
theorem AxisDeclaration.resolvesTo_inlined : ∀ (declared : AxisDeclaration) {axis : Axis},
    declared.ResolvesTo base axis → (declared.inlined base).ResolvesTo other axis
  | ⟨path, values, source, declared⟩, axis, h => by
    cases h with
    | axis supplies below =>
      have hbelow := resolvesTo_inlinedBelow declared below
      cases supplies with
      | listed => exact .axis .listed hbelow
      | taken read =>
        simp only [AxisDeclaration.inlined, read]
        exact .axis .listed hbelow

theorem resolvesTo_inlinedAxes : ∀ (declared : List AxisDeclaration) {axes : List Axis},
    Forall₂ (AxisDeclaration.ResolvesTo base) declared axes →
      Forall₂ (AxisDeclaration.ResolvesTo other) (inlinedAxes base declared) axes
  | [], _, h => by
    cases h
    exact .nil
  | first :: rest, _, h => by
    cases h with
    | cons hfirst hrest =>
      exact .cons (first.resolvesTo_inlined hfirst) (resolvesTo_inlinedAxes rest hrest)

theorem resolvesTo_inlinedBelow : ∀ (declared : List RelationshipDeclaration)
    {relationships : List Relationship},
    Forall₂ (RelationshipDeclaration.ResolvesTo base) declared relationships →
      Forall₂ (RelationshipDeclaration.ResolvesTo other) (inlinedBelow base declared) relationships
  | [], _, h => by
    cases h
    exact .nil
  | ⟨parent, assignment, children⟩ :: rest, _, h => by
    cases h with
    | cons hfirst hrest =>
      cases hfirst with
      | relationship below =>
        exact .cons (.relationship (resolvesTo_inlinedAxes children below))
          (resolvesTo_inlinedBelow rest hrest)
end

end Inlined

/-! ## The main result -/

namespace Matrix

variable {file : MatrixFile} {base : Document}

theorem resolve_eq_ok {matrix : Matrix} :
    resolve file base = .ok matrix ↔ resolveAxes base file.axes = .ok matrix.axes := by
  obtain ⟨axes⟩ := matrix
  rw [resolve]
  cases resolveAxes base file.axes <;> simp

theorem resolve_eq_error {error : MatrixError} :
    resolve file base = .error error ↔ resolveAxes base file.axes = .error error := by
  rw [resolve]
  cases resolveAxes base file.axes <;> simp

/-- **Resolving a matrix file.** A file is resolved if and only if each of its axes, at every depth,
supplies candidates: it lists them, or else it names a sequence of the base document. The matrix is
then the tree that the file declares with these candidates. Otherwise the first axis in pre-order
that is at fault decides the error. With the candidates listed in the file, what it resolves to is
the same for every document. -/
theorem resolve_takes_candidates (file : MatrixFile) (base : Document) :
    ((∃ matrix, resolve file base = .ok matrix) ↔ AllSupply base (preorderAxes file.axes)) ∧
    (∀ matrix, resolve file base = .ok matrix ↔
      Forall₂ (AxisDeclaration.ResolvesTo base) file.axes matrix.axes) ∧
    (∀ error, resolve file base = .error error ↔
      FirstOffence base (preorderAxes file.axes) error) ∧
    ∀ matrix, resolve file base = .ok matrix →
      ∀ other, resolve (file.inlined base) other = .ok matrix := by
  have hverdict : Verdict base (preorderAxes file.axes) (resolveAxes base file.axes) :=
    verdict_resolveAxes file.axes
  refine ⟨?_, ?_, ?_, ?_⟩
  · rw [← hverdict.exists_ok_iff]
    constructor
    · rintro ⟨matrix, h⟩
      exact ⟨matrix.axes, resolve_eq_ok.mp h⟩
    · rintro ⟨axes, h⟩
      exact ⟨⟨axes⟩, resolve_eq_ok.mpr h⟩
  · intro matrix
    rw [resolve_eq_ok, resolveAxes_eq_ok]
  · intro error
    rw [resolve_eq_error, hverdict.eq_error_iff]
  · intro matrix h other
    rw [resolve_eq_ok, resolveAxes_eq_ok] at h ⊢
    exact resolvesTo_inlinedAxes other file.axes h

/-- The hosts of a pool are the candidates of an axis under a relationship that no size makes hold, and
the regions those of an axis behind it. If the hosts are one text and there are no regions at all, the
error speaks of the hosts. -/
theorem resolve_takes_candidates_pools :
    let hosts : KeyPath := ⟨.key "pools", [.index 0, .key "hosts"]⟩
    let regions : KeyPath := ⟨.key "regions", []⟩
    let path (name : String) : KeyPath := ⟨.key name, []⟩
    let huge (children : List AxisDeclaration) : RelationshipDeclaration :=
      ⟨.text "huge", none, children⟩
    let file : MatrixFile := ⟨[
      ⟨path "size", some [.text "small"], none, [huge [⟨path "host", none, some hosts, []⟩]]⟩,
      ⟨path "region", none, some regions, []⟩]⟩
    let pools (held : Document) : Document := .sequence [.mapping [("hosts", held)]]
    let base : Document := .mapping [("pools", pools (.sequence [.text "a", .text "b"])),
      ("regions", .sequence [.text "east"])]
    let matrix : Matrix := ⟨[
      ⟨path "size", [.text "small"],
        [⟨.text "huge", none, [⟨path "host", [.text "a", .text "b"], []⟩]⟩]⟩,
      ⟨path "region", [.text "east"], []⟩]⟩
    let fault : AccessError := .typeMismatch hosts.segments .sequence .string
    resolve file base = .ok matrix ∧ resolve (file.inlined base) .null = .ok matrix ∧
      resolve file (.mapping [("pools", pools (.text "a"))]) = .error (.candidates fault) := by
  intro hosts regions path huge file pools base matrix fault
  obtain ⟨-, -, -, hlisted⟩ := resolve_takes_candidates file base
  obtain ⟨-, -, hfails, -⟩ :=
    resolve_takes_candidates file (.mapping [("pools", pools (.text "a"))])
  have hresolved : resolve file base = .ok matrix := rfl
  refine ⟨hresolved, hlisted matrix hresolved .null, (hfails _).mpr ?_⟩
  have hread : (Document.mapping [("pools", pools (.text "a"))]).get hosts = .ok (.text "a") := rfl
  exact .later .listed (.here (.noSequence hread (by simp [Document.shape])))

end Matrix

end Variation
