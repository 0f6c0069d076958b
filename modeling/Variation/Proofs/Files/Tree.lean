import Variation.Files.Tree

/-!
# What changes in a tree

A tree changes in two ways: a text is stored in a file, and a folder is made. A location that comes
to hold something was no folder before, so folders are never lost (`KeepsFolders`), and components
that led to a folder lead to it still. Making folders does less than that: every file is left as it
was (`AddsFolders`).
-/

namespace Variation.Tree

section Insert

variable {tree : Tree} {location place : Location} {entry : FileEntry}

theorem lookup_filter_of_ne {entries : List (Location × FileEntry)} (h : place ≠ location) :
    (entries.filter (·.1 ≠ location)).lookup place = entries.lookup place := by
  induction entries with
  | nil => rfl
  | cons entry rest ih =>
    obtain ⟨there, found⟩ := entry
    by_cases hthere : there = location
    · have hplace : (place == there) = false := by simpa [hthere] using h
      simp only [List.lookup_cons, hplace]
      simpa [hthere] using ih
    · simp only [ne_eq, hthere, not_false_eq_true, decide_true, List.filter_cons_of_pos,
        List.lookup_cons, ih]

/-- Storing at one location leaves the others alone. -/
theorem find?_insert_of_ne (h : place ≠ location) :
    (tree.insert location entry).find? place = tree.find? place := by
  have hplace : (place == location) = false := by simpa using h
  simp only [find?, insert, List.lookup_cons, hplace, lookup_filter_of_ne h]

theorem find?_insert_self (h : tree.find? location ≠ some .folder) :
    (tree.insert location entry).find? location = some entry := by
  unfold find? at h ⊢
  split at h
  · exact absurd rfl h
  · simp [*, insert]

theorem writeText_eq_ok {after : Tree} {text : String} :
    tree.writeText location text = .ok after ↔
      tree.find? location ≠ some .folder ∧ after = tree.insert location (.file (.text text)) := by
  unfold writeText
  split <;> simp_all [eq_comm]

end Insert

/-! ## Following components -/

section Follow

variable {tree : Tree} {place location target : Location} {component last : FilePath.Component}
  {components : List FilePath.Component}

theorem folder_eq_ok : tree.folder place = .ok location ↔
    tree.find? place = some .folder ∧ location = place := by
  unfold folder
  cases tree.find? place with
  | none => simp
  | some entry => cases entry <;> simp [eq_comm]

/-- A component is followed from a folder only. -/
theorem walk_cons_eq_ok : tree.walk place (component :: components) = .ok location ↔
    tree.find? place = some .folder ∧
      tree.walk (follow place component) components = .ok location := by
  rw [walk, folder]
  cases tree.find? place with
  | none => simp [bind, Except.bind]
  | some entry => cases entry <;> simp [bind, Except.bind]

theorem walk_concat_eq_ok : tree.walk place (components ++ [last]) = .ok target ↔
    ∃ location, tree.walk place components = .ok location ∧
      tree.find? location = some .folder ∧ target = follow location last := by
  induction components generalizing place with
  | nil =>
    rw [List.nil_append, walk_cons_eq_ok]
    simp [walk, eq_comm]
  | cons component rest ih =>
    rw [List.cons_append, walk_cons_eq_ok, ih]
    simp [walk_cons_eq_ok, and_assoc]

theorem openFolder_eq_ok : tree.openFolder components = .ok location ↔
    components ≠ [] ∧ tree.walk [] components = .ok location ∧
      tree.find? location = some .folder := by
  unfold openFolder
  cases components with
  | nil => simp
  | cons component rest =>
    cases hwalk : tree.walk [] (component :: rest) with
    | error fault => simp [bind, Except.bind]
    | ok there =>
      have hthere : tree.folder there = .ok location ↔
          there = location ∧ tree.find? location = some .folder := by
        rw [folder_eq_ok]
        constructor <;> rintro ⟨first, second⟩ <;> simp_all
      simpa [bind, Except.bind] using hthere

end Follow

/-! ## Folders are kept -/

/-- What was a folder is still one. -/
def KeepsFolders (before after : Tree) : Prop :=
  ∀ place, before.find? place = some .folder → after.find? place = some .folder

namespace KeepsFolders

variable {before after later : Tree}

theorem trans (h : KeepsFolders before after) (hlater : KeepsFolders after later) :
    KeepsFolders before later :=
  fun place hplace => hlater place (h place hplace)

/-- Folders are kept whatever is stored, as long as it takes the place of none. -/
theorem insert {location : Location} (h : before.find? location ≠ some .folder)
    (entry : FileEntry) : KeepsFolders before (before.insert location entry) := by
  intro place hplace
  have hne : place ≠ location := fun e => h (e ▸ hplace)
  rw [find?_insert_of_ne hne, hplace]

/-- Components that led somewhere lead there still. -/
theorem walk (h : KeepsFolders before after) {place location : Location}
    {components : List FilePath.Component} (hwalk : before.walk place components = .ok location) :
    after.walk place components = .ok location := by
  induction components generalizing place with
  | nil => exact hwalk
  | cons component rest ih =>
    obtain ⟨hplace, hrest⟩ := walk_cons_eq_ok.mp hwalk
    exact walk_cons_eq_ok.mpr ⟨h place hplace, ih hrest⟩

theorem openFolder (h : KeepsFolders before after) {location : Location}
    {components : List FilePath.Component}
    (hopen : before.openFolder components = .ok location) :
    after.openFolder components = .ok location := by
  obtain ⟨hsome, hwalk, hlocation⟩ := openFolder_eq_ok.mp hopen
  exact openFolder_eq_ok.mpr ⟨hsome, h.walk hwalk, h location hlocation⟩

end KeepsFolders

/-! ## Making folders -/

/-- Everything is where it was, and all that is new are folders. -/
def AddsFolders (before after : Tree) : Prop :=
  ∀ place, after.find? place = before.find? place ∨
    (before.find? place = none ∧ after.find? place = some .folder)

namespace AddsFolders

variable {before after later : Tree}

theorem refl (tree : Tree) : AddsFolders tree tree :=
  fun _ => .inl rfl

theorem trans (h : AddsFolders before after) (hlater : AddsFolders after later) :
    AddsFolders before later := by
  intro place
  rcases hlater place with hsame | ⟨hnone, hfolder⟩
  · rw [hsame]
    exact h place
  · rcases h place with hsame | ⟨-, hfound⟩
    · exact .inr ⟨hsame ▸ hnone, hfolder⟩
    · rw [hnone] at hfound
      cases hfound

theorem insert {target : Location} (h : before.find? target = none) :
    AddsFolders before (before.insert target .folder) := by
  intro place
  by_cases hplace : place = target
  · subst hplace
    exact .inr ⟨h, find?_insert_self (by simp [h])⟩
  · exact .inl (find?_insert_of_ne hplace)

theorem keepsFolders (h : AddsFolders before after) : KeepsFolders before after := by
  intro place hplace
  rcases h place with hsame | ⟨hnone, -⟩
  · rw [hsame, hplace]
  · rw [hplace] at hnone
    cases hnone

/-- Files are as before, and there are no others. -/
theorem file_iff (h : AddsFolders before after) (place : Location) (contents : Contents) :
    after.find? place = some (.file contents) ↔ before.find? place = some (.file contents) := by
  rcases h place with hsame | ⟨hnone, hfolder⟩
  · rw [hsame]
  · simp [hnone, hfolder]

end AddsFolders

section Create

variable {tree after : Tree} {before : List FilePath.Component} {last : FilePath.Component}

theorem createFolder_eq_ok : tree.createFolder before last = .ok after ↔
    ∃ target, tree.walk [] (before ++ [last]) = .ok target ∧ tree.find? target = none ∧
      after = tree.insert target .folder := by
  simp only [walk_concat_eq_ok]
  unfold createFolder
  cases hwalk : tree.walk [] before with
  | error fault => simp [bind, Except.bind]
  | ok location =>
    cases hfound : tree.find? location with
    | none => simp [bind, Except.bind, folder, hfound]
    | some entry =>
      cases entry with
      | file contents => simp [bind, Except.bind, folder, hfound]
      | folder =>
        cases htarget : tree.find? (follow location last) <;>
          simp [bind, Except.bind, folder, hfound, htarget, eq_comm]

/-- A folder that is there already is not made again. -/
theorem createFolder_of_openFolder {location : Location}
    (h : tree.openFolder (before ++ [last]) = .ok location) :
    tree.createFolder before last = .error .alreadyExists := by
  obtain ⟨-, hwalk, hfolder⟩ := openFolder_eq_ok.mp h
  obtain ⟨above, habove, hfound, rfl⟩ := walk_concat_eq_ok.mp hwalk
  simp [createFolder, habove, folder, hfound, hfolder, bind, Except.bind]

/-- A folder that has been made can be opened, and nothing else is new. -/
theorem createFolder_spec (h : tree.createFolder before last = .ok after) :
    AddsFolders tree after ∧ ∃ location, after.openFolder (before ++ [last]) = .ok location := by
  obtain ⟨target, hwalk, hnone, rfl⟩ := createFolder_eq_ok.mp h
  have hadds : AddsFolders tree (tree.insert target .folder) := .insert hnone
  have htarget : (tree.insert target .folder).find? target = some .folder :=
    find?_insert_self (by simp [hnone])
  exact ⟨hadds, target,
    openFolder_eq_ok.mpr ⟨by simp, hadds.keepsFolders.walk hwalk, htarget⟩⟩

/-- The tree is kept where the folder has been found to be there. -/
theorem openFolder_of_ite {components : List FilePath.Component} {fault : FileFault}
    (h : (if (tree.openFolder components).isOk then .ok tree else .error fault) = Except.ok after) :
    after = tree ∧ ∃ location, after.openFolder components = .ok location := by
  cases hopen : tree.openFolder components with
  | error reason => simp [hopen, Except.isOk, Except.toBool] at h
  | ok location =>
    simp only [hopen, Except.isOk, Except.toBool, if_true, Except.ok.injEq] at h
    subst h
    exact ⟨rfl, location, hopen⟩

/-- **Making folders** on the way to the last of them adds folders only, and then it can be
opened. -/
theorem createFoldersFrom_spec {components : List FilePath.Component}
    (h : tree.createFoldersFrom components = .ok after) :
    AddsFolders tree after ∧
      (components ≠ [] → ∃ location, after.openFolder components.reverse = .ok location) := by
  fun_induction createFoldersFrom tree components generalizing after with
  | case1 =>
    cases h
    exact ⟨.refl tree, fun hnil => absurd rfl hnil⟩
  | case2 last before made hmade =>
    cases h
    rw [List.reverse_cons]
    obtain ⟨hadds, hopen⟩ := createFolder_spec hmade
    exact ⟨hadds, fun _ => hopen⟩
  | case3 last before exists? hmissing =>
    rename_i ih
    cases habove : tree.createFoldersFrom before with
    | error fault => simp [habove, bind, Except.bind] at h
    | ok above =>
      have hadds : AddsFolders tree above := (ih habove).1
      simp only [habove, bind, Except.bind] at h
      cases hmade : above.createFolder before.reverse last with
      | ok made =>
        simp only [hmade] at h
        cases h
        rw [List.reverse_cons]
        obtain ⟨hlast, hopen⟩ := createFolder_spec hmade
        exact ⟨hadds.trans hlast, fun _ => hopen⟩
      | error fault =>
        -- The folder may have come about with those above it.
        simp only [hmade] at h
        obtain ⟨rfl, hopen⟩ := openFolder_of_ite h
        exact ⟨hadds, fun _ => hopen⟩
  | case4 last before exists? fault hother =>
    obtain ⟨rfl, hopen⟩ := openFolder_of_ite h
    exact ⟨.refl _, fun _ => hopen⟩

theorem createFolders_spec {path : String} (h : tree.createFolders path = .ok after) :
    AddsFolders tree after ∧ (FilePath.components path ≠ [] →
      ∃ location, after.openFolder (FilePath.components path) = .ok location) := by
  obtain ⟨hadds, hopen⟩ := createFoldersFrom_spec h
  rw [List.reverse_reverse] at hopen
  exact ⟨hadds, fun hsome => hopen (by simpa using hsome)⟩

/-- Nothing is made where the folder is there. -/
theorem createFolders_of_openFolder {path : String} {location : Location}
    (h : tree.openFolder (FilePath.components path) = .ok location) :
    tree.createFolders path = .ok tree := by
  rw [createFolders]
  cases hreverse : (FilePath.components path).reverse with
  | nil => rfl
  | cons last before =>
    have hcomponents : FilePath.components path = before.reverse ++ [last] := by
      rw [← List.reverse_cons, ← hreverse, List.reverse_reverse]
    rw [hcomponents] at h
    simp [createFoldersFrom, createFolder_of_openFolder h, h, Except.isOk, Except.toBool]

end Create

end Variation.Tree
