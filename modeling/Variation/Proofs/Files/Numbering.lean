import Variation.Files.Source
import Variation.Proofs.Files.Path
import Variation.Proofs.Files.Tree
import Variation.Proofs.Text.Numeral

/-!
# Numbered files

The number in the name of a file has four digits, and more only from ten thousand on. It can be got
back from its numeral whatever the width, so no two files of a folder have one name, and a document
that has been written is not overwritten by a later one (`writeNumbered_spec`). The rest of the tree
is left alone but for folders that are made on the way.

The name also fixes how the file is read: its extension is the name of the format, and points in the
name of the folder do not come into it (`parseDocument_join`).
-/

namespace Variation

open Text.Numeral

/-! ## Names -/

/-- Digits of a number, with zeros in front of them only as far as a width needs it. -/
structure Padded (width number : Nat) (numeral : List Char) : Prop where
  digits : Digits numeral
  value : Nat.ofDigitChars 10 numeral 0 = number
  wide : width ≤ numeral.length
  front : width < numeral.length → numeral.head? ≠ some '0'

theorem padded_paddedNumber (n : Nat) : Padded 4 n (paddedNumber n) := by
  obtain ⟨⟨hsome, hdigits⟩, hplain⟩ := plain_toDigits n
  refine ⟨⟨?_, fun c member => ?_⟩, ?_, ?_, fun hwide hzero => ?_⟩
  · simp [paddedNumber, hsome]
  · rcases List.mem_append.mp member with h | h
    · rw [List.eq_of_mem_replicate h]
      decide
    · exact hdigits c h
  · simp [paddedNumber, Nat.ofDigitChars_append, Nat.ofDigitChars_ten_toDigits]
  · simp only [paddedNumber, List.length_append, List.length_replicate]
    omega
  · -- Nothing is put in front of more than four digits.
    simp only [paddedNumber, List.length_append, List.length_replicate] at hwide
    have hnone : 4 - (Nat.toDigits 10 n).length = 0 := by omega
    rw [paddedNumber, hnone, List.replicate_zero, List.nil_append] at hzero
    rw [hplain hzero] at hwide
    simp at hwide

example : paddedNumber 7 = "0007".toList ∧ paddedNumber 20260 = "20260".toList := by decide

section Name

variable {m n : Nat} {format : OutputFormat}

theorem toList_outputName (n : Nat) (format : OutputFormat) : (outputName n format).toList
    = ("matrix-".toList ++ paddedNumber n) ++ '.' :: format.name.toList := by
  simp [outputName]

theorem outputName_inj : outputName m format = outputName n format ↔ m = n := by
  refine ⟨fun h => ?_, fun h => h ▸ rfl⟩
  have hlist := congrArg String.toList h
  rw [toList_outputName, toList_outputName, List.append_cancel_right_eq,
    List.append_cancel_left_eq] at hlist
  rw [← (padded_paddedNumber m).value, hlist, (padded_paddedNumber n).value]

theorem isName_outputName (n : Nat) (format : OutputFormat) :
    FilePath.IsName (outputName n format) := by
  have hdigits : '/' ∉ paddedNumber n := by
    intro member
    have hslash := (padded_paddedNumber n).digits.2 '/' member
    revert hslash
    decide
  have hformat : '/' ∉ format.name.toList := by cases format <;> decide
  rw [FilePath.IsName, toList_outputName]
  simp [hdigits, hformat]

theorem extension?_outputName (folder : String) (n : Nat) (format : OutputFormat) :
    FilePath.extension? (FilePath.join folder (outputName n format)) = some format.name := by
  have hformat : '.' ∉ format.name.toList := by cases format <;> decide
  rw [FilePath.extension?_join folder (isName_outputName n format), toList_outputName,
    FilePath.extensionOf?_append (by simp) hformat, Option.map_some, String.ofList_toList]

end Name

/-- What a text in a format is read as. The path stands in errors only. -/
def OutputFormat.read (format : OutputFormat) (path contents : String) :
    Except SourceError Document :=
  match format with
  | .json => (Json.parse contents).mapError (.json path)
  | .yaml => (Yaml.parse contents).mapError (.yaml path)

/-- A file is read in the format that its name was made for. -/
theorem parseDocument_join (folder : String) (n : Nat) (format : OutputFormat) :
    parseDocument (FilePath.join folder (outputName n format))
      = format.read (FilePath.join folder (outputName n format)) := by
  funext contents
  rw [parseDocument, extension?_outputName]
  cases format with
  | json =>
    rw [OutputFormat.name, if_pos rfl, OutputFormat.read]
    cases Json.parse contents <;> rfl
  | yaml =>
    rw [OutputFormat.name, if_neg (by decide), OutputFormat.read]
    cases Yaml.parse contents <;> rfl

/-! ## Writes -/

/-- The names of the files of as many documents, numbered from `number` on. -/
def outputNames (format : OutputFormat) (number count : Nat) : List String :=
  (List.range' number count).map (outputName · format)

theorem outputNames_succ (format : OutputFormat) (number count : Nat) :
    outputNames format number (count + 1)
      = outputName number format :: outputNames format (number + 1) count := by
  rw [outputNames, List.range'_succ, List.map_cons, outputNames]

theorem getElem?_outputNames (format : OutputFormat) (number : Nat) {i count : Nat} (h : i < count) :
    (outputNames format number count)[i]? = some (outputName (number + i) format) := by
  simp [outputNames, h]

theorem exists_of_mem_outputNames {format : OutputFormat} {start count : Nat} {name : String}
    (h : name ∈ outputNames format start count) : ∃ n ≥ start, name = outputName n format := by
  obtain ⟨n, hn, rfl⟩ := List.mem_map.mp h
  exact ⟨n, (List.mem_range'_1.mp hn).1, rfl⟩

theorem nodup_outputNames (format : OutputFormat) (number count : Nat) :
    (outputNames format number count).Nodup :=
  List.pairwise_map.mpr ((List.nodup_range' 1).imp fun h hsame => h (outputName_inj.mp hsame))

/-- The places of later files are others. -/
theorem not_mem_later (location : Location) (format : OutputFormat) (number count : Nat) :
    location ++ [outputName number format] ∉
      (outputNames format (number + 1) count).map (location ++ [·]) := by
  intro member
  obtain ⟨name, hname, hplace⟩ := List.mem_map.mp member
  obtain ⟨n, hn, rfl⟩ := exists_of_mem_outputNames hname
  rw [List.append_cancel_left_eq, List.singleton_inj, outputName_inj] at hplace
  omega

section Write

variable {tree after : Tree} {folder : String} {location : Location} {format : OutputFormat}
  {number : Nat} {documents : List Document} {paths : List String}

theorem writeNumbered_cons_eq_ok {document : Document} :
    writeNumbered folder location format tree number (document :: documents) = ⟨after, .ok paths⟩ ↔
      ∃ made later,
        tree.writeText (location ++ [outputName number format]) (format.renderDocument document)
          = .ok made ∧
        writeNumbered folder location format made (number + 1) documents = ⟨after, .ok later⟩ ∧
        paths = FilePath.join folder (outputName number format) :: later := by
  rw [writeNumbered]
  cases tree.writeText (location ++ [outputName number format])
      (format.renderDocument document) with
  | error fault => simp
  | ok made =>
    cases hlater : writeNumbered folder location format made (number + 1) documents with
    | mk there result =>
      cases result with
      | error fault => simp [hlater, Except.map]
      | ok rest => simp [hlater, Except.map, eq_comm, and_assoc]

/-- What is in a tree once documents have been written to numbered files of a folder. -/
structure InFiles (location : Location) (format : OutputFormat) (number : Nat)
    (documents : List Document) (before after : Tree) : Prop where
  stored : ∀ i document, documents[i]? = some document →
    after.find? (location ++ [outputName (number + i) format])
      = some (.file (.text (format.renderDocument document)))
  others : ∀ place,
    place ∉ (outputNames format number documents.length).map (location ++ [·]) →
      after.find? place = before.find? place
  folders : before.KeepsFolders after

/-- **Writing numbered files** keeps each document that is written, for the names of later ones are
others. -/
theorem writeNumbered_spec
    (h : writeNumbered folder location format tree number documents = ⟨after, .ok paths⟩) :
    paths = (outputNames format number documents.length).map (FilePath.join folder) ∧
      InFiles location format number documents tree after := by
  induction documents generalizing tree number paths with
  | nil =>
    cases h
    exact ⟨rfl, by simp, fun _ _ => rfl, fun _ hplace => hplace⟩
  | cons document rest ih =>
    obtain ⟨made, later, hwrite, hrest, rfl⟩ := writeNumbered_cons_eq_ok.mp h
    obtain ⟨hfree, rfl⟩ := Tree.writeText_eq_ok.mp hwrite
    obtain ⟨rfl, hwritten⟩ := ih hrest
    rw [List.length_cons, outputNames_succ]
    refine ⟨rfl, fun i other hother => ?_, fun place hplace => ?_,
      (Tree.KeepsFolders.insert hfree _).trans hwritten.folders⟩
    · cases i with
      | zero =>
        cases hother
        have hlater := not_mem_later location format number rest.length
        rw [Nat.add_zero, hwritten.others _ hlater, Tree.find?_insert_self hfree]
      | succ i =>
        have hnumber : number + (i + 1) = number + 1 + i := by omega
        rw [hnumber]
        exact hwritten.stored i other hother
    · rw [List.length_cons, outputNames_succ, List.map_cons, List.mem_cons, not_or] at hplace
      rw [hwritten.others place hplace.2, Tree.find?_insert_of_ne hplace.1]

/-- Only a folder stands in the way of a file. -/
theorem exists_writeNumbered
    (hfree : ∀ place ∈ (outputNames format number documents.length).map (location ++ [·]),
      tree.find? place ≠ some .folder) :
    ∃ after paths, writeNumbered folder location format tree number documents
      = ⟨after, .ok paths⟩ := by
  induction documents generalizing tree number with
  | nil => exact ⟨tree, [], rfl⟩
  | cons document rest ih =>
    rw [List.length_cons, outputNames_succ, List.map_cons] at hfree
    obtain ⟨hfirst, hrest⟩ := List.forall_mem_cons.mp hfree
    have hwrite : tree.writeText (location ++ [outputName number format])
        (format.renderDocument document) = .ok _ := Tree.writeText_eq_ok.mpr ⟨hfirst, rfl⟩
    have hstill : ∀ place ∈ (outputNames format (number + 1) rest.length).map (location ++ [·]),
        (tree.insert (location ++ [outputName number format])
          (.file (.text (format.renderDocument document)))).find? place ≠ some .folder := by
      intro place member
      have hplace : place ≠ location ++ [outputName number format] := fun hsame =>
        not_mem_later location format number rest.length (hsame ▸ member)
      rw [Tree.find?_insert_of_ne hplace]
      exact hrest place member
    obtain ⟨after, paths, hlater⟩ := ih hstill
    exact ⟨after, _, writeNumbered_cons_eq_ok.mpr ⟨_, _, hwrite, hlater, rfl⟩⟩

theorem writeDocuments_eq_ok :
    writeDocuments tree folder documents format = ⟨after, .ok paths⟩ ↔
      ∃ made location, tree.createFolders folder = .ok made ∧
        made.openFolder (FilePath.components folder) = .ok location ∧
        writeNumbered folder location format made 1 documents = ⟨after, .ok paths⟩ := by
  unfold writeDocuments
  cases tree.createFolders folder with
  | error fault => simp
  | ok made => cases hopen : made.openFolder (FilePath.components folder) <;> simp [hopen]

/-- A folder that has been made can be opened, so it is only the files that may still fail. -/
theorem writeDocuments_of_createFolders {made : Tree} (hmade : tree.createFolders folder = .ok made)
    (hsome : FilePath.components folder ≠ []) (documents : List Document) (format : OutputFormat) :
    ∃ location, made.openFolder (FilePath.components folder) = .ok location ∧
      writeDocuments tree folder documents format
        = writeNumbered folder location format made 1 documents := by
  obtain ⟨-, hopen⟩ := Tree.createFolders_spec hmade
  obtain ⟨location, hlocation⟩ := hopen hsome
  refine ⟨location, hlocation, ?_⟩
  simp only [writeDocuments, hmade, hlocation]

/-- Writing to a folder that is there goes through, unless a folder has the name of a file. -/
theorem exists_writeDocuments (hopen : tree.openFolder (FilePath.components folder) = .ok location)
    (hfree : ∀ place ∈ (outputNames format 1 documents.length).map (location ++ [·]),
      tree.find? place ≠ some .folder) :
    ∃ after paths, writeDocuments tree folder documents format = ⟨after, .ok paths⟩ := by
  obtain ⟨hsome, -⟩ := Tree.openFolder_eq_ok.mp hopen
  obtain ⟨there, hthere, hwrite⟩ := writeDocuments_of_createFolders
    (Tree.createFolders_of_openFolder hopen) hsome documents format
  rw [hopen] at hthere
  cases hthere
  rw [hwrite]
  exact exists_writeNumbered hfree

end Write

/-! ## The main result -/

/-- The files of a folder after documents have been written to it, and the names that they went
to. -/
structure NumberedFiles (format : OutputFormat) (documents : List Document) (location : Location)
    (names : List String) (before after : Tree) : Prop where
  length : names.length = documents.length
  distinct : names.Nodup
  /-- A name holds the number of its document, counted from one, and the file holds its text. -/
  file : ∀ i document, documents[i]? = some document → ∃ numeral name, Padded 4 (i + 1) numeral ∧
    name = "matrix-" ++ String.ofList numeral ++ "." ++ format.name ∧ names[i]? = some name ∧
    after.find? (location ++ [name]) = some (.file (.text (format.renderDocument document)))
  /-- The other files are as before, in this folder and elsewhere, and there are no more of them. -/
  others : ∀ place, place ∉ names.map (location ++ [·]) → ∀ contents,
    after.find? place = some (.file contents) ↔ before.find? place = some (.file contents)

/-- **Writing documents** to a folder that goes through leaves each of them in a numbered file of
its own, and the other files as they were. The paths are those of the files, all different, and each
is read in the format that was written. -/
theorem writeDocuments_numbers_files {tree after : Tree} {folder : String}
    {documents : List Document} {format : OutputFormat} {paths : List String}
    (h : writeDocuments tree folder documents format = ⟨after, .ok paths⟩) :
    ∃ location names, after.openFolder (FilePath.components folder) = .ok location ∧
      NumberedFiles format documents location names tree after ∧
      paths = names.map (FilePath.join folder) ∧ paths.Nodup ∧
      ∀ path ∈ paths, parseDocument path = format.read path := by
  obtain ⟨made, location, hmade, hopen, hwrite⟩ := writeDocuments_eq_ok.mp h
  obtain ⟨hadds, -⟩ := Tree.createFolders_spec hmade
  obtain ⟨rfl, hwritten⟩ := writeNumbered_spec hwrite
  have hdistinct := nodup_outputNames format 1 documents.length
  refine ⟨location, outputNames format 1 documents.length, hwritten.folders.openFolder hopen,
    ⟨?_, hdistinct, fun i document hdocument => ?_, fun place hplace contents => ?_⟩, rfl, ?_,
    fun path member => ?_⟩
  · simp [outputNames]
  · obtain ⟨hlength, -⟩ := List.getElem?_eq_some_iff.mp hdocument
    have hname := getElem?_outputNames format 1 hlength
    have hstored := hwritten.stored i document hdocument
    rw [Nat.add_comm 1 i] at hname hstored
    exact ⟨paddedNumber (i + 1), _, padded_paddedNumber (i + 1), rfl, hname, hstored⟩
  · rw [hwritten.others place hplace]
    exact hadds.file_iff place contents
  · refine List.pairwise_map.mpr (hdistinct.imp_of_mem fun hname hother hne hsame => hne ?_)
    obtain ⟨m, -, rfl⟩ := exists_of_mem_outputNames hname
    obtain ⟨n, -, rfl⟩ := exists_of_mem_outputNames hother
    exact (FilePath.join_inj (isName_outputName m format) (isName_outputName n format)).mp hsame
  · obtain ⟨name, hname, rfl⟩ := List.mem_map.mp member
    obtain ⟨n, -, rfl⟩ := exists_of_mem_outputNames hname
    exact parseDocument_join folder n format

/-- The folder holds files of an earlier write, of which one is replaced and one is kept. Its own name
has another extension. -/
theorem writeDocuments_numbers_files_again :
    let before : Tree := ⟨[(["old.yaml"], .folder), (["old.yaml", "matrix-0001.json"], .file .bytes),
      (["old.yaml", "matrix-0003.json"], .file .bytes)]⟩
    let documents : List Document := [.null, .boolean true]
    let write := writeDocuments before "old.yaml/" documents .json
    let paths := ["old.yaml/matrix-0001.json", "old.yaml/matrix-0002.json"]
    write = ⟨write.tree, .ok paths⟩ ∧
      write.tree.find? ["old.yaml", "matrix-0001.json"] = some (.file (.text "null\n")) ∧
      write.tree.find? ["old.yaml", "matrix-0003.json"] = some (.file .bytes) ∧
      ∃ location names, write.tree.openFolder (FilePath.components "old.yaml/") = .ok location ∧
        NumberedFiles .json documents location names before write.tree ∧
        paths = names.map (FilePath.join "old.yaml/") ∧ paths.Nodup ∧
        ∀ path ∈ paths, parseDocument path = OutputFormat.json.read path := by
  intro before documents write paths
  have hpaths : write.result.toOption = some paths := by decide +kernel
  have hwrite : write = ⟨write.tree, .ok paths⟩ := by
    cases h : write with
    | mk after result => cases result <;> simp_all [Except.toOption]
  exact ⟨hwrite, by decide +kernel, by decide +kernel, writeDocuments_numbers_files hwrite⟩

end Variation
