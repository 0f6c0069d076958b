import Variation.Command.Run
import Variation.Proofs.Json.Line
import Variation.Proofs.Matrix.Limit
import Variation.Proofs.Text.Numeral

/-!
# Counting and expanding agree

Two commands read the same files. One counts the documents of a matrix and knows no limit and no
format; the other checks its settings, makes the documents within a limit, and prints them. Both
come to the same matrix, so what one prints as a number the other prints as lines, or refuses to
print if it is too much.

The commands are compared as a caller sees them: by what they print and by how they end.
-/

namespace Variation

theorem mapError_eq_ok {α ε ε' : Type} {step : Except ε α} {f : ε → ε'} {value : α} :
    step.mapError f = .ok value ↔ step = .ok value := by
  cases step <;> simp [Except.mapError]

/-! ## What a command has done when it succeeds -/

namespace Settings

variable {s : Settings} {tree : Tree}

theorem limit_eq_ok {n : Nat} (h : s.limit = .ok n) : n = s.maxDocuments := by
  unfold limit at h
  split at h
  · cases h
  · cases h
    rfl

theorem expandDocuments_eq_ok {documents : List Document} {format : OutputFormat}
    (h : s.expandDocuments tree = .ok (documents, format)) :
    s.format = .ok format ∧ ∃ base matrix, s.loadMatrix tree = .ok (base, matrix) ∧
      matrix.expand base s.maxDocuments = .ok documents := by
  simp only [expandDocuments, bind, bind_eq_ok, mapError_eq_ok] at h
  obtain ⟨-, -, ⟨base, matrix⟩, hload, limit, hlimit, made, hexpand, shape, hformat, hout⟩ := h
  cases hout
  rw [limit_eq_ok hlimit] at hexpand
  exact ⟨hformat, base, matrix, hload, hexpand⟩

/-- Only the paths matter for what is loaded. -/
theorem loadMatrix_override (s : Settings) (tree : Tree) (base matrix format : Option String)
    (limit : Option Nat) :
    (s.override base matrix format limit).loadMatrix tree
      = (s.override base matrix none none).loadMatrix tree := rfl

end Settings

namespace Command

variable {s : Settings} {tree : Tree}

theorem runCount_eq_ok {output : String} :
    runCount s tree = .ok output ↔ ∃ base matrix n, s.loadMatrix tree = .ok (base, matrix) ∧
      matrix.count = .ok n ∧ output = line (String.ofList (Nat.toDigits 10 n)) := by
  simp only [runCount, bind, bind_eq_ok, mapError_eq_ok]
  constructor
  · rintro ⟨⟨base, matrix⟩, hload, n, hcount, hout⟩
    cases hout
    exact ⟨base, matrix, n, hload, hcount, rfl⟩
  · rintro ⟨base, matrix, n, hload, hcount, rfl⟩
    exact ⟨(base, matrix), hload, n, hcount, rfl⟩

theorem runExpand_eq_ok {output : String} (h : (runExpand s tree none).output = .ok output) :
    ∃ documents format, s.expandDocuments tree = .ok (documents, format) ∧
      output = format.renderStream documents := by
  unfold runExpand at h
  cases hmade : s.expandDocuments tree with
  | error error =>
    rw [hmade] at h
    cases h
  | ok made =>
    obtain ⟨documents, format⟩ := made
    rw [hmade] at h
    cases h
    exact ⟨documents, format, rfl, rfl⟩

theorem runExpand_eq_error {error : CommandError} (h : s.expandDocuments tree = .error error)
    (folder : Option String) : runExpand s tree folder = ⟨tree, .error error⟩ := by
  unfold runExpand
  rw [h]

/-- What is made is counted, by the command that is given the same paths. -/
theorem runCount_of_expandDocuments {base matrix format : Option String} {limit : Option Nat}
    {documents : List Document} {shape : OutputFormat}
    (h : (s.override base matrix format limit).expandDocuments tree = .ok (documents, shape)) :
    runCount (s.override base matrix none none) tree
        = .ok (line (String.ofList (Nat.toDigits 10 documents.length))) ∧
      documents.length ≤ limit.getD s.maxDocuments := by
  obtain ⟨-, document, axes, hload, hexpand⟩ := Settings.expandDocuments_eq_ok h
  obtain ⟨hcount, hlimit⟩ := Matrix.count_of_expand hexpand
  rw [Settings.loadMatrix_override] at hload
  exact ⟨runCount_eq_ok.mpr ⟨document, axes, documents.length, hload, hcount, rfl⟩, hlimit⟩

/-- A number is told from what is printed of it. -/
theorem eq_of_line_toDigits {m n : Nat}
    (h : line (String.ofList (Nat.toDigits 10 m)) = line (String.ofList (Nat.toDigits 10 n))) :
    m = n := by
  have hlists := congrArg String.toList h
  simp only [line, String.toList_append, String.toList_ofList] at hlists
  exact Text.Numeral.toDigits_injective (List.append_cancel_right hlists)

end Command

/-! ## How a run ends -/

section Run

variable {arguments : List String} {environment : Environment} {command : Command}
  {settings : Settings} {tree : Tree}

theorem runArguments_of_ok (hcommand : Command.ofArguments? arguments = some command)
    (hload : Settings.load tree environment = .ok settings) {output : String}
    (h : (command.runWith settings tree).output = .ok output) :
    runArguments arguments environment tree
      = ⟨0, output, "", (command.runWith settings tree).tree⟩ := by
  simp only [runArguments, hcommand, Command.run, hload]
  generalize command.runWith settings tree = result at h ⊢
  obtain ⟨after, _⟩ := result
  cases h
  rfl

theorem runArguments_of_error (hcommand : Command.ofArguments? arguments = some command)
    (hload : Settings.load tree environment = .ok settings) {error : CommandError}
    (h : (command.runWith settings tree).output = .error error) :
    runArguments arguments environment tree
      = ⟨1, "", line error.message, (command.runWith settings tree).tree⟩ := by
  simp only [runArguments, hcommand, Command.run, hload]
  generalize command.runWith settings tree = result at h ⊢
  obtain ⟨after, _⟩ := result
  cases h
  rfl

/-- Nothing but a command that succeeds ends with the code for success or prints a line. -/
theorem ok_of_runArguments (hcommand : Command.ofArguments? arguments = some command)
    (hload : Settings.load tree environment = .ok settings)
    (h : (runArguments arguments environment tree).code = 0 ∨
      ∃ text, (runArguments arguments environment tree).output = line text) :
    (command.runWith settings tree).output
      = .ok (runArguments arguments environment tree).output := by
  cases hresult : (command.runWith settings tree).output with
  | ok output => rw [runArguments_of_ok hcommand hload hresult]
  | error error =>
    rw [runArguments_of_error hcommand hload hresult] at h
    rcases h with hcode | ⟨text, htext⟩
    · cases hcode
    · have hlists := congrArg String.toList htext
      simp [line] at hlists

end Run

/-! ## The two commands side by side -/

/-- **Counting and expanding agree.** An expansion that is printed as JSON has as many lines as
counting says, no more than the limit; and where counting says more than the limit, an expansion
fails and prints nothing, whatever its format and wherever it should have gone. -/
theorem expand_agrees_with_count {environment : Environment} {tree : Tree} {settings : Settings}
    (hload : Settings.load tree environment = .ok settings)
    {expandArguments countArguments : List String} {base matrix format : Option String}
    {limit : Option Nat} {folder : Option String}
    (hexpand : Command.ofArguments? expandArguments
      = some (.expand base matrix format limit folder))
    (hcount : Command.ofArguments? countArguments = some (.count base matrix)) :
    let expanded := runArguments expandArguments environment tree
    let counted := runArguments countArguments environment tree
    (folder = none → (settings.override base matrix format limit).format = .ok .json →
      expanded.code = 0 →
        ∃ n, n ≤ limit.getD settings.maxDocuments ∧
          counted.code = 0 ∧ counted.output = line (String.ofList (Nat.toDigits 10 n)) ∧
          ∃ lines : List String, lines.length = n ∧ (∀ text ∈ lines, '\n' ∉ text.toList) ∧
            expanded.output = String.join (lines.map line)) ∧
    (∀ n, counted.output = line (String.ofList (Nat.toDigits 10 n)) →
      limit.getD settings.maxDocuments < n → expanded.code ≠ 0 ∧ expanded.output = "") := by
  intro expanded counted
  constructor
  · rintro rfl hformat hcode
    have hout := ok_of_runArguments hexpand hload (.inl hcode)
    obtain ⟨documents, shape, hmade, hstream⟩ := Command.runExpand_eq_ok hout
    obtain ⟨hcounted, hlimit⟩ := Command.runCount_of_expandDocuments hmade
    have hshape : shape = .json := by
      have hagain := (Settings.expandDocuments_eq_ok hmade).1
      rw [hformat] at hagain
      cases hagain
      rfl
    have hend := runArguments_of_ok hcount hload hcounted
    refine ⟨documents.length, hlimit, ?_, ?_, documents.map (Json.render .compact), ?_, ?_, ?_⟩
    · exact congrArg Outcome.code hend
    · exact congrArg Outcome.output hend
    · exact List.length_map _
    · intro text member
      obtain ⟨document, -, rfl⟩ := List.mem_map.mp member
      exact Json.newline_not_mem_render Json.Style.compact_oneLine document
    · rw [hshape] at hstream
      rw [List.map_map]
      exact hstream
  · intro n hprinted hlarge
    have hout := ok_of_runArguments hcount hload (.inr ⟨_, hprinted⟩)
    cases hmade : (settings.override base matrix format limit).expandDocuments tree with
    | error error =>
      have hfails := Command.runExpand_eq_error hmade folder
      have hend := runArguments_of_error hexpand hload (congrArg CommandResult.output hfails)
      refine ⟨?_, congrArg Outcome.output hend⟩
      rw [congrArg Outcome.code hend]
      exact Nat.one_ne_zero
    | ok made =>
      -- What has been made has been counted, and is too much.
      obtain ⟨documents, shape⟩ := made
      obtain ⟨hcounted, hlimit⟩ := Command.runCount_of_expandDocuments hmade
      have hn : documents.length = n := by
        refine Command.eq_of_line_toDigits ?_
        rw [← hprinted]
        exact Except.ok.inj (hcounted.symm.trans hout)
      omega

/-- Two documents, one of them with a line end in a text. A flag makes room for both of them where
the environment has room for one only. -/
theorem expand_agrees_with_count_pair :
    let tree : Tree :=
      ⟨[(["base.json"], .file (.text "\x7b\"a\":\"x\",\"b\":0\x7d")),
        (["matrix.json"], .file (.text
          "\x7b\"permutations\":[\x7b\"key_path\":[\"a\"],\"values\":[\"\\n\",true]\x7d]\x7d"))]⟩
    let environment : Environment := [("CONFMATRIX_MAX_DOCUMENTS", "1")]
    let paths := ["--base=base.json", "--matrix", "matrix.json"]
    let wide := runArguments ("expand" :: "--max-documents=2" :: paths) environment tree
    let narrow := runArguments ("expand" :: paths) environment tree
    let counted := runArguments ("count" :: paths) environment tree
    wide.code = 0 ∧
      (∃ n ≤ 2, counted.output = line (String.ofList (Nat.toDigits 10 n)) ∧
        ∃ lines : List String, lines.length = n ∧ (∀ text ∈ lines, '\n' ∉ text.toList) ∧
          wide.output = String.join (lines.map line)) ∧
      counted.output = "2\n" ∧ narrow.code ≠ 0 ∧ narrow.output = "" := by
  intro tree environment paths wide narrow counted
  have hload : Settings.load tree environment = .ok ⟨none, none, 1, "json"⟩ := by decide +kernel
  have hwide : Command.ofArguments? ("expand" :: "--max-documents=2" :: paths)
      = some (.expand (some "base.json") (some "matrix.json") none (some 2) none) := by
    decide +kernel
  have hnarrow : Command.ofArguments? ("expand" :: paths)
      = some (.expand (some "base.json") (some "matrix.json") none none none) := by
    decide +kernel
  have hcount : Command.ofArguments? ("count" :: paths)
      = some (.count (some "base.json") (some "matrix.json")) := by
    decide +kernel
  have hcode : wide.code = 0 := by decide +kernel
  have hprinted : counted.output = "2\n" := by decide +kernel
  obtain ⟨within, -⟩ := expand_agrees_with_count hload hwide hcount
  obtain ⟨-, beyond⟩ := expand_agrees_with_count hload hnarrow hcount
  obtain ⟨n, hn, -, houtput, lines⟩ := within rfl (by decide +kernel) hcode
  exact ⟨hcode, ⟨n, hn, houtput, lines⟩, hprinted, beyond 2 hprinted (by decide)⟩

end Variation
