import Variation.Files.Source
import Variation.Proofs.Json.Line
import Variation.Proofs.Json.RoundTrip

/-!
# Documents that are read back from what is written

A document that is written as JSON and read from a file with that extension is the document again,
be it the whole body of the file or a line of a stream. The document may hold every text and every
whole number, under keys that ascend as those of every document do; it may not hold floating point
numbers, whose texts are another matter, nor more containers in each other than a file may open.
-/

namespace Variation

theorem parseDocument_json {path contents : String} {document : Document}
    (hpath : FilePath.extension? path = some "json") (h : Json.parse contents = .ok document) :
    parseDocument path contents = .ok document := by
  rw [parseDocument, if_pos hpath, h]

namespace OutputFormat

theorem parse_renderDocument_json {document : Document}
    (h : Json.Readable Json.fileDepth document) :
    Json.parse (json.renderDocument document) = .ok document := by
  have hgap : Json.Blank ['\n'] := by
    intro c hc
    rw [List.mem_singleton.mp hc]
    rfl
  have hbody : json.renderDocument document
      = String.ofList (Json.Style.pretty.write 0 document ++ ['\n']) := by
    rw [renderDocument, Json.render, String.ofList_append]
  rw [hbody, Json.parse]
  exact Json.parseWithin_write Json.Style.pretty_loose h hgap

theorem parse_render_compact {document : Document} (h : Json.Readable Json.fileDepth document) :
    Json.parse (Json.render .compact document) = .ok document := by
  have hgap : Json.Blank [] := by
    intro c hc
    exact absurd hc List.not_mem_nil
  have hread := Json.parseWithin_write Json.Style.compact_loose h hgap
  rw [List.append_nil] at hread
  exact hread

theorem toList_renderStream_json (documents : List Document) :
    (json.renderStream documents).toList
      = (documents.map fun document => (Json.render .compact document).toList).flatMap
          (· ++ ['\n']) := by
  simp [renderStream, renderPart, String.toList_join, List.flatMap_map]

theorem pieces_renderStream_json (documents : List Document) :
    Text.pieces '\n' (json.renderStream documents).toList
      = (documents.map fun document => (Json.render .compact document).toList) ++ [[]] := by
  rw [toList_renderStream_json]
  refine Text.pieces_flatMap fun text member => ?_
  obtain ⟨document, -, rfl⟩ := List.mem_map.mp member
  exact Json.newline_not_mem_render Json.Style.compact_oneLine document

end OutputFormat

/-- **JSON reads back.** The body of a file is read as the document that it was written from. A
stream has one line for each document, none of them empty, and each line is read as its document. -/
theorem json_reads_back (path : String) (hpath : FilePath.extension? path = some "json") :
    (∀ document, Json.Readable 127 document →
      parseDocument path (OutputFormat.json.renderDocument document) = .ok document) ∧
    (∀ documents : List Document, (∀ document ∈ documents, Json.Readable 127 document) →
      ∃ lines : List String,
        Text.pieces '\n' (OutputFormat.json.renderStream documents).toList
          = lines.map String.toList ++ [[]] ∧
        (∀ line ∈ lines, line ≠ "") ∧
        lines.map (parseDocument path) = documents.map .ok) := by
  constructor
  · intro document h
    exact parseDocument_json hpath (OutputFormat.parse_renderDocument_json h)
  · intro documents h
    refine ⟨documents.map (Json.render .compact), ?_, ?_, ?_⟩
    · rw [OutputFormat.pieces_renderStream_json, List.map_map]
      rfl
    · intro line member hempty
      obtain ⟨document, hdocument, rfl⟩ := List.mem_map.mp member
      -- The empty text is no document, and this one is read.
      have hread := OutputFormat.parse_render_compact (h document hdocument)
      rw [hempty] at hread
      cases hread
    · rw [List.map_map]
      refine List.map_congr_left fun document member => ?_
      exact parseDocument_json hpath (OutputFormat.parse_render_compact (h document member))

/-- A document with line ends in a key and in a text, the least and the greatest whole number, and
containers without anything in them. -/
theorem json_reads_back_mixed :
    let path := "out/matrix-0001.json"
    let least : Document := .whole ⟨-2 ^ 63, by decide, by decide⟩
    let greatest : Document := .whole ⟨2 ^ 64 - 1, by decide, by decide⟩
    let document : Document := .mapping
      [("", .sequence []), ("a\n\"", .sequence [least, .text "\x00\n\\é😀", .mapping []]),
        ("é", greatest)]
    FilePath.extension? path = some "json" ∧ Json.Readable 127 document ∧
      parseDocument path (OutputFormat.json.renderDocument document) = .ok document ∧
      ∃ lines : List String,
        Text.pieces '\n' (OutputFormat.json.renderStream [document, least]).toList
          = lines.map String.toList ++ [[]] ∧
        lines.map (parseDocument path) = [.ok document, .ok least] := by
  intro path least greatest document
  have hpath : FilePath.extension? path = some "json" := by decide
  have hleast : Json.Readable 127 least := by decide
  have hdocument : Json.Readable 127 document := by decide
  obtain ⟨body, stream⟩ := json_reads_back path hpath
  obtain ⟨lines, hlines, -, hread⟩ := stream [document, least] (by simp [hdocument, hleast])
  exact ⟨hpath, hdocument, body document hdocument, lines, hlines, hread⟩

end Variation
