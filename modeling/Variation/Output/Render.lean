import Variation.Json.Writer
import Variation.Output.Format
import Variation.Yaml.Writer

/-!
# Documents as text

A document alone makes the body of a file. Several documents make a stream: one line each in JSON,
and in YAML one after the other with a line of three dashes before each.
-/

namespace Variation

namespace OutputFormat

/-- The body of a file that holds one document. -/
def renderDocument (format : OutputFormat) (document : Document) : String :=
  match format with
  | .json => Json.render .pretty document ++ "\n"
  | .yaml => Yaml.render document

/-- What a document adds to a stream. -/
def renderPart (format : OutputFormat) (document : Document) : String :=
  match format with
  | .json => Json.render .compact document ++ "\n"
  | .yaml => "---\n" ++ Yaml.render document

/-- The stream of documents. -/
def renderStream (format : OutputFormat) (documents : List Document) : String :=
  String.join (documents.map format.renderPart)

end OutputFormat

end Variation
