import Variation.Codec.Load
import Variation.Codec.Map
import Variation.Codec.Path
import Variation.Codec.Sample
import Variation.Document.Leaves
import Variation.Main
import Variation.Proofs.Axis.Alike
import Variation.Proofs.Axis.Grid
import Variation.Proofs.Axis.Tally
import Variation.Proofs.Matrix.Limit
import Variation.Proofs.Document.Equality
import Variation.Proofs.Document.Overwriting
import Variation.Proofs.Document.Rewriting
import Variation.Proofs.Json.Origin
import Variation.Proofs.Output.ReadBack
import Variation.Proofs.Command.Agreement
import Variation.Proofs.Path.Text
import Variation.Proofs.Document.Slots
import Variation.Proofs.Document.Agreement
import Variation.Proofs.Matrix.Declaration
import Variation.Proofs.Axis.Failure
import Variation.Proofs.Matrix.Resolution
import Variation.Proofs.Path.Syntax
import Variation.Proofs.Codec.Path
import Variation.Proofs.Document.Direct
import Variation.Proofs.Document.Leaves
import Variation.Proofs.Document.Marking
import Variation.Proofs.Files.Path
import Variation.Proofs.Files.Numbering
import Variation.Proofs.Codec.Copy
import Variation.Proofs.Codec.Map
