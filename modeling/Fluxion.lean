import Fluxion.Arena.Command
import Fluxion.CommandLine.Run
import Fluxion.Function.Storage
import Fluxion.Main
import Fluxion.Proofs.Simplification.Idempotence
import Fluxion.Proofs.Simplification.Meaning
import Fluxion.Proofs.Derivative.Correctness
import Fluxion.Proofs.Definition.Parsing
import Fluxion.Proofs.Simplification.Refinement
import Fluxion.Proofs.Function.Pipeline
import Fluxion.Proofs.Notation.Faithfulness
import Fluxion.Proofs.Function.Equality
import Fluxion.Proofs.Arena.Runs
import Fluxion.Proofs.Notation.LatexFaithfulness
import Fluxion.Proofs.Definition.ViablePrefix
import Fluxion.Proofs.Definition.Resumption
import Fluxion.Proofs.CommandLine.Outcome
import Fluxion.Proofs.Function.StoredForm
import Fluxion.Proofs.Function.Renaming
import Fluxion.Proofs.Derivative.Definedness
import Fluxion.Proofs.Derivative.Constancy
import Fluxion.Proofs.Function.Offences
import Fluxion.Proofs.Simplification.Locality
import Fluxion.Proofs.Function.SourceSpans
import Fluxion.Proofs.Function.Parameters
import Fluxion.Proofs.Arena.Copying
import Fluxion.Proofs.Definition.Cursors
import Fluxion.Proofs.Function.Drawing
import Fluxion.Proofs.CommandLine.Arguments
import Fluxion.Proofs.Arena.PostOrder
import Fluxion.Proofs.Simplification.Visits
import Fluxion.Proofs.Suggestion.Misspelling
import Fluxion.Proofs.Simplification.Folding
