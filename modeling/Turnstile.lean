import Turnstile.Document.Reading
import Turnstile.Formula.Polish
import Turnstile.Formula.Regrouping
import Turnstile.Formula.Substitution
import Turnstile.Logic
import Turnstile.Printing.Canonical
import Turnstile.Reading.Grammar
import Turnstile.Reading.Operation
import Turnstile.Reading.Parts
import Turnstile.Settings.Fields
import Turnstile.Settings.Source
import Turnstile.Token.Layout
import Turnstile.Token.Spelled
import Turnstile.Proofs.Reading.Ends
import Turnstile.Proofs.Reading.Recognizer
import Turnstile.Proofs.Reading.Outlook
import Turnstile.Proofs.Reading.Strata
import Turnstile.Proofs.Reading.Formula
import Turnstile.Proofs.Reading.Completeness
import Turnstile.Proofs.Reading.Whole
import Turnstile.Proofs.Reading.Precedence
import Turnstile.Proofs.Reading.Polish
import Turnstile.Proofs.Reading.Sequent
import Turnstile.Proofs.Reading.Earliest
import Turnstile.Proofs.Token.Layout
import Turnstile.Proofs.Reading.Cut
import Turnstile.Proofs.Reading.Overlap
import Turnstile.Proofs.Reading.Fallback
import Turnstile.Proofs.Decision
import Turnstile.Proofs.Formula.Nesting
import Turnstile.Proofs.Formula.Substitution
import Turnstile.Proofs.Printing.Canonical
import Turnstile.Proofs.Printing.Spelled
import Turnstile.Proofs.Printing.RoundTrip
import Turnstile.Proofs.Reading.Substitution
import Turnstile.Proofs.Printing.Sequent
import Turnstile.Proofs.Formula.Regrouping
import Turnstile.Proofs.Printing.Regrouping
import Turnstile.Proofs.Reading.Vocabulary
import Turnstile.Proofs.Logic.Reading
import Turnstile.Proofs.Logic.Canonical
import Turnstile.Printing.Polish
import Turnstile.Proofs.Reading.Operands
import Turnstile.Proofs.Logic.Extension
import Turnstile.Proofs.Printing.Judgment
import Turnstile.Proofs.Reading.Respelling
import Turnstile.Proofs.Reading.Places
import Turnstile.Proofs.Subsets.Calls
import Turnstile.Proofs.Decision.Least
import Turnstile.Proofs.Logic.Analysis
import Turnstile.Proofs.Logic.Refusal
import Turnstile.Proofs.Formula.Machine
import Turnstile.Proofs.Printing.Machine
import Turnstile.Proofs.Token.Extent
import Turnstile.Proofs.Reading.Frames
import Turnstile.Proofs.Reading.Shortfall
import Turnstile.Reading.Flat
import Turnstile.Reading.Walk
import Turnstile.TruthTable.Inquiry
import Turnstile.Proofs.Reading.Flat
import Turnstile.Proofs.Reading.Walk
import Turnstile.Proofs.Settings.Section
import Turnstile.Proofs.TruthTable.Editing
import Turnstile.Proofs.Reading.Locality
import Turnstile.Proofs.Formula.Frontier
