import BraceLang.Highlight
import BraceLang.Main
import BraceLang.Proofs.Effect
import BraceLang.Proofs.Evaluation.Frame
import BraceLang.Proofs.Grammar.Derivation
import BraceLang.Proofs.Grammar.Position
import BraceLang.Proofs.Grammar.Sorting
import BraceLang.Proofs.Grammar.Soundness
import BraceLang.Proofs.Grammar.Completeness
import BraceLang.Proofs.Evaluation.Depth
import BraceLang.Proofs.Evaluation.Lookups
import BraceLang.Proofs.Grammar.Exactness
import BraceLang.Proofs.Grammar.Nesting
import BraceLang.Proofs.Lexing.Layout
import BraceLang.Proofs.Evaluation.Orderly
import BraceLang.Proofs.DocumentedFailures
import BraceLang.Proofs.Evaluation.EntryBindings
import BraceLang.Proofs.Evaluation.Domain
import BraceLang.Proofs.Evaluation.ValueRange
import BraceLang.Proofs.Printing.Canonical
import BraceLang.Proofs.Printing.Legible
import BraceLang.Proofs.Printing.RoundTrip
import BraceLang.Proofs.Grammar.Following
import BraceLang.Proofs.Grammar.Refusal
import BraceLang.Proofs.Grammar.Simulation
import BraceLang.Proofs.Grammar.Depth
import BraceLang.Proofs.Grammar.CorrectPrefix
import BraceLang.Proofs.Evaluation.Likeness
import BraceLang.Proofs.LayoutIndependence
import BraceLang.Proofs.Concatenation
import BraceLang.Proofs.Evaluation.Blame
import BraceLang.Proofs.DiagnosticPlaces
import BraceLang.Proofs.RecursionLimit
import BraceLang.Proofs.Evaluation.Looping
import BraceLang.Proofs.Grammar.Stratified
import BraceLang.Proofs.SessionHistory
import BraceLang.Proofs.Lexing.Faults
import BraceLang.Proofs.Lexing.Composition
import BraceLang.Proofs.Grammar.Brackets
import BraceLang.Proofs.UnfinishedEntries
import BraceLang.Proofs.Highlighting
import BraceLang.Proofs.FunctionNames
import BraceLang.Proofs.PrintedValues
import BraceLang.Proofs.NormalisedEntries
import BraceLang.Proofs.ContextHistory
import BraceLang.Proofs.Evaluation.Renaming
import BraceLang.Proofs.ListedRuns
import BraceLang.Proofs.Text.Quoting
import BraceLang.Proofs.OutlineReading
import BraceLang.Proofs.Evaluation.Division
import BraceLang.Proofs.Grammar.Postorder
import BraceLang.Proofs.Lexing.Progress
import BraceLang.Proofs.Grammar.Progress
