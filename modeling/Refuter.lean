import Refuter.Builder.Basic
import Refuter.Builder.Supply
import Refuter.Clause
import Refuter.CommandLine.Arguments
import Refuter.CommandLine.Host
import Refuter.CommandLine.Program
import Refuter.CommandLine.Report
import Refuter.Derivation.Basic
import Refuter.Derivation.Graph
import Refuter.Engine
import Refuter.Error
import Refuter.Exchange.Decode
import Refuter.Exchange.Encode
import Refuter.Exchange.Transcript
import Refuter.Exchange.Value
import Refuter.File.Folder
import Refuter.File.Format
import Refuter.File.KnowledgeBase
import Refuter.File.Lookup
import Refuter.File.Path
import Refuter.Finite.Distinct
import Refuter.Finite.Subsets
import Refuter.Json.Basic
import Refuter.Json.Draft
import Refuter.Json.Lexer
import Refuter.Json.Printer
import Refuter.Json.Reader
import Refuter.Literal
import Refuter.Main
import Refuter.Number.Double
import Refuter.Number.Shortest
import Refuter.Outcome
import Refuter.Proofs.Bookkeeping
import Refuter.Proofs.BoundNames
import Refuter.Proofs.Chain
import Refuter.Proofs.Closure
import Refuter.Proofs.CommandRuns
import Refuter.Proofs.Composition
import Refuter.Proofs.Configuration
import Refuter.Proofs.Conversion
import Refuter.Proofs.Cutting
import Refuter.Proofs.Documents
import Refuter.Proofs.Drafts
import Refuter.Proofs.Entailment
import Refuter.Proofs.Equivariance
import Refuter.Proofs.Exhaustion
import Refuter.Proofs.Finality
import Refuter.Proofs.FirstClash
import Refuter.Proofs.Folders
import Refuter.Proofs.Formula
import Refuter.Proofs.Freshness
import Refuter.Proofs.Ground
import Refuter.Proofs.Groups
import Refuter.Proofs.Herbrand
import Refuter.Proofs.History
import Refuter.Proofs.Horn
import Refuter.Proofs.Journal
import Refuter.Proofs.JsonText
import Refuter.Proofs.Layers
import Refuter.Proofs.Ledger
import Refuter.Proofs.LiteralGrammar
import Refuter.Proofs.Members
import Refuter.Proofs.MostGeneral
import Refuter.Proofs.Negation
import Refuter.Proofs.Nesting
import Refuter.Proofs.Notation
import Refuter.Proofs.Numbering
import Refuter.Proofs.Pairs
import Refuter.Proofs.Parsing
import Refuter.Proofs.Queries
import Refuter.Proofs.ReadBack
import Refuter.Proofs.Reading
import Refuter.Proofs.Rebinding
import Refuter.Proofs.Refutation
import Refuter.Proofs.Renaming
import Refuter.Proofs.Rendering
import Refuter.Proofs.Replay
import Refuter.Proofs.Reports
import Refuter.Proofs.RoundTrip
import Refuter.Proofs.Rule
import Refuter.Proofs.Search
import Refuter.Proofs.SentenceFiles
import Refuter.Proofs.Skolemization
import Refuter.Proofs.Soundness
import Refuter.Proofs.Strategies
import Refuter.Proofs.Structure
import Refuter.Proofs.TraceFiles
import Refuter.Proofs.Truncation
import Refuter.Proofs.TwoReadings
import Refuter.Proofs.Unifier
import Refuter.Proofs.Variants
import Refuter.Proofs.Witnesses
import Refuter.Proofs.Words
import Refuter.Prove
import Refuter.Resolution
import Refuter.Saturation.Loop
import Refuter.Saturation.Pass
import Refuter.Saturation.Registry
import Refuter.Saturation.Run
import Refuter.Sentence.Atom
import Refuter.Sentence.Fault
import Refuter.Sentence.Nesting
import Refuter.Sentence.Quantifier
import Refuter.Settings.Basic
import Refuter.Settings.Document
import Refuter.Settings.Line
import Refuter.Settings.Placeholder
import Refuter.Settings.Plain
import Refuter.Settings.Quotation
import Refuter.Settings.Whole
import Refuter.Substitution.Basic
import Refuter.Substitution.Subject
import Refuter.Substitution.Unifier
import Refuter.Term
import Refuter.Text.Blank
import Refuter.Text.DecimalDigit
import Refuter.Text.Half
import Refuter.Text.Lower
import Refuter.Text.Quoted
import Refuter.Text.Unprintable
import Refuter.Trace.File
import Refuter.Trace.Open
import Refuter.Trace.Record
import Refuter.WorkingSet.Basic
import Refuter.WorkingSet.Formable
