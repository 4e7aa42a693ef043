import BilingualLogic.Decimal.Numeral
import BilingualLogic.Decimal.Binary
import BilingualLogic.Json.Writer
import BilingualLogic.Json.Reader
import BilingualLogic.Unicode.Letter
import BilingualLogic.Unicode.Mark
import BilingualLogic.Unicode.Number
import BilingualLogic.Unicode.Alphabetic
import BilingualLogic.Unicode.Width
import BilingualLogic.Term
import BilingualLogic.Program
import BilingualLogic.Grammar.Peg
import BilingualLogic.Grammar.Language
import BilingualLogic.Source.Reading
import BilingualLogic.Evaluation
import BilingualLogic.Sequence
import BilingualLogic.Search
import BilingualLogic.Session
import BilingualLogic.Report
import BilingualLogic.FactTable
import BilingualLogic.Prompt
import BilingualLogic.Service
import BilingualLogic.Main
import BilingualLogic.Proofs.Definite.Answers
import BilingualLogic.Proofs.Search.Simulation
import BilingualLogic.Proofs.Search.Truncation
import BilingualLogic.Proofs.Unification.MostGeneral
import BilingualLogic.Proofs.Store.Iteration
import BilingualLogic.Proofs.Term.Alike
import BilingualLogic.Proofs.Unification.Alike
import BilingualLogic.Proofs.Store.Retraction
import BilingualLogic.Proofs.Grammar.Evaluation
import BilingualLogic.Proofs.Grammar.Ranking
import BilingualLogic.Proofs.Grammar.Reads
import BilingualLogic.Proofs.Grammar.Lexical
import BilingualLogic.Proofs.Decimal.Text
import BilingualLogic.Proofs.Grammar.Inversion
import BilingualLogic.Proofs.Grammar.Number
import BilingualLogic.Proofs.Rendering.Reread
import BilingualLogic.Proofs.Rendering.Term
import BilingualLogic.Proofs.Grammar.Layout
import BilingualLogic.Proofs.Rendering.Means
import BilingualLogic.Proofs.Rendering.Formula
import BilingualLogic.Proofs.Rendering.Choice
import BilingualLogic.Proofs.Rendering.Goal
import BilingualLogic.Proofs.Rendering.Program
import BilingualLogic.Proofs.Grammar.Yields
import BilingualLogic.Proofs.Grammar.Valid
import BilingualLogic.Proofs.Rendering.Returns
import BilingualLogic.Proofs.Rendering.RoundTrip
import BilingualLogic.Proofs.Names.Occurrence
import BilingualLogic.Proofs.Names.Steps
import BilingualLogic.Proofs.Names.Reading
import BilingualLogic.Proofs.Names.Reachable
import BilingualLogic.Proofs.Search.Edits
import BilingualLogic.Proofs.Likeness.Goal
import BilingualLogic.Proofs.Likeness.Evaluation
import BilingualLogic.Proofs.Likeness.Store
import BilingualLogic.Proofs.Likeness.Search
import BilingualLogic.Proofs.Likeness.Run
import BilingualLogic.Proofs.Likeness.Onward
import BilingualLogic.Proofs.Likeness.Solution
import BilingualLogic.Proofs.Search.Interleaving
import BilingualLogic.Proofs.Search.Caller
import BilingualLogic.Proofs.Likeness.Program
import BilingualLogic.Proofs.Likeness.Session
import BilingualLogic.Proofs.Term.Reading
import BilingualLogic.Proofs.Restoration.Reading
import BilingualLogic.Proofs.Restoration.Store
import BilingualLogic.Proofs.Restoration.Session
import BilingualLogic.Proofs.Store.Contents
import BilingualLogic.Proofs.Search.Moments
import BilingualLogic.Proofs.Loading.Moments
import BilingualLogic.Proofs.Loading.Heads
import BilingualLogic.Proofs.Loading.Warnings
import BilingualLogic.Proofs.Loading.Builtins
import BilingualLogic.Proofs.Loading.Identifiers
import BilingualLogic.Proofs.Search.Primitives
import BilingualLogic.Proofs.Search.Budget
import BilingualLogic.Proofs.Tree.Node
import BilingualLogic.Proofs.Tree.Trace
import BilingualLogic.Proofs.Tree.Building
import BilingualLogic.Proofs.Tree.Parts
import BilingualLogic.Proofs.Tree.Terms
import BilingualLogic.Proofs.Tree.Goals
import BilingualLogic.Proofs.Tree.Statements
import BilingualLogic.Proofs.Tree.FrontEnd
import BilingualLogic.Proofs.Store.Facts
import BilingualLogic.Proofs.Search.Origins
import BilingualLogic.Proofs.Search.Barriers
import BilingualLogic.Proofs.Loading.Admission
import BilingualLogic.Proofs.Loading.Effort
import BilingualLogic.Proofs.Service.Programs
import BilingualLogic.Proofs.Decimal.Rounding
import BilingualLogic.Proofs.Decimal.Denotation
import BilingualLogic.Proofs.Double.Bounds
import BilingualLogic.Proofs.Double.Shortest
import BilingualLogic.Proofs.Json.Numbers
import BilingualLogic.Proofs.FactTable.Sorting
import BilingualLogic.Proofs.FactTable.Terms
import BilingualLogic.Proofs.FactTable.Programs
import BilingualLogic.Proofs.Collection.Classes
import BilingualLogic.Proofs.Substitution.Aliases
import BilingualLogic.Proofs.Unification.Symmetry
import BilingualLogic.Proofs.Sequence.Answers
import BilingualLogic.Proofs.Substitution.Derived
import BilingualLogic.Proofs.Search.Bindings
import BilingualLogic.Proofs.Sequence.Traversal
import BilingualLogic.Proofs.Search.Traversals
import BilingualLogic.Proofs.Names.Anonymous
import BilingualLogic.Proofs.Grammar.Precedence
import BilingualLogic.Proofs.Loading.Nesting
import BilingualLogic.Proofs.Names.Veil
import BilingualLogic.Proofs.Rendering.Operands
import BilingualLogic.Proofs.Rendering.Sharing
import BilingualLogic.Proofs.Sequence.Concatenation
import BilingualLogic.Proofs.Sequence.Resolved
import BilingualLogic.Proofs.Decimal.Operations
import BilingualLogic.Proofs.Evaluation.Interchange
import BilingualLogic.Proofs.Rendering.Arithmetic
import BilingualLogic.Proofs.Json.Texts
import BilingualLogic.Proofs.FactTable.Export
import BilingualLogic.Proofs.FactTable.Reimport
import BilingualLogic.Proofs.Substitution.Resolution
import BilingualLogic.Proofs.Store.Listing
import BilingualLogic.Proofs.Normal.Steps
import BilingualLogic.Proofs.Normal.Moments
import BilingualLogic.Proofs.Grammar.Literal
import BilingualLogic.Proofs.Grammar.Literal
