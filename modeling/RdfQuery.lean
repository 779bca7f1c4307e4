import RdfQuery.BlankLabel
import RdfQuery.Constant.Basic
import RdfQuery.Constant.NTriples
import RdfQuery.Decimal.Double
import RdfQuery.Decimal.Nearest
import RdfQuery.Decimal.Numeral
import RdfQuery.Decimal.Shortest
import RdfQuery.Expr.Basic
import RdfQuery.Expr.Dump
import RdfQuery.Expr.Text
import RdfQuery.Footer
import RdfQuery.GraphMap
import RdfQuery.Group.Basic
import RdfQuery.Group.Calls
import RdfQuery.Header
import RdfQuery.Iri.Address
import RdfQuery.Iri.Basic
import RdfQuery.Iri.Grammar
import RdfQuery.Json.Basic
import RdfQuery.Json.Number
import RdfQuery.Json.Reader
import RdfQuery.Json.Text
import RdfQuery.LanguageTag
import RdfQuery.Naming
import RdfQuery.OrderedMap
import RdfQuery.Outline
import RdfQuery.Pattern
import RdfQuery.PrefixTable
import RdfQuery.Projection
import RdfQuery.Proofs.Amending
import RdfQuery.Proofs.Constant.Characters
import RdfQuery.Proofs.Constant.Reader
import RdfQuery.Proofs.Entries
import RdfQuery.Proofs.Expr.OneLine
import RdfQuery.Proofs.Expr.Parts
import RdfQuery.Proofs.Expr.Reader
import RdfQuery.Proofs.Expr.Unambiguous
import RdfQuery.Proofs.Gathering
import RdfQuery.Proofs.Group.Calls
import RdfQuery.Proofs.Group.Compilation
import RdfQuery.Proofs.Group.Flaws
import RdfQuery.Proofs.Group.Made
import RdfQuery.Proofs.Group.Reachable
import RdfQuery.Proofs.Group.Recorded
import RdfQuery.Proofs.Location
import RdfQuery.Proofs.Naming.Collected
import RdfQuery.Proofs.Naming.Compaction
import RdfQuery.Proofs.Naming.Declarations
import RdfQuery.Proofs.Naming.Pieces
import RdfQuery.Proofs.Naming.SelfContained
import RdfQuery.Proofs.Outcome
import RdfQuery.Proofs.Outline
import RdfQuery.Proofs.Paths
import RdfQuery.Proofs.Placement
import RdfQuery.Proofs.Promotion
import RdfQuery.Proofs.Query.Amendments
import RdfQuery.Proofs.Query.Chains
import RdfQuery.Proofs.Query.Construction
import RdfQuery.Proofs.Query.Describes
import RdfQuery.Proofs.Query.Drafts
import RdfQuery.Proofs.Query.Footers
import RdfQuery.Proofs.Query.Forms
import RdfQuery.Proofs.Query.Misordering
import RdfQuery.Proofs.Query.Outlines
import RdfQuery.Proofs.Query.Peeling
import RdfQuery.Proofs.Query.Projections
import RdfQuery.Proofs.Query.Recognition
import RdfQuery.Proofs.Query.Refusal
import RdfQuery.Proofs.Query.Reordering
import RdfQuery.Proofs.Query.Rewriting
import RdfQuery.Proofs.Query.Slices
import RdfQuery.Proofs.Query.Templates
import RdfQuery.Proofs.Serql.Acceptance
import RdfQuery.Proofs.Serql.Bounds
import RdfQuery.Proofs.Serql.Conservation
import RdfQuery.Proofs.Serql.Contexts
import RdfQuery.Proofs.Serql.Parts
import RdfQuery.Proofs.Serql.Pieces
import RdfQuery.Proofs.Serql.Reader
import RdfQuery.Proofs.Sharing
import RdfQuery.Proofs.Solution.Basic
import RdfQuery.Proofs.Solution.Describing
import RdfQuery.Proofs.Solution.Meaning
import RdfQuery.Proofs.Solution.Sequences
import RdfQuery.Proofs.Solution.Values
import RdfQuery.Proofs.Sparql.Bindings
import RdfQuery.Proofs.Sparql.Block
import RdfQuery.Proofs.Sparql.Bounds
import RdfQuery.Proofs.Sparql.Grammar
import RdfQuery.Proofs.Sparql.Heads
import RdfQuery.Proofs.Sparql.Labels
import RdfQuery.Proofs.Sparql.Layout
import RdfQuery.Proofs.Sparql.Lexing
import RdfQuery.Proofs.Sparql.Lines
import RdfQuery.Proofs.Sparql.Mentions
import RdfQuery.Proofs.Sparql.Misreading
import RdfQuery.Proofs.Sparql.Nesting
import RdfQuery.Proofs.Sparql.Pieces
import RdfQuery.Proofs.Sparql.Reader
import RdfQuery.Proofs.Sparql.Refusal
import RdfQuery.Proofs.Sparql.Sample
import RdfQuery.Proofs.Sparql.Scoping
import RdfQuery.Proofs.Sparql.Tokens
import RdfQuery.Proofs.Sparql.Translation
import RdfQuery.Proofs.Sparql.Uses
import RdfQuery.Proofs.Words
import RdfQuery.Query.Amendments
import RdfQuery.Query.Basic
import RdfQuery.Query.Calls
import RdfQuery.Query.Describe
import RdfQuery.Query.Slice
import RdfQuery.Serql.Clauses
import RdfQuery.Serql.Document
import RdfQuery.Serql.Expr
import RdfQuery.Sparql.Document
import RdfQuery.Sparql.Element
import RdfQuery.Sparql.Expr
import RdfQuery.Style.Basic
import RdfQuery.Style.Json
import RdfQuery.Text
import RdfQuery.Text.Extending
import RdfQuery.Text.Ignorable
import RdfQuery.Text.Quoted
import RdfQuery.Text.Ranges
import RdfQuery.Text.Unprintable
import RdfQuery.Tree.Basic
import RdfQuery.Tree.Dump
