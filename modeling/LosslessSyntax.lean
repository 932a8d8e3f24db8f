import LosslessSyntax.Command.Directory
import LosslessSyntax.Command.Event
import LosslessSyntax.Command.Invocation
import LosslessSyntax.Command.Run
import LosslessSyntax.Diagnostic.Basic
import LosslessSyntax.Diagnostic.Lexical
import LosslessSyntax.Diagnostic.Merged
import LosslessSyntax.Fault
import LosslessSyntax.Main
import LosslessSyntax.Proofs.Command.Independence
import LosslessSyntax.Proofs.Diagnostic.FirstError
import LosslessSyntax.Proofs.Diagnostic.Flaws
import LosslessSyntax.Proofs.Diagnostic.Items
import LosslessSyntax.Proofs.Diagnostic.KeySort
import LosslessSyntax.Proofs.Diagnostic.Merge
import LosslessSyntax.Proofs.Diagnostic.Reported
import LosslessSyntax.Proofs.Text.Breaks
import LosslessSyntax.Proofs.Text.Division
import LosslessSyntax.Proofs.Text.Encoding
import LosslessSyntax.Proofs.Text.Layout
import LosslessSyntax.Proofs.Text.Legible
import LosslessSyntax.Proofs.Text.LineBreaks
import LosslessSyntax.Proofs.Text.Lookup
import LosslessSyntax.Proofs.Text.Places
import LosslessSyntax.Proofs.Token.ByteScanner
import LosslessSyntax.Proofs.Token.Consecutive
import LosslessSyntax.Proofs.Token.Context
import LosslessSyntax.Proofs.Token.Dots
import LosslessSyntax.Proofs.Token.Dump
import LosslessSyntax.Proofs.Token.Excerpt
import LosslessSyntax.Proofs.Token.LineBreaks
import LosslessSyntax.Proofs.Token.Lines
import LosslessSyntax.Proofs.Token.Locality
import LosslessSyntax.Proofs.Token.Munch
import LosslessSyntax.Proofs.Token.Rereading
import LosslessSyntax.Proofs.Token.Seam
import LosslessSyntax.Proofs.Token.Tiling
import LosslessSyntax.Proofs.Token.Trivia
import LosslessSyntax.Proofs.Token.Words
import LosslessSyntax.Proofs.Tree.Acceptance
import LosslessSyntax.Proofs.Tree.Blanks
import LosslessSyntax.Proofs.Tree.Composition
import LosslessSyntax.Proofs.Tree.Conservation
import LosslessSyntax.Proofs.Tree.Derivation
import LosslessSyntax.Proofs.Tree.Dump
import LosslessSyntax.Proofs.Tree.Endless
import LosslessSyntax.Proofs.Tree.Excerpt
import LosslessSyntax.Proofs.Tree.Extents
import LosslessSyntax.Proofs.Tree.Foreign
import LosslessSyntax.Proofs.Tree.FrontParts
import LosslessSyntax.Proofs.Tree.LineBreaks
import LosslessSyntax.Proofs.Tree.Nodes
import LosslessSyntax.Proofs.Tree.Positions
import LosslessSyntax.Proofs.Tree.Rendering
import LosslessSyntax.Proofs.Tree.Resemblance
import LosslessSyntax.Proofs.Tree.RoundTrip
import LosslessSyntax.Proofs.Tree.Spans
import LosslessSyntax.Proofs.Tree.Totality
import LosslessSyntax.Proofs.Tree.Validity
import LosslessSyntax.Text.Bytes
import LosslessSyntax.Text.Cut
import LosslessSyntax.Text.Line
import LosslessSyntax.Text.PartitionPoint
import LosslessSyntax.Text.Quoted
import LosslessSyntax.Text.Source
import LosslessSyntax.Text.Span
import LosslessSyntax.Token.Basic
import LosslessSyntax.Token.Dump
import LosslessSyntax.Token.Edit
import LosslessSyntax.Token.Kind
import LosslessSyntax.Token.Lexeme
import LosslessSyntax.Token.Stream
import LosslessSyntax.Token.Trivia
import LosslessSyntax.Tree.Basic
import LosslessSyntax.Tree.Dump
import LosslessSyntax.Tree.Leaf
import LosslessSyntax.Tree.Operator
import LosslessSyntax.Tree.Parser
import LosslessSyntax.Tree.Strict
import LosslessSyntax.Unicode.Alphabetic
import LosslessSyntax.Unicode.CombiningMark
import LosslessSyntax.Unicode.Numeric
import LosslessSyntax.Unicode.Printable
import LosslessSyntax.Unicode.RangeTable
