import Offside.Main
import Offside.Proofs.Layout.Scans
import Offside.Proofs.Lowering.ComesBack
import Offside.Proofs.Parsing.Precedence
import Offside.Proofs.Typing.CheckResolves
import Offside.Proofs.Typing.FreshNames
import Offside.Proofs.Writing.RoundTrip
import Offside.Proofs.Typing.Matching
import Offside.Proofs.Typing.Parallel
import Offside.Proofs.Ast.Everywhere
import Offside.Proofs.Typing.Idempotence
import Offside.Proofs.Typing.Parts
import Offside.Proofs.Lowering.LowersNested
import Offside.Proofs.Typing.Constructors
import Offside.Proofs.Typing.Derivations
import Offside.Proofs.Typing.Extension
import Offside.Proofs.Typing.Targets
import Offside.Proofs.Parsing.Contents
import Offside.Proofs.Layout.Grammar
import Offside.Proofs.Lowering.AlikePrograms
import Offside.Proofs.Source.LineTable
import Offside.Proofs.Layout.Positions
import Offside.Proofs.Parsing.Spans
import Offside.Proofs.Typing.InRange
import Offside.Proofs.WithinBounds
import Offside.Proofs.Source.LineEnds
import Offside.Proofs.Source.ReadingOrder
import Offside.Proofs.Layout.LineEnds
import Offside.Proofs.LineEnds
import Offside.Proofs.Writing.Statements
import Offside.Proofs.Writing.Balance
import Offside.Proofs.Writing.ScanningLines
import Offside.Proofs.Writing.LoweredStatements
import Offside.Proofs.Writing.ReadingStatements
import Offside.Proofs.Writing.NestedRoundTrip
import Offside.Proofs.Layout.Lossless
import Offside.Proofs.Stages
import Offside.Proofs.Typing.AssignableOrder
import Offside.Proofs.Lowering.Keeps
import Offside.Proofs.Typing.Frame
import Offside.Proofs.Typing.Placement
import Offside.Proofs.Typing.Returns
import Offside.Proofs.Lowering.GenericCalls
import Offside.Proofs.Parsing.Lookahead
import Offside.Proofs.Parsing.Progress
import Offside.Proofs.Refusals
import Offside.Proofs.Diagnostic.Caret
import Offside.Proofs.Layout.LongestMatch
import Offside.Proofs.Layout.GapLines
import Offside.Proofs.Parsing.Nesting
import Offside.Proofs.Syntax.DepthFirst
import Offside.Proofs.Typing.Guards
import Offside.Proofs.Writing.TypeRoundTrip
