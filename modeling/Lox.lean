import Lox.Main
import Lox.FrameOperation
import Lox.Syntax.References
import Lox.Proofs.Syntax.ParsedTrees
import Lox.Proofs.Syntax.Numbering
import Lox.Proofs.Scope.Visits
import Lox.Proofs.Scope.Addresses
import Lox.Proofs.Evaluation.Plans
import Lox.Proofs.Scope.Accepted
import Lox.Proofs.Evaluation.Frames
import Lox.Proofs.Evaluation.WellScoped
import Lox.Proofs.Evaluation.Agreement
import Lox.Proofs.Session.Scopes
import Lox.Proofs.Syntax.Depth
import Lox.Proofs.Syntax.Grammar
import Lox.Proofs.Syntax.Soundness
import Lox.Proofs.Syntax.Completeness
import Lox.Proofs.Syntax.DanglingElse
import Lox.Proofs.Syntax.Recognition
import Lox.Proofs.Renaming.Programs
import Lox.Proofs.Renaming.Scopes
import Lox.Proofs.Renaming.Runs
import Lox.Proofs.Renaming.Sentences
import Lox.Proofs.Renaming.Sources
import Lox.Proofs.Scope.Bodies
import Lox.Proofs.Renaming.Locals
import Lox.Proofs.Renaming.Sessions
import Lox.Proofs.Evaluation.Restoration
import Lox.Proofs.Session.Resting
import Lox.Proofs.Token.Spans
import Lox.Proofs.Evaluation.Code
import Lox.Proofs.Evaluation.Coincidence
import Lox.Proofs.Evaluation.Output
import Lox.Proofs.Scope.Batches
import Lox.Proofs.Session.Batches
import Lox.Proofs.Evaluation.Disciplines
import Lox.Proofs.Evaluation.Supers
import Lox.Proofs.Evaluation.Traces
import Lox.Proofs.Session.Supers
import Lox.Proofs.Evaluation.Locality
import Lox.Proofs.Scope.Violations
import Lox.Scope.Walker
import Lox.Proofs.Scope.Walker
import Lox.Proofs.Syntax.Scripts
import Lox.Proofs.Syntax.Cursors
import Lox.Proofs.Syntax.Recoding
import Lox.Proofs.Syntax.Labeling
import Lox.Proofs.Syntax.Drawing
import Lox.Proofs.Syntax.Lines
import Lox.Proofs.Syntax.Drawn
import Lox.Proofs.Scope.Recoding
import Lox.Proofs.Evaluation.Recoding
import Lox.Proofs.Session.Correspondence
import Lox.Proofs.Session.Rejections
import Lox.Proofs.Session.Identities
import Lox.Proofs.Session.Layouts
import Lox.Proofs.Evaluation.Limits
import Lox.Proofs.Session.Limits
import Lox.Proofs.Evaluation.Completions
import Lox.Proofs.Evaluation.Faults
import Lox.Proofs.Session.Faults
import Lox.Proofs.Token.LineBreaks
import Lox.Proofs.Token.LineNumbers
import Lox.Proofs.Decimal.Rounding
import Lox.Proofs.Decimal.Shortest
import Lox.Proofs.Decimal.Numerals
import Lox.Proofs.Token.Numerals
import Lox.Proofs.Syntax.Comments
import Lox.Proofs.Syntax.Concatenation
import Lox.Proofs.Evaluation.States
import Lox.Proofs.Evaluation.Creation
import Lox.Proofs.Evaluation.Walks
import Lox.Proofs.Session.FrameTree
import Lox.Proofs.Evaluation.Origins
import Lox.Proofs.Session.Methods
import Lox.Proofs.Syntax.Passing
import Lox.Proofs.Syntax.Recovery
import Lox.Proofs.Syntax.MissingSemicolons
import Lox.Proofs.Syntax.Parenthesized
import Lox.Proofs.Syntax.Readback
import Lox.Proofs.Syntax.PrintedTrees
import Lox.Proofs.Evaluation.Fuel
import Lox.Proofs.Loops.Alignments
import Lox.Proofs.Loops.Stores
import Lox.Proofs.Loops.Runs
import Lox.Proofs.Loops.ForLoops
import Lox.Proofs.Loops.Turns
import Lox.Proofs.Session.ForLoops
import Lox.Proofs.Store.NearestBindings
import Lox.Proofs.Store.Distances
import Lox.Proofs.Evaluation.Changes
import Lox.Proofs.Evaluation.Instances
import Lox.Proofs.Evaluation.Initializers
import Lox.Proofs.Evaluation.Properties
import Lox.Proofs.Session.Transitions
import Lox.Proofs.Session.Construction
import Lox.Proofs.Session.Properties
