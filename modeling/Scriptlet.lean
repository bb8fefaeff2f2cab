import Scriptlet.Diagnostic.Report
import Scriptlet.Token.Scanner
import Scriptlet.Tree.Render
import Scriptlet.Grammar.Program
import Scriptlet.Typing.Program
import Scriptlet.Bytecode.Assembly
import Scriptlet.Bytecode.Compile
import Scriptlet.Machine.Run
import Scriptlet.Main
import Scriptlet.Proofs.Bytecode.Compilation
import Scriptlet.Proofs.Machine.Instruction
import Scriptlet.Proofs.Machine.Counting
import Scriptlet.Proofs.Machine.Plain
import Scriptlet.Proofs.Machine.Simulation
import Scriptlet.Proofs.Syntax.Respan
import Scriptlet.Proofs.Syntax.Spelling
import Scriptlet.Proofs.Syntax.Cursor
import Scriptlet.Proofs.Syntax.RoundTrip
import Scriptlet.Proofs.Syntax.Soundness
import Scriptlet.Proofs.Syntax.Phrases
import Scriptlet.Proofs.Syntax.ExpressionViability
import Scriptlet.Proofs.Syntax.StatementViability
import Scriptlet.Proofs.Syntax.CorrectPrefix
import Scriptlet.Proofs.Syntax.Progress
import Scriptlet.Proofs.Syntax.Registration
import Scriptlet.Proofs.Syntax.Precedence
import Scriptlet.Proofs.Token.Layout
import Scriptlet.Proofs.Token.Coverage
import Scriptlet.Proofs.Token.Longest
import Scriptlet.Proofs.Token.Separation
import Scriptlet.Proofs.Token.Recovery
import Scriptlet.Proofs.Token.Lines
import Scriptlet.Proofs.Token.Diagnostics
import Scriptlet.Proofs.Token.Quoting
import Scriptlet.Proofs.Arithmetic.Pipeline
import Scriptlet.Proofs.Typing.Field
import Scriptlet.Proofs.Typing.Acceptance
import Scriptlet.Proofs.Typing.Scoping
import Scriptlet.Proofs.Typing.Surroundings
import Scriptlet.Proofs.Typing.Congruence
import Scriptlet.Proofs.Typing.Written
import Scriptlet.Proofs.Typing.Closed
import Scriptlet.Proofs.Typing.Independence
import Scriptlet.Proofs.Typing.Dependence
import Scriptlet.Proofs.Typing.Termination
import Scriptlet.Proofs.Typing.Reimport
import Scriptlet.Proofs.Placement
import Scriptlet.Proofs.Concatenation
import Scriptlet.Proofs.Excerpt
import Scriptlet.Proofs.Bytecode.Subset
import Scriptlet.Proofs.Bytecode.Checked
import Scriptlet.Proofs.Bytecode.Decoding
import Scriptlet.Proofs.Typing.Vocabulary
import Scriptlet.Proofs.Typing.Speech
import Scriptlet.Proofs.Typing.Wording
import Scriptlet.Proofs.Typing.Mismatch
import Scriptlet.Proofs.Typing.Members
import Scriptlet.Proofs.Bytecode.WellFormed
import Scriptlet.Proofs.Text.Cutting
import Scriptlet.Proofs.Bytecode.Listing
import Scriptlet.Proofs.Bytecode.Segments
import Scriptlet.Proofs.Machine.Control
import Scriptlet.Proofs.Machine.History
import Scriptlet.Proofs.Diagnostic.Caret
import Scriptlet.Proofs.Source.Location
import Scriptlet.Proofs.Syntax.Completeness
import Scriptlet.Proofs.Typing.Valued
import Scriptlet.Proofs.Numeral.Power
import Scriptlet.Proofs.Numeral.Rounding
import Scriptlet.Proofs.Numeral.Writing
import Scriptlet.Proofs.Text.Script
import Scriptlet.Proofs.Text.Quotation
import Scriptlet.Proofs.Tree.Node
import Scriptlet.Proofs.Tree.Legible
import Scriptlet.Proofs.Tree.Characters
import Scriptlet.Proofs.Tree.Form
import Scriptlet.Proofs.Tree.ExpressionTelling
import Scriptlet.Proofs.Tree.StatementTelling
import Scriptlet.Proofs.Tree.Unambiguous
