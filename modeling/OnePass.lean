import OnePass.Main
import OnePass.Proofs.Generator.Operand
import OnePass.Proofs.Symbol.Table
import OnePass.Proofs.Generator.Expression
import OnePass.Proofs.Generator.Declaration
import OnePass.Proofs.Safety.Shape
import OnePass.Proofs.Safety.Steps
import OnePass.Proofs.Safety.Goals
import OnePass.Proofs.Safety.Compile
import OnePass.Proofs.Code.Plan
import OnePass.Proofs.Generator.Reports
import OnePass.Proofs.Translate.Rules
import OnePass.Proofs.Translate.Perform
import OnePass.Proofs.Translate.Recover
import OnePass.Proofs.Translate.Compile
import OnePass.Proofs.Static.Rules
import OnePass.Proofs.Static.Table
import OnePass.Proofs.Static.Bounds
import OnePass.Proofs.Static.Expression
import OnePass.Proofs.Static.Statement
import OnePass.Proofs.Static.Program
import OnePass.Proofs.Static.Compile
import OnePass.Proofs.Semantics.Machine
import OnePass.Proofs.Semantics.Source
import OnePass.Proofs.Session.Linear
import OnePass.Proofs.Translate.Accepted
import OnePass.Proofs.Translate.Linked
import OnePass.Proofs.Flow.Jumps
import OnePass.Proofs.Flow.Program
import OnePass.Proofs.Storage.Layout
import OnePass.Proofs.Storage.Operands
import OnePass.Proofs.Storage.Code
import OnePass.Proofs.Storage.Program
import OnePass.Proofs.Runs.Uses
import OnePass.Proofs.Runs.Resolution
import OnePass.Proofs.Runs.Calls
import OnePass.Proofs.Runs.Sites
import OnePass.Proofs.Runs.Convention
import OnePass.Proofs.Runs.Operators
import OnePass.Proofs.Runs.Expression
import OnePass.Proofs.Token.Scan
import OnePass.Proofs.Symbol.Storage
import OnePass.Proofs.Flow.Scratch
import OnePass.Proofs.Flow.Blocks
import OnePass.Proofs.Naming.Parse
import OnePass.Proofs.Naming.Program
import OnePass.Proofs.Meaning.Homes
import OnePass.Proofs.Meaning.Expression
import OnePass.Proofs.Meaning.Command
import OnePass.Proofs.Meaning.Statement
import OnePass.Proofs.Meaning.Program
import OnePass.Proofs.Relocation.Program
import OnePass.Proofs.Patches.Program
import OnePass.Proofs.Values.Visible
import OnePass.Proofs.Values.Expression
import OnePass.Proofs.Values.Assignment
import OnePass.Proofs.Generator.Footprint
import OnePass.Proofs.Session.Scratch
import OnePass.Proofs.Grammar.Viable
import OnePass.Proofs.Grammar.Earliest
import OnePass.Proofs.Grammar.Progress
import OnePass.Proofs.Command.Run
import OnePass.Proofs.Order.Steps
import OnePass.Proofs.Order.Diagnostics
import OnePass.Proofs.Misspelling.Program
import OnePass.Proofs.Token.Spacing
import OnePass.Proofs.Token.Comment
import OnePass.Proofs.Layout.Separated
import OnePass.Proofs.Code.WriteOnce
import OnePass.Proofs.Symbol.Blocks
import OnePass.Proofs.Code.Listing
