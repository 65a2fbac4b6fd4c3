import Covenant.Abi
import Covenant.Abi.Reader
import Covenant.CallFault
import Covenant.Code.Emission
import Covenant.Code.Instruction
import Covenant.Code.Linking
import Covenant.Code.StackWalk
import Covenant.Code.Text
import Covenant.Code.Uses
import Covenant.CommandLine.Arguments
import Covenant.CommandLine.Command
import Covenant.CommandLine.Files
import Covenant.Compile
import Covenant.CompileError
import Covenant.Datum.Access
import Covenant.Datum.Arithmetic
import Covenant.Datum.Basic
import Covenant.Datum.Compare
import Covenant.Datum.Shown
import Covenant.Directives
import Covenant.Error
import Covenant.ErrorCode
import Covenant.Hash.Sha256
import Covenant.Inputs
import Covenant.Json.Canonical
import Covenant.Json.Reader
import Covenant.Json.Writer
import Covenant.Key.Codec
import Covenant.Key.Curve
import Covenant.Machine.Basic
import Covenant.Machine.Failure
import Covenant.Machine.Limit
import Covenant.Machine.Loose
import Covenant.Machine.Member
import Covenant.Machine.Run
import Covenant.Machine.Unchecked
import Covenant.Main
import Covenant.Number.Decimal
import Covenant.Number.Double
import Covenant.Policy
import Covenant.Proofs.Abi
import Covenant.Proofs.Abi.Keys
import Covenant.Proofs.Abi.Reading
import Covenant.Proofs.Code.Balance
import Covenant.Proofs.Code.Flow
import Covenant.Proofs.Code.Heights
import Covenant.Proofs.Code.Lines
import Covenant.Proofs.Code.Linking
import Covenant.Proofs.Code.Refusals
import Covenant.Proofs.Code.Text
import Covenant.Proofs.Code.Typing
import Covenant.Proofs.Code.Walks
import Covenant.Proofs.Compile.Acceptance
import Covenant.Proofs.Compile.Description
import Covenant.Proofs.Compile.Evaluation
import Covenant.Proofs.Compile.Fingerprints
import Covenant.Proofs.Compile.Followed
import Covenant.Proofs.Compile.Guard
import Covenant.Proofs.Compile.Jumps
import Covenant.Proofs.Compile.Labels
import Covenant.Proofs.Compile.Lines
import Covenant.Proofs.Compile.Members
import Covenant.Proofs.Compile.Passages
import Covenant.Proofs.Compile.Slots
import Covenant.Proofs.Compile.Stretches
import Covenant.Proofs.Compile.Typing
import Covenant.Proofs.Datum.Access
import Covenant.Proofs.Datum.Arithmetic
import Covenant.Proofs.Datum.Each
import Covenant.Proofs.Datum.Moving
import Covenant.Proofs.Datum.Remarking
import Covenant.Proofs.Datum.Renaming
import Covenant.Proofs.Datum.Wholeness
import Covenant.Proofs.Directives
import Covenant.Proofs.Emitter.Agreement
import Covenant.Proofs.Emitter.Basic
import Covenant.Proofs.Emitter.Emits
import Covenant.Proofs.Emitter.Expressions
import Covenant.Proofs.Emitter.Functions
import Covenant.Proofs.Emitter.Operations
import Covenant.Proofs.Emitter.Outline
import Covenant.Proofs.Emitter.Program
import Covenant.Proofs.Emitter.Statements
import Covenant.Proofs.Emitter.Values
import Covenant.Proofs.Except
import Covenant.Proofs.Json.Canonical
import Covenant.Proofs.Json.Nested
import Covenant.Proofs.Json.Numbers
import Covenant.Proofs.Json.Reading
import Covenant.Proofs.Json.Runs
import Covenant.Proofs.Json.Worded
import Covenant.Proofs.Key.Codec
import Covenant.Proofs.Key.Encodings
import Covenant.Proofs.Key.Field
import Covenant.Proofs.Lists
import Covenant.Proofs.Machine.Agreement
import Covenant.Proofs.Machine.Budget
import Covenant.Proofs.Machine.Conformance
import Covenant.Proofs.Machine.Departures
import Covenant.Proofs.Machine.Effect
import Covenant.Proofs.Machine.Foreseen
import Covenant.Proofs.Machine.Frame
import Covenant.Proofs.Machine.Labelled
import Covenant.Proofs.Machine.Levels
import Covenant.Proofs.Machine.Loaded
import Covenant.Proofs.Machine.Places
import Covenant.Proofs.Machine.Progress
import Covenant.Proofs.Machine.Remarking
import Covenant.Proofs.Machine.Searches
import Covenant.Proofs.Machine.Steps
import Covenant.Proofs.Machine.Wholeness
import Covenant.Proofs.Number.Decimal
import Covenant.Proofs.Number.Rounding
import Covenant.Proofs.Run.Accepted
import Covenant.Proofs.Run.Authorization
import Covenant.Proofs.Run.Commitments
import Covenant.Proofs.Run.Conformance
import Covenant.Proofs.Run.Endings
import Covenant.Proofs.Run.Frame
import Covenant.Proofs.Run.Inputs
import Covenant.Proofs.Run.Lookup
import Covenant.Proofs.Run.Marks
import Covenant.Proofs.Run.Minimal
import Covenant.Proofs.Run.Order
import Covenant.Proofs.Run.Outputs
import Covenant.Proofs.Run.Reading
import Covenant.Proofs.Run.Records
import Covenant.Proofs.Run.References
import Covenant.Proofs.Run.Refusals
import Covenant.Proofs.Run.Remarking
import Covenant.Proofs.Run.Reordering
import Covenant.Proofs.Run.Resolution
import Covenant.Proofs.Run.Safety
import Covenant.Proofs.Run.Slots
import Covenant.Proofs.Run.Wholeness
import Covenant.Proofs.Schema
import Covenant.Proofs.Statement.Dependencies
import Covenant.Proofs.Statement.Functions
import Covenant.Proofs.Statement.Paths
import Covenant.Proofs.Statement.Reading
import Covenant.Proofs.Statement.Runs
import Covenant.Proofs.Statement.Targets
import Covenant.Proofs.Statement.Uses
import Covenant.Proofs.Syntax.Bare
import Covenant.Proofs.Syntax.Layout
import Covenant.Proofs.Syntax.Lexing
import Covenant.Proofs.Syntax.Literals
import Covenant.Proofs.Syntax.Members
import Covenant.Proofs.Syntax.Names
import Covenant.Proofs.Syntax.Precedence
import Covenant.Proofs.Syntax.Reads
import Covenant.Proofs.Syntax.Respacing
import Covenant.Proofs.Syntax.Spelling
import Covenant.Proofs.Syntax.Written
import Covenant.Proofs.Term.Elaboration
import Covenant.Proofs.Term.Inference
import Covenant.Proofs.Term.Renaming
import Covenant.Proofs.Term.Value
import Covenant.Proofs.Term.WellTyped
import Covenant.Proofs.Text.Base64
import Covenant.Proofs.Text.Composed
import Covenant.Proofs.Text.Lines
import Covenant.Proofs.Text.Utf8
import Covenant.Proofs.Value.Conformance
import Covenant.Proofs.Value.Encoding
import Covenant.Proofs.Value.Equality
import Covenant.Proofs.Value.Misfits
import Covenant.Proofs.Value.Misuse
import Covenant.Proofs.Value.Parts
import Covenant.Proofs.Value.Reading
import Covenant.Proofs.Value.Remarking
import Covenant.Proofs.Value.RoundTrip
import Covenant.Proofs.Value.Survival
import Covenant.Report
import Covenant.Run
import Covenant.Schema
import Covenant.Session
import Covenant.Syntax.Expected
import Covenant.Syntax.Parser
import Covenant.Syntax.Token
import Covenant.Syntax.Tree
import Covenant.Term.Basic
import Covenant.Term.Typing
import Covenant.Text.Base64
import Covenant.Text.Blank
import Covenant.Text.Composed
import Covenant.Text.Composed.CombiningClass
import Covenant.Text.Composed.Decomposition
import Covenant.Text.Digit
import Covenant.Text.Hex
import Covenant.Text.Quoted
import Covenant.Text.Shown
import Covenant.Text.Utf8
import Covenant.Ty
import Covenant.Value.Basic
import Covenant.Value.Encoding
import Covenant.Value.Json
