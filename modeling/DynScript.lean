import DynScript.Main
import DynScript.Proofs.Parse.Grammar
import DynScript.Proofs.Parse.Climbing
import DynScript.Proofs.Decimal.Rounding
import DynScript.Proofs.Decimal.Pattern
import DynScript.Proofs.Decimal.ReadsBack
import DynScript.Proofs.Token.Literal
import DynScript.Proofs.Syntax.WellFormed
import DynScript.Proofs.Syntax.Rendering
import DynScript.Proofs.Parse.Statement
import DynScript.Proofs.Parse.ReadsBack
import DynScript.Proofs.Parse.Forms
import DynScript.Proofs.Parse.RoundTrip
import DynScript.Proofs.Eval.Compositional
import DynScript.Proofs.Eval.StackDiscipline
import DynScript.Proofs.Parse.Yield
import DynScript.Proofs.Eval.Rules
import DynScript.Proofs.Eval.Termination
import DynScript.Proofs.Eval.Lockstep
import DynScript.Proofs.Eval.Limits
import DynScript.Proofs.Value.Stack
import DynScript.Proofs.Eval.ScopeHygiene
import DynScript.Proofs.Eval.Operator
import DynScript.Proofs.Eval.Unmentioned
import DynScript.Proofs.Token.Lossless
import DynScript.Proofs.Parse.Faults
import DynScript.Proofs.Parse.Incremental
import DynScript.Proofs.Parse.NestingLimit
import DynScript.Proofs.Token.Concatenation
import DynScript.Proofs.Parse.Concatenation
import DynScript.Proofs.Cli.Brackets
import DynScript.Proofs.Eval.Pieces
import DynScript.Proofs.Parse.Lookahead
import DynScript.Proofs.Parse.SyntaxErrors
import DynScript.Proofs.Parse.Definitions
import DynScript.Proofs.Parse.Trimming
import DynScript.Proofs.Cli.Session
import DynScript.Proofs.Json.Numeral
import DynScript.Proofs.Json.FloatText
import DynScript.Proofs.Json.ReadsBack
import DynScript.Proofs.Syntax.Dump
import DynScript.Proofs.Eval.Arithmetic
import DynScript.Proofs.Value.NestedScopes
import DynScript.Proofs.Token.LongestMatch
import DynScript.Proofs.Parse.Spacing
import DynScript.Token.Grammar
import DynScript.Proofs.Token.MaximalMunch
import DynScript.Proofs.Token.Quoting
import DynScript.Proofs.Decimal.Order
import DynScript.Proofs.Decimal.Integer
import DynScript.Proofs.Value.Equality
import DynScript.Proofs.Eval.Comparison
import DynScript.Proofs.Value.Contents
import DynScript.Proofs.Syntax.Equality
import DynScript.Proofs.Eval.Identity
import DynScript.Proofs.Eval.FunctionIdentity
import DynScript.Proofs.Parse.Reading
import DynScript.Proofs.Parse.Descent
import DynScript.Proofs.Parse.Descent.Expression
import DynScript.Proofs.Parse.Descent.Statement
import DynScript.Proofs.Parse.Descent.Progress
import DynScript.Proofs.Eval.Parameters
import DynScript.Proofs.Parse.Descent.Calls
import DynScript.Proofs.Parse.Descent.Pulls
