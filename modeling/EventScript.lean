import EventScript.Text.Blank
import EventScript.Text.Line
import EventScript.Text.Digit
import EventScript.Text.Word
import EventScript.Text.Quoted
import EventScript.Text.Search
import EventScript.Fault
import EventScript.Number.Shortest
import EventScript.Number.Notation
import EventScript.Number.Numeral
import EventScript.Diagnostic
import EventScript.Token.Scan
import EventScript.Tree
import EventScript.Grammar.Expression
import EventScript.Grammar.Program
import EventScript.Json
import EventScript.Tree.Outline
import EventScript.Table
import EventScript.Heap
import EventScript.Value
import EventScript.Generator
import EventScript.Settings
import EventScript.Store
import EventScript.World
import EventScript.Library.Operand
import EventScript.Library.Math
import EventScript.Library.Strings
import EventScript.Library.Lists
import EventScript.Library.Random
import EventScript.Library.Vectors
import EventScript.Evaluate.Operator
import EventScript.Evaluate.Member
import EventScript.Evaluate.Statement
import EventScript.Evaluate.Call
import EventScript.Library.Core
import EventScript.Evaluate.Run
import EventScript.Plain
import EventScript.Files
import EventScript.Library.Globals
import EventScript.Session
import EventScript.Yaml.Document
import EventScript.CommandLine
import EventScript.Main
import EventScript.Proofs.Law
import EventScript.Proofs.Law.Library
import EventScript.Proofs.Law.Evaluation
import EventScript.Proofs.Law.Execution
import EventScript.Proofs.Delivery
import EventScript.Proofs.Quiescence
import EventScript.Proofs.Registry
import EventScript.Proofs.Withdrawal
import EventScript.Proofs.Reload.Restore
import EventScript.Proofs.Reload.Announce
import EventScript.Proofs.Law.Dispatch
import EventScript.Proofs.Law.Steady
import EventScript.Proofs.Reload.Retry
import EventScript.Proofs.Reload.Recorded
import EventScript.Proofs.Reload.Constant
import EventScript.Proofs.Reload.Plan
import EventScript.Proofs.Reload.Declared
import EventScript.Proofs.Reload.Identical
import EventScript.Proofs.Reload.Unbound
import EventScript.Proofs.Token.LayoutEdit
import EventScript.Proofs.Grammar.Indentation
import EventScript.Proofs.Grammar.Braces
import EventScript.Proofs.Grammar.Printed
import EventScript.Proofs.Ceilings
import EventScript.Proofs.Loops.Completion
import EventScript.Proofs.Paths
import EventScript.Proofs.Subscriptions
import EventScript.Proofs.Listeners
import EventScript.Proofs.Scopes
import EventScript.Proofs.Grammar.Spans
import EventScript.Proofs.Grammar.Rounds
import EventScript.Proofs.Excerpt
import EventScript.Proofs.Patterns.Cases
import EventScript.Proofs.Depth
import EventScript.Proofs.Equality
import EventScript.Proofs.Instances
import EventScript.Proofs.Defaults
import EventScript.Proofs.Calls
import EventScript.Proofs.Loops.Limit
import EventScript.Proofs.Token.Strings
import EventScript.Proofs.Number.Doubles
import EventScript.Proofs.Number.Bits
import EventScript.Proofs.Number.Remainder
import EventScript.Proofs.Yields
import EventScript.Proofs.Yields.Expressions
import EventScript.Proofs.Stored
import EventScript.Proofs.Visits
import EventScript.Proofs.Lexical
import EventScript.Proofs.Token.OneLine
import EventScript.Proofs.Comparison
import EventScript.Proofs.Sets
import EventScript.Proofs.Reload.Imports
import EventScript.Proofs.Display
import EventScript.Proofs.Progression
import EventScript.Proofs.Slices
import EventScript.Proofs.Splitting
import EventScript.Proofs.Sorting
import EventScript.Proofs.Numerals
import EventScript.Proofs.Settings
import EventScript.Proofs.Weighted
import EventScript.Proofs.Number.Rounding
import EventScript.Proofs.Number.Sums
import EventScript.Proofs.Endless
import EventScript.Proofs.Bracket
import EventScript.Proofs.Subtraction
import EventScript.Proofs.Escapes
