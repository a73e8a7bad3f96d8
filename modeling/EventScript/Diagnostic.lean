import EventScript.Json
import EventScript.Token

/-! # Diagnostics

A problem is the cause of a diagnostic: it determines the code, the message and the hints.  A
diagnostic adds the span and, where one is known, the line of the source that is shown with a row
of carets below the span.
-/

namespace EventScript

/-- What a program, or its text, is told off for. -/
inductive Problem
  | unexpectedCharacter (c : Char)
  | unterminatedString
  | unexpectedToken (expected : String) (found : TokenKind)
  | unexpectedEnd (expected : String)
  | invalidTarget
  | outsideLoop (keyword : String)
  | eventNameNotString
  | eventDataNotMap (kind : String)
  | notIterable
  | propertyKeyKind
  | mapKeyKind
  | cannotAssign (key kind : String)
  | cannotAccess (key kind : String)
  | indexNotInteger (shown : String)
  | indexOutOfRange (index : Int)
  | cannotNavigate (path : List String)
  | cannotSet (path : List String)
  | cannotCompare (left right : String)
  | unsupportedOperands (operator left right : String)
  | cannotNegate (kind : String)
  | notAVector (argument : String)
  | nativeFailed (name : String)
  | undefinedVariable (name : String)
  | notCallable (what : String)
  | nullAccess
  | nullAssignment
  | unknownSchema (name : String)
  | missingField (field schema instanceName : String)
  | loopLimit (limit : Nat)
  | divisionByZero
  | callDepth (limit : Nat)
  | importNotExecuted (source : String)
  deriving Repr, DecidableEq

/-- The stage of the work that a problem belongs to. -/
inductive Stage
  | scanning | parsing | running | advice
  deriving Repr, DecidableEq

/-- How severe a diagnostic is. -/
inductive Severity
  | error | warning
  deriving Repr, DecidableEq

/-- The word for a severity. -/
def Severity.word : Severity → String
  | error => "error"
  | warning => "warning"

namespace Problem

/-- The code of a problem: its first digit names the stage. -/
def code : Problem → String
  | unexpectedCharacter _ => "E001"
  | unterminatedString => "E002"
  | unexpectedToken _ _ => "E101"
  | unexpectedEnd _ => "E102"
  | invalidTarget => "E103"
  | outsideLoop _ => "E104"
  | undefinedVariable _ => "E401"
  | notCallable _ => "E402"
  | nullAccess | nullAssignment => "E403"
  | unknownSchema _ => "E404"
  | missingField _ _ _ => "E405"
  | loopLimit _ => "E406"
  | divisionByZero => "E407"
  | callDepth _ => "E408"
  | importNotExecuted _ => "W001"
  | _ => "E400"

/-- The stage of a problem. -/
def stage : Problem → Stage
  | unexpectedCharacter _ | unterminatedString => .scanning
  | unexpectedToken _ _ | unexpectedEnd _ | invalidTarget | outsideLoop _ => .parsing
  | importNotExecuted _ => .advice
  | _ => .running

/-- Only advice is a warning. -/
def severity (p : Problem) : Severity := if p.stage = .advice then .warning else .error

/-- The message of a problem. -/
def message : Problem → String
  | unexpectedCharacter c => s!"unexpected character '{c}'"
  | unterminatedString => "unterminated string literal"
  | unexpectedToken expected found => s!"expected {expected}, found {found.name}"
  | unexpectedEnd expected => s!"unexpected end of file, expected {expected}"
  | invalidTarget => "invalid assignment target"
  | outsideLoop keyword => s!"'{keyword}' outside loop"
  | eventNameNotString => "Event name must be a string"
  | eventDataNotMap kind => s!"Event data must be a map, got {kind}"
  | notIterable => "For loop requires an iterable (list)"
  | propertyKeyKind => "Property key must be a string or number"
  | mapKeyKind => "Map keys must be strings"
  | cannotAssign key kind => s!"Cannot assign property \"{key}\" on {kind}"
  | cannotAccess key kind => s!"Cannot access property \"{key}\" on {kind}"
  | indexNotInteger shown => s!"List index must be an integer, got {shown}"
  | indexOutOfRange index => s!"List index {index} out of range"
  | cannotNavigate path => "Cannot navigate to " ++ ".".intercalate path
  | cannotSet path => "Cannot set " ++ ".".intercalate path
  | cannotCompare left right => s!"Cannot compare {left} and {right}"
  | unsupportedOperands operator left right =>
    s!"Unsupported operand types for {operator}: {left} and {right}"
  | cannotNegate kind => s!"Cannot negate {kind}"
  | notAVector argument => s!"{argument} must be a vector (array of numbers)"
  | nativeFailed name => s!"Error in {name}()"
  | undefinedVariable name => s!"Undefined variable: {name}"
  | notCallable what => s!"{what} is not callable"
  | nullAccess => "Cannot access property of null"
  | nullAssignment => "Cannot assign to property of null"
  | unknownSchema name => s!"Unknown schema: {name}"
  | missingField field schema instanceName =>
    s!"Missing required field \"{field}\" in {schema} instance \"{instanceName}\""
  | loopLimit limit => s!"Loop exceeded {limit} iterations"
  | divisionByZero => "Division by zero"
  | callDepth limit => s!"Maximum call depth {limit} exceeded"
  | importNotExecuted source => s!"import of \"{source}\" is recorded but not executed"

/-- What may help. -/
def hints : Problem → List String
  | unterminatedString =>
    ["string literals must be closed on the same line with a matching quote"]
  | invalidTarget =>
    ["'set' accepts a name, a member access (a.b, a[i]) or a reactive reference ($a.b)"]
  | importNotExecuted _ => ["load the imported file into the same VM before this one"]
  | _ => []

end Problem

/-- A problem at a place. -/
structure Diagnostic where
  problem : Problem
  span : Option Span
  excerpt : Option String
  deriving Repr, DecidableEq

namespace Diagnostic

/-- A problem at a place, without an excerpt. -/
def located (problem : Problem) (span : Span) : Diagnostic := ⟨problem, some span, none⟩

/-- Show the line of a source where the span starts. -/
def quoting (d : Diagnostic) (source : String) : Diagnostic :=
  { d with excerpt := d.span.bind fun s => sourceLine? source s.start.line }

/-- Place, severity, code and message. -/
def headline (d : Diagnostic) : String :=
  let what := s!"{d.problem.severity.word}[{d.problem.code}]: {d.problem.message}"
  match d.span with
  | some s => s!"{s.start.text}: {what}"
  | none => what

/-- How many carets stand below a line: at least one, and to the end of the line when the span goes
    on behind it. -/
def caretCount (s : Span) (line : String) : Nat :=
  max 1 ((if s.start.line = s.stop.line then s.stop.column else line.length + 1) - s.start.column)

/-- The excerpt with its line number and the carets below the span. -/
def excerptLines (d : Diagnostic) : List String :=
  match d.span, d.excerpt with
  | some s, some line =>
    let number := toString s.start.line
    ["  |",
     "".pushn ' ' (3 - number.length) ++ s!"{number} | {line}",
     "    | " ++ "".pushn ' ' (s.start.column - 1) ++ "".pushn '^' (caretCount s line)]
  | _, _ => []

/-- The diagnostic for the reader, with or without the excerpt. -/
def format (d : Diagnostic) (showSource : Bool) : String :=
  "\n".intercalate (d.headline :: (if showSource then d.excerptLines else []) ++
    d.problem.hints.map ("    = hint: " ++ ·))

/-- A location as a document. -/
def locationJson (l : Location) : Json :=
  .object [("line", .int l.line), ("column", .int l.column), ("offset", .int l.offset)]

/-- The diagnostic as a document for other tools. -/
def json (d : Diagnostic) : Json :=
  .object ([("code", .string d.problem.code), ("message", .string d.problem.message),
    ("severity", .string d.problem.severity.word),
    ("hints", .array (d.problem.hints.map .string))] ++
    match d.span with
    | none => []
    | some s =>
      [("file", s.start.file.elim .null .string),
       ("range", .object [("start", locationJson s.start), ("end", locationJson s.stop)])])

end Diagnostic

end EventScript
