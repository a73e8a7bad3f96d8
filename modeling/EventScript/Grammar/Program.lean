import EventScript.Grammar.Statement
import EventScript.Token.Scan

/-! # Programs

One step of the grammar gives every rule in terms of the rules one level down.  A rule comes back
to another one at most twice before a token is passed, so twice as many levels as there are tokens
are enough for every program, and nobody sees the bound.
-/

namespace EventScript

namespace Grammar

/-- Every rule, in terms of the rules one level down. -/
def step (rules : Rules) : Rules
  | .expression => expression rules
  | .unary => unary rules
  | .statement => statement rules
  | .ifStatement => ifStatement rules
  | .block => block rules
  | .pattern => pattern rules
  | .type => type rules

/-- The rules with a number of levels below them. -/
def rulesAt : Nat → Rules
  | 0 => fun _ => Parse.expected "expression"
  | depth + 1 => step (rulesAt depth)

/-- Levels that are enough for a number of tokens. -/
def depthFor (tokens : Nat) : Nat := 2 * tokens + 2

/-- Statements up to the end of the file. -/
def statementsFrom (rules : Rules) : Nat → Parse (List Stmt)
  | 0 => Parse.expected "statement"
  | bound + 1 => do
    Parse.skipNewlines
    if ← Parse.atKind .endOfFile then return []
    let s ← rules .statement
    return s :: (← statementsFrom rules bound)

/-- The imports among the statements of a file. -/
def importsOf (statements : List Stmt) : List Import :=
  statements.filterMap fun
    | .importFile i => some i
    | _ => none

/-- The statements of a file that are executed. -/
def bodyOf (statements : List Stmt) : List Stmt :=
  statements.filter fun
    | .importFile _ => false
    | _ => true

/-- A whole file. -/
def program (rules : Rules) : Parse Program := do
  let start ← Parse.current
  let statements ← statementsFrom rules (← Parse.tokensLeft)
  return ⟨← Parse.spanFrom start, importsOf statements, bodyOf statements⟩

end Grammar

namespace Program

/-- Read the program that a token list spells, where the list ends with the end of the file; the
    cursor behind it tells how it was read. -/
def read (tokens : List Token) : Except Diagnostic (Program × Cursor) :=
  match Cursor.ofTokens? tokens with
  | none => .error ⟨.unexpectedEnd "expression", none, none⟩
  | some c => (Grammar.program (Grammar.rulesAt (Grammar.depthFor tokens.length))).run c

/-- The program that a token list spells. -/
def ofTokens (tokens : List Token) : Except Diagnostic Program := (read tokens).map (·.1)

/-- Show the source line of a problem that was found in a token; the end of the file has none. -/
def quoting (source : String) (d : Diagnostic) : Diagnostic :=
  -- an end that comes too early is at no line of the source
  match d.problem with
  | .unexpectedEnd _ => d
  | _ => d.quoting source

/-- The name of a source; one without a name is called `<input>`. -/
def sourceName : Option String → String
  | none | some "" => "<input>"
  | some name => name

/-- The program of a source text. -/
def compile (source : String) (file : Option String) : Except Diagnostic Program := do
  let tokens ← Token.scan source (some (sourceName file))
  (ofTokens tokens).mapError (quoting source)

end Program

end EventScript
