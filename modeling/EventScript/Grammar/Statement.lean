import EventScript.Grammar.Pattern

/-! # Statements

Every statement but the last form starts with a word of its own; a schema name, an instance name
and a colon start an instance; anything else is an expression.
-/

namespace EventScript.Grammar

open Parse

/-- A block. -/
def block (rules : Rules) : Parse Block := do
  let start ← current
  let statements ← indented .block (rules .statement)
  return ⟨← spanFrom start, statements⟩

/-- The body of a loop. -/
def loopBody (rules : Rules) : Parse Block := insideLoop (rules .block)

/-- The body of a function or an event handler. -/
def functionBody (rules : Rules) : Parse Block := outsideLoops (rules .block)

/-- A binding. -/
def letStatement (rules : Rules) : Parse Stmt := do
  let start ← expect .letWord "'let'"
  let name ← expect .identifier "variable name"
  let _ ← expect .assign "'=' after variable name"
  let value ← rules .expression
  endStatement
  return .letName (← spanFrom start) name.word value

/-- An assignment. -/
def setStatement (rules : Rules) : Parse Stmt := do
  let start ← expect .setWord "'set'"
  let targetStart ← current
  let target ← rules .expression
  -- any expression is read here, and only then asked whether it can be assigned to
  match target.target? with
  | none => fail (.located .invalidTarget (← spanFrom targetStart))
  | some target =>
    let _ ← expect .colon "':' after set target"
    let value ← rules .expression
    endStatement
    return .assign (← spanFrom start) target value

/-- The parameters and the body of a named function whose name was read. -/
def functionRest (rules : Rules) (start : Token) (name : String) : Parse FunctionDecl := do
  let params ← parameters rules
  let _ ← expect .colon "':' after function parameters"
  let body ← functionBody rules
  return ⟨← spanFrom start, name, params, body⟩

/-- A named function. -/
def functionDeclaration (rules : Rules) : Parse FunctionDecl := do
  let start ← expect .fnWord "'fn'"
  let name ← expect .identifier "function name"
  functionRest rules start name.word

/-- A further part of a conditional statement, if there is one. -/
def alternatePart (rules : Rules) : Parse Alternate := do
  -- it may stand behind empty lines
  skipNewlines
  if ← atKind .elifWord then return .elseIf (← rules .ifStatement)
  if ← accept .elseWord then
    let _ ← expect .colon "':' after else"
    return .elseBlock (← rules .block)
  return .nothing

/-- A conditional statement, from its `if` or `elif`. -/
def ifStatement (rules : Rules) : Parse IfStmt := do
  let start ← advance
  let test ← rules .expression
  let _ ← expect .colon "':' after condition"
  let consequent ← rules .block
  let alternate ← alternatePart rules
  return ⟨← spanFrom start, test, consequent, alternate⟩

/-- A loop over a list. -/
def forStatement (rules : Rules) : Parse Stmt := do
  let start ← expect .forWord "'for'"
  let item ← expect .identifier "loop variable"
  let _ ← expect .inWord "'in' after loop variable"
  let iterable ← rules .expression
  let _ ← expect .colon "':' after iterable"
  let body ← loopBody rules
  return .forIn (← spanFrom start) item.word iterable body

/-- A loop with a condition. -/
def whileStatement (rules : Rules) : Parse Stmt := do
  let start ← expect .whileWord "'while'"
  let test ← rules .expression
  let _ ← expect .colon "':' after while condition"
  let body ← loopBody rules
  return .whileLoop (← spanFrom start) test body

/-- The end of a loop or of one of its rounds, which stands inside of a loop. -/
def loopControl (build : Span → Stmt) : Parse Stmt := do
  let t ← advance
  -- the word is refused where it stands, before the end of its statement is looked for
  if (← ask Cursor.loops) = 0 then fail (.located (.outsideLoop t.lexeme) t.span)
  endStatement
  return build t.span

/-- One case of a match statement. -/
def matchCase (rules : Rules) : Parse MatchCase := do
  let start ← current
  let pattern ← rules .pattern
  let guard ← optional .whenWord (rules .expression)
  let _ ← expect .colon "':' after pattern"
  let body ← rules .block
  return ⟨← spanFrom start, pattern, guard, body⟩

/-- A match statement. -/
def matchStatement (rules : Rules) : Parse Stmt := do
  let start ← expect .matchWord "'match'"
  let discriminant ← rules .expression
  let _ ← expect .colon "':' after match expression"
  let cases ← indented .matchBody (matchCase rules)
  return .matchOn (← spanFrom start) discriminant cases

/-- The value that a function ends with, if there is one. -/
def returnValue? (rules : Rules) : Parse (Option Expr) := do
  if ← atAny statementEnds then return none else some <$> rules .expression

/-- The end of a function with or without a value. -/
def returnStatement (rules : Rules) : Parse Stmt := do
  let start ← expect .returnWord "'return'"
  let argument ← returnValue? rules
  endStatement
  return .returnValue (← spanFrom start) argument

/-- The registration of an event handler. -/
def onStatement (rules : Rules) : Parse Stmt := do
  let start ← expect .onWord "'on'"
  let event ← rules .expression
  let condition ← optional .whenWord (rules .expression)
  let _ ← expect .colon "':' after event"
  let body ← functionBody rules
  return .on (← spanFrom start) event condition body

/-- The data of an event, if there are any. -/
def eventData? (rules : Rules) : Parse (Option Expr) := do
  if ← atKind .leftBrace then some <$> mapLiteral rules else return none

/-- The emission of an event with or without a map of data. -/
def emitStatement (rules : Rules) : Parse Stmt := do
  let start ← expect .emitWord "'emit'"
  let event ← rules .expression
  let data ← eventData? rules
  endStatement
  return .emit (← spanFrom start) event data

/-- A name behind the word `as`, if that stands here. -/
def givenName? (what : String) : Parse (Option String) := do
  if ← atWord "as" then
    let _ ← advance
    return some (← expect .identifier what).word
  return none

/-- A reference to a whole file. -/
def importStatement : Parse Import := do
  let start ← expect .importWord "'import'"
  let source ← expect .string "module path"
  let name ← givenName? "namespace name"
  endStatement
  return ⟨← spanFrom start, source.word, none, name⟩

/-- One name to be taken from a file. -/
def importSpecifier : Parse ImportSpecifier := do
  let start ← current
  let imported ← expect .identifier "import name"
  let name ← givenName? "local name"
  return ⟨← spanFrom start, imported.word, name.getD imported.word⟩

/-- The names to be taken from a file: several in braces, or one. -/
def importSpecifiers : Parse (List ImportSpecifier) := do
  if ← accept .leftBrace then
    let specifiers ← separated .rightBrace "',' between imports" importSpecifier
    let _ ← expect .rightBrace "'\x7d'"
    return specifiers
  let t ← expect .identifier "import name"
  return [⟨t.span, t.word, t.word⟩]

/-- A reference to names of a file. -/
def fromStatement : Parse Import := do
  let start ← expect .fromWord "'from'"
  let source ← expect .string "module path"
  let _ ← expect .importWord "'import'"
  let specifiers ← importSpecifiers
  endStatement
  return ⟨← spanFrom start, source.word, some specifiers, none⟩

/-- A declared field of a schema, in a section of the schema body or in the body itself. -/
def schemaField (rules : Rules) (required inSection : Bool) : Parse SchemaField := do
  let start ← expect .identifier "field name"
  let _ ← expect .colon "':' after field name"
  let type ← rules .type
  let default ← optional .assign (rules .expression)
  endStatement
  return ⟨← spanFrom start, start.word, type, required, inSection, default⟩

/-- What one part of a schema body declares: the fields of a section, one field, one method, or
    nothing, for what a schema body does not know. -/
def schemaPart (rules : Rules) : Parse (List SchemaField × List FunctionDecl) := do
  let start ← current
  if (← atWord "required") || (← atWord "optional") then
    let _ ← advance
    let _ ← expect .colon "':' after section name"
    let fields ← indented .schemaSection (schemaField rules (start.word == "required") true)
    return (fields, [])
  if ← atKind .fnWord then return ([], [← functionDeclaration rules])
  if start.kind == .identifier && (← isAhead 1 .colon) then
    -- a method can be written like a field: a name, a colon and then the function
    if ← isAhead 2 .fnWord then
      let _ ← advance
      let _ ← expect .colon "':'"
      let _ ← expect .fnWord "'fn'"
      return ([], [← functionRest rules start start.word])
    return ([← schemaField rules false false], [])
  let _ ← passUnknown
  return ([], [])

/-- A schema. -/
def schemaStatement (rules : Rules) : Parse Stmt := do
  let start ← expect .schemaWord "'schema'"
  let name ← expect .identifier "schema name"
  let parent ← optional .extendsWord (expect .identifier "parent schema name")
  let _ ← expect .colon "':' after schema name"
  let parts ← indented .schemaBody (schemaPart rules)
  return .schema (← spanFrom start) name.word (parent.map Token.word) (parts.flatMap (·.1)) (parts.flatMap (·.2))

/-- A given field of an instance. -/
def instanceField (rules : Rules) : Parse (String × Expr) := do
  let name ← propertyName
  let _ ← expect .colon "':' after field name"
  let value ← rules .expression
  endStatement
  return (name, value)

/-- Write an entry: a name that is there keeps its place. -/
def putField (fields : List (String × Expr)) (name : String) (value : Expr) :
    List (String × Expr) :=
  match fields with
  | [] => [(name, value)]
  | (n, v) :: rest => if n == name then (n, value) :: rest else (n, v) :: putField rest name value

/-- An instance of a schema. -/
def instanceStatement (rules : Rules) : Parse Stmt := do
  let start ← expect .identifier "schema name"
  let name ← expect .identifier "instance name"
  let _ ← expect .colon "':'"
  let fields ← indented .instanceBody (instanceField rules)
  let fields := fields.foldl (fun fs f => putField fs f.1 f.2) []
  return .instanceOf (← spanFrom start) start.word name.word fields

/-- A statement that is an expression. -/
def expressionStatement (rules : Rules) : Parse Stmt := do
  let start ← current
  let e ← rules .expression
  endStatement
  return .expression (← spanFrom start) e

/-- A schema name, an instance name and a colon. -/
def startsInstance : Parse Bool := do
  return (← atKind .identifier) && (← isAhead 1 .identifier) && (← isAhead 2 .colon)

/-- A statement. -/
def statement (rules : Rules) : Parse Stmt := do
  skipNewlines
  match ← kind with
  | .letWord => letStatement rules
  | .setWord => setStatement rules
  | .fnWord => Stmt.function <$> functionDeclaration rules
  | .ifWord => Stmt.ifThen <$> ifStatement rules
  | .forWord => forStatement rules
  | .whileWord => whileStatement rules
  | .matchWord => matchStatement rules
  | .returnWord => returnStatement rules
  | .breakWord => loopControl .breakLoop
  | .continueWord => loopControl .continueLoop
  | .onWord => onStatement rules
  | .emitWord => emitStatement rules
  | .importWord => Stmt.importFile <$> importStatement
  | .fromWord => Stmt.importFile <$> fromStatement
  | .schemaWord => schemaStatement rules
  | _ => if ← startsInstance then instanceStatement rules else expressionStatement rules

end EventScript.Grammar
