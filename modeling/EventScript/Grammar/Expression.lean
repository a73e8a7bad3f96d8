import EventScript.Grammar.Rule

/-! # Expressions

The precedence of the operators, from loosest to tightest: the conditional, `or`, `and`, equality,
comparison, sum, product, the signs and `not`, and the postfix forms.  Operators of one level
associate to the left.
-/

namespace EventScript.Grammar

open Parse

/-- The binary operator of a token, where it is one of a level. -/
def operatorOf? (level : List (TokenKind × BinaryOperator)) : Parse (Option BinaryOperator) :=
  ask (level.lookup ·.current.kind)

/-- Further operands of a level, joined to a left operand. -/
def chainFrom (level : List (TokenKind × BinaryOperator)) (operand : Parse Expr) (start : Token) :
    Nat → Expr → Parse Expr
  | 0, _ => expected "expression"
  | bound + 1, left => do
    match ← operatorOf? level with
    | none => return left
    | some operator =>
      let _ ← advance
      let right ← operand
      chainFrom level operand start bound (.binary (← spanFrom start) operator left right)

/-- Operands of a level, joined from left to right. -/
def chain (level : List (TokenKind × BinaryOperator)) (operand : Parse Expr) : Parse Expr := do
  let start ← current
  let left ← operand
  chainFrom level operand start (← tokensLeft) left

/-- A property name: an identifier or any reserved word. -/
def propertyName : Parse String := do
  let t ← current
  if t.kind == .identifier || t.kind.isKeyword then
    let _ ← advance
    return t.lexeme
  else expected "property name"

/-- One parameter of a function. -/
def parameter (rules : Rules) : Parse Param := do
  let start ← expect .identifier "parameter name"
  let default ← optional .assign (rules .expression)
  return ⟨← spanFrom start, start.word, default⟩

/-- The parameters of a function, in parentheses. -/
def parameters (rules : Rules) : Parse (List Param) := do
  let _ ← expect .leftParen "'('"
  let params ← separated .rightParen "','" (parameter rules)
  let _ ← expect .rightParen "')'"
  return params

/-- The arguments of a call, in parentheses. -/
def arguments (rules : Rules) : Parse (List Expr) := do
  let _ ← expect .leftParen "'('"
  let args ← separated .rightParen "','" (rules .expression)
  let _ ← expect .rightParen "')'"
  return args

/-- The names behind the first one of a reactive path. -/
def pathFrom : Nat → Parse (List String)
  | 0 => expected "property name"
  | bound + 1 => do
    if ← accept .dot then
      let name ← expect .identifier "property name"
      return name.word :: (← pathFrom bound)
    else return []

/-- A reactive reference: a dollar and a dotted path. -/
def reactive : Parse Expr := do
  let start ← expect .dollarSign "'$'"
  let root ← expect .identifier "identifier after '$'"
  let path ← pathFrom (← tokensLeft)
  return .reactive (← spanFrom start) root.word path

/-- What a lambda does: an arrow and an expression, or a colon and a block. -/
def lambdaBody (rules : Rules) : Parse Body := do
  if ← accept .arrow then return .expr (← rules .expression)
  if ← accept .colon then return .block (← outsideLoops (rules .block))
  expected "'->' or ':' after lambda parameters"

/-- A lambda: its parameters and what it does. -/
def lambda (rules : Rules) : Parse Expr := do
  let start ← expect .fnWord "'fn'"
  let params ← parameters rules
  let body ← lambdaBody rules
  return .lambda (← spanFrom start) params body

/-- The elements of a vector behind its first one. -/
def vectorRest (rules : Rules) : Nat → Parse (List Expr)
  | 0 => expected "expression"
  | bound + 1 => do
    if ← accept .comma then
      let e ← rules .expression
      return e :: (← vectorRest rules bound)
    else return []

/-- Parentheses: around nothing or around several expressions they make a vector. -/
def parenthesized (rules : Rules) : Parse Expr := do
  let start ← expect .leftParen "'('"
  if ← accept .rightParen then return .vector (← spanFrom start) []
  let first ← rules .expression
  if ← atKind .comma then
    -- one expression in parentheses is that expression; a comma makes a vector
    let rest ← vectorRest rules (← tokensLeft)
    let _ ← expect .rightParen "')'"
    return .vector (← spanFrom start) (first :: rest)
  let _ ← expect .rightParen "')'"
  return first

/-- A list literal. -/
def listLiteral (rules : Rules) : Parse Expr := do
  let start ← expect .leftBracket "'['"
  let elements ← separated .rightBracket "','" (rules .expression)
  let _ ← expect .rightBracket "']'"
  return .list (← spanFrom start) elements

/-- The key and the value of a map entry.  A bare name stands for itself under its own name. -/
def entryParts (rules : Rules) (start : Token) : Parse (EntryKey × Expr) := do
  if ← accept .identifier then
    if ← accept .colon then return (.written start.word, ← rules .expression)
    -- a bare name: key and value in one
    return (.written start.word, .name start.span start.word)
  if ← accept .string then
    let _ ← expect .colon "':'"
    return (.written start.word, ← rules .expression)
  if ← accept .leftBracket then
    let key ← rules .expression
    let _ ← expect .rightBracket "']'"
    let _ ← expect .colon "':'"
    return (.computed key, ← rules .expression)
  expected "key in map literal"

/-- What may stand behind an item between braces: line breaks, which mean nothing, and a comma. -/
def bracedSeparator : Parse Unit := do
  skipLayout
  if ← accept .comma then skipLayout

/-- Items between braces up to the closing one, which stays. -/
def bracedFrom {α : Type} (item : Parse α) : Nat → Parse (List α)
  | 0 => expected "'\x7d'"
  | bound + 1 => do
    if ← atKind .rightBrace then return []
    let a ← item
    bracedSeparator
    return a :: (← bracedFrom item bound)

/-- Items between braces: line breaks mean nothing there, and commas are optional. -/
def braced {α : Type} (item : Parse α) : Parse (List α) := do
  let first ← place
  let start ← expect .leftBrace "'\x7b'"
  skipLayout
  let items ← bracedFrom item (← tokensLeft)
  let last ← place
  let _ ← expect .rightBrace "'\x7d'"
  note (.braced first last (← spanFrom start))
  return items

/-- One entry of a map literal. -/
def mapEntry (rules : Rules) : Parse MapEntry := do
  let start ← current
  let (key, value) ← entryParts rules start
  return ⟨← spanFrom start, key, value⟩

/-- A map literal. -/
def mapLiteral (rules : Rules) : Parse Expr := do
  let start ← current
  let entries ← braced (mapEntry rules)
  return .map (← spanFrom start) entries

/-- A string token as an expression: one written with a hash is a colour. -/
def stringExpr (t : Token) : Expr :=
  if t.lexeme.startsWith "#" then .color t.span t.word else .string t.span t.word

/-- The number of a number token. -/
def numberOf (t : Token) : Number :=
  match t.value with
  | .number n => n
  | _ => .int 0

/-- An expression without operators. -/
def primary (rules : Rules) : Parse Expr := do
  let t ← current
  match t.kind with
  | .dollarSign => reactive
  | .fnWord => lambda rules
  | .number => do
    let _ ← advance
    return .number t.span (numberOf t)
  | .string => do
    let _ ← advance
    return stringExpr t
  | .boolean => do
    let _ ← advance
    return .boolean t.span (t.lexeme == "true")
  | .null => do
    let _ ← advance
    return .null t.span
  | .identifier => do
    let _ ← advance
    return .name t.span t.word
  | .leftParen => parenthesized rules
  | .leftBracket => listLiteral rules
  | .leftBrace => mapLiteral rules
  | _ => expected "expression"

/-- Member accesses, indexings and calls behind an expression. -/
def postfixFrom (rules : Rules) (start : Token) : Nat → Expr → Parse Expr
  | 0, _ => expected "expression"
  | bound + 1, e => do
    if ← accept .dot then
      let property ← propertyName
      postfixFrom rules start bound (.member (← spanFrom start) e property)
    else if ← accept .leftBracket then
      let key ← rules .expression
      let _ ← expect .rightBracket "']'"
      postfixFrom rules start bound (.index (← spanFrom start) e key)
    else if ← atKind .leftParen then
      let args ← arguments rules
      postfixFrom rules start bound (.call (← spanFrom start) e args)
    else return e

/-- An expression without operators, and what is applied to it. -/
def postfixed (rules : Rules) : Parse Expr := do
  let start ← current
  let e ← primary rules
  postfixFrom rules start (← tokensLeft) e

/-- A sign or a negation before an expression, or none. -/
def unary (rules : Rules) : Parse Expr := do
  let t ← current
  let signed (operator : UnaryOperator) : Parse Expr := do
    let _ ← advance
    let operand ← rules .unary
    return .unary (← spanFrom t) operator operand
  match t.kind with
  | .notWord => signed .not
  | .minus => signed .negate
  | _ => postfixed rules

/-- Products. -/
def product (rules : Rules) : Parse Expr :=
  chain [(.star, .times), (.slash, .divide), (.percent, .remainder)] (unary rules)

/-- Sums. -/
def sum (rules : Rules) : Parse Expr := chain [(.plus, .plus), (.minus, .minus)] (product rules)

/-- Comparisons. -/
def comparison (rules : Rules) : Parse Expr :=
  chain [(.less, .less), (.greater, .greater), (.lessEqual, .lessEqual),
    (.greaterEqual, .greaterEqual)] (sum rules)

/-- Equalities. -/
def equality (rules : Rules) : Parse Expr :=
  chain [(.equal, .equal), (.notEqual, .notEqual)] (comparison rules)

/-- Conjunctions. -/
def conjunction (rules : Rules) : Parse Expr := chain [(.andWord, .and)] (equality rules)

/-- Disjunctions. -/
def disjunction (rules : Rules) : Parse Expr := chain [(.orWord, .or)] (conjunction rules)

/-- An expression: a conditional, or a disjunction. -/
def expression (rules : Rules) : Parse Expr := do
  let start ← current
  if ← accept .ifWord then
    let test ← disjunction rules
    let _ ← expect .thenWord "'then'"
    -- only the part behind the last word may be a conditional without parentheses
    let consequent ← disjunction rules
    let _ ← expect .elseWord "'else'"
    let alternate ← rules .expression
    return .conditional (← spanFrom start) test consequent alternate
  else disjunction rules

end EventScript.Grammar
