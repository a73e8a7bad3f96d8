import EventScript.Source
import EventScript.Number

/-! # Programs as trees

The syntax tree of a program.  Every node carries the span of the source that it was read from.
The target of an assignment is a type of its own, so a tree cannot assign to anything else.
-/

namespace EventScript

/-- The operators with two operands. -/
inductive BinaryOperator
  | or | and | equal | notEqual | less | greater | lessEqual | greaterEqual
  | plus | minus | times | divide | remainder
  deriving Repr, DecidableEq

/-- The spelling of an operator. -/
def BinaryOperator.symbol : BinaryOperator → String
  | or => "or" | and => "and" | equal => "==" | notEqual => "!=" | less => "<" | greater => ">"
  | lessEqual => "<=" | greaterEqual => ">=" | plus => "+" | minus => "-" | times => "*"
  | divide => "/" | remainder => "%"

/-- The operators with one operand. -/
inductive UnaryOperator
  | not | negate
  deriving Repr, DecidableEq

/-- The spelling of an operator. -/
def UnaryOperator.symbol : UnaryOperator → String
  | not => "not" | negate => "-"

/-- The declared type of a schema field. -/
inductive TypeExpr where
  | simple (span : Span) (name : String)
  | list (span : Span) (element : TypeExpr)
  | map (span : Span) (key value : TypeExpr)
  | enumeration (span : Span) (values : List String)
  | vector (span : Span) (size : Option Nat)

/-- One name taken from another file. -/
structure ImportSpecifier where
  span : Span
  imported : String
  localName : String

/-- A reference to another file. -/
structure Import where
  span : Span
  source : String
  specifiers : Option (List ImportSpecifier)
  namespaceName : Option String

mutual

/-- An expression. -/
inductive Expr where
  | number (span : Span) (value : Number)
  | string (span : Span) (value : String)
  | boolean (span : Span) (value : Bool)
  | null (span : Span)
  | color (span : Span) (value : String)
  | name (span : Span) (name : String)
  | vector (span : Span) (elements : List Expr)
  | list (span : Span) (elements : List Expr)
  | map (span : Span) (entries : List MapEntry)
  | member (span : Span) (object : Expr) (property : String)
  | index (span : Span) (object key : Expr)
  | call (span : Span) (callee : Expr) (arguments : List Expr)
  | binary (span : Span) (operator : BinaryOperator) (left right : Expr)
  | unary (span : Span) (operator : UnaryOperator) (operand : Expr)
  | conditional (span : Span) (test consequent alternate : Expr)
  | lambda (span : Span) (params : List Param) (body : Body)
  | reactive (span : Span) (root : String) (path : List String)

/-- One entry of a map literal. -/
structure MapEntry where
  span : Span
  key : EntryKey
  value : Expr

/-- The key of a map entry: written out, or computed. -/
inductive EntryKey where
  | written (text : String)
  | computed (key : Expr)

/-- A parameter with an optional default. -/
structure Param where
  span : Span
  name : String
  default : Option Expr

/-- What a function does: give the value of an expression, or run a block. -/
inductive Body where
  | expr (e : Expr)
  | block (b : Block)

/-- An indented block of statements. -/
structure Block where
  span : Span
  statements : List Stmt

/-- A pattern of a match case. -/
inductive Pattern where
  | wildcard (span : Span)
  | name (span : Span) (name : String)
  | literal (span : Span) (value : Expr)
  | list (span : Span) (elements : List Pattern)
  | map (span : Span) (entries : List (String × Pattern))

/-- One case of a match statement. -/
structure MatchCase where
  span : Span
  pattern : Pattern
  guard : Option Expr
  body : Block

/-- What an assignment assigns to. -/
inductive Target where
  | name (span : Span) (name : String)
  | member (span : Span) (object : Expr) (property : String)
  | index (span : Span) (object key : Expr)
  | reactive (span : Span) (root : String) (path : List String)

/-- A named function or method. -/
structure FunctionDecl where
  span : Span
  name : String
  params : List Param
  body : Block

/-- A conditional statement. -/
structure IfStmt where
  span : Span
  test : Expr
  consequent : Block
  alternate : Alternate

/-- What a conditional statement does otherwise. -/
inductive Alternate where
  | nothing
  | elseBlock (b : Block)
  | elseIf (s : IfStmt)

/-- A declared field of a schema; whether it stood in a section of the schema body is only kept to
    tell how far in it was written. -/
structure SchemaField where
  span : Span
  name : String
  type : TypeExpr
  required : Bool
  inSection : Bool
  default : Option Expr

/-- A statement. -/
inductive Stmt where
  | letName (span : Span) (name : String) (value : Expr)
  | assign (span : Span) (target : Target) (value : Expr)
  | function (declaration : FunctionDecl)
  | ifThen (statement : IfStmt)
  | forIn (span : Span) (item : String) (iterable : Expr) (body : Block)
  | whileLoop (span : Span) (test : Expr) (body : Block)
  | matchOn (span : Span) (discriminant : Expr) (cases : List MatchCase)
  | returnValue (span : Span) (argument : Option Expr)
  | breakLoop (span : Span)
  | continueLoop (span : Span)
  | on (span : Span) (event : Expr) (condition : Option Expr) (body : Block)
  | emit (span : Span) (event : Expr) (data : Option Expr)
  | importFile (declaration : Import)
  | schema (span : Span) (name : String) (parent : Option String) (fields : List SchemaField)
      (methods : List FunctionDecl)
  | instanceOf (span : Span) (schema name : String) (fields : List (String × Expr))
  | expression (span : Span) (expression : Expr)

end

/-- A parsed source file: its imports, kept apart from the statements that are executed. -/
structure Program where
  span : Span
  imports : List Import
  body : List Stmt

namespace Expr

/-- The span of an expression. -/
def span : Expr → Span
  | number s _ | string s _ | boolean s _ | null s | color s _ | name s _ | vector s _ | list s _
  | map s _ | member s _ _ | index s _ _ | call s _ _ | binary s _ _ _ | unary s _ _
  | conditional s _ _ _ | lambda s _ _ | reactive s _ _ => s

/-- The name of the form of an expression. -/
def form : Expr → String
  | number _ _ => "NumberLiteral"
  | string _ _ => "StringLiteral"
  | boolean _ _ => "BooleanLiteral"
  | null _ => "NullLiteral"
  | color _ _ => "ColorLiteral"
  | name _ _ => "Identifier"
  | vector _ _ => "VectorLiteral"
  | list _ _ => "ListLiteral"
  | map _ _ => "MapLiteral"
  | member _ _ _ | index _ _ _ => "MemberExpression"
  | call _ _ _ => "CallExpression"
  | binary _ _ _ _ => "BinaryExpression"
  | unary _ _ _ => "UnaryExpression"
  | conditional _ _ _ _ => "ConditionalExpression"
  | lambda _ _ _ => "LambdaExpression"
  | reactive _ _ _ => "ReactiveRef"

/-- A call target as diagnostics name it: a dotted path as far as it is one, else its form. -/
def calleeName : Expr → String
  | name _ n => n
  | member _ object property => object.calleeName ++ "." ++ property
  | e => e.form

/-- The expression as the target of an assignment, if it can be one. -/
def target? : Expr → Option Target
  | name s n => some (.name s n)
  | member s object property => some (.member s object property)
  | index s object key => some (.index s object key)
  | reactive s root path => some (.reactive s root path)
  | _ => none

end Expr

end EventScript
