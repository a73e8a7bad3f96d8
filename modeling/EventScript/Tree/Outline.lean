import EventScript.Token
import EventScript.Tree

/-! # The outline of a program

A uniform view of syntax trees: a node has a name, a span and named fields in a fixed order.  The
printed outline and every other listing of a tree are made from this view.
-/

namespace EventScript

/-- A syntax tree seen as nodes with named fields. -/
inductive Outline where
  /-- A node of the tree. -/
  | node (name : String) (span : Span) (fields : List (String × Outline))
  /-- A list of parts. -/
  | list (items : List Outline)
  /-- Parts under keys. -/
  | keyed (entries : List (String × Outline))
  /-- A key and the part that belongs to it. -/
  | pair (key : String) (value : Outline)
  /-- A plain value. -/
  | leaf (value : Literal)

namespace Outline

/-- A text. -/
def text (s : String) : Outline := leaf (.text s)

/-- A truth value. -/
def flag (b : Bool) : Outline := leaf (.bool b)

/-- A part that is not there. -/
def absent : Outline := leaf .null

/-- A text that may be missing. -/
def text? (s : Option String) : Outline := s.elim absent text

/-- A type. -/
def ofType : TypeExpr → Outline
  | .simple s name => node "SimpleType" s [("name", text name)]
  | .list s element => node "ListType" s [("element", ofType element)]
  | .map s key value => node "MapType" s [("key", ofType key), ("value", ofType value)]
  | .enumeration s values => node "EnumType" s [("values", list (values.map text))]
  | .vector s size =>
    node "VecType" s [("size", size.elim absent fun n => leaf (.number (.int n)))]

/-- A reference to another file. -/
def ofImport (i : Import) : Outline :=
  node "ImportStatement" i.span
    [("source", text i.source),
     ("specifiers", i.specifiers.elim absent fun specifiers =>
       list (specifiers.map fun s =>
         node "ImportSpecifier" s.span
           [("imported", text s.imported), ("local", text s.localName)])),
     ("namespace", text? i.namespaceName)]

mutual

/-- An expression. -/
def ofExpr : Expr → Outline
  | .number s value => node "NumberLiteral" s [("value", leaf (.number value))]
  | .string s value => node "StringLiteral" s [("value", text value)]
  | .boolean s value => node "BooleanLiteral" s [("value", flag value)]
  | .null s => node "NullLiteral" s []
  | .color s value => node "ColorLiteral" s [("value", text value)]
  | .name s name => node "Identifier" s [("name", text name)]
  | .vector s elements => node "VectorLiteral" s [("elements", list (ofExprs elements))]
  | .list s elements => node "ListLiteral" s [("elements", list (ofExprs elements))]
  | .map s entries => node "MapLiteral" s [("entries", list (ofEntries entries))]
  | .member s object property =>
    node "MemberExpression" s
      [("object", ofExpr object), ("property", text property), ("computed", flag false)]
  | .index s object key =>
    node "MemberExpression" s
      [("object", ofExpr object), ("property", ofExpr key), ("computed", flag true)]
  | .call s callee arguments =>
    node "CallExpression" s [("callee", ofExpr callee), ("arguments", list (ofExprs arguments))]
  | .binary s operator left right =>
    node "BinaryExpression" s
      [("operator", text operator.symbol), ("left", ofExpr left), ("right", ofExpr right)]
  | .unary s operator operand =>
    node "UnaryExpression" s [("operator", text operator.symbol), ("operand", ofExpr operand)]
  | .conditional s test consequent alternate =>
    node "ConditionalExpression" s
      [("test", ofExpr test), ("consequent", ofExpr consequent), ("alternate", ofExpr alternate)]
  | .lambda s params body =>
    node "LambdaExpression" s [("params", list (ofParams params)), ("body", ofBody body)]
  | .reactive s root path =>
    node "ReactiveRef" s [("path", list (text root :: path.map text))]

/-- Expressions in order. -/
def ofExprs : List Expr → List Outline
  | [] => []
  | e :: rest => ofExpr e :: ofExprs rest

/-- An expression that may be missing. -/
def ofExpr? : Option Expr → Outline
  | none => absent
  | some e => ofExpr e

/-- Map entries in order. -/
def ofEntries : List MapEntry → List Outline
  | [] => []
  | ⟨s, key, value⟩ :: rest =>
    node "MapEntry" s [("key", ofKey key), ("value", ofExpr value)] :: ofEntries rest

/-- The key of a map entry. -/
def ofKey : EntryKey → Outline
  | .written key => text key
  | .computed key => ofExpr key

/-- Parameters in order. -/
def ofParams : List Param → List Outline
  | [] => []
  | ⟨s, name, default⟩ :: rest =>
    node "Parameter" s [("name", text name), ("default", ofExpr? default)] :: ofParams rest

/-- The body of a lambda. -/
def ofBody : Body → Outline
  | .expr e => ofExpr e
  | .block b => ofBlock b

/-- A block. -/
def ofBlock : Block → Outline
  | ⟨s, statements⟩ => node "Block" s [("statements", list (ofStmts statements))]

/-- A pattern. -/
def ofPattern : Pattern → Outline
  | .wildcard s => node "WildcardPattern" s []
  | .name s name => node "IdentifierPattern" s [("name", text name)]
  | .literal s value => node "LiteralPattern" s [("value", ofExpr value)]
  | .list s elements => node "ListPattern" s [("elements", list (ofPatterns elements))]
  | .map s entries => node "MapPattern" s [("entries", list (ofPatternEntries entries))]

/-- Patterns in order. -/
def ofPatterns : List Pattern → List Outline
  | [] => []
  | p :: rest => ofPattern p :: ofPatterns rest

/-- The entries of a map pattern in order. -/
def ofPatternEntries : List (String × Pattern) → List Outline
  | [] => []
  | (key, p) :: rest => pair key (ofPattern p) :: ofPatternEntries rest

/-- Match cases in order. -/
def ofCases : List MatchCase → List Outline
  | [] => []
  | ⟨s, pattern, guard, body⟩ :: rest =>
    node "MatchCase" s
      [("pattern", ofPattern pattern), ("guard", ofExpr? guard), ("body", ofBlock body)] ::
      ofCases rest

/-- The target of an assignment. -/
def ofTarget : Target → Outline
  | .name s name => node "Identifier" s [("name", text name)]
  | .member s object property =>
    node "MemberExpression" s
      [("object", ofExpr object), ("property", text property), ("computed", flag false)]
  | .index s object key =>
    node "MemberExpression" s
      [("object", ofExpr object), ("property", ofExpr key), ("computed", flag true)]
  | .reactive s root path =>
    node "ReactiveRef" s [("path", list (text root :: path.map text))]

/-- A named function or method. -/
def ofFunction : FunctionDecl → Outline
  | ⟨s, name, params, body⟩ =>
    node "FunctionDeclaration" s
      [("name", text name), ("params", list (ofParams params)), ("body", ofBlock body)]

/-- Functions in order. -/
def ofFunctions : List FunctionDecl → List Outline
  | [] => []
  | f :: rest => ofFunction f :: ofFunctions rest

/-- A conditional statement. -/
def ofIf : IfStmt → Outline
  | ⟨s, test, consequent, alternate⟩ =>
    node "IfStatement" s
      [("test", ofExpr test), ("consequent", ofBlock consequent),
       ("alternate", ofAlternate alternate)]

/-- What a conditional statement does otherwise. -/
def ofAlternate : Alternate → Outline
  | .nothing => absent
  | .elseBlock b => ofBlock b
  | .elseIf s => ofIf s

/-- The declared fields of a schema in order. -/
def ofSchemaFields : List SchemaField → List Outline
  | [] => []
  | ⟨s, name, type, required, _, default⟩ :: rest =>
    node "SchemaField" s
      [("name", text name), ("type", ofType type), ("required", flag required),
       ("default", ofExpr? default)] :: ofSchemaFields rest

/-- The given fields of an instance in order. -/
def ofFields : List (String × Expr) → List (String × Outline)
  | [] => []
  | (name, value) :: rest => (name, ofExpr value) :: ofFields rest

/-- A statement. -/
def ofStmt : Stmt → Outline
  | .letName s name value => node "LetStatement" s [("name", text name), ("value", ofExpr value)]
  | .assign s target value =>
    node "SetStatement" s [("target", ofTarget target), ("value", ofExpr value)]
  | .function declaration => ofFunction declaration
  | .ifThen statement => ofIf statement
  | .forIn s item iterable body =>
    node "ForStatement" s
      [("variable", text item), ("iterable", ofExpr iterable), ("body", ofBlock body)]
  | .whileLoop s test body =>
    node "WhileStatement" s [("test", ofExpr test), ("body", ofBlock body)]
  | .matchOn s discriminant cases =>
    node "MatchStatement" s
      [("discriminant", ofExpr discriminant), ("cases", list (ofCases cases))]
  | .returnValue s argument => node "ReturnStatement" s [("argument", ofExpr? argument)]
  | .breakLoop s => node "BreakStatement" s []
  | .continueLoop s => node "ContinueStatement" s []
  | .on s event condition body =>
    node "OnStatement" s
      [("event", ofExpr event), ("condition", ofExpr? condition), ("body", ofBlock body)]
  | .emit s event data => node "EmitStatement" s [("event", ofExpr event), ("data", ofExpr? data)]
  | .importFile declaration => ofImport declaration
  | .schema s name parent fields methods =>
    node "SchemaDeclaration" s
      [("name", text name), ("extends", text? parent), ("fields", list (ofSchemaFields fields)),
       ("methods", list (ofFunctions methods))]
  | .instanceOf s schema name fields =>
    node "InstanceDeclaration" s
      [("schema", text schema), ("name", text name), ("fields", keyed (ofFields fields))]
  | .expression s e => node "ExpressionStatement" s [("expression", ofExpr e)]

/-- Statements in order. -/
def ofStmts : List Stmt → List Outline
  | [] => []
  | s :: rest => ofStmt s :: ofStmts rest

end

/-- A whole program. -/
def ofProgram (p : Program) : Outline :=
  node "Program" p.span
    [("imports", list (p.imports.map ofImport)), ("body", list (ofStmts p.body))]

/-- A line at a depth of indentation. -/
def lineAt (depth : Nat) (s : String) : String := "".pushn ' ' (2 * depth) ++ s

mutual

/-- The lines of a node at a depth; what is no node has no lines of its own. -/
def linesAt (depth : Nat) : Outline → List String
  | node name _ fields => lineAt depth name :: fieldLines depth fields
  | _ => []

/-- The lines of the fields of a node. -/
def fieldLines (depth : Nat) : List (String × Outline) → List String
  | [] => []
  | (name, part) :: rest => partLines depth name part ++ fieldLines depth rest

/-- The lines of one field of a node. -/
def partLines (depth : Nat) (name : String) : Outline → List String
  | node form _ fields =>
    lineAt (depth + 1) (name ++ ":") :: lineAt (depth + 2) form :: fieldLines (depth + 2) fields
  | keyed entries =>
    lineAt (depth + 1) (name ++ ": \x7b") :: entryLines depth entries ++
      [lineAt (depth + 1) "\x7d"]
  | list items =>
    lineAt (depth + 1) (name ++ ": [") :: itemLines depth items ++ [lineAt (depth + 1) "]"]
  | pair key value =>
    lineAt (depth + 1) (name ++ ": " ++ Text.quoted key) :: linesAt (depth + 2) value
  | leaf value => [lineAt (depth + 1) (name ++ ": " ++ value.outline)]

/-- The lines of parts under keys. -/
def entryLines (depth : Nat) : List (String × Outline) → List String
  | [] => []
  | (key, part) :: rest =>
    lineAt (depth + 2) (key ++ ":") :: linesAt (depth + 3) part ++ entryLines depth rest

/-- The lines of the parts of a list. -/
def itemLines (depth : Nat) : List Outline → List String
  | [] => []
  | node form _ fields :: rest =>
    lineAt (depth + 2) form :: fieldLines (depth + 2) fields ++ itemLines depth rest
  | pair key value :: rest =>
    lineAt (depth + 2) (Text.quoted key ++ ":") :: linesAt (depth + 3) value ++
      itemLines depth rest
  | leaf value :: rest => lineAt (depth + 2) value.outline :: itemLines depth rest
  | list _ :: rest => itemLines depth rest
  | keyed _ :: rest => itemLines depth rest

end

/-- The printed outline, one line to a node or field. -/
def print (o : Outline) : String :=
  String.join ((o.linesAt 0).map (· ++ "\n"))

end Outline

end EventScript
