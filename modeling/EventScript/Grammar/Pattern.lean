import EventScript.Grammar.Expression
import EventScript.Token.Lexeme

/-! # Patterns and types

The patterns of match cases, and the types that schema fields are declared with.
-/

namespace EventScript.Grammar

open Parse

/-- One entry of a map pattern.  A bare key binds the value under its own name. -/
def mapPatternEntry (rules : Rules) : Parse (String × Pattern) := do
  let t ← current
  if ← atAny [.identifier, .string] then
    let _ ← advance
    if ← accept .colon then return (t.word, ← rules .pattern)
    return (t.word, .name t.span t.word)
  else expected "key in map pattern"

/-- A pattern. -/
def pattern (rules : Rules) : Parse Pattern := do
  let start ← current
  if start.kind == .identifier then
    let _ ← advance
    return if start.word == "_" then .wildcard start.span else .name start.span start.word
  if ← accept .leftBracket then
    let elements ← separated .rightBracket "',' between patterns" (rules .pattern)
    let _ ← expect .rightBracket "']'"
    return .list (← spanFrom start) elements
  if ← atKind .leftBrace then
    let entries ← braced (mapPatternEntry rules)
    return .map (← spanFrom start) entries
  let value ← primary rules
  return .literal (← spanFrom start) value

/-- The size in the name of a vector type; a name without a positive number has none. -/
def vectorSize? (name : String) : Option Nat :=
  let digits := name.toList.drop 3
  if digits.isEmpty || !digits.all Char.isDigit then none
  else
    let n := Lexeme.digitsValue digits
    if n = 0 then none else some n

/-- One value of an enumeration type. -/
def enumerationValue : Parse String := return (← expect .string "enum value").word

/-- The element type of a list type whose name was read. -/
def listType (rules : Rules) (start : Token) : Parse TypeExpr := do
  let _ ← expect .less "'<'"
  let element ← rules .type
  let _ ← expect .greater "'>'"
  return .list (← spanFrom start) element

/-- The key type and the value type of a map type whose name was read. -/
def mapType (rules : Rules) (start : Token) : Parse TypeExpr := do
  let _ ← expect .less "'<'"
  let key ← rules .type
  let _ ← expect .comma "','"
  let value ← rules .type
  let _ ← expect .greater "'>'"
  return .map (← spanFrom start) key value

/-- The values of an enumeration type whose name was read. -/
def enumerationType (start : Token) : Parse TypeExpr := do
  let _ ← expect .leftParen "'('"
  let values ← separated .rightParen "','" enumerationValue
  let _ ← expect .rightParen "')'"
  return .enumeration (← spanFrom start) values

/-- A type that is only a name. -/
def namedType (start : Token) : TypeExpr :=
  if start.word.startsWith "vec" then .vector start.span (vectorSize? start.word)
  else .simple start.span start.word

/-- A type. -/
def type (rules : Rules) : Parse TypeExpr := do
  let start ← expect .identifier "type name"
  -- the three names are types with parts only where the parts follow
  match start.word, ← kind with
  | "list", .less => listType rules start
  | "map", .less => mapType rules start
  | "enum", .leftParen => enumerationType start
  | _, _ => return namedType start

end EventScript.Grammar
