import EventScript.Proofs.Grammar.Shape

/-! # Printing expressions

An expression is printed as a list of marks, each of which says what a token in its place must be;
where the tokens stand in a source is left open.  There are parentheses where the precedence of the
operators demands them, and nowhere else.  The levels of precedence are, from loosest to tightest:

* 0   a conditional, and a lambda with an arrow, whose body reaches as far as it can
* 1   `or`
* 2   `and`
* 3   equality
* 4   comparison
* 5   sum
* 6   product
* 7   the signs and `not`
* 8   everything else

An expression with a block in it cannot be printed on one line, and there is no vector with exactly
one element; all others are `Printable`.
-/

namespace EventScript

/-- What a token of a printed expression must be. -/
inductive Mark
  /-- A sign or a reserved word. -/
  | sign (kind : TokenKind) (lexeme : String)
  | number (n : Number)
  | string (s : String)
  | color (s : String)
  | boolean (b : Bool)
  | null
  | identifier (s : String)
  /-- The name of a property, which can be a reserved word. -/
  | property (s : String)
  /-- A key of a map that is written out, as a name or as a string. -/
  | key (s : String)

namespace Mark

/-- A token is what a mark says. -/
def Fits : Mark → Token → Prop
  | sign k text, t => t.kind = k ∧ t.lexeme = text
  | number n, t => t.kind = .number ∧ t.value = .number n
  | string s, t => t.kind = .string ∧ t.value = .text s ∧ t.lexeme.startsWith "#" = false
  | color s, t => t.kind = .string ∧ t.value = .text s ∧ t.lexeme.startsWith "#" = true
  | boolean b, t => t.kind = .boolean ∧ t.value = .bool b ∧ t.lexeme = if b then "true" else "false"
  | null, t => t.kind = .null
  | identifier s, t => t.kind = .identifier ∧ t.value = .text s
  | property s, t => t.kind = .ofWord s ∧ t.lexeme = s
  | key s, t => (t.kind = .identifier ∨ t.kind = .string) ∧ t.value = .text s

/-- A token list is what a list of marks says. -/
def Spell (ms : List Mark) (ts : List Token) : Prop := List.Forall₂ Fits ms ts

/-- Several parts with a comma before each. -/
def afterCommas (parts : List (List Mark)) : List Mark := parts.flatMap (sign .comma "," :: ·)

/-- Several parts with commas between them. -/
def separated : List (List Mark) → List Mark
  | [] => []
  | part :: parts => part ++ afterCommas parts

/-- A part in parentheses, if it needs them. -/
def grouped (needed : Bool) (part : List Mark) : List Mark :=
  if needed then sign .leftParen "(" :: part ++ [sign .rightParen ")"] else part

end Mark

/-- The kind of the tokens that an operator is written as. -/
def BinaryOperator.kind : BinaryOperator → TokenKind
  | or => .orWord | and => .andWord | equal => .equal | notEqual => .notEqual | less => .less
  | greater => .greater | lessEqual => .lessEqual | greaterEqual => .greaterEqual | plus => .plus
  | minus => .minus | times => .star | divide => .slash | remainder => .percent

/-- The level of an operator. -/
def BinaryOperator.level : BinaryOperator → Nat
  | or => 1
  | and => 2
  | equal | notEqual => 3
  | less | greater | lessEqual | greaterEqual => 4
  | plus | minus => 5
  | times | divide | remainder => 6

/-- The kind of the tokens that an operator is written as. -/
def UnaryOperator.kind : UnaryOperator → TokenKind
  | not => .notWord | negate => .minus

namespace Expr

/-- The level of an expression. -/
def level : Expr → Nat
  | conditional _ _ _ _ | lambda _ _ _ => 0
  | binary _ operator _ _ => operator.level
  | unary _ _ _ => 7
  | _ => 8

/-- The expression is a reactive reference, which a dot behind it would make longer. -/
def isReactive : Expr → Bool
  | reactive _ _ _ => true
  | _ => false

end Expr

open Mark (sign separated grouped)

mutual

/-- The marks of an expression. -/
def Expr.marks : Expr → List Mark
  | .number _ n => [.number n]
  | .string _ s => [.string s]
  | .boolean _ b => [.boolean b]
  | .null _ => [.null]
  | .color _ s => [.color s]
  | .name _ s => [.identifier s]
  | .reactive _ root path =>
    sign .dollarSign "$" :: .identifier root :: path.flatMap fun s => [sign .dot ".", .identifier s]
  | .vector _ es => sign .leftParen "(" :: separated (marksOfExprs es) ++ [sign .rightParen ")"]
  | .list _ es => sign .leftBracket "[" :: separated (marksOfExprs es) ++ [sign .rightBracket "]"]
  | .map _ entries =>
    sign .leftBrace "\x7b" :: separated (marksOfEntries entries) ++ [sign .rightBrace "\x7d"]
  | .member _ object s =>
    grouped (object.level < 8 || object.isReactive) object.marks ++ [sign .dot ".", .property s]
  | .index _ object key =>
    grouped (object.level < 8) object.marks ++
      sign .leftBracket "[" :: key.marks ++ [sign .rightBracket "]"]
  | .call _ callee arguments =>
    grouped (callee.level < 8) callee.marks ++
      sign .leftParen "(" :: separated (marksOfExprs arguments) ++ [sign .rightParen ")"]
  | .binary _ operator left right =>
    grouped (left.level < operator.level) left.marks ++
      sign operator.kind operator.symbol :: grouped (right.level < operator.level + 1) right.marks
  | .unary _ operator operand =>
    sign operator.kind operator.symbol :: grouped (operand.level < 7) operand.marks
  | .conditional _ test yes no =>
    sign .ifWord "if" :: grouped (test.level < 1) test.marks ++
      sign .thenWord "then" :: grouped (yes.level < 1) yes.marks ++
      sign .elseWord "else" :: no.marks
  | .lambda _ params body =>
    sign .fnWord "fn" :: sign .leftParen "(" :: separated (marksOfParams params) ++
      sign .rightParen ")" :: body.marks

/-- The marks of expressions, one by one. -/
def marksOfExprs : List Expr → List (List Mark)
  | [] => []
  | e :: rest => e.marks :: marksOfExprs rest

/-- The marks of map entries, one by one. -/
def marksOfEntries : List MapEntry → List (List Mark)
  | [] => []
  | ⟨_, key, value⟩ :: rest => (key.marks ++ sign .colon ":" :: value.marks) :: marksOfEntries rest

/-- The marks of the key of a map entry. -/
def EntryKey.marks : EntryKey → List Mark
  | .written s => [.key s]
  | .computed e => sign .leftBracket "[" :: e.marks ++ [sign .rightBracket "]"]

/-- The marks of parameters, one by one. -/
def marksOfParams : List Param → List (List Mark)
  | [] => []
  | ⟨_, name, default⟩ :: rest => (.identifier name :: marksOfDefault default) :: marksOfParams rest

/-- The marks of the default of a parameter. -/
def marksOfDefault : Option Expr → List Mark
  | none => []
  | some e => sign .assign "=" :: e.marks

/-- The marks of the body of a lambda; a block has none. -/
def Body.marks : Body → List Mark
  | .expr e => sign .arrow "->" :: e.marks
  | .block _ => []

end

/-- The marks of a map entry. -/
def MapEntry.marks (e : MapEntry) : List Mark := e.key.marks ++ sign .colon ":" :: e.value.marks

/-- The marks of a parameter. -/
def Param.marks (p : Param) : List Mark := .identifier p.name :: marksOfDefault p.default

theorem marksOfExprs_eq (es : List Expr) : marksOfExprs es = es.map Expr.marks := by
  induction es with
  | nil => rfl
  | cons e es ih => rw [marksOfExprs, ih, List.map_cons]

theorem marksOfEntries_eq (entries : List MapEntry) :
    marksOfEntries entries = entries.map MapEntry.marks := by
  induction entries with
  | nil => rfl
  | cons e entries ih =>
    obtain ⟨span, key, value⟩ := e
    rw [marksOfEntries, ih, List.map_cons, MapEntry.marks]

theorem marksOfParams_eq (params : List Param) : marksOfParams params = params.map Param.marks := by
  induction params with
  | nil => rfl
  | cons p params ih =>
    obtain ⟨span, name, default⟩ := p
    rw [marksOfParams, ih, List.map_cons, Param.marks]

/-- A part of a tree can be printed: no block stands in it, and no vector with exactly one
    element. -/
def Node.Printable (x : Node) : Prop :=
  ∀ y, x.HasPart y → (∀ b, y ≠ .block b) ∧ ∀ span e, y ≠ .expr (.vector span [e])

theorem Node.Printable.child {x y : Node} {n : Nat} (h : x.Printable) (hy : (n, y) ∈ x.children) :
    y.Printable :=
  fun z hz => h z (.deeper hy hz)

theorem Node.Printable.of_children {x : Node} (hblock : ∀ b, x ≠ .block b)
    (hvector : ∀ span e, x ≠ .expr (.vector span [e]))
    (h : ∀ child ∈ x.children, child.2.Printable) : x.Printable := by
  intro y hy
  cases hy with
  | itself => exact ⟨hblock, hvector⟩
  | deeper hchild inside => exact h _ hchild y inside

/-- A token as a mark demands it; of the text of a string only the first character matters. -/
def Mark.token : Mark → Token
  | sign k text => ⟨k, .null, text, default⟩
  | number n => ⟨.number, .number n, n.literal, default⟩
  | string s => ⟨.string, .text s, "\"", default⟩
  | color s => ⟨.string, .text s, "#", default⟩
  | boolean b => ⟨.boolean, .bool b, if b then "true" else "false", default⟩
  | null => ⟨.null, .null, "null", default⟩
  | identifier s => ⟨.identifier, .text s, s, default⟩
  | property s => ⟨.ofWord s, .null, s, default⟩
  | key s => ⟨.string, .text s, "\"", default⟩

theorem Mark.fits_token (m : Mark) : m.Fits m.token := by
  have hquote : ("\"" : String).startsWith "#" = false := by decide +kernel
  have hhash : ("#" : String).startsWith "#" = true := by decide +kernel
  cases m with
  | string => exact ⟨rfl, rfl, hquote⟩
  | color => exact ⟨rfl, rfl, hhash⟩
  | key => exact ⟨.inr rfl, rfl⟩
  | boolean => exact ⟨rfl, rfl, rfl⟩
  | null => rfl
  | _ => exact ⟨rfl, rfl⟩

/-- Every list of marks can be written. -/
theorem Mark.spell_token (ms : List Mark) : Spell ms (ms.map token) := by
  induction ms with
  | nil => exact .nil
  | cons m ms ih => exact .cons m.fits_token ih

end EventScript
