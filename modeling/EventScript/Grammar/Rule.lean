import EventScript.Grammar.Cursor

/-! # The recursive rules of the grammar

A `Goal` names a rule that other rules come back to; `Rules` gives the reading of every goal.  A
rule of the grammar is written against a given `Rules`, so that the whole grammar is one step, and
reading a program is that step repeated.
-/

namespace EventScript

/-- The rules that other rules come back to. -/
inductive Goal
  | expression | unary | statement | ifStatement | block | pattern | type
  deriving Repr, DecidableEq

/-- What a rule reads. -/
@[reducible] def Goal.Result : Goal → Type
  | expression | unary => Expr
  | statement => Stmt
  | ifStatement => IfStmt
  | block => Block
  | pattern => Pattern
  | type => TypeExpr

/-- A reading of every rule. -/
abbrev Rules := (g : Goal) → Parse g.Result

end EventScript
