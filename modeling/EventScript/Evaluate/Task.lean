import EventScript.World.Scope

/-! # The recursive tasks of a run

A `Task` names a piece of work that other work comes back to, and a `Runner` does every such piece.
The rules of evaluation are written against a given `Runner`, so that all of evaluation is one
step, and a run is that step repeated.
-/

namespace EventScript

/-- How a statement finished. -/
inductive Completion
  | normal
  | returned (v : Value)
  | broke
  | continued

/-- What is still to be visited, one item after the other.  A list is visited as it is at each
    moment; of a map the keys are visited, and it must not grow or shrink meanwhile. -/
inductive Visited
  | items (r : ListRef)
  | fixed (rest : List Value)
  | keys (r : MapRef) (size : Nat) (rest : List Value)

/-- What is done with the answers of a function about each item. -/
inductive Visit
  | collect | keep | find | findIndex | every | any
  deriving Repr, DecidableEq

/-- A piece of work that other work comes back to. -/
inductive Task
  /-- Evaluate an expression in a scope. -/
  | eval (e : Expr) (scope : ScopeRef)
  /-- Execute a statement in a scope. -/
  | exec (s : Stmt) (scope : ScopeRef)
  /-- Go on with a loop after a number of rounds. -/
  | whileLoop (span : Span) (test : Expr) (body : Block) (scope : ScopeRef) (rounds : Nat)
  /-- Call a function of the language. -/
  | call (f : FunctionRef) (args : List Value) (span : Option Span)
  /-- Call a native. -/
  | native (n : Native) (args : List Value)
  /-- Dispatch the events of the queue. -/
  | drain
  /-- Go on with visiting, from a place, with the results so far in reverse. -/
  | visit (v : Visit) (f : Value) (source : Visited) (place : Nat) (found : List Value)
  /-- Go on with counting, with the numbers so far. -/
  | count (i stop step : Value) (upward : Bool) (found : Array Value)

/-- What a piece of work gives. -/
@[reducible] def Task.Result : Task → Type
  | eval _ _ | call _ _ _ | native _ _ | visit _ _ _ _ _ => Value
  | exec _ _ | whileLoop _ _ _ _ _ => Completion
  | drain => Unit
  | count _ _ _ _ _ => Array Value

/-- The doing of every piece of work. -/
abbrev Runner := (t : Task) → Eval t.Result

end EventScript
