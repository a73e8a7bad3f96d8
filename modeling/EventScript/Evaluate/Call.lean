import EventScript.Evaluate.Event

/-! # Calling functions

A call of a function of the language is refused when too many are in progress.  Missing arguments
take their defaults, which are evaluated where the function was made, or null; surplus arguments
are ignored.
-/

namespace EventScript

namespace Evaluate

open Eval

/-- Bind the parameters of a function. -/
def bindParams (run : Runner) (closure scope : ScopeRef) : List Param → List Value → Eval Unit
  | [], _ => return
  | p :: ps, v :: vs => do
    define scope p.name v
    bindParams run closure scope ps vs
  | p :: ps, [] => do
    match p.default with
    -- a default does not see the other parameters
    | some e => define scope p.name (← run (.eval e closure))
    | none => define scope p.name .null
    bindParams run closure scope ps []

/-- Run the body of a function on arguments. -/
def invoke (run : Runner) (f : Closure) (args : List Value) : Eval Value := do
  let scope ← childScope f.scope
  bindParams run f.scope scope f.params args
  match f.body with
  | .expr e => run (.eval e scope)
  | .block b =>
    match ← block run b scope with
    | .returned v => return v
    | _ => return .null

/-- Call a function of the language. -/
def callFunction (run : Runner) (r : FunctionRef) (args : List Value) (span : Option Span) :
    Eval Value := do
  let w ← get
  let limit := w.settings.maxCallDepth
  if w.callDepth ≥ limit then problem (.callDepth limit) span
  else
    modify fun w => { w with callDepth := w.callDepth + 1 }
    let f ← read fun s => s.function r
    ensuring (invoke run f args) fun w => { w with callDepth := w.callDepth - 1 }

end Evaluate

end EventScript
