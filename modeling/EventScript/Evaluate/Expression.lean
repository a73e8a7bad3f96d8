import EventScript.Evaluate.Member
import EventScript.Evaluate.Operator
import EventScript.Evaluate.Task

/-! # Evaluating expressions

Operands, arguments and elements are evaluated from left to right.  A call of a native hands over
functions of the language as callbacks, and reports a refusal under the name of the call target.
-/

namespace EventScript

namespace Evaluate

open Eval

/-- The values of expressions, from left to right. -/
def evalAll (run : Runner) (scope : ScopeRef) : List Expr → Eval (List Value)
  | [] => return []
  | e :: rest => do
    let v ← run (.eval e scope)
    return v :: (← evalAll run scope rest)

/-- The key of a map entry. -/
def entryKey (run : Runner) (scope : ScopeRef) (span : Span) : EntryKey → Eval String
  | .written key => return key
  | .computed e => do
    match ← run (.eval e scope) with
    | .text key => return key
    | _ => problem .mapKeyKind (some span)

/-- The entries of a map literal, onto those before them. -/
def evalEntries (run : Runner) (scope : ScopeRef) (t : Table Key Value) :
    List MapEntry → Eval (Table Key Value)
  | [] => return t
  | ⟨span, key, value⟩ :: rest => do
    let key ← entryKey run scope span key
    let v ← run (.eval value scope)
    evalEntries run scope (t.put (.text key) v) rest

/-- The key in brackets behind an object. -/
def indexKey (run : Runner) (scope : ScopeRef) (key : Expr) : Eval Value := do
  match ← run (.eval key scope) with
  | .text name => return .text name
  | .number n => return .number n
  | .nan mark => return .nan mark
  | _ => problem .propertyKeyKind (some key.span)

/-- A function of the language as natives call it; other values stay as they are. -/
def toNative (v : Value) : Eval Value := do
  match v with
  | .function r => newNative (.callback r (← read fun s => s.function r).name)
  | v => return v

/-- Call a native and report a refusal under a name. -/
def callNative (run : Runner) (n : Native) (args : List Value) (name : String)
    (span : Option Span) : Eval Value :=
  reporting name span (run (.native n args))

/-- Call the value of a call target. -/
def callValue (run : Runner) (callee : Expr) (f : Value) (args : List Value) (span : Span) :
    Eval Value := do
  match f with
  | .function r => run (.call r args (some span))
  | .native n => callNative run n (← args.mapM toNative) callee.calleeName (some span)
  | _ => problem (.notCallable callee.form) (some span)

/-- The value of an expression in a scope. -/
def expression (run : Runner) (scope : ScopeRef) : Expr → Eval Value
  | .number _ n => return .number n
  | .string _ s | .color _ s => return .text s
  | .boolean _ b => return .bool b
  | .null _ => return .null
  | .name span name => lookup name scope (some span)
  | .vector _ es | .list _ es => do newList (← evalAll run scope es).toArray
  | .map _ entries => do return .map (← newMap (← evalEntries run scope .empty entries))
  | .member span object property => do
    match ← run (.eval object scope) with
    | .null => problem .nullAccess (some span)
    | obj => access obj (.text property) span
  | .index span object key => do
    match ← run (.eval object scope) with
    | .null => problem .nullAccess (some span)
    | obj => do access obj (← indexKey run scope key) span
  | .call span callee arguments => do
    let f ← run (.eval callee scope)
    let args ← evalAll run scope arguments
    callValue run callee f args span
  | .binary _ .and left right => do
    let v ← run (.eval left scope)
    if ← truth v then return .bool (← truth (← run (.eval right scope))) else return .bool false
  | .binary _ .or left right => do
    let v ← run (.eval left scope)
    if ← truth v then return .bool true else return .bool (← truth (← run (.eval right scope)))
  | .binary span operator left right => do
    let v ← run (.eval left scope)
    let w ← run (.eval right scope)
    binary operator v w span
  | .unary span operator operand => do unary operator (← run (.eval operand scope)) span
  | .conditional _ test consequent alternate => do
    if ← truth (← run (.eval test scope)) then run (.eval consequent scope)
    else run (.eval alternate scope)
  | .lambda _ params body => do return .function (← newFunction ⟨params, body, scope, none⟩)
  | .reactive _ root path => read fun s => reactive s root path

end Evaluate

end EventScript
