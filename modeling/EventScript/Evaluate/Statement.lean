import EventScript.Evaluate.Event
import EventScript.Evaluate.Pattern

/-! # Executing statements

Bodies run in scopes of their own.  A loop takes a `break` or `continue` of its body for itself and
hands on a `return`.
-/

namespace EventScript

namespace Evaluate

open Eval

/-- Assign to a target. -/
def assignTo (run : Runner) (scope : ScopeRef) (v : Value) : Target → Eval Unit
  | .name _ name => assign scope name v
  | .member span object property => do
    match ← run (.eval object scope) with
    | .null => problem .nullAssignment (some span)
    | obj => putMember obj (.text property) v span
  | .index span object key => do
    match ← run (.eval object scope) with
    | .null => problem .nullAssignment (some span)
    | obj => do putMember obj (← indexKey run scope key) v span
  | .reactive span root path => putReactive root path v span

/-- Refuse one more round of a loop that has made as many as it may. -/
def checkRounds (rounds : Nat) (span : Span) : Eval Unit := do
  match (← get).settings.maxLoopIterations with
  | some limit => if rounds > limit then problem (.loopLimit limit) (some span)
  | none => return

/-- A loop over items, of which a number were done. -/
def forEach (run : Runner) (span : Span) (item : String) (body : Block) (scope : ScopeRef)
    (rounds : Nat) : List Value → Eval Completion
  | [] => return .normal
  | v :: rest => do
    checkRounds (rounds + 1) span
    let inner ← childScope scope
    define inner item v
    match ← block run body inner with
    | .broke => return .normal
    | .returned v => return .returned v
    | _ => forEach run span item body scope (rounds + 1) rest

/-- A loop with a condition, of which a number of rounds were done. -/
def whileLoop (run : Runner) (span : Span) (test : Expr) (body : Block) (scope : ScopeRef)
    (rounds : Nat) : Eval Completion := do
  if ← truth (← run (.eval test scope)) then
    -- the limit is met only by a round that would start: the condition comes first
    checkRounds (rounds + 1) span
    match ← block run body (← childScope scope) with
    | .broke => return .normal
    | .returned v => return .returned v
    | _ => run (.whileLoop span test body scope (rounds + 1))
  else return .normal

/-- Whether the guard of a case holds. -/
def caseGuardHolds (run : Runner) (scope : ScopeRef) : Option Expr → Eval Bool
  | none => return true
  | some e => do truth (← run (.eval e scope))

/-- Run the first case that fits a value. -/
def matchCases (run : Runner) (scope : ScopeRef) (v : Value) : List MatchCase → Eval Completion
  | [] => return .normal
  | c :: rest => do
    -- every case has a scope of its own, also one that does not fit
    let inner ← childScope scope
    if ← fits run inner c.pattern v then
      if ← caseGuardHolds run inner c.guard then block run c.body inner
      else matchCases run scope v rest
    else matchCases run scope v rest

/-- The name of an event. -/
def eventName (run : Runner) (scope : ScopeRef) (e : Expr) : Eval String := do
  match ← run (.eval e scope) with
  | .text name => return name
  | _ => problem .eventNameNotString (some e.span)

/-- A file name that declarations are recorded under. -/
def recordedFile? : Option String → Option String
  | some "" => none
  | file => file

/-- The world with one more handler, recorded for the file that is being executed. -/
def withHandler (event : String) (condition : Option Expr) (body : Block) (scope : ScopeRef)
    (w : World) : World :=
  let h : Handler := ⟨w.nextSerial, event, condition, body, scope, w.currentFile⟩
  { w with
    nextSerial := w.nextSerial + 1
    ledger := .registered h :: w.ledger
    handlers := w.handlers.pushTo event h
    handlersByFile := match recordedFile? w.currentFile with
      | some file => w.handlersByFile.pushTo file h
      | none => w.handlersByFile }

/-- The world with an instance recorded for the file that is being executed, under the name that it
    is bound to in a scope. -/
def withInstance (scope : ScopeRef) (name : String) (r : InstanceRef) (w : World) : World :=
  match recordedFile? w.currentFile with
  | some file => { w with
      instancesByFile := w.instancesByFile.pushTo file name
      declarations := .declared file scope name r :: w.declarations }
  | none => w

/-- The methods of a schema, which close over the scope of its declaration. -/
def declareMethods (scope : ScopeRef) (t : Table String FunctionRef) :
    List FunctionDecl → Eval (Table String FunctionRef)
  | [] => return t
  | m :: rest => do
    let f ← newFunction ⟨m.params, .block m.body, scope, some m.name⟩
    declareMethods scope (t.put m.name f) rest

/-- Declare a schema. -/
def declareSchema (scope : ScopeRef) (name : String) (parent : Option String)
    (fields : List SchemaField) (methods : List FunctionDecl) : Eval Unit := do
  let methods ← declareMethods scope .empty methods
  let r ← newSchema ⟨name, parent, fields, methods⟩
  modify fun w => { w with schemas := w.schemas.put name r }
  define scope name (.schema r)

/-- The defaults of the fields of a schema that have one. -/
def defaults (run : Runner) (scope : ScopeRef) (t : Table String Value) :
    List SchemaField → Eval (Table String Value)
  | [] => return t
  | f :: rest => do
    match f.default with
    | none => defaults run scope t rest
    | some e => do
      let v ← run (.eval e scope)
      defaults run scope (t.put f.name v) rest

/-- The given fields of an instance. -/
def givenFields (run : Runner) (scope : ScopeRef) (t : Table String Value) :
    List (String × Expr) → Eval (Table String Value)
  | [] => return t
  | (name, e) :: rest => do
    let v ← run (.eval e scope)
    givenFields run scope (t.put name v) rest

/-- Bind the methods of a schema to an instance: each closes over a scope with `self`. -/
def bindMethods (r : InstanceRef) : List (String × FunctionRef) → Eval Unit
  | [] => return
  | (name, f) :: rest => do
    let method ← read fun s => s.function f
    let scope ← newScope (some method.scope) (Table.empty.put "self" (.inst r))
    let bound ← newFunction { method with scope := scope }
    modifyInstance r fun i => { i with data := i.data.put name (.function bound) }
    bindMethods r rest

/-- Make an instance of a schema: the defaults, then the given fields, then the methods. -/
def declareInstance (run : Runner) (scope : ScopeRef) (span : Span) (schema name : String)
    (fields : List (String × Expr)) : Eval Unit := do
  match (← get).schemas.get? schema with
  | none => problem (.unknownSchema schema) (some span)
  | some r =>
    let declared ← read fun s => s.schema r
    let data ← defaults run scope .empty declared.fields
    let data ← givenFields run scope data fields
    match declared.fields.find? fun f => f.required && !data.contains f.name with
    | some f => problem (.missingField f.name schema name) (some span)
    | none =>
      -- the name is bound only once the instance is complete
      let i ← newInstance ⟨schema, data, [], []⟩
      bindMethods i declared.methods.entries
      define scope name (.inst i)
      modify (withInstance scope name i)

/-- Execute a statement in a scope. -/
def statement (run : Runner) (scope : ScopeRef) : Stmt → Eval Completion
  | .letName _ name e => do
    define scope name (← run (.eval e scope))
    return .normal
  | .assign _ target e => do
    -- the value comes before everything in the target
    let v ← run (.eval e scope)
    assignTo run scope v target
    return .normal
  | .function f => do
    let r ← newFunction ⟨f.params, .block f.body, scope, some f.name⟩
    define scope f.name (.function r)
    return .normal
  | .ifThen s => do
    if ← truth (← run (.eval s.test scope)) then block run s.consequent (← childScope scope)
    else
      match s.alternate with
      | .nothing => return .normal
      | .elseBlock b => do block run b (← childScope scope)
      | .elseIf s => run (.exec (.ifThen s) scope)
  | .forIn span item iterable body => do
    match ← run (.eval iterable scope) with
    | .list r => do forEach run span item body scope 0 (← read fun s => s.list r).toList
    | _ => problem .notIterable (some iterable.span)
  | .whileLoop span test body => run (.whileLoop span test body scope 0)
  | .matchOn _ discriminant cases => do
    matchCases run scope (← run (.eval discriminant scope)) cases
  | .returnValue _ none => return .returned .null
  | .returnValue _ (some e) => return .returned (← run (.eval e scope))
  | .breakLoop _ => return .broke
  | .continueLoop _ => return .continued
  | .on _ event condition body => do
    let name ← eventName run scope event
    modify (withHandler name condition body scope)
    return .normal
  | .emit _ event none => do
    emitValues run (.text (← eventName run scope event)) .null
    return .normal
  | .emit _ event (some data) => do
    let name ← eventName run scope event
    emitValues run (.text name) (← run (.eval data scope))
    return .normal
  | .importFile _ => return .normal
  | .schema _ name parent fields methods => do
    declareSchema scope name parent fields methods
    return .normal
  | .instanceOf span schema name fields => do
    declareInstance run scope span schema name fields
    return .normal
  | .expression _ e => do
    let _ ← run (.eval e scope)
    return .normal

end Evaluate

end EventScript
