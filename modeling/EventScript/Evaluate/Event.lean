import EventScript.Evaluate.Expression

/-! # Events

Events are dispatched one after the other in the order in which they were emitted.  An event is
told to the listeners of its name, then to those of all events, and then handled by the handlers
that were registered when its dispatch began.  What is emitted meanwhile waits at the end of the
queue.  A dispatch that fails leaves nothing waiting.
-/

namespace EventScript

namespace Evaluate

open Eval

/-- Listeners under this name hear every event. -/
def wildcard : String := "*"

/-- The event of a tick. -/
def tickEvent : String := "tick"

/-- The event behind every reload. -/
def reloadEvent : String := "file:reloaded"

/-- Execute statements up to the first one that does not finish normally. -/
def statements (run : Runner) (scope : ScopeRef) : List Stmt → Eval Completion
  | [] => return .normal
  | s :: rest => do
    match ← run (.exec s scope) with
    | .normal => statements run scope rest
    | abrupt => return abrupt

/-- Execute a block in a scope. -/
def block (run : Runner) (b : Block) (scope : ScopeRef) : Eval Completion :=
  statements run scope b.statements

/-- Put an event at the end of the queue. -/
def enqueue (e : QueuedEvent) (w : World) : World :=
  { w.record (.emitted e) with queue := w.queue ++ [e] }

/-- Dispatch everything that waits. -/
def processQueue (run : Runner) : Eval Unit := do
  modify fun w => { w with processing := true }
  ensuring (onFailure (run .drain) fun w => { w with queue := [] })
    fun w => { w with processing := false }

/-- Emit an event; unless events are being dispatched, everything that waits is dispatched now. -/
def emit (run : Runner) (name : String) (data : MapRef) : Eval Unit := do
  modify (enqueue ⟨name, data⟩)
  -- an event that comes up in a dispatch waits for the dispatch in progress
  if !(← get).processing then processQueue run

/-- Emit an event given by values: a string, and a map or null. -/
def emitValues (run : Runner) (event data : Value) : Eval Unit := do
  match event, data with
  | .text name, .null => do emit run name (← newMap .empty)
  | .text name, .map r => emit run name r
  | .text _, v => problem (.eventDataNotMap v.typeName) none
  | _, _ => problem .eventNameNotString none

/-- The listeners under a name. -/
def listenersFor (name : String) : Eval (List ListenerRef) :=
  return (← get).listeners.getD name []

/-- A handler's body or guard runs in a scope of its own, where `event` is the data. -/
def eventScope (parent : ScopeRef) (data : MapRef) : Eval ScopeRef := do
  let scope ← childScope parent
  define scope "event" (.map data)
  return scope

/-- Whether the guard of a handler holds. -/
def guardHolds (run : Runner) (h : Handler) (data : MapRef) : Eval Bool := do
  match h.condition with
  | none => return true
  | some e => do truth (← run (.eval e (← eventScope h.scope data)))

/-- Give a handler its turn: its body runs if it has no guard or its guard holds. -/
def handle (run : Runner) (data : MapRef) (h : Handler) : Eval Unit := do
  let holds ← guardHolds run h data
  record (.judged h holds)
  if holds then
    record (.started h)
    let _ ← block run h.body (← eventScope h.scope data)

/-- Let handlers handle an event, one after the other. -/
def handleAll (run : Runner) (data : MapRef) : List Handler → Eval Unit
  | [] => return
  | h :: rest => do
    handle run data h
    handleAll run data rest

end Evaluate

end EventScript
