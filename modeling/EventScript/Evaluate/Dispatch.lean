import EventScript.Evaluate.Host

/-! # Dispatching an event

An event is told to the listeners of its name and then to those of all events, and after that it is
handled by the handlers that were registered when its dispatch began.
-/

namespace EventScript

namespace Evaluate

open Eval

/-- Tell a listener about some data. -/
def tell (run : Runner) (data : MapRef) (r : ListenerRef) : Eval Unit := do
  let _ ← perform run ((← read fun s => s.listeners.get r) data)

/-- Tell the listeners of an event's name, one after the other. -/
def tellAll (run : Runner) (data : MapRef) : List ListenerRef → Eval Unit
  | [] => return
  | r :: rest => do
    tell run data r
    tellAll run data rest

/-- The key under which a listener to all events finds the name of the event. -/
def eventNameKey : Key := .text "__event"

/-- Tell the listeners of all events, each with a copy of the data that has the event's name. -/
def tellEach (run : Runner) (name : String) (data : MapRef) : List ListenerRef → Eval Unit
  | [] => return
  | r :: rest => do
    -- the event itself stays without its name
    let entries ← read fun s => s.map data
    tell run (← newMap (entries.put eventNameKey (.text name))) r
    tellEach run name data rest

/-- Tell the listeners about an event, and let handlers handle it. -/
def deliver (run : Runner) (e : QueuedEvent) (handlers : List Handler) : Eval Unit := do
  tellAll run e.data (← listenersFor e.name)
  tellEach run e.name e.data (← listenersFor wildcard)
  handleAll run e.data handlers

/-- Dispatch an event. -/
def dispatch (run : Runner) (e : QueuedEvent) : Eval Unit := do
  -- the handlers are those of now; what listeners register waits for the next event
  let registry := (← get).handlers
  record (.begun e registry)
  deliver run e (registry.getD e.name [])
  record (.ended e)

/-- Dispatch the events of the queue, those that come up meanwhile included. -/
def drain (run : Runner) : Eval Unit := do
  match (← get).queue with
  | [] => return
  | e :: rest => do
    modify fun w => { w with queue := rest }
    dispatch run e
    run .drain

end Evaluate

end EventScript
