import EventScript.Evaluate.Load
import EventScript.Library.Lists

/-! # What the host does

The actions of host functions and listeners, carried out on a world.
-/

namespace EventScript

namespace Evaluate

open Eval

mutual

/-- Make the value of a description. -/
def build : Datum → Eval Value
  | .literal l => ofLiteral l
  | .list items => do newList (← buildAll items).toArray
  | .map entries => do return .map (← newMap (← buildEntries .empty entries))
  | .global name => lookup name globalScope none
  | .host name => do
    match (← get).hostFunctions.lookup name with
    | some f => newNative (.host name f)
    | none => return .null

/-- Make the values of descriptions. -/
def buildAll : List Datum → Eval (List Value)
  | [] => return []
  | d :: rest => do
    let v ← build d
    return v :: (← buildAll rest)

/-- Make the entries of a map, onto those before them. -/
def buildEntries (t : Table Key Value) : List (Key × Datum) → Eval (Table Key Value)
  | [] => return t
  | (k, d) :: rest => do
    let v ← build d
    buildEntries (t.putAlike k v) rest

end

/-- Write down some values as they are now. -/
def note (author : NoteAuthor) (shown : List Value) : Eval Unit :=
  modify fun w => { w with journal := ⟨author, shown.map w.store.snapshot⟩ :: w.journal }

/-- Take back the first registration of a listener for an event. -/
def unsubscribe (event : String) (listener : ListenerRef) (w : World) : World :=
  match w.listeners.get? event with
  | none => w
  | some registered => { w with listeners := w.listeners.put event (registered.erase listener) }

/-- Carry out what the host does. -/
def perform (run : Runner) : HostAction → Eval Value
  | .done v => return v
  | .fail f => fault f
  | .note author shown next => do
    note author shown
    perform run next
  | .look name next => do perform run (next ((← global? name).getD .null))
  | .build d next => do perform run (next (← build d))
  | .put m key v next => do
    putKey m (.text key) v
    perform run next
  | .emit event data next => do
    emitValues run event data
    perform run next
  | .load source file next => do
    load run source file
    perform run next
  | .reload source file next => do
    reload run source file
    perform run next
  | .call f args next => do perform run (next (← Library.callValue run f args))
  | .unsubscribe event listener next => do
    modify (unsubscribe event listener)
    perform run next

end Evaluate

end EventScript
