import EventScript.Evaluate.Run
import EventScript.Files
import EventScript.Library.Globals

/-! # Sessions

What a host does with a session: load and reload files, emit events and ticks, read and write
globals, call functions, and register listeners.  Each is a computation on the world of the session;
`Session.perform` carries one out and gives the world behind it, whether it failed or not.
-/

namespace EventScript

namespace Session

open Eval

/-- A world without any objects. -/
def bareWorld (settings : Settings) (hostFunctions : List (String × HostFunction)) : World where
  store := .empty
  settings := settings
  generator := .ofSeed (settings.randomSeed.getD 0)
  hostFunctions := hostFunctions
  schemas := .empty
  handlers := .empty
  handlersByFile := .empty
  nextSerial := 0
  ledger := []
  instancesByFile := .empty
  declarations := []
  importsByFile := .empty
  importChanges := []
  listeners := .empty
  queue := []
  processing := false
  history := []
  currentFile := none
  callDepth := 0
  output := ""
  journal := []
  sources := .empty

/-- Carry out a computation on a world. -/
def perform {α : Type} (act : Eval α) (w : World) : Except Failure α × World :=
  match act w with
  | .ok a w => (.ok a, w)
  | .error e w => (.error e, w)

/-- The world of a fresh session. -/
def start (settings : Settings) (hostFunctions : List (String × HostFunction)) : World :=
  (perform Library.bindGlobals (bareWorld settings hostFunctions)).2

/-- Execute a program as the content of a file, or of none. -/
def execute (program : Program) (file : Option String) : Eval Unit :=
  Evaluate.execute Evaluate.run program file

/-- Load a source under a file name. -/
def load (source file : String) : Eval Unit := Evaluate.load Evaluate.run source file

/-- Load several sources in order, each given behind its file name. -/
def loadAll : List (String × String) → Eval Unit
  | [] => return
  | (file, source) :: rest => do
    load source file
    loadAll rest

/-- Reload a source under a file name; one that was never loaded is loaded. -/
def reload (source file : String) : Eval Unit := Evaluate.reload Evaluate.run source file

/-- Load a file under its plain path. -/
def loadFile (files : Files) (path : String) : Eval Unit := do
  load (← ofExcept (files.read path)) (Files.plainPath path)

/-- Reload a file under its plain path. -/
def reloadFile (files : Files) (path : String) : Eval Unit := do
  reload (← ofExcept (files.read path)) (Files.plainPath path)

/-- Emit an event with data, which is a map or null. -/
def emit (event data : Value) : Eval Unit := Evaluate.emitValues Evaluate.run event data

/-- Emit a tick of some length. -/
def tick (dt : Value) : Eval Unit := do
  Evaluate.emit Evaluate.run Evaluate.tickEvent (← newMap (Table.empty.put (.text "dt") dt))

/-- The value of a global name. -/
def get (name : String) : Eval Value := lookup name globalScope none

/-- Bind a global name. -/
def set (name : String) (v : Value) : Eval Unit := define globalScope name v

/-- Make a value. -/
def build (d : Datum) : Eval Value := Evaluate.build d

/-- The name under which a native without a name of its own is reported. -/
def namelessNative : String := "<lambda>"

/-- Call a function; natives are given the arguments as they are. -/
def call (f : Value) (args : List Value) : Eval Value := do
  match f with
  | .function r => Evaluate.run (.call r args none)
  | .native n =>
    let name ← read fun s => (s.nativeName? n).getD namelessNative
    Evaluate.callNative Evaluate.run n args name none
  | v => problem (.notCallable v.typeName) none

/-- The field of an instance. -/
def fieldOf (v : Value) (name : String) : Eval Value := do
  match v with
  | .inst r =>
    match (← read fun s => s.inst r).data.get? name with
    | some v => return v
    | none => fault .noEntry
  | _ => fault .noMember

/-- Register a listener for an event. -/
def subscribe (event : String) (listener : ListenerRef) : Eval Unit :=
  modify fun w => { w with listeners := w.listeners.pushTo event listener }

/-- Make a listener. -/
def newListener (listener : Listener) : Eval ListenerRef := do
  let r ← read (·.listeners.next)
  modifyStore fun s => { s with listeners := s.listeners.push listener }
  return r

/-- Take back one registration of a listener for an event. -/
def unsubscribe (event : String) (listener : ListenerRef) : Eval Unit :=
  modify (Evaluate.unsubscribe event listener)

/-- What the globals of a fresh session are bound to. -/
def freshGlobals : Table String Value := ((start {} []).store.scope globalScope).bindings

/-- The globals in the order of their binding, but for those that a fresh session has and that still
    are what they were. -/
def ownGlobals (w : World) : List (String × Value) :=
  (w.store.scope globalScope).bindings.entries.filter fun e =>
    match freshGlobals.get? e.1 with
    | some v => !w.store.equalFrom 0 v e.2
    | none => true

end Session

end EventScript
