import EventScript.Diagnostic
import EventScript.Generator
import EventScript.Settings
import EventScript.Value.Display
import EventScript.Value.Equality

/-! # The world of a session

Everything that a session keeps: the objects, the registries of schemas, handlers and listeners,
what each file has declared, the queue of events and what happened to them, the text printed so
far, and the sources of the files.  `Eval` is a computation on a world.  A computation that fails keeps the changes made
before; `ensuring` runs a repair in both cases.
-/

namespace EventScript

/-- A handler registered by an `on` statement; its serial number is its identity. -/
structure Handler where
  serial : Nat
  event : String
  condition : Option Expr
  body : Block
  scope : ScopeRef
  /-- The file that was being executed when the handler was registered. -/
  file : Option String

/-- An event that waits for its dispatch. -/
structure QueuedEvent where
  name : String
  data : MapRef

/-- What happens to the events of a session and to the handlers that they reach. -/
inductive Happening
  /-- An event is put at the end of the queue. -/
  | emitted (e : QueuedEvent)
  /-- The dispatch of an event begins, while these handlers are registered. -/
  | begun (e : QueuedEvent) (registry : Table String (List Handler))
  /-- A handler has its turn, and either has no guard or its guard holds, or it does not. -/
  | judged (h : Handler) (holds : Bool)
  /-- The body of a handler starts. -/
  | started (h : Handler)
  /-- The dispatch of an event is over. -/
  | ended (e : QueuedEvent)

/-- What happens to the registry of handlers. -/
inductive RegistryChange
  /-- A handler is registered. -/
  | registered (h : Handler)
  /-- A file is withdrawn: its handlers are dropped, while events are being dispatched or not, and
      after these happenings, the last one first. -/
  | withdrawn (file : String) (dispatching : Bool) (past : List Happening)

/-- What happens to the record of the instances that files declare. -/
inductive DeclarationChange
  /-- While a file is executed, an instance is declared: bound to a name in a scope. -/
  | declared (file : String) (scope : ScopeRef) (name : String) (r : InstanceRef)
  /-- The record of a file is dropped. -/
  | dropped (file : String)

/-- What happens to the record of the imports of files. -/
inductive ImportChange
  /-- A program with these imports is started as the content of a file. -/
  | executed (file : String) (imports : List Import)
  /-- The record of a file is dropped. -/
  | dropped (file : String)

/-- The state of a session. -/
structure World where
  store : Store
  settings : Settings
  generator : Generator
  hostFunctions : List (String × HostFunction)
  schemas : Table String SchemaRef
  handlers : Table String (List Handler)
  handlersByFile : Table String (List Handler)
  nextSerial : Nat
  /-- What happened to the registry of handlers so far, the last change first. -/
  ledger : List RegistryChange
  instancesByFile : Table String (List String)
  /-- What happened to the record of declared instances so far, the last change first. -/
  declarations : List DeclarationChange
  importsByFile : Table String (List Import)
  /-- What happened to the record of imports so far, the last change first. -/
  importChanges : List ImportChange
  listeners : Table String (List ListenerRef)
  queue : List QueuedEvent
  /-- Events are being dispatched. -/
  processing : Bool
  /-- What happened to the events so far, the last happening first. -/
  history : List Happening
  /-- The file that is being executed. -/
  currentFile : Option String
  /-- The calls of functions of the language that are in progress. -/
  callDepth : Nat
  /-- The text printed so far. -/
  output : String
  /-- What the host wrote down, the last note first. -/
  journal : List Note
  /-- The source of each file that was loaded. -/
  sources : Table String String
  deriving Inhabited

/-- The world with one more happening. -/
def World.record (w : World) (happening : Happening) : World :=
  { w with history := happening :: w.history }

/-- Why a computation gives no value. -/
inductive Failure
  /-- The program is told off. -/
  | diagnostic (d : Diagnostic)
  /-- A computation breaks off without a diagnostic. -/
  | fault (f : Fault)
  /-- The bound on the steps of a run is used up. -/
  | outOfFuel

instance : Inhabited Failure := ⟨.outOfFuel⟩

/-- A computation on a world. -/
abbrev Eval := EStateM Failure World

namespace Eval

section Running

variable {α β : Type}

@[simp] theorem run_pure (a : α) (w : World) : (pure a : Eval α) w = .ok a w := rfl

@[simp] theorem run_throw (e : Failure) (w : World) : (throw e : Eval α) w = .error e w := rfl

@[simp] theorem run_get_bind (next : World → Eval α) (w : World) :
    (get >>= next) w = next w w := rfl

@[simp] theorem run_modify (f : World → World) (w : World) :
    (modify f : Eval Unit) w = .ok () (f w) := rfl

@[simp] theorem run_modify_bind (f : World → World) (next : Unit → Eval α) (w : World) :
    (modify f >>= next) w = next () (f w) := rfl

theorem run_bind_of_ok {act : Eval α} {next : α → Eval β} {w v : World} {a : α}
    (h : act w = .ok a v) : (act >>= next) w = next a v := by
  change EStateM.bind act next w = _
  unfold EStateM.bind
  rw [h]

theorem run_bind_of_error {act : Eval α} {next : α → Eval β} {w v : World} {e : Failure}
    (h : act w = .error e v) : (act >>= next) w = .error e v := by
  change EStateM.bind act next w = _
  unfold EStateM.bind
  rw [h]

/-- A chain of computations that succeeds has a first part that succeeds. -/
theorem bind_eq_ok {act : Eval α} {next : α → Eval β} {w w' : World} {b : β}
    (h : (act >>= next) w = .ok b w') : ∃ a v, act w = .ok a v ∧ next a v = .ok b w' := by
  cases ha : act w with
  | ok a v => exact ⟨a, v, rfl, (run_bind_of_ok ha).symm.trans h⟩
  | error e v =>
    rw [run_bind_of_error ha] at h
    cases h

theorem pure_eq_ok {a b : α} {w w' : World} (h : (pure a : Eval α) w = .ok b w') :
    b = a ∧ w' = w := by
  cases h
  exact ⟨rfl, rfl⟩

end Running

/-- Fail with a problem at a place. -/
def problem {α : Type} (p : Problem) (span : Option Span) : Eval α :=
  throw (.diagnostic ⟨p, span, none⟩)

/-- Break off. -/
def fault {α : Type} (f : Fault) : Eval α := throw (.fault f)

/-- A computation on numbers or texts as a computation on a world. -/
def ofExcept {α : Type} : Except Fault α → Eval α
  | .ok a => pure a
  | .error f => fault f

/-- Run a computation and repair the world behind it, whether it fails or not. -/
@[inline] def ensuring {α : Type} (act : Eval α) (repair : World → World) : Eval α := fun w =>
  match act w with
  | .ok a w => .ok a (repair w)
  | .error e w => .error e (repair w)

theorem ensuring_eq_ok {α : Type} {act : Eval α} {repair : World → World} {a : α} {w u : World}
    (h : ensuring act repair w = .ok a u) : ∃ v, act w = .ok a v ∧ u = repair v := by
  unfold ensuring at h
  cases ha : act w with
  | ok b v =>
    rw [ha] at h
    cases h
    exact ⟨v, rfl, rfl⟩
  | error e v => rw [ha] at h; cases h

/-- Run a computation and change the world behind it if it fails. -/
@[inline] def onFailure {α : Type} (act : Eval α) (repair : World → World) : Eval α := fun w =>
  match act w with
  | .ok a w => .ok a w
  | .error e w => .error e (repair w)

/-- Report a refusal of a native under its name. -/
@[inline] def reporting {α : Type} (name : String) (span : Option Span) (act : Eval α) : Eval α :=
  fun w =>
    match act w with
    | .ok a w => .ok a w
    | .error (.fault f) w =>
      if f.isRefusal then .error (.diagnostic ⟨.nativeFailed name, span, none⟩) w
      else .error (.fault f) w
    | .error e w => .error e w

/-- Read from the store. -/
@[inline] def read {α : Type} (f : Store → α) : Eval α := fun w => .ok (f w.store) w

/-- Record a happening. -/
@[inline] def record (happening : Happening) : Eval Unit := modify (·.record happening)

/-- Change the store. -/
@[inline] def modifyStore (f : Store → Store) : Eval Unit :=
  modify fun w => { w with store := f w.store }

/-- Make a list. -/
def newList (items : Array Value) : Eval Value := do
  let r ← read (·.lists.next)
  modifyStore fun s => { s with lists := s.lists.push items }
  return .list r

/-- Make a map. -/
def newMap (entries : Table Key Value) : Eval MapRef := do
  let r ← read (·.maps.next)
  modifyStore fun s => { s with maps := s.maps.push entries }
  return r

/-- Make a function. -/
def newFunction (f : Closure) : Eval FunctionRef := do
  let r ← read (·.functions.next)
  modifyStore fun s => { s with functions := s.functions.push f }
  return r

/-- Make a schema. -/
def newSchema (schema : Schema) : Eval SchemaRef := do
  let r ← read (·.schemas.next)
  modifyStore fun s => { s with schemas := s.schemas.push schema }
  return r

/-- Make an instance. -/
def newInstance (i : Instance) : Eval InstanceRef := do
  let r ← read (·.instances.next)
  modifyStore fun s => { s with instances := s.instances.push i }
  return r

/-- Make a native. -/
def newNative (n : MadeNative) : Eval Value := do
  let r ← read (·.natives.next)
  modifyStore fun s => { s with natives := s.natives.push n }
  return .native (.made r)

/-- Make a scope inside of another one. -/
def newScope (parent : Option ScopeRef) (bindings : Table String Value) : Eval ScopeRef := do
  let r ← read (·.scopes.next)
  modifyStore fun s => { s with scopes := s.scopes.push ⟨bindings, parent⟩ }
  return r

/-- A number as a value; a result that is not a number gets a mark of its own. -/
def ofNumber (n : Number) : Eval Value := do
  if n.isNaN then
    let mark ← read (·.nextMark)
    modifyStore fun s => { s with nextMark := mark + 1 }
    return .nan mark
  else return .number n

/-- A floating point number as a value. -/
def ofFloat (x : Float) : Eval Value := ofNumber (.float x)

/-- A literal as a value. -/
def ofLiteral : Literal → Eval Value
  | .null => return .null
  | .bool b => return .bool b
  | .number n => ofNumber n
  | .text s => return .text s

/-- Change the items of a list. -/
def modifyList (r : ListRef) (f : Array Value → Array Value) : Eval Unit :=
  modifyStore fun s => { s with lists := s.lists.modify r f }

/-- Write to a map. -/
def putKey (r : MapRef) (k : Key) (v : Value) : Eval Unit :=
  modifyStore fun s => { s with maps := s.maps.modify r fun t => t.put k v }

/-- Change an instance. -/
def modifyInstance (r : InstanceRef) (f : Instance → Instance) : Eval Unit :=
  modifyStore fun s => { s with instances := s.instances.modify r f }

/-- The value counts as true. -/
def truth (v : Value) : Eval Bool := read fun s => s.isTruthy v

end Eval

end EventScript
