import EventScript.Host

/-! # The store

All objects of a session, each kind in a heap of its own.
-/

namespace EventScript

/-- The objects of a session. -/
structure Store where
  lists : Heap .list (Array Value)
  maps : Heap .map (Table Key Value)
  functions : Heap .function Closure
  schemas : Heap .schema Schema
  instances : Heap .inst Instance
  scopes : Heap .scope Scope
  natives : Heap .native MadeNative
  listeners : Heap .listener Listener
  /-- The mark of the next result that is not a number. -/
  nextMark : Nat

namespace Store

instance : Inhabited Listener := ⟨fun _ => .done .null⟩

/-- The store without objects. -/
def empty : Store := ⟨.empty, .empty, .empty, .empty, .empty, .empty, .empty, .empty, 0⟩

instance : Inhabited Store := ⟨empty⟩

/-- The items of a list. -/
def list (s : Store) (r : ListRef) : Array Value := s.lists.get r

/-- The entries of a map. -/
def map (s : Store) (r : MapRef) : Table Key Value := s.maps.get r

/-- A function. -/
def function (s : Store) (r : FunctionRef) : Closure := s.functions.get r

/-- A schema. -/
def schema (s : Store) (r : SchemaRef) : Schema := s.schemas.get r

/-- An instance. -/
def inst (s : Store) (r : InstanceRef) : Instance := s.instances.get r

/-- A scope. -/
def scope (s : Store) (r : ScopeRef) : Scope := s.scopes.get r

/-- A native that was made at run time. -/
def native (s : Store) (r : NativeRef) : MadeNative := s.natives.get r

/-- A bound on the depth of any value that does not contain itself. -/
def depthBound (s : Store) : Nat := s.lists.size + s.maps.size + s.instances.size + 1

end Store

end EventScript
