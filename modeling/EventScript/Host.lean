import EventScript.Value

/-! # The host

A program runs inside of a host, which can add functions of its own and listen to events.  What
such a function or listener does is a `HostAction`: a tree of the few things that a host can do to
a session, ending with a value or a fault.  Nothing else of the host is visible from here.
-/

namespace EventScript

/-- A value as it is seen from outside at one moment; an object inside of itself is a reference to
    the enclosing object that many levels up. -/
inductive Snapshot where
  | plain (l : Literal)
  | list (items : List Snapshot)
  | map (entries : List (Key × Snapshot))
  | function (name : Option String) (params : List String)
  | schema (name : String) (parent : Option String) (fields : List (String × Bool × Bool))
      (methods : List String)
  | inst (schema : String) (data : List (String × Snapshot)) (mutated : List String)
  | native (display : String)
  | enclosing (levels : Nat)

/-- Who wrote a note: a listener under its name, or a host function. -/
inductive NoteAuthor
  | listener (name : String)
  | function (name : String)
  deriving Repr, DecidableEq

/-- What a host wrote down about some values, as they were at that moment. -/
structure Note where
  author : NoteAuthor
  shown : List Snapshot

/-- What a host does. -/
inductive HostAction where
  /-- Give a value back. -/
  | done (result : Value)
  /-- Give up. -/
  | fail (fault : Fault)
  /-- Write down some values as they are now. -/
  | note (author : NoteAuthor) (shown : List Value) (next : HostAction)
  /-- Look up a global name; an unbound one gives null. -/
  | look (name : String) (next : Value → HostAction)
  /-- Make a value. -/
  | build (d : Datum) (next : Value → HostAction)
  /-- Write to a map. -/
  | put (m : MapRef) (key : String) (v : Value) (next : HostAction)
  /-- Emit an event. -/
  | emit (event data : Value) (next : HostAction)
  /-- Load a source under a file name. -/
  | load (source file : String) (next : HostAction)
  /-- Reload a source under a file name. -/
  | reload (source file : String) (next : HostAction)
  /-- Call a native. -/
  | call (f : Value) (args : List Value) (next : Value → HostAction)
  /-- Take back one registration of a listener. -/
  | unsubscribe (event : String) (listener : ListenerRef) (next : HostAction)

/-- A host function. -/
abbrev HostFunction := List Value → HostAction

/-- A listener, which is given the data of an event. -/
abbrev Listener := MapRef → HostAction

/-- A native that is made at run time. -/
inductive MadeNative where
  /-- A member function of a list. -/
  | listMember (items : ListRef) (member : ListMember)
  /-- A member function of a string. -/
  | stringMember (text : String) (member : StringMember)
  /-- A function of the language as natives call it. -/
  | callback (f : FunctionRef) (name : Option String)
  /-- A function of the host. -/
  | host (name : String) (run : HostFunction)

instance : Inhabited MadeNative := ⟨.host "" fun _ => .done .null⟩

/-- The native's own name, if it has one. -/
def MadeNative.ownName? : MadeNative → Option String
  | listMember _ member => member.ownName?
  | stringMember _ _ => none
  | callback _ name => some (name.getD "anonymous")
  | host name _ => some name

end EventScript
