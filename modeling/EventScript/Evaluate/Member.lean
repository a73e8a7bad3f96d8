import EventScript.World.Scope

/-! # Members

Reading and writing a member of a value by a key, which is a string or a number.  A number names an
element of a list or string and otherwise stands for its display.  A missing element, entry or
field is null.  Reactive paths go from the global names through maps and instances.
-/

namespace EventScript

namespace Evaluate

open Eval

/-- The element of a sequence at a whole number within it. -/
def elementAt? {α : Type} (xs : Array α) (n : Number) : Option α :=
  match n.whole? with
  | some (.ofNat i) => xs[i]?
  | _ => none

/-- The element of a list or a string at a place. -/
def element (obj : Value) (n : Number) : Eval Value := do
  match obj with
  | .list r => return (elementAt? (← read fun s => s.list r) n).getD .null
  | .text t =>
    return (elementAt? t.toList.toArray n).elim .null fun c => .text (String.singleton c)
  | _ => return .null

/-- A member function of a list, or its length. -/
def listMember (r : ListRef) (name : String) : Eval Value := do
  if name == "length" then return .int (← read fun s => s.list r).size
  match ListMember.ofName? name with
  | some member => newNative (.listMember r member)
  | none => return .null

/-- A member function of a string, or its length. -/
def stringMember (t name : String) : Eval Value := do
  if name == "length" then return .int t.length
  match StringMember.ofName? name with
  | some member => newNative (.stringMember t member)
  | none => return .null

/-- The member of a value under a key; `obj` is not null, and the key is a string or a number. -/
def access (obj key : Value) (span : Span) : Eval Value := do
  let name ← read fun s => s.keyText key
  match obj with
  | .list r =>
    match key.number? with
    | some n => element (.list r) n
    | none => listMember r name
  | .text t =>
    match key.number? with
    | some n => element (.text t) n
    | none => stringMember t name
  | .inst r => return ((← read fun s => s.inst r).data.get? name).getD .null
  | .map r => return ((← read fun s => s.map r).get? (.text name)).getD .null
  | _ => problem (.cannotAccess name obj.typeName) (some span)

/-- Write an element of a list; the place behind the last element adds one. -/
def putElement (r : ListRef) (key v : Value) (span : Span) : Eval Unit := do
  let size := (← read fun s => s.list r).size
  match key.number?.bind Number.whole? with
  | none => problem (.indexNotInteger (← read fun s => s.display key)) (some span)
  | some i =>
    if 0 ≤ i && i < size then modifyList r (·.setIfInBounds i.toNat v)
    -- only the place directly behind the last element makes the list longer
    else if i == size then modifyList r (·.push v)
    else problem (.indexOutOfRange i) (some span)

/-- Write a member of a value under a key; `obj` is not null, and the key is a string or a
    number. -/
def putMember (obj key v : Value) (span : Span) : Eval Unit := do
  let name ← read fun s => s.keyText key
  match obj with
  | .list r => putElement r key v span
  | .inst r => modifyInstance r (·.assign name v)
  | .map r => putKey r (.text name) v
  | _ => problem (.cannotAssign name obj.typeName) (some span)

/-- One step of a reactive path; null where it leads nowhere. -/
def navigate (s : Store) (v : Value) (name : String) : Value :=
  match v with
  | .inst r => ((s.inst r).data.get? name).getD .null
  | .map r => ((s.map r).get? (.text name)).getD .null
  | _ => .null

/-- The value of a global name, or null. -/
def globalOrNull (s : Store) (name : String) : Value :=
  ((s.scope globalScope).bindings.get? name).getD .null

/-- The value at the end of a reactive path. -/
def reactive (s : Store) (root : String) (path : List String) : Value :=
  path.foldl (navigate s) (globalOrNull s root)

/-- The value that the last step of a reactive path starts from, where `walked` are the names so
    far, in reverse. -/
def navigateTo (v : Value) (walked : List String) (span : Span) :
    List String → Eval Value
  | [] | [_] => return v
  | name :: rest => do
    match v with
    | .inst _ | .list _ | .map _ =>
      navigateTo (← read fun s => navigate s v name) (name :: walked) span rest
    | _ => problem (.cannotNavigate (name :: walked).reverse) (some span)

/-- Write at the end of a reactive path. -/
def putReactive (root : String) (path : List String) (v : Value) (span : Span) : Eval Unit := do
  match path.getLast? with
  | none => define globalScope root v
  | some last =>
    match ← navigateTo (← read fun s => globalOrNull s root) [root] span path with
    | .inst r => modifyInstance r (·.assign last v)
    | .map r => putKey r (.text last) v
    | _ => problem (.cannotSet (root :: path)) (some span)

end Evaluate

end EventScript
