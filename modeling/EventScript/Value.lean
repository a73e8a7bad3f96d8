import EventScript.Fault
import EventScript.Heap
import EventScript.Library.Catalog
import EventScript.Number.Notation
import EventScript.Table
import EventScript.Token
import EventScript.Tree

/-! # Values and objects

A value is a plain datum or the name of an object in the store.  Lists, maps and instances are
changed in place and seen by everyone who holds their name; functions and schemas are never
changed.  A result that is not a number carries a mark of its own, so that it equals itself and no
other such result.
-/

namespace EventScript

abbrev ListRef := Ref .list
abbrev MapRef := Ref .map
abbrev FunctionRef := Ref .function
abbrev SchemaRef := Ref .schema
abbrev InstanceRef := Ref .inst
abbrev ScopeRef := Ref .scope
abbrev NativeRef := Ref .native
abbrev ListenerRef := Ref .listener

/-- A function that is not written in the language: one of the library, or one made at run time. -/
inductive Native
  | builtin (f : Builtin)
  | made (ref : NativeRef)
  deriving DecidableEq

/-- A value. -/
inductive Value
  | null
  | bool (b : Bool)
  /-- A number; a floating point one is a number indeed. -/
  | number (n : Number)
  /-- A result that is not a number. -/
  | nan (mark : Nat)
  | text (s : String)
  | list (ref : ListRef)
  | map (ref : MapRef)
  | function (ref : FunctionRef)
  | native (n : Native)
  | schema (ref : SchemaRef)
  | inst (ref : InstanceRef)

instance : Inhabited Value := ⟨.null⟩

/-- The kinds of values. -/
inductive Kind
  | null | boolean | number | string | list | map | native | function | schema | inst
  deriving Repr, DecidableEq

/-- The name of a kind. -/
def Kind.name : Kind → String
  | null => "null" | boolean => "boolean" | number => "number" | string => "string"
  | list => "list" | map => "map" | native => "native" | function => "function"
  | schema => "schema" | inst => "instance"

namespace Value

/-- An integer as a value. -/
def int (n : Int) : Value := number (.int n)

/-- The kind of a value. -/
def kind : Value → Kind
  | null => .null
  | bool _ => .boolean
  | number _ | nan _ => .number
  | text _ => .string
  | list _ => .list
  | map _ => .map
  | function _ => .function
  | native _ => .native
  | schema _ => .schema
  | inst _ => .inst

/-- The type of a value as programs see it: natives are functions. -/
def typeName (v : Value) : String :=
  match v.kind with
  | .native => Kind.function.name
  | kind => kind.name

/-- The number that a value is; truth values are none. -/
def number? : Value → Option Number
  | number n => some n
  | nan _ => some (.float (0 / 0))
  | _ => none

/-- The value is a number. -/
def isNumber (v : Value) : Bool := v.kind == .number

/-- The value can be called. -/
def isCallable (v : Value) : Bool := v.kind == .function || v.kind == .native

end Value

/-- The key of a map entry.  Programs only write texts; a host may hand over maps with other
    plain keys, and a floating point one is given by its bits. -/
inductive Key
  | text (s : String)
  | null
  | bool (b : Bool)
  | int (n : Int)
  | float (bits : UInt64)
  deriving DecidableEq

namespace Key

/-- The key as a value. -/
def value : Key → Value
  | text s => .text s
  | null => .null
  | bool b => .bool b
  | int n => .int n
  | float bits => .number (.float (Float.ofBits bits))

/-- The key as it is displayed in a map. -/
def display : Key → String
  | text s => s
  | null => Literal.outline .null
  | bool b => Literal.outline (.bool b)
  | int n => toString n
  | float bits => floatLiteral (Float.ofBits bits)

/-- The number that a key counts as; truth values count as zero and one. -/
def counted? : Key → Option Number
  | bool b => some (.int (if b then 1 else 0))
  | int n => some (.int n)
  | float bits => some (.float (Float.ofBits bits))
  | _ => none

/-- Two keys name the same entry: they are equal, or count as equal numbers. -/
def isAlike (k l : Key) : Bool :=
  match k.counted?, l.counted? with
  | some m, some n => m.eq n || k == l
  | _, _ => k == l

end Key

/-- Write to the entry that a key names; a key that is there keeps its form. -/
def Table.putAlike {α : Type} (t : Table Key α) (k : Key) (a : α) : Table Key α :=
  t.put ((t.keys.find? k.isAlike).getD k) a

/-- The value of the entry that a key names. -/
def Table.getAlike? {α : Type} (t : Table Key α) (k : Key) : Option α :=
  (t.entries.find? fun e => k.isAlike e.1).map Prod.snd

/-- A function of the language with the scope that it was made in. -/
structure Closure where
  params : List Param
  body : Body
  scope : ScopeRef
  name : Option String

instance : Inhabited Closure := ⟨⟨[], .block ⟨default, []⟩, default, none⟩⟩

/-- A schema with its declared fields and its methods. -/
structure Schema where
  name : String
  parent : Option String
  fields : List SchemaField
  methods : Table String FunctionRef

instance : Inhabited Schema := ⟨⟨"", none, [], .empty⟩⟩

/-- What happens to the fields of an instance after it was made. -/
inductive FieldChange
  /-- A program assigns a field. -/
  | assigned (field : String)
  /-- A reload writes kept fields, and these are the names that count as assigned from then on. -/
  | restored (mutated : List String)
  deriving Repr, DecidableEq

/-- An instance of a schema: its fields and methods, and the names of the fields that were assigned
    since it was made. -/
structure Instance where
  schema : String
  data : Table String Value
  mutated : List String
  /-- What happened to the fields so far, the last change first. -/
  changes : List FieldChange
  deriving Inhabited

/-- An instance with a field written, which counts as assigned from then on. -/
def Instance.assign (i : Instance) (name : String) (v : Value) : Instance :=
  { i with
    data := i.data.put name v
    mutated := if i.mutated.contains name then i.mutated else i.mutated ++ [name]
    changes := .assigned name :: i.changes }

/-- A scope: its own bindings and the scope around it. -/
structure Scope where
  bindings : Table String Value
  parent : Option ScopeRef
  deriving Inhabited

/-- A plain description of a value, from which a new value is built. -/
inductive Datum where
  | literal (l : Literal)
  | list (items : List Datum)
  | map (entries : List (Key × Datum))
  /-- The value of a global name. -/
  | global (name : String)
  /-- A host function by name. -/
  | host (name : String)
  deriving Inhabited

end EventScript
