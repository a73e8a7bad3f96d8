import EventScript.Store

/-! # Displaying values

The text of a value as `print` and string addition show it, and the snapshot of a value that the
outside sees.
-/

namespace EventScript

namespace Store

/-- The display of a function by its name. -/
def displayFunction (name : Option String) : String :=
  match name with
  | none | some "" => "<function anonymous>"
  | some name => s!"<function {name}>"

/-- The native's own name, if it has one. -/
def nativeName? (s : Store) : Native → Option String
  | .builtin f => f.ownName?
  | .made r => (s.native r).ownName?

/-- The display of a value that holds no value at a depth of more than a bound. -/
def displayFrom (s : Store) : Nat → Value → String
  | _, .null => "null"
  | _, .bool b => if b then "true" else "false"
  | _, .number n => n.display
  | _, .nan _ => (Number.float (0 / 0)).display
  | _, .text t => t
  | 0, _ => "..."
  | depth + 1, .list r =>
    "[" ++ ", ".intercalate ((s.list r).toList.map (displayFrom s depth)) ++ "]"
  | depth + 1, .map r =>
    match (s.map r).entries with
    | [] => "\x7b\x7d"
    | entries =>
      "\x7b " ++ ", ".intercalate (entries.map fun e => e.1.display ++ ": " ++ displayFrom s depth e.2) ++
        " \x7d"
  | _ + 1, .function r => displayFunction (s.function r).name
  | _ + 1, .native n => displayFunction (s.nativeName? n)
  | _ + 1, .schema r => s!"<schema {(s.schema r).name}>"
  | _ + 1, .inst r => s!"<{(s.inst r).schema} instance>"

/-- The display of a value. -/
def display (s : Store) (v : Value) : String := s.displayFrom s.depthBound v

/-- A property key in text: numbers by their display. -/
def keyText (s : Store) (v : Value) : String := s.display v

/-- The levels from a value up to an enclosing object of the same name. -/
def enclosing? (path : List Value) (same : Value → Bool) : Option Nat :=
  (path.findIdx? same).map (· + 1)

/-- The snapshot of a value inside of the objects of a path, innermost first. -/
def snapshotFrom (s : Store) : Nat → List Value → Value → Snapshot
  | _, _, .null => .plain .null
  | _, _, .bool b => .plain (.bool b)
  | _, _, .number n => .plain (.number n)
  | _, _, .nan _ => .plain (.number (.float (0 / 0)))
  | _, _, .text t => .plain (.text t)
  | 0, _, _ => .plain .null
  | depth + 1, path, .list r =>
    match enclosing? path (fun | .list q => q == r | _ => false) with
    | some levels => .enclosing levels
    | none => .list ((s.list r).toList.map (snapshotFrom s depth (.list r :: path)))
  | depth + 1, path, .map r =>
    match enclosing? path (fun | .map q => q == r | _ => false) with
    | some levels => .enclosing levels
    | none =>
      .map ((s.map r).entries.map fun e => (e.1, snapshotFrom s depth (.map r :: path) e.2))
  | depth + 1, path, .inst r =>
    match enclosing? path (fun | .inst q => q == r | _ => false) with
    | some levels => .enclosing levels
    | none =>
      let i := s.inst r
      .inst i.schema (i.data.entries.map fun e => (e.1, snapshotFrom s depth (.inst r :: path) e.2))
        i.mutated
  | _ + 1, _, .function r =>
    let f := s.function r
    .function f.name (f.params.map (·.name))
  | _ + 1, _, .native n => .native (displayFunction (s.nativeName? n))
  | _ + 1, _, .schema r =>
    let schema := s.schema r
    .schema schema.name schema.parent
      (schema.fields.map fun f => (f.name, f.required, f.default.isSome)) schema.methods.keys

/-- The snapshot of a value. -/
def snapshot (s : Store) (v : Value) : Snapshot := s.snapshotFrom (s.depthBound + 1) [] v

end Store

end EventScript
