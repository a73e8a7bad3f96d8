import EventScript.Library.Core
import EventScript.World.Scope

/-! # The globals of a fresh session

A few functions and one constant under names of their own, and the namespaces `vec`, `math`,
`list`, `string` and `random`, which are maps.
-/

namespace EventScript

namespace Library

open Eval

/-- A function of the library as a value. -/
def builtin (f : Builtin) : Value := .native (.builtin f)

/-- The functions with global names. -/
def globalFunctions : List (String × Builtin) :=
  [("print", .core .print), ("len", .core .len), ("type", .core .type), ("keys", .core .keys),
   ("values", .core .values), ("abs", .math .abs), ("floor", .math .floor), ("ceil", .math .ceil),
   ("round", .math .round), ("min", .math .min), ("max", .math .max), ("sqrt", .math .sqrt),
   ("sin", .math .sin), ("cos", .math .cos), ("tan", .math .tan)]

/-- Make a namespace. -/
def newNamespace (members : List (String × Value)) : Eval Value := do
  return .map (← newMap (Table.ofList (members.map fun m => (.text m.1, m.2))))

/-- Functions as members of a namespace. -/
def functionMembers (members : List (String × Builtin)) : List (String × Value) :=
  members.map fun m => (m.1, builtin m.2)

/-- The constants of the namespace `vec`, as new lists. -/
def vectorConstants : List (String × List Int) → Eval (List (String × Value))
  | [] => return []
  | (name, xs) :: rest => do
    let v ← listOf (xs.map .int)
    return (name, v) :: (← vectorConstants rest)

/-- Make the namespaces in their order. -/
def namespaces : Eval (List (String × Value)) := do
  let constants ← vectorConstants VectorFunction.constants
  let vec ← newNamespace
    (functionMembers (VectorFunction.all.map fun f => (f.ownName, .vector f)) ++ constants)
  let math ← newNamespace
    (functionMembers (MathFunction.members.map fun m => (m.1, .math m.2)) ++
      MathFunction.constants.map fun c => (c.1, .number (.float c.2)))
  let list ← newNamespace (functionMembers ListFunction.members)
  let string ← newNamespace (functionMembers StringFunction.members)
  let random ← newNamespace
    (functionMembers (RandomFunction.members.map fun m => (m.1, .random m.2)))
  return [("vec", vec), ("math", math), ("list", list), ("string", string), ("random", random)]

/-- Make the global scope. -/
def bindGlobals : Eval Unit := do
  let spaces ← namespaces
  let constant : String × Value := ("PI", .number (.float 3.141592653589793))
  let bindings := functionMembers globalFunctions ++ constant :: spaces
  let _ ← newScope none (Table.ofList bindings)

end Library

end EventScript
