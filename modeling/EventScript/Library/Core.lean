import EventScript.Library.Lists
import EventScript.Library.Math
import EventScript.Library.Random
import EventScript.Library.Vectors

/-! # Functions on values of every kind

`print` and the few functions that ask a value for its size or its parts, and the dispatch to all
functions of the library.
-/

namespace EventScript

namespace Library

open Eval

/-- Print values on a line, with a blank between any two of them. -/
def print (vs : List Value) : Eval Value := do
  let parts ← read fun s => vs.map s.display
  modify fun w => { w with output := w.output ++ " ".intercalate parts ++ "\n" }
  return .null

/-- The number of parts of a value; what has no parts has none. -/
def partCount (s : Store) : Value → Nat
  | .inst r => (s.inst r).data.size
  | v => (s.size? v).getD 0

/-- The keys of an instance or a map; other values have none. -/
def keysOf (s : Store) : Value → List Value
  | .inst r => (s.inst r).data.keys.map .text
  | .map r => (s.map r).keys.map Key.value
  | _ => []

/-- The values of an instance or a map; other values have none. -/
def valuesOf (s : Store) : Value → List Value
  | .inst r => (s.inst r).data.values
  | .map r => (s.map r).values
  | _ => []

end Library

open Library Eval

/-- What a function on values of every kind does. -/
def CoreFunction.apply (f : CoreFunction) (args : List Value) : Eval Value := do
  match f, args with
  | .print, vs => Library.print vs
  | .len, [v] => return .int (← read fun s => partCount s v)
  | .type, [v] => return .text v.typeName
  | .keys, [v] => do listOf (← read fun s => keysOf s v)
  | .values, [v] => do listOf (← read fun s => valuesOf s v)
  | .size, [v] => return .int (← Library.size v)
  | _, _ => refuse

/-- What a function of the library does. -/
def Builtin.apply (run : Runner) (b : Builtin) (args : List Value) : Eval Value :=
  match b with
  | .core f => f.apply args
  | .math f => f.apply args
  | .list f => f.apply run args
  | .string f => f.apply args
  | .random f => f.apply args
  | .vector f => f.apply args

end EventScript
