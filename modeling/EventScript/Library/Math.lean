import EventScript.Library.Operand

/-! # Functions on numbers

The functions of the namespace `math`, some of which have global names too.  Roundings give
integers of any size.  A function of the analysis refuses an argument outside of its domain, and
one whose result is too large.
-/

namespace EventScript

namespace Library

open Eval

/-- The result of a function of the analysis at an argument: from a number it must be one, and from
    a finite number a finite one. -/
def checked (x y : Float) : Except Fault Float :=
  if y.isNaN && !x.isNaN then throw .wrongValue
  else if y.isInf && x.isFinite then throw .overflow
  else pure y

/-- Apply a function of the analysis to an argument. -/
def analytic (f : Float → Float) (v : Value) : Eval Value := do
  let x ← float v
  ofFloat (← ofExcept (checked x (f x)))

/-- The logarithm of an integer too large for a floating point number, from its highest bits. -/
def largeLog (f : Float → Float) (n : Nat) : Float :=
  let shift := n.log2 - 60
  f (Float.ofNat (n >>> shift)) + Float.ofNat shift * f 2

/-- A logarithm, for positive numbers of any size. -/
def logarithm (f : Float → Float) (v : Value) : Eval Float := do
  match ← number v with
  | .int n =>
    if n ≤ 0 then fault .wrongValue
    else
      match Binary.ofInt? n with
      | some x => return f x
      | none => return largeLog f n.toNat
  | .float x => ofExcept (checked x (if x == 0 then 0 / 0 else f x))

/-- A power: from finite numbers it must be finite. -/
def power (x y : Float) : Except Fault Float :=
  let p := Float.pow x y
  if x.isFinite && y.isFinite then
    if p.isNaN then throw .wrongValue
    else if p.isInf then throw .overflow
    else pure p
  else pure p

/-- The cube root of a number, or of the only item of a list. -/
def cubeRoot (s : Store) : Nat → Value → Except Fault Float
  | 0, _ => throw .wrongKind
  | depth + 1, v =>
    match v with
    | .list r =>
      match (s.list r).toList with
      | [v] => cubeRoot s depth v
      | _ => throw .wrongKind
    | v =>
      match v.counted? with
      | some (.int n) =>
        if -wordHalf ≤ n && n < 2 * wordHalf then return Float.cbrt (← (Number.int n).toFloat)
        else throw .wrongKind
      | some (.float x) => return Float.cbrt x
      | none => throw .wrongKind

/-- The value of an operation on numbers. -/
def arithmeticOf (r : Except Fault Number) : Eval Value := do ofNumber (← ofExcept r)

/-- A fraction between two edges, kept between zero and one; equal edges make a step. -/
def unitStep (edge0 edge1 x : Value) : Eval Number := do
  if ← alike edge0 edge1 then return .float (if ← below x edge0 then 0 else 1)
  else
    let a ← number edge0
    let b ← number edge1
    let x ← number x
    let quotient ← ofExcept do (← x.sub a).div (← b.sub a)
    let capped := if quotient.lt (.float 1) then quotient else .float 1
    return if (Number.float 0).lt capped then capped else .float 0

end Library

open Library Eval

/-- What a function on numbers does. -/
def MathFunction.apply (f : MathFunction) (args : List Value) : Eval Value := do
  match f, args with
  | .sin, [x] => analytic Float.sin x
  | .cos, [x] => analytic Float.cos x
  | .tan, [x] => analytic Float.tan x
  | .asin, [x] => analytic Float.asin x
  | .acos, [x] => analytic Float.acos x
  | .atan, [x] => analytic Float.atan x
  | .atan2, [y, x] => do ofFloat (Float.atan2 (← float y) (← float x))
  | .floor, [x] => return .int (← ofExcept (← number x).floor)
  | .ceil, [x] => return .int (← ofExcept (← number x).ceiling)
  | .round, [x] => return .int (← ofExcept (← number x).roundHalfUp)
  | .trunc, [x] => return .int (← ofExcept (← number x).truncate)
  | .pow, [x, y] => do ofFloat (← ofExcept (power (← float x) (← float y)))
  | .sqrt, [x] => analytic Float.sqrt x
  | .cbrt, [x] => do ofFloat (← ofExcept (← read fun s => cubeRoot s s.depthBound x))
  | .exp, [x] => analytic Float.exp x
  | .log, [x] => do ofFloat (← logarithm Float.log x)
  | .log, [x, base] => do
    arithmeticOf ((Number.float (← logarithm Float.log x)).div (.float (← logarithm Float.log base)))
  | .log2, [x] => do ofFloat (← logarithm Float.log2 x)
  | .log10, [x] => do ofFloat (← logarithm Float.log10 x)
  | .abs, [x] => do ofNumber (← number x).abs
  | .sign, [x] => do
    let n ← number x
    return .int (if (Number.int 0).lt n then 1 else if n.lt (.int 0) then -1 else 0)
  | .min, args => smallest args
  | .max, args => largest args
  | .clamp, [v, lo, hi] => do
    let raised ← if ← below lo v then pure v else pure lo
    if ← below raised hi then return raised else return hi
  | .lerp, [a, b, t] => do
    let a ← number a
    let b ← number b
    let t ← number t
    arithmeticOf do a.add (← (← b.sub a).mul t)
  | .inverseLerp, [a, b, v] => do
    if ← alike a b then return .int 0
    let a ← number a
    let b ← number b
    let v ← number v
    arithmeticOf do (← v.sub a).div (← b.sub a)
  | .remap, [v, inMin, inMax, outMin, outMax] => do
    let v ← number v
    let inMin ← number inMin
    let inMax ← number inMax
    let t ← ofExcept do (← v.sub inMin).div (← inMax.sub inMin)
    let outMin ← number outMin
    let outMax ← number outMax
    arithmeticOf do outMin.add (← (← outMax.sub outMin).mul t)
  | .radians, [x] => do ofFloat ((← float x) * (3.141592653589793 / 180))
  | .degrees, [x] => do ofFloat ((← float x) * (180 / 3.141592653589793))
  | .smoothstep, [edge0, edge1, x] => do
    let t ← unitStep edge0 edge1 x
    arithmeticOf do (← t.mul t).mul (← (Number.int 3).sub (← (Number.int 2).mul t))
  | .smootherstep, [edge0, edge1, x] => do
    let t ← unitStep edge0 edge1 x
    let inner ← ofExcept do
      (← t.mul (← (← t.mul (.int 6)).sub (.int 15))).add (.int 10)
    arithmeticOf do (← (← t.mul t).mul t).mul inner
  | _, _ => refuse

/-- The constants of the namespace `math`. -/
def MathFunction.constants : List (String × Float) :=
  [("PI", 3.141592653589793), ("TAU", 6.283185307179586), ("E", 2.718281828459045),
   ("EPSILON", 2.220446049250313e-16), ("INFINITY", 1 / 0)]

end EventScript
