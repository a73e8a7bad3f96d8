import EventScript.Library.Operand

/-! # Vectors

The functions of the namespace `vec`.  A vector is a list of numbers; the results are vectors of
floating point numbers.  Of two vectors of different lengths the shorter one is filled up.
-/

namespace EventScript

namespace Library

open Eval

/-- An argument that must be a vector, under the name that the diagnostic gives it. -/
def vector (name : String) (v : Value) : Eval (List Float) := do
  let wrong : Eval (List Float) := problem (.notAVector name) none
  match v with
  | .list r =>
    let vs := (← read fun s => s.list r).toList
    if vs.all Value.isNumber then vs.mapM float else wrong
  | _ => wrong

/-- Fill up a vector to a length. -/
def filledTo (length : Nat) (filler : Float) (xs : List Float) : List Float :=
  xs ++ List.replicate (length - xs.length) filler

/-- Combine two vectors item by item, the shorter one filled up. -/
def combine (f : Float → Float → Float) (fillB : Float) (xs ys : List Float) : List Float :=
  let n := max xs.length ys.length
  List.zipWith f (filledTo n 0 xs) (filledTo n fillB ys)

/-- The sum of the products of the items of two vectors, as far as both go. -/
def dotProduct (xs ys : List Float) : Float :=
  (List.zipWith (· * ·) xs ys).foldl (· + ·) 0

/-- The length of a vector. -/
def norm (xs : List Float) : Float := (dotProduct xs xs).sqrt

/-- Two arguments that must be vectors. -/
def twoVectors (a b : Value) : Eval (List Float × List Float) :=
  return (← vector "First argument" a, ← vector "Second argument" b)

/-- What is combined with each item of a vector: one number for all, or one for each. -/
inductive Spread
  | one (x : Float)
  | each (xs : List Float)

/-- An argument to be combined with each of a number of items.  Where there are no items, only
    strings are refused. -/
def spread (n : Nat) (v : Value) : Eval Spread := do
  match v with
  | .list r => return .each (← (← read fun s => s.list r).toList.mapM float)
  | .text _ => refuse
  | v =>
    match v.counted? with
    | some m => return .one (← ofExcept m.toFloat)
    | none => if n = 0 then return .one 0 else refuse

/-- Combine a vector with a spread argument; lengths must agree, or one of them is one. -/
def combineSpread (f : Float → Float → Float) (xs : List Float) : Spread → Eval (List Float)
  | .one y => return xs.map (f · y)
  | .each ys =>
    match xs, ys with
    | [x], ys => return ys.map (f x)
    | xs, [y] => return xs.map (f · y)
    | xs, ys => if xs.length = ys.length then return List.zipWith f xs ys else fault .wrongValue

/-- Raise a number to a lower bound that is above it; what is not a number wins. -/
def raisedTo (bound x : Float) : Float := if bound > x || bound.isNaN then bound else x

/-- Lower a number to an upper bound that is below it; what is not a number wins. -/
def loweredTo (bound x : Float) : Float := if bound < x || bound.isNaN then bound else x

/-- The vector product of two vectors in space. -/
def crossProduct (xs ys : List Float) : List Float :=
  match filledTo 3 0 xs, filledTo 3 0 ys with
  | a0 :: a1 :: a2 :: _, b0 :: b1 :: b2 :: _ =>
    [a1 * b2 - a2 * b1, a2 * b0 - a0 * b2, a0 * b1 - a1 * b0]
  | _, _ => []

/-- Scale a vector by a number, or multiply it item by item with another vector. -/
def product (a b : Value) : Eval (List Float) := do
  let xs ← vector "First argument" a
  match b.number? with
  | some n =>
    let y ← ofExcept n.toFloat
    return xs.map (· * y)
  | none => return combine (· * ·) 0 xs (← vector "Second argument" b)

/-- Divide a vector by a number, or item by item by another vector filled up with ones; no divisor
    may be zero. -/
def quotient (a b : Value) : Eval (List Float) := do
  let xs ← vector "First argument" a
  match b.number? with
  | some n =>
    if n.isZero then problem .divisionByZero none
    else
      let y ← ofExcept n.toFloat
      return xs.map (· / y)
  | none =>
    let ys ← vector "Second argument" b
    -- what is filled up are ones, so only given divisors can be zero
    if ys.any (· == 0) then problem .divisionByZero none
    else return combine (· / ·) 1 xs ys

/-- The angle between two vectors; with a vector of no length it is zero. -/
def angleBetween (xs ys : List Float) : Float :=
  let lx := norm xs
  let ly := norm ys
  if lx == 0 || ly == 0 then 0
  else
    let c := dotProduct xs ys / (lx * ly)
    Float.acos (if c < -1 then -1 else if c > 1 then 1 else c)

/-- The first two items of a vector, filled up with zeros. -/
def inPlane (xs : List Float) : Float × Float :=
  match filledTo 2 0 xs with
  | x :: y :: _ => (x, y)
  | _ => (0, 0)

/-- The sine and cosine of an argument. -/
def circular (v : Value) : Eval (Float × Float) := do
  let x ← float v
  if x.isInf then fault .wrongValue else return (x.cos, x.sin)

/-- Items of two vectors of one length differ by less than a bound. -/
def isNear (xs ys : List Float) (epsilon : Value) : Eval Value := do
  if xs.length ≠ ys.length then return .bool false
  let differences := List.zipWith (fun x y => (x - y).abs) xs ys
  let near ← combineSpread (fun d e => if d < e then 1 else 0) differences
    (← spread xs.length epsilon)
  return .bool (near.all (· == 1))

end Library

open Library Eval

/-- What a function on vectors does. -/
def VectorFunction.apply (f : VectorFunction) (args : List Value) : Eval Value := do
  match f, args with
  | .vec, vs => listOf vs
  | .vec2, args =>
    if args.length > 2 then refuse
    else listOf (args ++ List.replicate (2 - args.length) (.int 0))
  | .vec3, args =>
    if args.length > 3 then refuse
    else listOf (args ++ List.replicate (3 - args.length) (.int 0))
  | .add, [a, b] => do
    let (xs, ys) ← twoVectors a b
    listOfFloats (combine (· + ·) 0 xs ys)
  | .sub, [a, b] => do
    let (xs, ys) ← twoVectors a b
    listOfFloats (combine (· - ·) 0 xs ys)
  | .mul, [a, b] => do listOfFloats (← Library.product a b)
  | .div, [a, b] => do listOfFloats (← quotient a b)
  | .dot, [a, b] => do
    let (xs, ys) ← twoVectors a b
    ofFloat (dotProduct xs ys)
  | .cross, [a, b] => do
    let (xs, ys) ← twoVectors a b
    listOfFloats (crossProduct xs ys)
  | .length, [v] => do ofFloat (norm (← vector "Argument" v))
  | .lengthSq, [v] => do
    let xs ← vector "Argument" v
    ofFloat (dotProduct xs xs)
  | .normalize, [v] => do
    let xs ← vector "Argument" v
    let n := norm xs
    listOfFloats (xs.map fun x => if n == 0 then 0 else x / n)
  | .distance, [a, b] => do
    let (xs, ys) ← twoVectors a b
    ofFloat (norm (combine (· - ·) 0 xs ys))
  | .distanceSq, [a, b] => do
    let (xs, ys) ← twoVectors a b
    let ds := combine (· - ·) 0 xs ys
    ofFloat (dotProduct ds ds)
  | .lerp, [a, b, t] => do
    let (xs, ys) ← twoVectors a b
    let n := max xs.length ys.length
    let xs := filledTo n 0 xs
    let steps ← combineSpread (· * ·) (combine (· - ·) 0 ys xs) (← spread n t)
    listOfFloats (← combineSpread (· + ·) xs (.each steps))
  | .clamp, [v, lo, hi] => do
    let xs ← vector "First argument" v
    let raised ← combineSpread (fun x lo => raisedTo lo x) xs (← spread xs.length lo)
    listOfFloats (← combineSpread (fun x hi => loweredTo hi x) raised (← spread xs.length hi))
  | .negate, [v] => do listOfFloats ((← vector "Argument" v).map (-·))
  | .reflect, [v, normal] => do
    let (xs, ns) ← twoVectors v normal
    let d := 2 * dotProduct xs ns
    listOfFloats (combine (· - ·) 0 xs (ns.map (· * d)))
  | .angle, [a, b] => do
    let (xs, ys) ← twoVectors a b
    ofFloat (angleBetween xs ys)
  | .project, [a, b] => do
    let ys ← vector "Second argument" b
    let xs ← vector "First argument" a
    let square := dotProduct ys ys
    if square == 0 then listOfFloats (ys.map fun _ => 0)
    else
      let share := dotProduct xs ys / square
      listOfFloats (ys.map (· * share))
  | .perp2d, [v] => do
    let (x, y) := inPlane (← vector "Argument" v)
    listOfFloats [-y, x]
  | .rotate2d, [v, radians] => do
    let (x, y) := inPlane (← vector "Argument" v)
    let (c, s) ← circular radians
    listOfFloats [c * x - s * y, s * x + c * y]
  | .equals, [a, b] => do
    let (xs, ys) ← twoVectors a b
    isNear xs ys (.number (.float 0.0001))
  | .equals, [a, b, epsilon] => do
    let (xs, ys) ← twoVectors a b
    isNear xs ys epsilon
  | _, _ => refuse

/-- The constants of the namespace `vec`, in their order. -/
def VectorFunction.constants : List (String × List Int) :=
  [("ZERO2", [0, 0]), ("ZERO3", [0, 0, 0]), ("ONE2", [1, 1]), ("ONE3", [1, 1, 1]),
   ("UP", [0, 1, 0]), ("DOWN", [0, -1, 0]), ("LEFT", [-1, 0, 0]), ("RIGHT", [1, 0, 0]),
   ("FORWARD", [0, 0, -1]), ("BACK", [0, 0, 1])]

end EventScript
