import EventScript.Library.Lists

/-! # Functions that draw

The functions of the namespace `random`.  All of them draw from the one generator of the session,
in the order in which their results are built; what was drawn before a refusal stays drawn.
-/

namespace EventScript

namespace Library

open Eval

/-- Draw a number in `[0, 1)`. -/
def drawUnit : Eval Number := return .float (← draw Generator.unit)

/-- Draw a floating point number in `[0, 1)`. -/
def drawFloat : Eval Float := draw Generator.unit

/-- Draw an angle. -/
def drawAngle : Eval Float := return (← drawFloat) * Generator.fullTurn

/-- Draw an integer between two bounds, both included. -/
def drawBetween (lo hi : Int) : Eval Int := do
  if hi < lo then fault .wrongValue
  else return lo + (← draw (Generator.below (hi - lo + 1).toNat))

/-- Draw a fraction of an extent. -/
def drawWithin (extent : Value) : Eval Value := do
  let u ← drawUnit
  ofNumber (← ofExcept (u.mul (← number extent)))

/-- Pick the item at which the weights, taken off one after the other, have used up what was
    drawn. -/
def pickWeighted {m : Type → Type} [Monad m] {ι α β : Type} (take : α → β → m α)
    (isUsedUp : α → Bool) (remaining : α) : List (ι × β) → m (Option ι)
  | [] => return none
  | (item, weight) :: rest => do
    let remaining ← take remaining weight
    if isUsedUp remaining then return some item else pickWeighted take isUsedUp remaining rest

/-- Take the number that a weight counts as off another one. -/
def takeWeight (remaining : Number) (weight : Value) : Eval Number := do
  ofExcept (remaining.sub (← number weight))

/-- Draw an item with a probability in proportion to its weight. -/
def drawWeighted (v weights : Value) : Eval Value := do
  if !(← isSomething v) then return .null
  let u ← drawUnit
  let total ← totalFrom (.int 0) (← items weights)
  let remaining ← ofExcept (u.mul total)
  match ← pickWeighted takeWeight (·.le (.int 0)) remaining ((← items v).zip (← items weights)) with
  | some item => return item
  -- by rounding the weights may not use up all that was drawn
  | none => lastItem v

/-- Draw items one after the other, each from all of them. -/
def drawChoices (v : Value) (n : Nat) : Nat → Eval (List Value)
  | 0 => return []
  | k + 1 => do
    let place := ((← drawFloat) * Float.ofNat n).floor.toUInt64.toNat
    let item ← itemAt v place
    return item :: (← drawChoices v n k)

/-- The sequences that a sample can be drawn from: lists and strings. -/
def population (v : Value) : Eval (List Value) := do
  match v with
  | .map _ => refuse
  | v => items v

/-- Draw a point on the unit sphere: its direction around and its height. -/
def drawDirection : Eval (Float × Float) := do
  let theta ← drawAngle
  let phi := Float.acos (2 * (← drawFloat) - 1)
  return (theta, phi)

/-- A radius times a factor, both from a draw. -/
def scaledBy (x : Float) (radius : Value) : Eval Float := do
  ofExcept (← ofExcept ((Number.float x).mul (← number radius))).toFloat

end Library

open Library Eval

/-- What a function that draws does. -/
def RandomFunction.apply (f : RandomFunction) (args : List Value) : Eval Value := do
  match f, args with
  | .random, [] => do ofNumber (← drawUnit)
  | .int, [lo, hi] => do
    -- the bounds are rounded towards each other
    let lo ← ofExcept (← number lo).ceiling
    let hi ← ofExcept (← number hi).floor
    return .int (← drawBetween lo hi)
  | .float, [lo, hi] => do
    let u ← drawUnit
    let lo ← number lo
    let hi ← number hi
    ofNumber (← ofExcept do (← u.mul (← hi.sub lo)).add lo)
  | .bool, [] => return .bool ((← drawUnit).lt (.float 0.5))
  | .bool, [probability] => do
    let u ← drawUnit
    return .bool (u.lt (← number probability))
  | .choice, [v] => do
    if !(← isSomething v) then return .null
    let n ← size v
    itemAt v (← draw (Generator.below n))
  | .choices, [v, count] => do
    if !(← isSomething v) then listOf []
    else
      let k ← integer count
      let n ← size v
      listOf (← drawChoices v n k.toNat)
  | .sample, [v, count] => do
    -- at most everything is drawn
    let k := min (← integer count) (← size v)
    let vs ← population v
    if k < 0 then fault .wrongValue
    else listOf (← draw (Generator.sample vs.toArray k.toNat))
  | .shuffle, [v] => shuffled v
  | .gaussian, args => do
    if args.length > 2 then refuse
    let z ← draw Generator.normal
    let mean ← number (args.headD (.int 0))
    let deviation ← number ((args.drop 1).headD (.int 1))
    ofNumber (← ofExcept do mean.add (← (Number.float z).mul deviation))
  | .weighted, [v, weights] => drawWeighted v weights
  | .angle, [] => do ofFloat (← drawAngle)
  | .unitVector2d, [] => do
    let theta ← drawAngle
    listOfFloats [theta.cos, theta.sin]
  | .unitVector3d, [] => do
    let (theta, phi) ← drawDirection
    listOfFloats [phi.sin * theta.cos, phi.sin * theta.sin, phi.cos]
  | .inCircle, args => do
    if args.length > 1 then refuse
    let r ← scaledBy (← drawFloat).sqrt (args.headD (.int 1))
    let theta ← drawAngle
    listOfFloats [r * theta.cos, r * theta.sin]
  | .inSphere, args => do
    if args.length > 1 then refuse
    let (theta, phi) ← drawDirection
    let r ← scaledBy ((← drawFloat).pow (1 / 3)) (args.headD (.int 1))
    listOfFloats [r * phi.sin * theta.cos, r * phi.sin * theta.sin, r * phi.cos]
  | .inRect, [width, height] => do listOf [← drawWithin width, ← drawWithin height]
  | .inBox, [width, height, depth] => do
    listOf [← drawWithin width, ← drawWithin height, ← drawWithin depth]
  | _, _ => refuse

end EventScript
