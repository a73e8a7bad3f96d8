import EventScript.Fault
import EventScript.Number.Binary

/-! # Numbers

A number of the language is an unbounded integer or a floating point number.  The sum, difference
and product of two integers are integers; as soon as one operand is a floating point number, the
other is rounded to one first.  A quotient is always a floating point number, rounded once even
for huge integers.  Comparisons between the two kinds are exact.
-/

namespace EventScript

/-- An unbounded integer or a floating point number. -/
inductive Number
  | int (n : Int)
  | float (x : Float)

namespace Number

/-- The number as a floating point number, rounded to nearest. -/
def toFloat : Number → Except Fault Float
  | int n => (Binary.ofInt? n).elim (throw .overflow) pure
  | float x => pure x

/-- The number is zero, of either kind and sign. -/
def isZero : Number → Bool
  | int n => n == 0
  | float x => x == 0

/-- The number is not a number. -/
def isNaN : Number → Bool
  | int _ => false
  | float x => x.isNaN

/-- The integer of the same value, if the number is whole. -/
def whole? : Number → Option Int
  | int n => some n
  | float x => (Binary.ofFloat? x).bind fun b => if b.isWhole then some b.truncate else none

/-- The exact order of two numbers; a not-a-number has no order with anything. -/
def compare? : Number → Number → Option Ordering
  | int m, int n => some (compare m n)
  | float x, float y =>
    if x < y then some .lt else if x == y then some .eq else if x > y then some .gt else none
  | int n, float x =>
    match Binary.ofFloat? x with
    | some b => some (Binary.compareInt n b)
    | none => if x.isNaN then none else some (if x > 0 then .lt else .gt)
  | float x, int n =>
    match Binary.ofFloat? x with
    | some b => some (Binary.compareInt n b).swap
    | none => if x.isNaN then none else some (if x > 0 then .gt else .lt)

/-- The two numbers are equal as exact values. -/
def eq (a b : Number) : Bool := a.compare? b == some .eq

/-- The first number is below the second. -/
def lt (a b : Number) : Bool := a.compare? b == some .lt

theorem lt_int (m n : Int) : (int m).lt (int n) = decide (m < n) := by
  rw [lt, compare?, Bool.eq_iff_iff, beq_iff_eq, decide_eq_true_iff, Option.some.injEq]
  exact Int.compare_eq_lt

/-- The first number is not above the second. -/
def le (a b : Number) : Bool := a.lt b || a.eq b

/-- Apply an operation that integers keep to themselves. -/
@[inline] def arithmetic (onInts : Int → Int → Int) (onFloats : Float → Float → Float) :
    Number → Number → Except Fault Number
  | int m, int n => pure (int (onInts m n))
  | a, b => return float (onFloats (← a.toFloat) (← b.toFloat))

/-- The sum. -/
def add : Number → Number → Except Fault Number := arithmetic (· + ·) (· + ·)

/-- The difference. -/
def sub : Number → Number → Except Fault Number := arithmetic (· - ·) (· - ·)

/-- The product. -/
def mul : Number → Number → Except Fault Number := arithmetic (· * ·) (· * ·)

/-- The quotient, always a floating point number; the divisor must not be zero. -/
def div (a b : Number) : Except Fault Number :=
  if b.isZero then throw .zeroDivisor
  else match a, b with
    | int m, int n => (Binary.divide? m n).elim (throw .overflow) fun x => pure (float x)
    | a, b => return float ((← a.toFloat) / (← b.toFloat))

/-- The remainder of a division of floating point numbers that is cut towards zero; an infinite
    dividend has none, and a finite number divided by an infinite one remains itself. -/
def floatRemainder (x y : Float) : Except Fault Float :=
  match Binary.ofFloat? x, Binary.ofFloat? y with
  | some a, some b => pure (a.remainder b)
  | some _, none => pure (if y.isNaN then y else x)
  | none, _ => if x.isNaN || y.isNaN then pure (x + y) else throw .wrongValue

/-- The remainder with the sign of the dividend, computed on floating point numbers and turned
    back into an integer when both operands are integers. -/
def rem (a b : Number) : Except Fault Number := do
  let r ← floatRemainder (← a.toFloat) (← b.toFloat)
  match a, b with
  | int _, int _ => pure (int ((Binary.ofFloat? r).elim 0 Binary.truncate))
  | _, _ => pure (float r)

/-- The opposite number. -/
def neg : Number → Number
  | int n => int (-n)
  | float x => float (-x)

/-- The distance from zero. -/
def abs : Number → Number
  | int n => int n.natAbs
  | float x => float x.abs

/-- Apply a rounding to an integer. -/
@[inline] def rounded (round : Binary → Int) : Number → Except Fault Int
  | int n => pure n
  | float x =>
    match Binary.ofFloat? x with
    | some b => pure (round b)
    | none => throw (if x.isNaN then .wrongValue else .overflow)

/-- The largest integer not above the number. -/
def floor : Number → Except Fault Int := rounded Binary.floor

/-- The smallest integer not below the number. -/
def ceiling : Number → Except Fault Int := rounded Binary.ceiling

/-- The number without its fraction, as an integer. -/
def truncate : Number → Except Fault Int := rounded Binary.truncate

/-- The nearest integer; a half goes up. -/
def roundHalfUp (a : Number) : Except Fault Int := do
  let below ← a.floor
  match a with
  | int _ => pure below
  | float x => return if x - (← (int below).toFloat) ≥ 0.5 then below + 1 else below

/-- An integer is its own floor, ceiling and truncation. -/
@[simp] theorem rounded_int (round : Binary → Int) (n : Int) : rounded round (int n) = .ok n := rfl

end Number

end EventScript
