import EventScript.World

/-! # Operators on values

The binary operators, apart from `and` and `or`, which may leave their right operand alone, and the
unary ones.  A plus with a string on either side joins the displays of both operands.
-/

namespace EventScript

namespace Evaluate

open Eval

/-- An operation on two numbers. -/
def onNumbers (operator : BinaryOperator) (left right : Value) (span : Span)
    (f : Number → Number → Except Fault Number) : Eval Value :=
  match left.number?, right.number? with
  | some m, some n => do ofNumber (← ofExcept (f m n))
  | _, _ => problem (.unsupportedOperands operator.symbol left.typeName right.typeName) (some span)

/-- An operation on two numbers of which the second must not be zero. -/
def onDivisor (operator : BinaryOperator) (left right : Value) (span : Span)
    (f : Number → Number → Except Fault Number) : Eval Value := do
  match left.number?, right.number? with
  | some _, some n => if n.isZero then problem .divisionByZero (some span)
  | _, _ => pure ()
  onNumbers operator left right span f

/-- A comparison of two numbers or two strings. -/
def compare (left right : Value) (span : Span) (onNumbers : Number → Number → Bool)
    (onTexts : String → String → Bool) : Eval Value :=
  match left, right with
  | .text a, .text b => return .bool (onTexts a b)
  | left, right =>
    match left.number?, right.number? with
    | some m, some n => return .bool (onNumbers m n)
    | _, _ => problem (.cannotCompare left.typeName right.typeName) (some span)

/-- The sum of numbers, the concatenation of lists, or the two displays joined. -/
def add (left right : Value) (span : Span) : Eval Value := do
  match left, right with
  | .text a, v => return .text (a ++ (← read fun s => s.display v))
  | v, .text b => return .text ((← read fun s => s.display v) ++ b)
  | .list p, .list q => do newList ((← read fun s => s.list p) ++ (← read fun s => s.list q))
  | left, right => onNumbers .plus left right span Number.add

/-- A binary operator on two operands. -/
def binary (operator : BinaryOperator) (left right : Value) (span : Span) : Eval Value := do
  match operator with
  | .and => return .bool ((← truth left) && (← truth right))
  | .or => return .bool ((← truth left) || (← truth right))
  | .equal => return .bool (← read fun s => s.equal left right)
  | .notEqual => return .bool !(← read fun s => s.equal left right)
  | .less => compare left right span Number.lt (· < ·)
  | .greater => compare left right span (fun m n => n.lt m) (· > ·)
  | .lessEqual => compare left right span Number.le (· ≤ ·)
  | .greaterEqual => compare left right span (fun m n => n.le m) (· ≥ ·)
  | .plus => add left right span
  | .minus => onNumbers .minus left right span Number.sub
  | .times => onNumbers .times left right span Number.mul
  | .divide => onDivisor .divide left right span Number.div
  | .remainder => onDivisor .remainder left right span Number.rem

/-- A unary operator on its operand. -/
def unary (operator : UnaryOperator) (v : Value) (span : Span) : Eval Value := do
  match operator with
  | .not => return .bool !(← truth v)
  | .negate =>
    match v.number? with
    | some n => ofNumber n.neg
    | none => problem (.cannotNegate v.typeName) (some span)

end Evaluate

end EventScript
