import EventScript.Store

/-! # Truth and equality

Null, false, zero, the empty string and the empty list count as false.  Two values are equal when
they are of one kind and have equal parts; functions, natives, schemas and instances are equal only
to themselves, and so is a result that is not a number.
-/

namespace EventScript

namespace Store

/-- The value counts as true. -/
def isTruthy (s : Store) : Value → Bool
  | .null => false
  | .bool b => b
  | .number n => !n.isZero
  | .text t => !t.isEmpty
  | .list r => !(s.list r).isEmpty
  | _ => true

/-- Two values are equal, where they hold no values at a depth of more than a bound. -/
def equalFrom (s : Store) : Nat → Value → Value → Bool
  | _, .null, .null => true
  | _, .bool a, .bool b => a == b
  | _, .number m, .number n => m.eq n
  | _, .nan m, .nan n => m == n
  | _, .text a, .text b => a == b
  | _, .function a, .function b => a == b
  | _, .native a, .native b => a == b
  | _, .schema a, .schema b => a == b
  | _, .inst a, .inst b => a == b
  | 0, .list a, .list b => a == b
  | depth + 1, .list a, .list b =>
    a == b ||
      ((s.list a).size == (s.list b).size &&
        ((s.list a).toList.zip (s.list b).toList).all fun p => equalFrom s depth p.1 p.2)
  | 0, .map a, .map b => a == b
  | depth + 1, .map a, .map b =>
    a == b ||
      ((s.map a).size == (s.map b).size &&
        (s.map a).entries.all fun e =>
          match (s.map b).getAlike? e.1 with
          | some v => equalFrom s depth e.2 v
          | none => false)
  | _, _, _ => false

/-- Two values are equal. -/
def equal (s : Store) (a b : Value) : Bool := s.equalFrom s.depthBound a b

end Store

end EventScript
