import EventScript.Evaluate.Task
import EventScript.Number.Numeral

/-! # What natives make of their arguments

Natives are more lenient than the operators of the language.  Truth values count as the integers
zero and one; strings and maps can be visited like lists, a map by its keys; places and counts may
be given by any number or by a numeral.  Two values are alike when they are so as plain data, and
some values of one kind have an order.
-/

namespace EventScript

/-- Identity of values: plain data of equal content, or one object. -/
def Value.isSame : Value → Value → Bool
  | null, null => true
  | bool a, bool b => a == b
  | nan m, nan n => m == n
  | text a, text b => a == b
  | list a, list b => a == b
  | map a, map b => a == b
  | function a, function b => a == b
  | native a, native b => a == b
  | schema a, schema b => a == b
  | inst a, inst b => a == b
  | _, _ => false

/-- The number that a value counts as; truth values count as zero and one. -/
def Value.counted? : Value → Option Number
  | bool b => some (.int (if b then 1 else 0))
  | v => v.number?

namespace Store

/-- Two values are alike as plain data, up to a depth. -/
def alikeFrom (s : Store) : Nat → Value → Value → Bool
  | 0, a, b => a.isSame b
  | depth + 1, a, b =>
    match a, b with
    | .list p, .list q =>
      p == q ||
        ((s.list p).size == (s.list q).size &&
          ((s.list p).toList.zip (s.list q).toList).all fun e =>
            e.1.isSame e.2 || alikeFrom s depth e.1 e.2)
    | .map p, .map q =>
      p == q ||
        ((s.map p).size == (s.map q).size &&
          (s.map p).entries.all fun e =>
            match (s.map q).getAlike? e.1 with
            | some v => e.2.isSame v || alikeFrom s depth e.2 v
            | none => false)
    | .nan _, _ => false
    | a, b =>
      match a.counted?, b.counted? with
      | some m, some n => m.eq n
      | _, _ => a.isSame b

/-- Two values are alike as plain data. -/
def alike (s : Store) (a b : Value) : Bool := s.alikeFrom s.depthBound a b

/-- The first value is below the second, up to a depth: numbers by size, strings by code points,
    lists by the first items that differ. -/
def belowFrom (s : Store) : Nat → Value → Value → Except Fault Bool
  | 0, _, _ => throw .wrongKind
  | depth + 1, a, b =>
    match a, b with
    | .text a, .text b => return a < b
    | .list p, .list q =>
      let xs := (s.list p).toList
      let ys := (s.list q).toList
      match (xs.zip ys).find? fun e => !(e.1.isSame e.2 || s.alike e.1 e.2) with
      | some (x, y) => belowFrom s depth x y
      | none => return xs.length < ys.length
    | a, b =>
      match a.counted?, b.counted? with
      | some m, some n => return m.lt n
      | _, _ => throw .wrongKind

/-- The first value is below the second. -/
def below (s : Store) (a b : Value) : Except Fault Bool := s.belowFrom s.depthBound a b

/-- Whether a value counts as something: nothing, zero and what is empty do not. -/
def isSomething (s : Store) : Value → Bool
  | .null => false
  | .bool b => b
  | .number n => !n.isZero
  | .text t => !t.isEmpty
  | .list r => !(s.list r).isEmpty
  | .map r => !(s.map r).entries.isEmpty
  | _ => true

/-- The items of what can be visited: of a list, the characters of a string, the keys of a map. -/
def items? (s : Store) : Value → Option (List Value)
  | .list r => some (s.list r).toList
  | .text t => some (t.toList.map fun c => .text (String.singleton c))
  | .map r => some ((s.map r).keys.map Key.value)
  | _ => none

/-- The number of items of what has a size. -/
def size? (s : Store) : Value → Option Nat
  | .list r => some (s.list r).size
  | .text t => some t.length
  | .map r => some (s.map r).size
  | _ => none

end Store

/-- The place in a sequence of `n` items that an index means: a negative one counts from the end,
    and it is kept within the sequence. -/
def clampIndex (n : Nat) (i : Int) : Nat :=
  if i < 0 then (n + i).toNat else min i.toNat n

/-- The part of a sequence between two indexes, where a missing one means the start or the end. -/
def sliceOf {α : Type} (xs : List α) (start stop : Option Int) : List α :=
  let lo := start.elim 0 (clampIndex xs.length)
  let hi := stop.elim xs.length (clampIndex xs.length)
  (xs.drop lo).take (hi - lo)

namespace Library

open Eval

/-- Refuse the arguments. -/
def refuse {α : Type} : Eval α := fault .wrongKind

/-- Give the value of an option, or refuse the arguments. -/
def orRefuse {α : Type} : Option α → Eval α
  | some a => pure a
  | none => refuse

/-- An argument that must be a number. -/
def number (v : Value) : Eval Number := orRefuse v.counted?

/-- An argument that must be a number, as a floating point one. -/
def float (v : Value) : Eval Float := do ofExcept (← number v).toFloat

/-- An argument that must give an integer: a number without its fraction, or a numeral. -/
def integer (v : Value) : Eval Int := do
  match v with
  | .text t =>
    match Numeral.integer? t.toList with
    | some n => return n
    | none => fault .wrongValue
  | v => ofExcept (← number v).truncate

/-- An argument that may be null and else must give an integer. -/
def integer? : Value → Eval (Option Int)
  | .null => return none
  | v => some <$> integer v

/-- An argument that must be a string. -/
def text : Value → Eval String
  | .text t => pure t
  | _ => refuse

/-- An argument whose string operations are used: anything but a string lacks them. -/
def member : Value → Eval String
  | .text t => pure t
  | _ => fault .noMember

/-- An argument that must be visited. -/
def items (v : Value) : Eval (List Value) := do orRefuse (← read fun s => s.items? v)

/-- An argument that must have a size. -/
def size (v : Value) : Eval Nat := do orRefuse (← read fun s => s.size? v)

/-- Two arguments are alike. -/
def alike (a b : Value) : Eval Bool := read fun s => s.alike a b

/-- The first argument is below the second. -/
def below (a b : Value) : Eval Bool := do ofExcept (← read fun s => s.below a b)

/-- What counts as a number is below an integer if the number is. -/
theorem below_int {v : Value} {m : Number} (h : v.counted? = some m) (n : Int) (w : World) :
    below v (.int n) w = .ok (m.lt (.int n)) w := by
  cases v with
  | bool b => cases h; rfl
  | number m => cases h; rfl
  | nan mark => cases h; rfl
  | _ => cases h

/-- An argument counts as something. -/
def isSomething (v : Value) : Eval Bool := read fun s => s.isSomething v

/-- Characters as a string value. -/
def ofChars (cs : List Char) : Value := .text (String.ofList cs)

/-- Values as a new list. -/
def listOf (vs : List Value) : Eval Value := newList vs.toArray

/-- Floating point numbers as a new list. -/
def listOfFloats (xs : List Float) : Eval Value := do listOf (← xs.mapM ofFloat)

/-- The item at a place of a sequence that has it; a map has no places. -/
def itemAt (v : Value) (place : Nat) : Eval Value := do
  match v with
  | .list r => orRefuse ((← read fun s => s.list r)[place]?)
  | .text t => orRefuse (t.toList[place]?.map fun c => .text (String.singleton c))
  | .map r =>
    -- a place finds an entry only under a key that counts as that number
    match (← read fun s => s.map r).entries.find? fun e => e.1.isAlike (.int place) with
    | some (_, v) => return v
    | none => fault .noEntry
  | _ => refuse

/-- The smallest of some values: the first one that no later one is below. -/
def smallestFrom (v : Value) : List Value → Eval Value
  | [] => return v
  | w :: rest => do smallestFrom (if ← below w v then w else v) rest

/-- The largest of some values: the first one that is below no later one. -/
def largestFrom (v : Value) : List Value → Eval Value
  | [] => return v
  | w :: rest => do largestFrom (if ← below v w then w else v) rest

/-- The sum of some values onto a number. -/
def totalFrom (n : Number) : List Value → Eval Number
  | [] => return n
  | v :: rest => do totalFrom (← ofExcept (n.add (← number v))) rest

/-- Half of the number of words of 64 bits. -/
def wordHalf : Int := 9223372036854775808

/-- Repeat a sequence; a negative count counts as zero, and a count of more than a word is none. -/
def repeated {α : Type} (xs : List α) (count : Int) : Eval (List α) :=
  if count < -wordHalf || wordHalf ≤ count then fault .overflow
  else if (count.toNat * xs.length) >>> 32 > 0 then fault .outOfMemory
  else pure (List.replicate count.toNat xs).flatten

/-- The product of two numbers, or of a sequence and an integer, which repeats it. -/
def times (a b : Value) : Eval Value := do
  let repeats (v : Value) (n : Number) : Eval Value := do
    match v, n with
    | .text t, .int n => return ofChars (← repeated t.toList n)
    | .list r, .int n => listOf (← repeated (← read fun s => s.list r).toList n)
    | _, _ => refuse
  match a.counted?, b.counted? with
  | some m, some n => ofNumber (← ofExcept (m.mul n))
  | some n, none => repeats b n
  | none, some n => repeats a n
  | none, none => refuse

/-- An infinity as a value. -/
def infinity (negative : Bool) : Value := .number (.float (Binary.signed negative (1 / 0)))

/-- The smallest argument, or infinity without arguments. -/
def smallest : List Value → Eval Value
  | [] => return infinity false
  | v :: rest => smallestFrom v rest

/-- The largest argument, or minus infinity without arguments. -/
def largest : List Value → Eval Value
  | [] => return infinity true
  | v :: rest => largestFrom v rest

/-- Draw from the random generator. -/
def draw {α : Type} (d : Generator.Draw α) : Eval α := fun w =>
  let (a, g) := d w.generator
  .ok a { w with generator := g }

end Library

end EventScript
