/-! # Exact values of floating point numbers

A finite floating point number is `± mantissa * 2 ^ exponent`.  `Binary.ofFloat?` takes a number
apart, and `nearest?` gives the number nearest to a fraction, a tie going to the even mantissa;
with both, conversions, comparisons, remainders and roundings are exact integer arithmetic.
-/

namespace EventScript

/-- A finite floating point number, `± mantissa * 2 ^ exponent`. -/
structure Binary where
  negative : Bool
  mantissa : Nat
  exponent : Int
  /-- The gap to the next number towards zero is half of the gap on the other side. -/
  narrowBelow : Bool

namespace Binary

/-- The leading bit of a mantissa of 53 bits, which is not written. -/
def hidden : Nat := 1 <<< 52

/-- Take a number apart; infinities and not-a-number have no exact value. -/
def ofFloat? (x : Float) : Option Binary :=
  let bits := x.toBits.toNat
  let negative := bits >>> 63 == 1
  let field : Nat := (bits >>> 52) % 2048
  let fraction : Nat := bits % hidden
  if field = 2047 then none
  else if field = 0 then some ⟨negative, fraction, -1074, false⟩
  else some ⟨negative, fraction + hidden, (field : Int) - 1075, fraction = 0 && field > 1⟩

/-- Numerator and denominator of `n * 2 ^ e`. -/
def scale (n : Nat) (e : Int) : Nat × Nat :=
  match e with
  | .ofNat e => (n <<< e, 1)
  | .negSucc e => (n, 1 <<< (e + 1))

/-- The integer of smallest distance to a quotient, of two the even one. -/
def roundDivEven (num den : Nat) : Nat :=
  let q := num / den
  let r := num % den
  if 2 * r > den || (2 * r == den && q % 2 == 1) then q + 1 else q

/-- A rounded quotient is at most half a unit away. -/
theorem roundDivEven_near (num : Nat) {den : Nat} (h : 0 < den) :
    2 * num ≤ (2 * roundDivEven num den + 1) * den ∧
      2 * roundDivEven num den * den ≤ 2 * num + den := by
  have hdm := Nat.div_add_mod num den
  have hlt := Nat.mod_lt num h
  rw [Nat.mul_comm] at hdm
  unfold roundDivEven
  simp only
  split
  · rename_i hc
    simp only [Bool.or_eq_true, decide_eq_true_eq, Bool.and_eq_true, beq_iff_eq] at hc
    constructor <;> grind
  · rename_i hc
    simp only [Bool.or_eq_true, decide_eq_true_eq, Bool.and_eq_true, beq_iff_eq, not_or,
      Nat.not_lt] at hc
    constructor <;> grind

/-- The floating point number nearest to `num / den`, a tie going to the even mantissa; none when
    the quotient is too large. -/
def nearest? (num den : Nat) : Option Float :=
  if num = 0 then some 0
  else
    let guess : Int := (num.log2 : Int) - den.log2 - 53
    let quotient (e : Int) (round : Nat → Nat → Nat) : Nat :=
      round (num <<< (-e).toNat) (den <<< e.toNat)
    let tight := if quotient guess (· / ·) ≥ 2 * hidden then guess + 1 else guess
    let e := max tight (-1074)
    let rounded := quotient e roundDivEven
    let (m, e) := if rounded = 2 * hidden then (hidden, e + 1) else (rounded, e)
    if e > 971 then none
    else if m < hidden then some (Float.ofBits (UInt64.ofNat m))
    else some (Float.ofBits (UInt64.ofNat ((e + 1075).toNat * hidden + (m - hidden))))

/-- Give a number its sign. -/
def signed (negative : Bool) (x : Float) : Float := if negative then -x else x

/-- The floating point number nearest to an integer; none when it is too large. -/
def ofInt? (n : Int) : Option Float := (nearest? n.natAbs 1).map (signed (n < 0))

/-- The quotient of two integers, rounded once; none when it is too large. -/
def divide? (n d : Int) : Option Float :=
  (nearest? n.natAbs d.natAbs).map (signed ((n < 0) != (d < 0)))

/-- The largest integer that is not above the number. -/
def floor (b : Binary) : Int :=
  let (num, den) := scale b.mantissa b.exponent
  if b.negative then -((num + den - 1) / den : Nat) else (num / den : Nat)

/-- The number without its fraction. -/
def truncate (b : Binary) : Int :=
  let (num, den) := scale b.mantissa b.exponent
  if b.negative then -(num / den : Nat) else (num / den : Nat)

/-- The smallest integer that is not below the number. -/
def ceiling (b : Binary) : Int :=
  let (num, den) := scale b.mantissa b.exponent
  if b.negative then -(num / den : Nat) else ((num + den - 1) / den : Nat)

/-- The number is whole. -/
def isWhole (b : Binary) : Bool :=
  let (num, den) := scale b.mantissa b.exponent
  num % den == 0

/-- Order of an integer and an exact value. -/
def compareInt (n : Int) (b : Binary) : Ordering :=
  let (num, den) := scale b.mantissa b.exponent
  compare (n * den) (if b.negative then -(num : Int) else num)

/-- The remainder of a division that is cut towards zero: it has the sign of the dividend and is
    exact. -/
def remainder (x y : Binary) : Float :=
  let e := min x.exponent y.exponent
  let r := (x.mantissa <<< (x.exponent - e).toNat) % (y.mantissa <<< (y.exponent - e).toNat)
  let (num, den) := scale r e
  signed x.negative ((nearest? num den).getD 0)

end Binary

end EventScript
