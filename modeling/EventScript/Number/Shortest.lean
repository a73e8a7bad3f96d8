import EventScript.Number.Binary

/-! # The fewest digits that identify a number

Of the decimals that round to a given floating point number, the one with the fewest digits is
chosen, of several with that many the nearest to the number, and of two equally near the one with
an even last digit.
-/

namespace EventScript.Decimal

/-- A decimal `0.d₁d₂… * 10 ^ scale`: its digits as a number without final zeros, how many there
    are, and the scale. -/
structure Digits where
  digits : Nat
  count : Nat
  scale : Int

/-- Compare `a * 2 ^ p` with `b * 10 ^ q`. -/
def compareScaled (a : Nat) (p : Int) (b : Nat) (q : Int) : Ordering :=
  compare ((a <<< p.toNat) * Nat.pow 10 (-q).toNat) ((b * Nat.pow 10 q.toNat) <<< (-p).toNat)

/-- The decimal `d * 10 ^ q` lies in the interval of the reals that round to the number; its ends
    belong to it exactly when the mantissa is even. -/
def readsBack (b : Binary) (d : Nat) (q : Int) : Bool :=
  let low := compareScaled (4 * b.mantissa - if b.narrowBelow then 1 else 2) (b.exponent - 2) d q
  let high := compareScaled (4 * b.mantissa + 2) (b.exponent - 2) d q
  if b.mantissa % 2 = 0 then low != .gt && high != .lt else low == .lt && high == .gt

/-- The least `k` from a start with the number below `10 ^ k`. -/
def scaleFrom (b : Binary) (k : Int) : Nat → Int
  | 0 => k
  | fuel + 1 =>
    if compareScaled b.mantissa b.exponent 1 k == .lt then k else scaleFrom b (k + 1) fuel

/-- The least `k` with the number below `10 ^ k`. -/
def scaleOf (b : Binary) : Int :=
  let binary : Int := b.mantissa.log2 + b.exponent
  scaleFrom b (Int.fdiv (binary * 30103) 100000 - 1) 8

/-- The better of the two neighbours of the number on the grid `10 ^ q`, if one of them reads
    back. -/
def onGrid? (b : Binary) (q : Int) : Option Nat :=
  let num := (b.mantissa <<< b.exponent.toNat) * Nat.pow 10 (-q).toNat
  let den := (Nat.pow 10 q.toNat) <<< (-b.exponent).toNat
  let below := num / den
  match readsBack b below q, readsBack b (below + 1) q with
  | false, false => none
  | true, false => some below
  | false, true => some (below + 1)
  | true, true => some (Binary.roundDivEven num den)

/-- Drop the final zeros of a number that is not zero. -/
def dropZeros (d : Nat) : Nat → Nat
  | 0 => d
  | fuel + 1 => if d % 10 = 0 then dropZeros (d / 10) fuel else d

/-- Search the grids of `n`, `n + 1`, … digits below `10 ^ k`. -/
def searchFrom (b : Binary) (k : Int) (n : Nat) : Nat → Digits
  | 0 => ⟨(Binary.truncate b).natAbs, 1, k⟩
  | fuel + 1 =>
    match onGrid? b (k - n) with
    | some d =>
      -- the upper neighbour may be the power of ten itself
      let k := if d = Nat.pow 10 n then k + 1 else k
      let d := dropZeros d n
      ⟨d, (Nat.toDigits 10 d).length, k⟩
    | none => searchFrom b k (n + 1) fuel

/-- The fewest digits that identify a number other than zero. -/
def shortest (b : Binary) : Digits := searchFrom b (scaleOf b) 1 17

end EventScript.Decimal
