import EventScript.Evaluate.Operator
import EventScript.Proofs.Number.Bits

/-! # Remainders of integers

A remainder is computed on floating point numbers, also that of two integers: both are rounded, the
remainder of the rounded numbers is taken, which is exact, and the result is turned back into an
integer.  `nearestInt` is what an integer is rounded to; the result is right for operands that are
not changed by that, in particular up to `2 ^ 53`.

* `Exact`                        a floating point number has a whole value
* `exists_ofInt?`                an integer is rounded to the nearest floating point number
* `exact_remainder`              remainders of whole floating point numbers are exact
* `binary_remainder_int`         the remainder of two integers
-/

namespace EventScript

namespace Binary

/-! ## Whole values -/

/-- `m * 2 ^ e` is a natural number. -/
def StandsFor (m : Nat) (e : Int) (n : Nat) : Prop := m * 2 ^ e.toNat = n * 2 ^ (-e).toNat

variable {m n : Nat} {e : Int}

/-- The power of two may be distributed over both sides in every way. -/
theorem standsFor_iff {a b : Nat} (h : (a : Int) - b = e) :
    StandsFor m e n ↔ m * 2 ^ a = n * 2 ^ b := by
  obtain ⟨d, ha⟩ : ∃ d, a = e.toNat + d := ⟨a - e.toNat, by omega⟩
  have hb : b = (-e).toNat + d := by omega
  rw [ha, hb, Nat.pow_add, Nat.pow_add, ← Nat.mul_assoc, ← Nat.mul_assoc,
    Nat.mul_left_inj (Nat.two_pow_pos d).ne']
  rfl

/-- A mantissa may be made longer. -/
theorem StandsFor.shift (h : StandsFor m e n) {e' : Int} (he : e' ≤ e) :
    StandsFor (m <<< (e - e').toNat) e' n := by
  have hall : m * 2 ^ ((e - e').toNat + e'.toNat) = n * 2 ^ (-e').toNat :=
    (standsFor_iff (by omega)).mp h
  rw [Nat.pow_add, ← Nat.mul_assoc] at hall
  rw [Nat.shiftLeft_eq]
  exact hall

/-- A remainder at one exponent is the remainder of the values. -/
theorem StandsFor.mod {x y i j : Nat} (hx : StandsFor x e i) (hy : StandsFor y e j) :
    StandsFor (x % y) e (i % j) := by
  unfold StandsFor at *
  rw [← Nat.mul_mod_mul_right, hx, hy, Nat.mul_mod_mul_right]

/-- The number of binary digits of the largest floating point numbers. -/
def mostDigits : Nat := 1024

/-- From here on a whole number is no floating point number any more. -/
def tooLarge : Nat := 2 ^ mostDigits

theorem tooLarge_pos : 0 < tooLarge := Nat.two_pow_pos mostDigits

theorem two_pow_le_tooLarge {k : Nat} (h : k ≤ mostDigits) : 2 ^ k ≤ tooLarge :=
  Nat.pow_le_pow_right Nat.two_pos h

theorem tooLarge_le_two_pow {k : Nat} (h : mostDigits ≤ k) : tooLarge ≤ 2 ^ k :=
  Nat.pow_le_pow_right Nat.two_pos h

/-- A mantissa of 53 bits belongs to a number in range as long as its exponent does. -/
theorem StandsFor.lt_iff (h : StandsFor m e n) (hlow : 2 ^ 52 ≤ m) (hhigh : m < 2 ^ 53) :
    n < tooLarge ↔ e ≤ 971 := by
  rcases Int.le_total 0 e with he | he
  · obtain ⟨k, rfl⟩ := Int.eq_ofNat_of_zero_le he
    have hn : m * 2 ^ k = n * 2 ^ 0 := (standsFor_iff (by omega)).mp h
    rw [Nat.pow_zero, Nat.mul_one] at hn
    subst hn
    constructor
    · intro hlt
      by_contra hbig
      refine absurd hlt (Nat.not_lt.mpr ?_)
      calc tooLarge ≤ 2 ^ (52 + k) := tooLarge_le_two_pow (by unfold mostDigits; omega)
        _ = 2 ^ 52 * 2 ^ k := Nat.pow_add ..
        _ ≤ m * 2 ^ k := Nat.mul_le_mul_right _ hlow
    · intro hsmall
      calc m * 2 ^ k < 2 ^ 53 * 2 ^ k := Nat.mul_lt_mul_of_pos_right hhigh (Nat.two_pow_pos k)
        _ = 2 ^ (53 + k) := (Nat.pow_add ..).symm
        _ ≤ tooLarge := two_pow_le_tooLarge (by unfold mostDigits; omega)
  · refine ⟨fun _ => by omega, fun _ => ?_⟩
    have hn : m * 2 ^ 0 = n * 2 ^ (-e).toNat := (standsFor_iff (by omega)).mp h
    calc n = n * 1 := (Nat.mul_one n).symm
      _ ≤ n * 2 ^ (-e).toNat := Nat.mul_le_mul_left n (Nat.two_pow_pos _)
      _ = m := by rw [← hn, Nat.pow_zero, Nat.mul_one]
      _ < 2 ^ 53 := hhigh
      _ ≤ tooLarge := two_pow_le_tooLarge (by decide)

theorem scale_eq (m : Nat) (e : Int) : scale m e = (m * 2 ^ e.toNat, 2 ^ (-e).toNat) := by
  cases e with
  | ofNat k => simp [scale, Nat.shiftLeft_eq]
  | negSucc k => simp [scale, Nat.shiftLeft_eq]

/-! ## Rounding a quotient -/

/-- The number with a rounded mantissa, from a guess of its exponent and from the quotients at every
    exponent, cut and rounded. -/
def placed (guess : Int) (cut rounded : Int → Nat) : Option Float :=
  let e := max (if cut guess ≥ 2 * hidden then guess + 1 else guess) (-1074)
  let (m, e) := if rounded e = 2 * hidden then (hidden, e + 1) else (rounded e, e)
  if e > 971 then none
  else if m < hidden then some (Float.ofBits (UInt64.ofNat m))
  else some (Float.ofBits (UInt64.ofNat ((e + 1075).toNat * hidden + (m - hidden))))

theorem nearest?_eq_placed {num : Nat} (h : num ≠ 0) (den : Nat) :
    nearest? num den = placed ((num.log2 : Int) - den.log2 - 53)
      (fun e => (num <<< (-e).toNat) / (den <<< e.toNat))
      (fun e => roundDivEven (num <<< (-e).toNat) (den <<< e.toNat)) := by
  unfold nearest?
  rw [if_neg h]
  rfl

/-- Only the quotient is rounded. -/
theorem nearest?_mul (n q : Nat) : nearest? (n * 2 ^ q) (2 ^ q) = nearest? n 1 := by
  have hq := Nat.two_pow_pos q
  rcases Nat.eq_zero_or_pos n with rfl | hpos
  · simp [nearest?]
  have hlog : (n * 2 ^ q).log2 = n.log2 + q := by
    have hlow := Nat.log2_self_le hpos.ne'
    have hhigh := Nat.lt_log2_self (n := n)
    rw [Nat.log2_eq_iff (Nat.mul_pos hpos hq).ne', Nat.pow_add, Nat.add_right_comm, Nat.pow_add]
    exact ⟨Nat.mul_le_mul_right _ hlow, Nat.mul_lt_mul_of_pos_right hhigh hq⟩
  have hguess : ((n * 2 ^ q).log2 : Int) - (2 ^ q).log2 - 53 =
      (n.log2 : Int) - Nat.log2 1 - 53 := by
    rw [hlog, Nat.log2_two_pow, show Nat.log2 1 = 0 from rfl]
    omega
  have hnum : ∀ k, (n * 2 ^ q) <<< k = n <<< k * 2 ^ q := fun k => by
    rw [Nat.shiftLeft_eq, Nat.shiftLeft_eq, Nat.mul_right_comm]
  have hden : ∀ k, (2 ^ q) <<< k = 1 <<< k * 2 ^ q := fun k => by
    rw [Nat.shiftLeft_eq, Nat.shiftLeft_eq, Nat.one_mul, Nat.mul_comm]
  rw [nearest?_eq_placed (Nat.mul_pos hpos hq).ne', nearest?_eq_placed hpos.ne', hguess]
  congr 1
  · funext e
    rw [hnum, hden, Nat.mul_div_mul_right _ _ hq]
  · funext e
    rw [hnum, hden, roundDivEven_mul _ _ hq]

/-- An integer is written with 53 bits, which stand for the nearest whole floating point number. -/
theorem exists_nearest?_eq (h : n ≠ 0) :
    ∃ m e, 2 ^ 52 ≤ m ∧ m < 2 ^ 53 ∧ -52 ≤ e ∧ StandsFor m e (nearest n) ∧
      nearest? n 1 = if e > 971 then none
        else some (Float.ofBits (UInt64.ofNat ((e + 1075).toNat * hidden + (m - hidden)))) := by
  have hlow := Nat.log2_self_le h
  obtain ⟨hleast, hmost⟩ := roundDivEven_gap h
  -- the first guess is always one too small
  have hcut : 2 * hidden ≤ (n <<< (53 - n.log2)) / (1 <<< (n.log2 - 53)) := by
    rw [Nat.shiftLeft_eq, Nat.shiftLeft_eq, Nat.one_mul,
      Nat.le_div_iff_mul_le (Nat.two_pow_pos _)]
    calc 2 * hidden * 2 ^ (n.log2 - 53) = 2 ^ (53 + (n.log2 - 53)) := (Nat.pow_add 2 53 _).symm
      _ = 2 ^ (n.log2 + (53 - n.log2)) := congrArg (2 ^ ·) (by omega)
      _ = 2 ^ n.log2 * 2 ^ (53 - n.log2) := Nat.pow_add ..
      _ ≤ n * 2 ^ (53 - n.log2) := Nat.mul_le_mul_right _ hlow
  -- with a short number the mantissa is filled up
  have hrounded : roundDivEven (n <<< (52 - n.log2)) (1 <<< (n.log2 - 52)) =
      roundDivEven n (gap n) * 2 ^ (52 - n.log2) := by
    rw [Nat.shiftLeft_eq, Nat.shiftLeft_eq, Nat.one_mul]
    by_cases hshort : n.log2 ≤ 52
    · have hgap : gap n = 1 := by rw [gap, Nat.sub_eq_zero_of_le hshort, Nat.pow_zero]
      have hwhole : ∀ k, roundDivEven k 1 = k := fun k => by
        have hself := roundDivEven_mul_self k Nat.one_pos
        rwa [Nat.mul_one] at hself
      rw [hgap, Nat.sub_eq_zero_of_le hshort, Nat.pow_zero, hwhole, hwhole]
    · rw [Nat.sub_eq_zero_of_le (by omega : 52 ≤ n.log2), Nat.pow_zero, Nat.mul_one, Nat.mul_one]
      rfl
  obtain ⟨r, hr⟩ : ∃ r, r = roundDivEven n (gap n) * 2 ^ (52 - n.log2) := ⟨_, rfl⟩
  have hlower : 2 ^ 52 ≤ r := calc
    2 ^ 52 = 2 ^ (min n.log2 52 + (52 - n.log2)) := congrArg (2 ^ ·) (by omega)
    _ = 2 ^ min n.log2 52 * 2 ^ (52 - n.log2) := Nat.pow_add ..
    _ ≤ r := hr ▸ Nat.mul_le_mul_right _ hleast
  have hupper : r ≤ 2 ^ 53 := calc
    r ≤ 2 ^ (min n.log2 52 + 1) * 2 ^ (52 - n.log2) := hr ▸ Nat.mul_le_mul_right _ hmost
    _ = 2 ^ (min n.log2 52 + 1 + (52 - n.log2)) := (Nat.pow_add ..).symm
    _ = 2 ^ 53 := congrArg (2 ^ ·) (by omega)
  have hstands : StandsFor r ((n.log2 : Int) - 52) (nearest n) := by
    rw [standsFor_iff (a := n.log2 - 52) (b := 52 - n.log2) (by omega), hr]
    exact Nat.mul_right_comm ..
  have hplaced : nearest? n 1 =
      let (m, e) := if r = 2 * hidden then (hidden, (n.log2 : Int) - 52 + 1)
        else (r, (n.log2 : Int) - 52)
      if e > 971 then none
      else if m < hidden then some (Float.ofBits (UInt64.ofNat m))
      else some (Float.ofBits (UInt64.ofNat ((e + 1075).toNat * hidden + (m - hidden)))) := by
    have hguess : (n.log2 : Int) - Nat.log2 1 - 53 = (n.log2 : Int) - 53 := by
      rw [show Nat.log2 1 = 0 from rfl]
      omega
    have hfirst : (-((n.log2 : Int) - 53)).toNat = 53 - n.log2 ∧
        ((n.log2 : Int) - 53).toNat = n.log2 - 53 := by omega
    have hsecond : (-((n.log2 : Int) - 52)).toNat = 52 - n.log2 ∧
        ((n.log2 : Int) - 52).toNat = n.log2 - 52 := by omega
    have hexponent : max ((n.log2 : Int) - 53 + 1) (-1074) = (n.log2 : Int) - 52 := by omega
    rw [nearest?_eq_placed h, hguess, placed]
    simp only [hfirst.1, hfirst.2, ge_iff_le, hcut, if_true, hexponent, hsecond.1, hsecond.2,
      hrounded, ← hr]
  by_cases hcarry : r = 2 * hidden
  · refine ⟨hidden, (n.log2 : Int) - 52 + 1, Nat.le_refl _, by decide, by omega, ?_, ?_⟩
    · have hdouble : r * 2 ^ (n.log2 - 52) = nearest n * 2 ^ (52 - n.log2) :=
        (standsFor_iff (by omega)).mp hstands
      rw [standsFor_iff (a := n.log2 - 52 + 1) (b := 52 - n.log2) (by omega), ← hdouble, hcarry,
        Nat.pow_succ, Nat.mul_comm (2 ^ _), Nat.mul_left_comm, Nat.mul_assoc]
    · rw [hplaced, if_pos hcarry]
      rfl
  · have hlt : r < 2 ^ 53 := Nat.lt_of_le_of_ne hupper hcarry
    refine ⟨r, (n.log2 : Int) - 52, hlower, hlt, by omega, hstands, ?_⟩
    rw [hplaced, if_neg hcarry]
    simp only [Nat.not_lt.mpr (show hidden ≤ r from hlower), if_false]

/-! ## Whole floating point numbers -/

/-- A floating point number is a natural number, or the opposite of one; zero has a sign as well. -/
def Exact (x : Float) (negative : Bool) (n : Nat) : Prop :=
  ∃ b, ofFloat? x = some b ∧ b.negative = negative ∧ StandsFor b.mantissa b.exponent n

theorem exact_zero (negative : Bool) : Exact (signed negative 0) negative 0 := by
  refine ⟨⟨negative, 0, -1074, false⟩, ?_, rfl, ?_⟩
  · cases negative <;> rfl
  · simp only [StandsFor, Nat.zero_mul]

/-- The number that is written with a mantissa of 53 bits, in both signs. -/
theorem exact_ofBits (hlow : 2 ^ 52 ≤ m) (hhigh : m < 2 ^ 53) (hleast : -52 ≤ e) (hmost : e ≤ 971)
    (h : StandsFor m e n) (negative : Bool) :
    Exact (signed negative
      (Float.ofBits (UInt64.ofNat ((e + 1075).toNat * hidden + (m - hidden))))) negative n := by
  obtain ⟨field, hfield⟩ : ∃ field : BitVec 11, field.toNat = (e + 1075).toNat :=
    ⟨BitVec.ofNat 11 (e + 1075).toNat, by rw [BitVec.toNat_ofNat, Nat.mod_eq_of_lt (by omega)]⟩
  have hhidden : hidden = 2 ^ 52 := rfl
  obtain ⟨fraction, hfraction⟩ : ∃ fraction : BitVec 52, fraction.toNat = m - hidden :=
    ⟨BitVec.ofNat 52 (m - hidden), by rw [BitVec.toNat_ofNat, Nat.mod_eq_of_lt (by omega)]⟩
  have hnormal : IsNormal field := isNormal_of_lt (by omega) (by omega)
  have hwritten : Written (Float.ofBits (UInt64.ofNat ((e + 1075).toNat * hidden + (m - hidden))))
      false field fraction := by
    refine written_ofBits (BitVec.eq_of_toNat_eq ?_) hnormal
    rw [toNat_bitsOf, ← hfield, ← hfraction, Bool.toNat_false, Nat.zero_mul, Nat.zero_add,
      UInt64.toBitVec_ofNat', BitVec.toNat_ofNat, hhidden, Nat.mod_eq_of_lt (by omega)]
  have hmantissa : fraction.toNat + 2 ^ 52 = m := by
    rw [hfraction, hhidden, Nat.sub_add_cancel hlow]
  have hexponent : (field.toNat : Int) - 1075 = e := by omega
  rw [← hmantissa, ← hexponent] at h
  cases negative with
  | false => exact ⟨_, hwritten.ofFloat?_eq, rfl, h⟩
  | true => exact ⟨_, hwritten.neg.ofFloat?_eq, rfl, h⟩

/-- A natural number is rounded to the nearest whole floating point number, in both signs. -/
theorem exists_nearest? (h : nearest n < tooLarge) :
    ∃ x, nearest? n 1 = some x ∧ ∀ negative, Exact (signed negative x) negative (nearest n) := by
  rcases Nat.eq_zero_or_pos n with rfl | hpos
  · refine ⟨0, rfl, ?_⟩
    rw [nearest_of_fits (fits_of_le (Nat.zero_le _))]
    exact exact_zero
  · obtain ⟨m, e, hlow, hhigh, hleast, hstands, hnearest⟩ := exists_nearest?_eq hpos.ne'
    have hmost := (hstands.lt_iff hlow hhigh).mp h
    rw [if_neg (by omega)] at hnearest
    exact ⟨_, hnearest, exact_ofBits hlow hhigh hleast hmost hstands⟩

theorem nearest?_eq_none (h : tooLarge ≤ nearest n) : nearest? n 1 = none := by
  have hne : n ≠ 0 := by
    rintro rfl
    rw [nearest_of_fits (fits_of_le (Nat.zero_le _))] at h
    exact absurd h (Nat.not_le.mpr tooLarge_pos)
  obtain ⟨m, e, hlow, hhigh, -, hstands, hnearest⟩ := exists_nearest?_eq hne
  rw [hnearest, if_pos]
  refine Int.not_le.mp fun hsmall => ?_
  exact absurd ((hstands.lt_iff hlow hhigh).mpr hsmall) (Nat.not_lt.mpr h)

variable {x y : Float} {i j : Nat} {negative : Bool}

/-- A whole number is not changed when its fraction is cut off. -/
theorem Exact.truncate (h : Exact x negative n) :
    (ofFloat? x).elim 0 Binary.truncate = if negative then -(n : Int) else n := by
  obtain ⟨b, hb, rfl, hstands⟩ := h
  have hdiv : b.mantissa * 2 ^ b.exponent.toNat / 2 ^ (-b.exponent).toNat = n := by
    rw [hstands, Nat.mul_div_cancel _ (Nat.two_pow_pos _)]
  rw [hb]
  show b.truncate = _
  unfold Binary.truncate
  rw [scale_eq]
  simp only [hdiv]

/-- The remainder of two whole numbers is exact, and has the sign of the dividend. -/
theorem exact_remainder {b c : Binary} (hb : StandsFor b.mantissa b.exponent i)
    (hc : StandsFor c.mantissa c.exponent j) (hi : Fits i) (hj : Fits j) (hlt : i < tooLarge) :
    Exact (b.remainder c) b.negative (i % j) := by
  have hmod := (hb.shift (Int.min_le_left b.exponent c.exponent)).mod
    (hc.shift (Int.min_le_right b.exponent c.exponent))
  have hexact : nearest (i % j) = i % j := nearest_of_fits (hi.mod hj)
  obtain ⟨z, hz, hsigned⟩ := exists_nearest? (n := i % j)
    (hexact.symm ▸ (Nat.mod_le i j).trans_lt hlt)
  rw [hexact] at hsigned
  unfold StandsFor at hmod
  unfold Binary.remainder
  simp only [scale_eq, hmod, nearest?_mul, hz, Option.getD_some]
  exact hsigned b.negative

/-! ## Integers -/

/-- The whole floating point number that an integer is rounded to. -/
def nearestInt (n : Int) : Int := if n < 0 then -(nearest n.natAbs : Int) else nearest n.natAbs

/-- An integer is rounded to a floating point number and not to infinity. -/
def InRange (n : Int) : Prop := (nearestInt n).natAbs < tooLarge

theorem natAbs_nearestInt (n : Int) : (nearestInt n).natAbs = nearest n.natAbs := by
  unfold nearestInt
  split <;> simp

theorem nearestInt_of_fits {n : Int} (h : Fits n.natAbs) : nearestInt n = n := by
  rw [nearestInt, nearest_of_fits h]
  split <;> omega

/-- An integer is rounded to the nearest whole floating point number, if that is in range. -/
theorem exists_ofInt? {n : Int} (h : InRange n) :
    ∃ x, ofInt? n = some x ∧ Exact x (n < 0) (nearest n.natAbs) := by
  rw [InRange, natAbs_nearestInt] at h
  obtain ⟨x, hx, hexact⟩ := exists_nearest? h
  exact ⟨signed (n < 0) x, by rw [ofInt?, hx]; rfl, hexact _⟩

theorem ofInt?_eq_none {n : Int} (h : ¬ InRange n) : ofInt? n = none := by
  rw [InRange, natAbs_nearestInt, Nat.not_lt] at h
  rw [ofInt?, nearest?_eq_none h]
  rfl

end Binary

namespace Number

open Binary

variable {a b : Int}

theorem toFloat_int {x : Float} (h : ofInt? a = some x) : (int a).toFloat = .ok x := by
  rw [toFloat, h]
  rfl

theorem toFloat_int_eq_error (h : ofInt? a = none) : (int a).toFloat = .error .overflow := by
  rw [toFloat, h]
  rfl

/-- The remainder of two integers in range is that of the floating point numbers they are rounded
    to. -/
theorem rem_int (ha : InRange a) (hb : InRange b) :
    rem (int a) (int b) = .ok (int ((nearestInt a).tmod (nearestInt b))) := by
  obtain ⟨x, hx, u, hu, hunegative, hustands⟩ := exists_ofInt? ha
  obtain ⟨y, hy, v, hv, -, hvstands⟩ := exists_ofInt? hb
  have hexact := exact_remainder hustands hvstands (fits_nearest _) (fits_nearest _)
    (natAbs_nearestInt a ▸ ha)
  have hfloat : floatRemainder x y = .ok (u.remainder v) := by
    rw [floatRemainder, hu, hv]
    rfl
  have hsign : (nearestInt a).tmod (nearestInt b) =
      if a < 0 then -((nearest a.natAbs % nearest b.natAbs : Nat) : Int)
      else (nearest a.natAbs % nearest b.natAbs : Nat) := by
    have hdivisor : ∀ c : Int, c.tmod (nearestInt b) = c.tmod (nearest b.natAbs) := fun c => by
      unfold nearestInt
      split
      · exact Int.tmod_neg _ _
      · rfl
    rw [hdivisor, nearestInt]
    split
    · rw [Int.neg_tmod, Int.ofNat_tmod]
    · rw [Int.ofNat_tmod]
  unfold rem
  rw [toFloat_int hx, toFloat_int hy]
  show (floatRemainder x y >>= fun r => pure (int ((ofFloat? r).elim 0 Binary.truncate))) = _
  rw [hfloat, hsign]
  show Except.ok (int ((ofFloat? (u.remainder v)).elim 0 Binary.truncate)) = _
  rw [hexact.truncate, hunegative]
  simp only [decide_eq_true_eq]

/-- Beyond the range there is no remainder. -/
theorem rem_int_eq_error (h : ¬ (InRange a ∧ InRange b)) :
    rem (int a) (int b) = .error .overflow := by
  unfold rem
  by_cases ha : InRange a
  · obtain ⟨x, hx, -⟩ := exists_ofInt? ha
    rw [toFloat_int hx, toFloat_int_eq_error (ofInt?_eq_none fun hb => h ⟨ha, hb⟩)]
    rfl
  · rw [toFloat_int_eq_error (ofInt?_eq_none ha)]
    rfl

/-- Rounding the operands leaves a remainder below the divisor, with the sign of the dividend. -/
theorem tmod_nearestInt (hb : b ≠ 0) :
    ((nearestInt a).tmod (nearestInt b)).natAbs < b.natAbs ∧
      ((nearestInt a).tmod (nearestInt b) = 0 ∨
        ((nearestInt a).tmod (nearestInt b)).sign = a.sign) := by
  rcases eq_or_ne a 0 with rfl | ha
  · have hzero : nearestInt 0 = 0 := nearestInt_of_fits (fits_of_le (Nat.zero_le _))
    rw [hzero, Int.zero_tmod]
    exact ⟨Int.natAbs_pos.mpr hb, .inl rfl⟩
  refine ⟨?_, ?_⟩
  · rw [Int.natAbs_tmod, natAbs_nearestInt, natAbs_nearestInt]
    exact nearest_mod_lt (Int.natAbs_ne_zero.mpr ha) (Int.natAbs_ne_zero.mpr hb)
  · have hsign : (nearestInt a).sign = a.sign := by
      have hpos : 0 < nearest a.natAbs :=
        (Nat.two_pow_pos _).trans_le (two_pow_log2_le_nearest (Int.natAbs_ne_zero.mpr ha))
      unfold nearestInt
      split
      · rename_i hneg
        rw [Int.sign_eq_neg_one_of_neg hneg, Int.sign_eq_neg_one_of_neg (by omega)]
      · rw [Int.sign_eq_one_of_pos (by omega), Int.sign_eq_one_of_pos (by omega)]
    rw [Int.sign_tmod, hsign]
    split
    · rename_i hdvd
      exact .inl (Int.tmod_eq_zero_of_dvd hdvd)
    · exact .inr rfl

end Number

open Binary Evaluate

/-- The remainder of two integers is that of the whole floating point numbers nearest to them.  It
    is below the divisor and has the sign of the dividend, and it is the remainder of the integers
    themselves if both are floating point numbers; integers out of their range have none. -/
theorem binary_remainder_int (a b : Int) (hb : b ≠ 0) (span : Span) (w : World) :
    (InRange a → InRange b →
      ∃ r, binary .remainder (.int a) (.int b) span w = .ok (.int r) w ∧
        r = (nearestInt a).tmod (nearestInt b) ∧ r.natAbs < b.natAbs ∧ (r = 0 ∨ r.sign = a.sign) ∧
        (Fits a.natAbs → Fits b.natAbs → a = b * a.tdiv b + r)) ∧
    (¬ (InRange a ∧ InRange b) →
      binary .remainder (.int a) (.int b) span w = .error (.fault .overflow) w) := by
  have hbinary : binary .remainder (.int a) (.int b) span =
      (Eval.ofExcept (Number.rem (.int a) (.int b)) >>= Eval.ofNumber) := by
    have hzero : (Number.int b).isZero = false := by simpa [Number.isZero] using hb
    simp only [binary, onDivisor, onNumbers, Value.int, Value.number?, hzero]
    rfl
  rw [hbinary]
  refine ⟨fun ha hb' => ?_, fun h => ?_⟩
  · obtain ⟨hless, hsign⟩ := Number.tmod_nearestInt (a := a) hb
    rw [Number.rem_int ha hb']
    refine ⟨_, rfl, rfl, hless, hsign, fun hfits hfits' => ?_⟩
    rw [nearestInt_of_fits hfits, nearestInt_of_fits hfits']
    exact (Int.mul_tdiv_add_tmod a b).symm
  · rw [Number.rem_int_eq_error h]
    rfl

/-- The least odd number that is no floating point number is rounded to an even one. -/
theorem binary_remainder_int_oddNumber :
    binary .remainder (.int 9007199254740993) (.int 2) default default = .ok (.int 0) default ∧
      (9007199254740993 : Int).tmod 2 = 1 := by
  have hrange : ∀ n : Int, nearest n.natAbs < 2 ^ 54 → InRange n := fun n h => by
    rw [InRange, natAbs_nearestInt]
    exact h.trans_le (two_pow_le_tooLarge (by decide))
  have hremainder := binary_remainder_int 9007199254740993 2 (by decide) default default
  obtain ⟨r, hr, hvalue, -⟩ := hremainder.1 (hrange _ (by decide)) (hrange _ (by decide))
  have hzero : (nearestInt 9007199254740993).tmod (nearestInt 2) = 0 := by decide
  rw [hr, hvalue, hzero]
  exact ⟨rfl, rfl⟩

end EventScript
