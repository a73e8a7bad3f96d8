import EventScript.Number.Binary
import Mathlib

/-! # Whole floating point numbers

A floating point number has 53 bits, so that a whole one is a multiple of a power of two with a
factor of at most `2 ^ 53` (`Fits`).  From `2 ^ 53` on there are gaps between these numbers, and an
integer is rounded to the nearest one (`dist_nearest_le`).  A remainder of two of them is one again
(`Fits.mod`), and a remainder stays below its divisor when both are rounded first
(`nearest_mod_lt`).
-/

namespace EventScript

namespace Binary

/-! ## Quotients -/

theorem roundDivEven_mul_self (q : Nat) {den : Nat} (hden : 0 < den) :
    roundDivEven (q * den) den = q := by
  have hzero : 0 ≠ den := by omega
  unfold roundDivEven
  simp [Nat.mul_div_cancel _ hden, hzero]

/-- Only the quotient matters. -/
theorem roundDivEven_mul (num den : Nat) {k : Nat} (hk : 0 < k) :
    roundDivEven (num * k) (den * k) = roundDivEven num den := by
  have hgreater : 2 * (num % den * k) > den * k ↔ 2 * (num % den) > den := by
    rw [← Nat.mul_assoc]
    exact Nat.mul_lt_mul_right hk
  have hequal : 2 * (num % den * k) = den * k ↔ 2 * (num % den) = den := by
    rw [← Nat.mul_assoc]
    exact Nat.mul_left_inj hk.ne'
  unfold roundDivEven
  simp only [Nat.mul_div_mul_right _ _ hk, Nat.mul_mod_mul_right, hgreater, beq_eq_decide, hequal]

/-- A rounded quotient is at least as near as every other multiple of the divisor. -/
theorem dist_roundDivEven_le (num : Nat) {den : Nat} (hden : 0 < den) (k : Nat) :
    Nat.dist (roundDivEven num den * den) num ≤ Nat.dist (k * den) num := by
  obtain ⟨habove, hbelow⟩ := roundDivEven_near num hden
  generalize roundDivEven num den = q at habove hbelow
  unfold Nat.dist
  rcases Nat.lt_trichotomy k q with hlt | rfl | hgt
  · have hstep : (k + 1) * den ≤ q * den := Nat.mul_le_mul_right den hlt
    rw [Nat.add_mul, Nat.one_mul] at hstep
    rw [Nat.mul_assoc] at hbelow
    omega
  · exact Nat.le_refl _
  · have hstep : (q + 1) * den ≤ k * den := Nat.mul_le_mul_right den hgt
    rw [Nat.add_mul, Nat.one_mul] at hstep
    rw [Nat.add_mul, Nat.one_mul, Nat.mul_assoc] at habove
    omega

/-! ## Whole numbers of 53 bits -/

/-- A natural number is a multiple of a power of two with a factor of at most 53 bits. -/
def Fits (n : Nat) : Prop := ∃ k t, n = k * 2 ^ t ∧ k ≤ 2 ^ 53

/-- The gap between the whole floating point numbers around a natural number. -/
def gap (n : Nat) : Nat := 2 ^ (n.log2 - 52)

/-- The whole floating point number that a natural number is rounded to. -/
def nearest (n : Nat) : Nat := roundDivEven n (gap n) * gap n

variable {a b n : Nat}

theorem gap_pos (n : Nat) : 0 < gap n := Nat.two_pow_pos _

theorem fits_of_le (h : n ≤ 2 ^ 53) : Fits n := ⟨n, 0, by simp, h⟩

theorem fits_two_pow (t : Nat) : Fits (2 ^ t) := ⟨1, t, by simp, by decide⟩

/-- A number that fits is a multiple of the gaps below it. -/
theorem Fits.pow_dvd (h : Fits n) {t : Nat} (ht : 2 ^ (t + 52) ≤ n) : 2 ^ t ∣ n := by
  obtain ⟨k, s, rfl, hk⟩ := h
  rcases Nat.lt_or_ge s t with hlt | hge
  · -- only the largest factor reaches this far with so small a power
    have hbound : k * 2 ^ s ≤ 2 ^ (53 + s) := by
      rw [Nat.pow_add]
      exact Nat.mul_le_mul_right _ hk
    have hpow : 2 ^ (t + 52) ≤ 2 ^ (53 + s) := Nat.le_trans ht hbound
    have hexp : t + 52 ≤ 53 + s := (Nat.pow_le_pow_iff_right (by decide)).mp hpow
    have hall : 2 ^ (53 + s) ≤ k * 2 ^ s := calc
      2 ^ (53 + s) = 2 ^ (t + 52) := congrArg (2 ^ ·) (by omega)
      _ ≤ k * 2 ^ s := ht
    rw [Nat.le_antisymm hbound hall]
    exact Nat.pow_dvd_pow 2 (by omega)
  · exact Nat.dvd_mul_left_of_dvd (Nat.pow_dvd_pow 2 hge) k

/-- A number that fits is a multiple of the gap around it. -/
theorem Fits.gap_dvd (h : Fits n) : gap n ∣ n := by
  rcases Nat.eq_zero_or_pos n with rfl | hpos
  · exact Nat.dvd_zero _
  by_cases hlog : n.log2 < 52
  · rw [gap, Nat.sub_eq_zero_of_le (by omega)]
    exact Nat.one_dvd n
  · refine h.pow_dvd ?_
    rw [Nat.sub_add_cancel (by omega)]
    exact Nat.log2_self_le hpos.ne'

/-- A number that fits is not rounded. -/
theorem nearest_of_fits (h : Fits n) : nearest n = n := by
  have hmul : n / gap n * gap n = n := Nat.div_mul_cancel h.gap_dvd
  have hround : roundDivEven (n / gap n * gap n) (gap n) = n / gap n :=
    roundDivEven_mul_self _ (gap_pos n)
  rw [hmul] at hround
  rw [nearest, hround, hmul]

/-- The leading power of two as a multiple of the gap. -/
theorem two_pow_log2 (n : Nat) : 2 ^ n.log2 = 2 ^ min n.log2 52 * gap n := by
  rw [gap, ← Nat.pow_add]
  congr 1
  omega

/-- Rounding keeps the leading power of two, or comes to the next one. -/
theorem roundDivEven_gap (h : n ≠ 0) :
    2 ^ min n.log2 52 ≤ roundDivEven n (gap n) ∧
      roundDivEven n (gap n) ≤ 2 ^ (min n.log2 52 + 1) := by
  have hleading := two_pow_log2 n
  have hlow := Nat.log2_self_le h
  have hhigh := Nat.lt_log2_self (n := n)
  obtain ⟨habove, hbelow⟩ := roundDivEven_near n (gap_pos n)
  have hgap := gap_pos n
  rw [Nat.pow_succ, hleading] at hhigh
  rw [hleading] at hlow
  rw [Nat.pow_succ]
  generalize 2 ^ min n.log2 52 = p at hlow hhigh ⊢
  generalize roundDivEven n (gap n) = q at habove hbelow ⊢
  generalize gap n = g at *
  constructor
  · by_contra hlt
    have hstep : (q + 1) * g ≤ p * g := Nat.mul_le_mul_right g (by omega)
    nlinarith
  · by_contra hgt
    have hstep : (p * 2 + 1) * g ≤ q * g := Nat.mul_le_mul_right g (by omega)
    nlinarith

theorem two_pow_log2_le_nearest (h : n ≠ 0) : 2 ^ n.log2 ≤ nearest n := by
  rw [two_pow_log2]
  exact Nat.mul_le_mul_right _ (roundDivEven_gap h).1

theorem nearest_le_two_pow (h : n ≠ 0) : nearest n ≤ 2 ^ (n.log2 + 1) := by
  rw [Nat.pow_succ, two_pow_log2, Nat.mul_right_comm, ← Nat.pow_succ]
  exact Nat.mul_le_mul_right _ (roundDivEven_gap h).2

theorem fits_nearest (n : Nat) : Fits (nearest n) := by
  rcases Nat.eq_zero_or_pos n with rfl | hpos
  · exact fits_of_le (by decide)
  · refine ⟨_, n.log2 - 52, rfl, (roundDivEven_gap hpos.ne').2.trans ?_⟩
    exact Nat.pow_le_pow_right (by decide) (by omega)

/-- No whole floating point number is nearer. -/
theorem dist_nearest_le (n : Nat) {m : Nat} (h : Fits m) :
    Nat.dist (nearest n) n ≤ Nat.dist m n := by
  rcases Nat.eq_zero_or_pos n with rfl | hpos
  · exact Nat.zero_le _
  by_cases hsmall : m < 2 ^ n.log2
  · -- the leading power of two is between the number and this one
    have hleading := dist_roundDivEven_le n (gap_pos n) (2 ^ min n.log2 52)
    rw [← two_pow_log2] at hleading
    have hlow := Nat.log2_self_le hpos.ne'
    unfold nearest
    unfold Nat.dist at *
    omega
  · have hdvd : gap n ∣ m := by
      by_cases hlog : n.log2 < 52
      · rw [gap, Nat.sub_eq_zero_of_le (by omega)]
        exact Nat.one_dvd m
      · refine h.pow_dvd ?_
        rw [Nat.sub_add_cancel (by omega)]
        omega
    have hnear := dist_roundDivEven_le n (gap_pos n) (m / gap n)
    rwa [Nat.div_mul_cancel hdvd] at hnear

/-! ## Remainders -/

/-- A remainder of two numbers that fit fits. -/
theorem Fits.mod (ha : Fits a) (hb : Fits b) : Fits (a % b) := by
  obtain ⟨j, s, rfl, hj⟩ := ha
  obtain ⟨k, t, rfl, hk⟩ := hb
  rcases Nat.le_total t s with hle | hle
  · have hsplit : j * 2 ^ s = j * 2 ^ (s - t) * 2 ^ t := by
      rw [Nat.mul_assoc, ← Nat.pow_add, Nat.sub_add_cancel hle]
    rw [hsplit, Nat.mul_mod_mul_right]
    rcases Nat.eq_zero_or_pos k with rfl | hpos
    · rw [Nat.mod_zero, Nat.mul_assoc, ← Nat.pow_add]
      exact ⟨j, _, rfl, hj⟩
    · exact ⟨_, t, rfl, (Nat.mod_lt _ hpos).le.trans hk⟩
  · have hsplit : k * 2 ^ t = k * 2 ^ (t - s) * 2 ^ s := by
      rw [Nat.mul_assoc, ← Nat.pow_add, Nat.sub_add_cancel hle]
    rw [hsplit, Nat.mul_mod_mul_right]
    exact ⟨_, s, rfl, (Nat.mod_le _ _).trans hj⟩

/-- Rounding both operands does not lift a remainder to the divisor. -/
theorem nearest_mod_lt (ha : a ≠ 0) (hb : b ≠ 0) : nearest a % nearest b < b := by
  have hpos : 0 < nearest b := (Nat.two_pow_pos _).trans_le (two_pow_log2_le_nearest hb)
  have hlt := Nat.mod_lt (nearest a) hpos
  by_cases hle : nearest b ≤ b
  · omega
  by_cases hlog : b.log2 ≤ a.log2
  · -- both are multiples of the gap of the divisor, which has been lifted by half of it at most
    obtain ⟨x, hx⟩ : gap b ∣ nearest a :=
      Nat.dvd_mul_left_of_dvd (Nat.pow_dvd_pow 2 (by omega)) _
    have hstep : nearest a % nearest b + gap b ≤ nearest b := by
      rw [hx, nearest, Nat.mul_comm (gap b), Nat.mul_mod_mul_right] at hlt ⊢
      have hless := Nat.lt_of_mul_lt_mul_right hlt
      calc x % roundDivEven b (gap b) * gap b + gap b
          = (x % roundDivEven b (gap b) + 1) * gap b := by rw [Nat.add_mul, Nat.one_mul]
        _ ≤ roundDivEven b (gap b) * gap b := Nat.mul_le_mul_right _ hless
    have hnear := (roundDivEven_near b (gap_pos b)).2
    rw [Nat.mul_assoc] at hnear
    have hgap := gap_pos b
    unfold nearest at *
    omega
  · -- the dividend is too small to be divided
    have hsmall : nearest a ≤ 2 ^ b.log2 :=
      (nearest_le_two_pow ha).trans (Nat.pow_le_pow_right (by decide) (by omega))
    have hlow := Nat.log2_self_le hb
    have hne : b ≠ 2 ^ b.log2 := by
      intro heq
      have hexact : nearest b = b := nearest_of_fits (heq ▸ fits_two_pow _)
      omega
    have hmod := Nat.mod_le (nearest a) (nearest b)
    omega

end Binary

end EventScript
