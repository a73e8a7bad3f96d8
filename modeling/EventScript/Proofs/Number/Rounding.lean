import EventScript.Proofs.Number.Remainder

/-! # Rounding of sums

Every finite floating point number is a whole multiple of the least positive one, so sums are
sums of integers, in units of that number.  The operations take numbers apart, compute exactly, and
round what they come to by shifting mantissas to the right, with two bits for what was shifted out.
This is the same as division by a power of two, rounded to the nearest quotient.  A number whose
exponent is too large is an infinity once it is packed.

* `roundedMantissa_shiftRight`   shifting to the right and rounding is rounded division
* `round_eq`, `normalize_eq`     the operations round a number of units to the nearest
* `add_finite`                   the sum of finite numbers
* `unpack_pack`, `unitsOf_unpack_pack`   numbers that are packed and taken apart again
-/

namespace EventScript

namespace Binary

open Float.Model Float.Model.UnpackedFloat

/-! ## Rounding to the nearest -/

/-- The bits that are shifted out are kept as far as rounding needs them. -/
theorem shiftRight_exact (m k : Nat) :
    ExtendedMantissa.ofMantissaAndAccuracy m .exact >>> (k + 1) =
      ⟨m / 2 ^ (k + 1), m / 2 ^ k % 2 != 0, m % 2 ^ k != 0⟩ := by
  induction k with
  | zero => simp [ExtendedMantissa.ofMantissaAndAccuracy, HShiftRight.hShiftRight, Nat.repeat,
      ExtendedMantissa.shiftRightOne, Nat.mod_one]
  | succ k ih =>
    have hnext : ExtendedMantissa.ofMantissaAndAccuracy m .exact >>> (k + 1 + 1) =
      (ExtendedMantissa.ofMantissaAndAccuracy m .exact >>> (k + 1)).shiftRightOne := rfl
    rw [hnext, ih, ExtendedMantissa.shiftRightOne]
    have hdiv : m / 2 ^ (k + 1) / 2 = m / 2 ^ (k + 1 + 1) := by
      rw [Nat.div_div_eq_div_mul, ← Nat.pow_succ]
    have hmod : m % 2 ^ (k + 1) = m % 2 ^ k + 2 ^ k * (m / 2 ^ k % 2) := Nat.mod_pow_succ
    have hpos := Nat.two_pow_pos k
    simp only [hdiv, hmod]
    rcases Nat.mod_two_eq_zero_or_one (m / 2 ^ k) with h | h <;> simp [h]

/-- A rounded mantissa, by the bits behind it. -/
theorem roundedMantissa_mk (q : Nat) (roundBit stickyBit : Bool) :
    (ExtendedMantissa.mk q roundBit stickyBit).roundedMantissa =
      if roundBit && (stickyBit || q % 2 == 1) then q + 1 else q := by
  cases roundBit <;> cases stickyBit
  · rfl
  · rfl
  · show q + q % 2 = _
    rcases Nat.mod_two_eq_zero_or_one q with hq | hq <;> simp [hq]
  · rfl

/-- Shifting a mantissa and rounding it is dividing it and rounding the quotient. -/
theorem roundedMantissa_shiftRight (m k : Nat) :
    (ExtendedMantissa.ofMantissaAndAccuracy m .exact >>> k).roundedMantissa =
      roundDivEven m (2 ^ k) := by
  cases k with
  | zero =>
    have hone := roundDivEven_mul_self m Nat.one_pos
    rw [Nat.mul_one] at hone
    rw [Nat.pow_zero, hone]
    rfl
  | succ k =>
    have hpos := Nat.two_pow_pos k
    have hlow : m % 2 ^ k < 2 ^ k := Nat.mod_lt m hpos
    have hmod : m % 2 ^ (k + 1) = m % 2 ^ k + 2 ^ k * (m / 2 ^ k % 2) := Nat.mod_pow_succ
    rw [shiftRight_exact, roundedMantissa_mk, roundDivEven, hmod, Nat.pow_succ]
    generalize m / (2 ^ k * 2) = q
    generalize m % 2 ^ k = low at hlow ⊢
    -- what was shifted out is compared with half of the last place
    refine if_congr ?_ rfl rfl
    simp only [Bool.and_eq_true, Bool.or_eq_true, bne_iff_ne, beq_iff_eq, decide_eq_true_eq]
    rcases Nat.mod_two_eq_zero_or_one (m / 2 ^ k) with hround | hround <;> rw [hround] <;> omega

/-! ## Units -/

/-- The exponent of the least positive floating point number. -/
def leastExponent : Int := -1074

/-- `m * 2 ^ e` as a multiple of the least positive floating point number. -/
def inUnits (m : Nat) (e : Int) : Nat := m * 2 ^ (e - leastExponent).toNat

/-- A mantissa has at most 53 bits, and all of them unless its exponent is the least one. -/
structure IsCanonical (m : Nat) (e : Int) : Prop where
  short : m < 2 ^ 53
  least : leastExponent ≤ e
  full : 2 ^ 52 ≤ m ∨ e = leastExponent

section

variable {m m' : Nat} {e e' : Int}

theorem inUnits_add (m : Nat) (he : leastExponent ≤ e) (k : Nat) :
    inUnits m (e + k) = inUnits (m * 2 ^ k) e := by
  have hexponent : (e + k - leastExponent).toNat = k + (e - leastExponent).toNat := by omega
  rw [inUnits, inUnits, hexponent, Nat.pow_add, Nat.mul_assoc]

theorem log2_mul_two_pow (hm : m ≠ 0) (k : Nat) : (m * 2 ^ k).log2 = m.log2 + k := by
  have hpos := Nat.two_pow_pos k
  rw [Nat.log2_eq_iff (Nat.mul_ne_zero hm hpos.ne'), Nat.pow_add, Nat.add_right_comm, Nat.pow_add]
  exact ⟨Nat.mul_le_mul_right _ (Nat.log2_self_le hm),
    Nat.mul_lt_mul_of_pos_right Nat.lt_log2_self hpos⟩

/-- The exponent that rounding aims at is that of the gaps around a number. -/
theorem targetExponent_eq (hm : m ≠ 0) (he : leastExponent ≤ e) :
    Format.binary64.targetExponent (totalExponent m e) =
      leastExponent + ((inUnits m e).log2 - 52 : Nat) := by
  have hlog : (inUnits m e).log2 = m.log2 + (e - leastExponent).toNat := log2_mul_two_pow hm _
  show max ((m.log2 : Int) + 1 + e - (53 : Nat)) (-1074) = _
  unfold leastExponent at *
  omega

/-- Shifting to an exponent that is not below the present one comes to it. -/
theorem shiftToTargetExponent_eq {t : Int} (k : Nat)
    (ht : Format.binary64.targetExponent (totalExponent m e) = t) (hk : (t - e).toNat = k) :
    shiftToTargetExponent Format.binary64 m e .exact =
      (ExtendedMantissa.ofMantissaAndAccuracy m .exact >>> k, e + k) := by
  subst ht hk
  rfl

/-- A rounded mantissa that has come to one bit more is shifted once more. -/
theorem shiftToTargetExponent_rounded {r : Nat} (hpos : r ≠ 0) (hr : r ≤ 2 ^ 53) (g : Nat)
    (hfull : 2 ^ 52 ≤ r ∨ g = 0) :
    ∃ em e', shiftToTargetExponent Format.binary64 r (leastExponent + g) .exact = (em, e') ∧
      em.mantissa ≠ 0 ∧ IsCanonical em.mantissa e' ∧ inUnits em.mantissa e' = r * 2 ^ g := by
  have hg : leastExponent ≤ leastExponent + (g : Int) := by omega
  have hunits : ∀ n : Nat, inUnits n (leastExponent + (g : Int)) = n * 2 ^ g := fun n => by
    rw [inUnits, show (leastExponent + (g : Int) - leastExponent).toNat = g by omega]
  have ht := targetExponent_eq hpos hg
  rw [hunits, log2_mul_two_pow hpos] at ht
  rcases Nat.lt_or_eq_of_le hr with hshort | rfl
  · have hlog : r.log2 ≤ 52 := Nat.le_of_lt_succ ((Nat.log2_lt hpos).mpr hshort)
    have hstay := shiftToTargetExponent_eq 0 ht (by omega)
    rw [Nat.cast_zero, add_zero] at hstay
    exact ⟨_, _, hstay, hpos, ⟨hshort, hg, hfull.imp_right (by rintro rfl; simp)⟩, hunits r⟩
  · rw [Nat.log2_two_pow] at ht
    have hshift := shiftToTargetExponent_eq 1 ht (by omega)
    have hhalf : (ExtendedMantissa.ofMantissaAndAccuracy (2 ^ 53) .exact >>> 1).mantissa = 2 ^ 52 :=
      rfl
    refine ⟨_, _, hshift, ?_, ?_, ?_⟩
    · rw [hhalf]
      decide
    · rw [hhalf]
      exact ⟨by decide, by omega, .inl (Nat.le_refl _)⟩
    · rw [hhalf, inUnits_add _ hg, hunits]
      rfl

/-- A number whose exponent is not above that of the gaps around it is rounded to the nearest. -/
theorem roundWithAccuracy_eq (s : Sign) (hm : m ≠ 0) (he : leastExponent ≤ e)
    (htarget : e ≤ Format.binary64.targetExponent (totalExponent m e)) :
    ∃ m' e' hpos, roundWithAccuracy Format.binary64 s m e .exact = .finite s m' e' hpos ∧
      IsCanonical m' e' ∧ inUnits m' e' = nearest (inUnits m e) := by
  have ht := targetExponent_eq hm he
  generalize hg : (inUnits m e).log2 - 52 = g at ht
  rw [ht] at htarget
  obtain ⟨k, hk⟩ : ∃ k : Nat, e + k = leastExponent + g :=
    ⟨(leastExponent + g - e).toNat, by omega⟩
  obtain ⟨j, hj⟩ : ∃ j : Nat, e = leastExponent + j := ⟨(e - leastExponent).toNat, by omega⟩
  have hunits : inUnits m e = m * 2 ^ j := by
    rw [inUnits, show (e - leastExponent).toNat = j by omega]
  have hne : inUnits m e ≠ 0 := by
    rw [hunits]
    exact Nat.mul_ne_zero hm (Nat.two_pow_pos j).ne'
  have hgap : gap (inUnits m e) = 2 ^ k * 2 ^ j := by
    rw [gap, hg, ← Nat.pow_add, show k + j = g by omega]
  have hquotient : roundDivEven (inUnits m e) (gap (inUnits m e)) = roundDivEven m (2 ^ k) := by
    rw [hgap, hunits, roundDivEven_mul _ _ (Nat.two_pow_pos j)]
  have hnearest : nearest (inUnits m e) = roundDivEven m (2 ^ k) * 2 ^ g := by
    rw [nearest, hquotient, gap, hg]
  obtain ⟨hlow, hhigh⟩ := roundDivEven_gap hne
  rw [hquotient] at hlow hhigh
  rw [hnearest]
  have hfull : 2 ^ 52 ≤ roundDivEven m (2 ^ k) ∨ g = 0 := by
    rcases Nat.lt_or_ge (inUnits m e).log2 52 with hlog | hlog
    · exact .inr (by omega)
    · rw [Nat.min_eq_right hlog] at hlow
      exact .inl hlow
  have hpos : roundDivEven m (2 ^ k) ≠ 0 := ((Nat.two_pow_pos _).trans_le hlow).ne'
  have hshort : roundDivEven m (2 ^ k) ≤ 2 ^ 53 :=
    hhigh.trans (Nat.pow_le_pow_right (by decide) (by omega))
  obtain ⟨em, e', hlast, hem, hcanonical, hvalue⟩ :=
    shiftToTargetExponent_rounded hpos hshort g hfull
  refine ⟨em.mantissa, e', Nat.pos_of_ne_zero hem, ?_, hcanonical, hvalue⟩
  unfold roundWithAccuracy
  rw [shiftToTargetExponent_eq k ht (by omega)]
  simp only [roundedMantissa_shiftRight, hk, hlast]
  rw [dif_neg hem]

/-- A number is rounded to the nearest. -/
theorem round_eq (s : Sign) (hm : m ≠ 0) (he : leastExponent ≤ e) :
    ∃ m' e' hpos, round Format.binary64 s m e = .finite s m' e' hpos ∧
      IsCanonical m' e' ∧ inUnits m' e' = nearest (inUnits m e) := by
  have ht := targetExponent_eq hm he
  generalize hg : (inUnits m e).log2 - 52 = g at ht
  obtain ⟨k, hk⟩ : ∃ k : Nat, (e - (leastExponent + g)).toNat = k := ⟨_, rfl⟩
  have hround : round Format.binary64 s m e =
      roundWithAccuracy Format.binary64 s (m * 2 ^ k) (e - k) .exact := by
    unfold UnpackedFloat.round decreaseExponent
    rw [ht]
    simp only [hk, Nat.shiftLeft_eq]
  have hne : m * 2 ^ k ≠ 0 := Nat.mul_ne_zero hm (Nat.two_pow_pos k).ne'
  have hsame : inUnits (m * 2 ^ k) (e - k) = inUnits m e := by
    rw [← inUnits_add _ (by omega), sub_add_cancel]
  have ht' := targetExponent_eq hne (e := e - k) (by omega)
  rw [hsame, hg] at ht'
  rw [hround, ← hsame]
  exact roundWithAccuracy_eq s hne (by omega) (by omega)

end

/-- The exponent of the largest floating point number. -/
def largestExponent : Int := 971

/-- No finite floating point number comes to so many units. -/
def beyond : Nat := inUnits (2 ^ 53) largestExponent

/-- A number as a multiple of the least positive one; infinities are beyond all finite numbers. -/
def unitsOf : UnpackedFloat → Int
  | .notANumber => 0
  | .infinity s => s.apply beyond
  | .zero _ => 0
  | .finite s m e _ => s.apply (inUnits m e)

/-- A number of units, or the bound of all numbers where it is beyond. -/
def clamp (n : Int) : Int := max (-beyond) (min beyond n)

/-- What the operations give before it is packed: its exponent may be too large. -/
def HasForm : UnpackedFloat → Prop
  | .finite _ m e _ => IsCanonical m e
  | _ => True

/-- A number as it is unpacked. -/
def IsRounded : UnpackedFloat → Prop
  | .finite _ m e _ => IsCanonical m e ∧ e ≤ largestExponent
  | _ => True

section

variable {m m' : Nat} {e e' : Int} {u v : UnpackedFloat}

theorem nearestInt_natCast (n : Nat) : nearestInt n = nearest n := by
  rw [nearestInt, if_neg (by omega), Int.natAbs_natCast]

/-- Rounding does not depend on the sign. -/
theorem nearestInt_neg (n : Int) : nearestInt (-n) = -nearestInt n := by
  have hzero : nearest 0 = 0 := nearest_of_fits (fits_of_le (Nat.zero_le _))
  unfold nearestInt
  rw [Int.natAbs_neg]
  rcases lt_trichotomy n 0 with hn | rfl | hn
  · rw [if_neg (by omega), if_pos hn, neg_neg]
  · simp [hzero]
  · rw [if_pos (by omega), if_neg (by omega)]

/-- A sum of mantissas is rounded to the nearest. -/
theorem normalize_eq (n : Int) (he : leastExponent ≤ e) (zeroSign : Sign) :
    HasForm (UnpackedFloat.normalize Format.binary64 n e zeroSign) ∧
      unitsOf (UnpackedFloat.normalize Format.binary64 n e zeroSign) =
        nearestInt (n * (2 ^ (e - leastExponent).toNat : Nat)) := by
  have hround : ∀ s (k : Nat), k ≠ 0 → HasForm (round Format.binary64 s k e) ∧
      unitsOf (round Format.binary64 s k e) =
        s.apply (nearestInt (k * (2 ^ (e - leastExponent).toNat : Nat))) := fun s k hk => by
    obtain ⟨m', e', hpos, hround, hcanonical, hunits⟩ := round_eq s hk he
    rw [hround, ← Nat.cast_mul, nearestInt_natCast]
    exact ⟨hcanonical, congrArg (fun n : Nat => s.apply n) hunits⟩
  unfold UnpackedFloat.normalize
  rcases lt_trichotomy n 0 with hn | rfl | hn
  · obtain ⟨k, rfl⟩ : ∃ k : Nat, n = -k := ⟨n.natAbs, by omega⟩
    rw [Int.compare_eq_lt.mpr hn, neg_neg, neg_mul, nearestInt_neg]
    exact hround .negative k (by omega)
  · rw [zero_mul]
    exact ⟨trivial, (nearestInt_natCast 0).symm⟩
  · obtain ⟨k, rfl⟩ : ∃ k : Nat, n = k := ⟨n.natAbs, by omega⟩
    rw [Int.compare_eq_gt.mpr hn]
    exact hround .positive k (by omega)

theorem decreaseExponent_eq (he' : e' ≤ e) (h : leastExponent ≤ e') :
    inUnits (decreaseExponent m e e').1 e' = inUnits m e := by
  obtain ⟨k, rfl⟩ : ∃ k : Nat, e = e' + k := ⟨(e - e').toNat, by omega⟩
  have hk : (e' + k - e').toNat = k := by omega
  rw [inUnits_add _ h, decreaseExponent, hk, Nat.shiftLeft_eq]

/-- A sum is rounded to the nearest. -/
theorem add_finite (s s' : Sign) (he : leastExponent ≤ e) (he' : leastExponent ≤ e') (hm : 0 < m)
    (hm' : 0 < m') :
    HasForm (UnpackedFloat.add Format.binary64 (.finite s m e hm) (.finite s' m' e' hm')) ∧
      unitsOf (UnpackedFloat.add Format.binary64 (.finite s m e hm) (.finite s' m' e' hm')) =
        nearestInt (unitsOf (.finite s m e hm) + unitsOf (.finite s' m' e' hm')) := by
  have hleast : leastExponent ≤ min e e' := le_min he he'
  obtain ⟨hform, hunits⟩ := normalize_eq (s.apply (decreaseExponent m e (min e e')).1 +
    s'.apply (decreaseExponent m' e' (min e e')).1) hleast .positive
  have happly : ∀ (s : Sign) (k p : Nat), s.apply k * (p : Int) = s.apply (k * p : Nat) := by
    intro s k p
    cases s <;> simp [Sign.apply]
  have hsum := decreaseExponent_eq (m := m) (min_le_left e e') hleast
  have hsum' := decreaseExponent_eq (m := m') (min_le_right e e') hleast
  rw [add_mul, happly, happly] at hunits
  unfold inUnits at hsum hsum'
  rw [hsum, hsum'] at hunits
  exact ⟨hform, hunits⟩

/-! ## Packed numbers -/

theorem inUnits_mono (hm : m ≤ m') (he : e ≤ e') : inUnits m e ≤ inUnits m' e' :=
  Nat.mul_le_mul hm (Nat.pow_le_pow_right (by decide) (by omega))

/-- A mantissa of 53 bits and a larger exponent make a larger number. -/
theorem inUnits_succ (he : leastExponent ≤ e) : inUnits (2 ^ 53) e = inUnits (2 ^ 52) (e + 1) :=
  (inUnits_add (2 ^ 52) he 1).symm

theorem inUnits_lt (hm : m < 2 ^ 53) (e : Int) : inUnits m e < inUnits (2 ^ 53) e :=
  Nat.mul_lt_mul_of_pos_right hm (Nat.two_pow_pos _)

/-- Canonical numbers are compared by their exponents first. -/
theorem IsCanonical.lt (h : IsCanonical m e) (h' : IsCanonical m' e') (he : e < e') :
    inUnits m e < inUnits m' e' := by
  have hfull : 2 ^ 52 ≤ m' := h'.full.resolve_right fun hleast => by
    have hleast' := h.least
    omega
  calc inUnits m e < inUnits (2 ^ 53) e := inUnits_lt h.short e
    _ = inUnits (2 ^ 52) (e + 1) := inUnits_succ h.least
    _ ≤ inUnits m' e' := inUnits_mono hfull he

theorem IsCanonical.lt_beyond (h : IsCanonical m e) (he : e ≤ largestExponent) :
    inUnits m e < beyond :=
  (inUnits_lt h.short e).trans_le (inUnits_mono (Nat.le_refl _) he)

theorem IsCanonical.beyond_le (h : IsCanonical m e) (he : largestExponent < e) :
    beyond ≤ inUnits m e := by
  have hfull : 2 ^ 52 ≤ m := h.full.resolve_right fun hleast => by
    unfold leastExponent at hleast
    unfold largestExponent at he
    omega
  rw [beyond, inUnits_succ (by decide)]
  exact inUnits_mono hfull he

theorem exists_signOf (s : Sign) : ∃ negative, s = signOf negative := by
  cases s
  · exact ⟨true, rfl⟩
  · exact ⟨false, rfl⟩

/-- A mantissa with its leading bit is packed without it. -/
theorem unpack_pack_normal {s : Sign} {hm : 0 < m} (h : IsCanonical m e) (he : e ≤ largestExponent)
    (hfull : 2 ^ 52 ≤ m) :
    UnpackedFloat.unpack Format.binary64 (UnpackedFloat.pack Format.binary64 (.finite s m e hm)) =
      .finite s m e hm := by
  obtain ⟨negative, rfl⟩ := exists_signOf s
  have hshort := h.short
  have hleast : -1074 ≤ e := h.least
  have hmost : e ≤ 971 := he
  obtain ⟨field, hfield⟩ : ∃ field : BitVec 11, (field.toNat : Int) = e + 1075 :=
    ⟨BitVec.ofNat 11 (e + 1075).toNat, by rw [BitVec.toNat_ofNat, Nat.mod_eq_of_lt] <;> omega⟩
  obtain ⟨fraction, hfraction⟩ : ∃ fraction : BitVec 52, 2 ^ 52 + fraction.toNat = m :=
    ⟨BitVec.ofNat 52 (m - 2 ^ 52), by rw [BitVec.toNat_ofNat, Nat.mod_eq_of_lt] <;> omega⟩
  have hnormal : IsNormal field := isNormal_of_lt (by omega) (by omega)
  have hsame : UnpackedFloat.finite (signOf negative) m e hm = normal negative field fraction := by
    subst hfraction
    obtain rfl : e = field.toNat - 1075 := by omega
    rfl
  rw [hsame, pack_normal hnormal, unpack_bitsOf hnormal]

/-- A short mantissa is packed as it is, with the least exponent. -/
theorem unpack_pack_subnormal {s : Sign} {hm : 0 < m} (hshort : m < 2 ^ 52) :
    UnpackedFloat.unpack Format.binary64
        (UnpackedFloat.pack Format.binary64 (.finite s m leastExponent hm)) =
      .finite s m leastExponent hm := by
  have hlog : m.log2 < 52 := (Nat.log2_lt hm.ne').mpr hshort
  have hvec : (BitVec.ofNat 52 m).toNat = m := by
    rw [BitVec.toNat_ofNat, Nat.mod_eq_of_lt hshort]
  have hne : BitVec.ofNat 52 m ≠ 0#52 := fun hzero => by
    rw [hzero] at hvec
    exact hm.ne hvec
  have hpack : UnpackedFloat.pack Format.binary64 (.finite s m leastExponent hm) =
      packComponents Format.binary64 s 0#11 (BitVec.ofNat 52 m) := by
    rw [UnpackedFloat.pack]
    simp only
    rw [if_neg (by decide), if_neg]
    show ¬ m.log2 + 1 = 53
    omega
  obtain ⟨negative, rfl⟩ := exists_signOf s
  have hsign : Sign.ofBitVec (unpackSign (packComponents Format.binary64 (signOf negative) 0#11
      (BitVec.ofNat 52 m))) = signOf negative := unpackSign_bitsOf
  rw [hpack, UnpackedFloat.unpack]
  simp only [unpackExponent_packComponents, unpackMantissa_packComponents, hsign, hvec]
  rw [if_neg (by decide), if_pos trivial, dif_neg hne]
  rfl

/-- A number that is packed is unpacked again. -/
theorem unpack_pack (h : IsRounded u) :
    UnpackedFloat.unpack Format.binary64 (UnpackedFloat.pack Format.binary64 u) = u := by
  cases u with
  | notANumber => rfl
  | infinity s => cases s <;> rfl
  | zero s => cases s <;> rfl
  | finite s m e hm =>
    by_cases hfull : 2 ^ 52 ≤ m
    · exact unpack_pack_normal h.1 h.2 hfull
    · obtain rfl : e = leastExponent := h.1.full.resolve_left hfull
      exact unpack_pack_subnormal (Nat.lt_of_not_le hfull)

/-- A number with too large an exponent is packed as an infinity. -/
theorem pack_of_large {s : Sign} {hm : 0 < m} (he : largestExponent < e) :
    UnpackedFloat.pack Format.binary64 (.finite s m e hm) =
      UnpackedFloat.pack Format.binary64 (.infinity s) := by
  have hlarge : 2048 ≤ (e + (1023 : Nat) + (52 : Nat)).toNat + 1 := by
    unfold largestExponent at he
    omega
  exact if_pos hlarge

theorem clamp_of_le {n : Int} (h : n.natAbs ≤ beyond) : clamp n = n := by
  unfold clamp
  omega

theorem natAbs_apply (s : Sign) (n : Nat) : (s.apply n).natAbs = n := by
  cases s <;> simp [Sign.apply]

/-- Packing keeps the number of units, up to the bound of all numbers. -/
theorem unitsOf_unpack_pack (h : HasForm u) :
    unitsOf (UnpackedFloat.unpack Format.binary64 (UnpackedFloat.pack Format.binary64 u)) =
      clamp (unitsOf u) := by
  cases u with
  | notANumber => rw [unpack_pack (u := .notANumber) trivial, clamp_of_le (Nat.zero_le _)]
  | infinity s =>
    have hle : (unitsOf (.infinity s)).natAbs ≤ beyond := (natAbs_apply s beyond).le
    rw [unpack_pack (u := .infinity s) trivial, clamp_of_le hle]
  | zero s => rw [unpack_pack (u := .zero s) trivial, clamp_of_le (Nat.zero_le _)]
  | finite s m e hm =>
    by_cases he : e ≤ largestExponent
    · have hle : (unitsOf (.finite s m e hm)).natAbs ≤ beyond :=
        (natAbs_apply s _).trans_le (IsCanonical.lt_beyond h he).le
      rw [unpack_pack (u := .finite s m e hm) ⟨h, he⟩, clamp_of_le hle]
    · have hle := IsCanonical.beyond_le h (by omega)
      rw [pack_of_large (by omega), unpack_pack (u := .infinity s) trivial]
      cases s <;> simp only [unitsOf, Sign.apply, clamp] <;> omega

/-- What is unpacked has the form of a number, with an exponent that is not too large. -/
theorem isRounded_unpack (b : BitVec Format.binary64.numBits) :
    IsRounded (UnpackedFloat.unpack Format.binary64 b) := by
  have hexponent : (unpackExponent b).toNat < 2 ^ 11 := (unpackExponent b).isLt
  have hmantissa : (unpackMantissa b).toNat < 2 ^ 52 := (unpackMantissa b).isLt
  unfold UnpackedFloat.unpack
  simp only
  split
  · split <;> trivial
  · rename_i hinfinite
    have hlargest : (unpackExponent b).toNat ≠ 2047 := fun h =>
      hinfinite (BitVec.eq_of_toNat_eq h)
    split
    · rename_i hzero
      have hleast : (unpackExponent b).toNat = 0 := congrArg BitVec.toNat hzero
      split
      · trivial
      · show IsCanonical _ (((unpackExponent b).toNat : Int) - 1075 + 1) ∧
          ((unpackExponent b).toNat : Int) - 1075 + 1 ≤ 971
        rw [hleast]
        exact ⟨⟨by omega, by decide, .inr (by decide)⟩, by decide⟩
    · rename_i hzero
      have hleast : (unpackExponent b).toNat ≠ 0 := fun h => hzero (BitVec.eq_of_toNat_eq h)
      have hfull := toNat_leading (unpackMantissa b)
      show IsCanonical (1#1 ++ unpackMantissa b).toNat (((unpackExponent b).toNat : Int) - 1075) ∧
        ((unpackExponent b).toNat : Int) - 1075 ≤ 971
      rw [hfull]
      refine ⟨⟨by omega, ?_, .inl (by omega)⟩, by omega⟩
      show (-1074 : Int) ≤ _
      omega

end

end Binary

end EventScript
