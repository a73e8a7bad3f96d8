import EventScript.Proofs.Number.Rounding

/-! # Sums of floating point numbers

In units of the least positive number, a floating point number is an integer, and an infinity the
bound of all of them.  A sum is rounded, but not beyond a number that need not be rounded, such as
its first part; so it lies on the side of the first part to which the second one leads, or is no
other number.  Then the next sum with the same second part is no other number either.

* `eq_of_unitsOf_eq`           numbers are the same if their units are, unless they are zero
* `leadsTo_units`              the side on which a sum lies
* `add_add_eq`                 a number that is added without effect
* `units_of_ofFloat?`, `eq_infinity_of_ofFloat?`   exact values and units
-/

namespace EventScript

namespace Binary

open Float.Model Float.Model.UnpackedFloat

variable {m m' : Nat} {e e' : Int} {u v : UnpackedFloat}

/-! ## Units of different numbers -/

/-- Canonical numbers are the same if their units are. -/
theorem IsCanonical.unique (h : IsCanonical m e) (h' : IsCanonical m' e')
    (hunits : inUnits m e = inUnits m' e') : m = m' ∧ e = e' := by
  rcases lt_trichotomy e e' with he | rfl | he
  · exact absurd hunits (h.lt h' he).ne
  · exact ⟨Nat.eq_of_mul_eq_mul_right (Nat.two_pow_pos _) hunits, rfl⟩
  · exact absurd hunits (h'.lt h he).ne'

theorem inUnits_pos (hm : 0 < m) (e : Int) : 0 < inUnits m e :=
  Nat.mul_pos hm (Nat.two_pow_pos _)

theorem beyond_pos : 0 < beyond := inUnits_pos (Nat.two_pow_pos _) _

theorem unitsOf_positive : unitsOf (.infinity .positive) = beyond := rfl

theorem unitsOf_negative : unitsOf (.infinity .negative) = -beyond := rfl

/-- Only an infinity has as many units as the bound of all numbers. -/
theorem natAbs_unitsOf_lt (h : IsRounded u) (hfinite : ∀ s, u ≠ .infinity s) :
    (unitsOf u).natAbs < beyond := by
  cases u with
  | notANumber => exact beyond_pos
  | infinity s => exact absurd rfl (hfinite s)
  | zero s => exact beyond_pos
  | finite s m e hm => exact (natAbs_apply s _).trans_lt (h.1.lt_beyond h.2)

theorem natAbs_unitsOf_le (h : IsRounded u) : (unitsOf u).natAbs ≤ beyond := by
  by_cases hinfinite : ∃ s, u = .infinity s
  · obtain ⟨s, rfl⟩ := hinfinite
    exact (natAbs_apply s beyond).le
  · exact (natAbs_unitsOf_lt h (not_exists.mp hinfinite)).le

theorem eq_infinity {s : Sign} (hu : IsRounded u) (h : unitsOf u = unitsOf (.infinity s)) :
    u = .infinity s := by
  by_cases hinfinite : ∃ s', u = .infinity s'
  · obtain ⟨s', rfl⟩ := hinfinite
    have hpos := beyond_pos
    cases s <;> cases s' <;> simp only [unitsOf_positive, unitsOf_negative] at h <;>
      first | rfl | omega
  · have hlt := natAbs_unitsOf_lt hu (not_exists.mp hinfinite)
    rw [h, unitsOf, natAbs_apply] at hlt
    exact absurd hlt (Nat.lt_irrefl _)

theorem eq_zero {u : UnpackedFloat} (hnan : u ≠ .notANumber) (h : unitsOf u = 0) :
    ∃ s, u = .zero s := by
  have hzero := congrArg Int.natAbs h
  cases u with
  | notANumber => exact absurd rfl hnan
  | infinity s =>
    rw [unitsOf, natAbs_apply] at hzero
    exact absurd hzero beyond_pos.ne'
  | zero s => exact ⟨s, rfl⟩
  | finite s m e hm =>
    rw [unitsOf, natAbs_apply] at hzero
    exact absurd hzero (inUnits_pos hm e).ne'

/-- Numbers with the same units are the same, unless they are zero. -/
theorem eq_of_unitsOf_eq (hu : IsRounded u) (hv : IsRounded v) (h : unitsOf u = unitsOf v)
    (hne : unitsOf u ≠ 0) : u = v := by
  cases u with
  | notANumber => exact absurd rfl hne
  | zero s => exact absurd rfl hne
  | infinity s => exact (eq_infinity hv h.symm).symm
  | finite s m e hm =>
    cases v with
    | notANumber => exact absurd h hne
    | zero s' => exact absurd h hne
    | infinity s' => exact eq_infinity hu h
    | finite s' m' e' hm' =>
      have hpos := inUnits_pos hm e
      have hpos' := inUnits_pos hm' e'
      obtain ⟨rfl, hunits⟩ : s = s' ∧ inUnits m e = inUnits m' e' := by
        cases s <;> cases s' <;> simp only [unitsOf, Sign.apply] at h <;>
          first | exact ⟨rfl, by omega⟩ | omega
      obtain ⟨rfl, rfl⟩ := hu.1.unique hv.1 hunits
      rfl

/-! ## Sums -/

theorem le_nearest {a n : Nat} (ha : Fits a) (h : a ≤ n) : a ≤ nearest n := by
  have hdist := dist_nearest_le n ha
  unfold Nat.dist at hdist
  omega

theorem nearest_le {a n : Nat} (ha : Fits a) (h : n ≤ a) : nearest n ≤ a := by
  have hdist := dist_nearest_le n ha
  unfold Nat.dist at hdist
  omega

/-- Rounding does not pass a number that is not rounded itself. -/
theorem le_nearestInt {a n : Int} (ha : Fits a.natAbs) (h : a ≤ n) : a ≤ nearestInt n := by
  unfold nearestInt
  split
  · have hle := nearest_le ha (n := n.natAbs) (by omega)
    omega
  · rcases Int.le_total a 0 with hneg | hpos
    · omega
    · have hle := le_nearest ha (n := n.natAbs) (by omega)
      omega

theorem nearestInt_le {a n : Int} (ha : Fits a.natAbs) (h : n ≤ a) : nearestInt n ≤ a := by
  have hle := le_nearestInt (a := -a) (n := -n) (by rwa [Int.natAbs_neg]) (by omega)
  rw [nearestInt_neg] at hle
  omega

theorem IsCanonical.fits (h : IsCanonical m e) : Fits (inUnits m e) :=
  ⟨m, _, rfl, h.short.le⟩

/-- From `a`, a step of `b` leads in the direction of `r`. -/
def LeadsTo (a b r : Int) : Prop := (0 ≤ b → a ≤ r) ∧ (b ≤ 0 → r ≤ a)

/-- A step leads in its own direction, however the sum is rounded. -/
theorem leadsTo_clamp {a b : Int} (ha : a.natAbs ≤ beyond) (hfits : Fits a.natAbs) :
    LeadsTo a b (clamp (nearestInt (a + b))) := by
  refine ⟨fun hb => ?_, fun hb => ?_⟩
  · have hle := le_nearestInt hfits (n := a + b) (by omega)
    unfold clamp
    omega
  · have hle := nearestInt_le hfits (n := a + b) (by omega)
    unfold clamp
    omega

/-- So do the steps of all numbers, if there is a sum. -/
theorem leadsTo_add (hu : IsRounded u) (hv : IsRounded v)
    (hnan : UnpackedFloat.add Format.binary64 u v ≠ .notANumber) :
    HasForm (UnpackedFloat.add Format.binary64 u v) ∧
      LeadsTo (unitsOf u) (unitsOf v)
        (clamp (unitsOf (UnpackedFloat.add Format.binary64 u v))) := by
  have hle := natAbs_unitsOf_le hu
  have hclamp := clamp_of_le hle
  have hclamp' := clamp_of_le (natAbs_unitsOf_le hv)
  have hform : ∀ {w}, IsRounded w → HasForm w := fun {w} hw => by
    cases w <;> first | exact trivial | exact hw.1
  have hrefl : ∀ a b, LeadsTo a b a := fun a b => ⟨fun _ => le_rfl, fun _ => le_rfl⟩
  by_cases hfinite : ∃ s m e hm s' m' e' hm', u = .finite s m e hm ∧ v = .finite s' m' e' hm'
  · obtain ⟨s, m, e, hm, s', m', e', hm', rfl, rfl⟩ := hfinite
    obtain ⟨hsum, hunits⟩ := add_finite s s' hu.1.least hv.1.least hm hm'
    refine ⟨hsum, ?_⟩
    rw [hunits]
    refine leadsTo_clamp hle ?_
    rw [unitsOf, natAbs_apply]
    exact hu.1.fits
  · revert hnan
    fun_cases UnpackedFloat.add Format.binary64 u v
    case case1 | case2 | case4 => exact fun h => absurd rfl h
    case case3 | case5 | case7 | case10 =>
      rw [hclamp]
      exact fun _ => ⟨hform hu, hrefl _ _⟩
    case case6 s _ _ =>
      rw [hclamp']
      refine fun _ => ⟨trivial, ?_⟩
      cases s <;> simp only [unitsOf_positive, unitsOf_negative] <;> constructor <;> omega
    case case8 s _ _ =>
      have hzero : clamp (unitsOf (.zero .positive)) = unitsOf (.zero s) := hclamp
      rw [hzero]
      exact fun _ => ⟨trivial, hrefl _ _⟩
    case case9 =>
      rw [hclamp']
      exact fun _ => ⟨hform hv, id, id⟩
    case case11 => exact absurd ⟨_, _, _, _, _, _, _, _, rfl, rfl⟩ hfinite

theorem unitsOf_zero_add (s : Sign) (u : UnpackedFloat) :
    unitsOf (UnpackedFloat.add Format.binary64 (.zero s) u) = unitsOf u := by
  cases u with
  | notANumber | infinity s' | finite s' m e hm => rfl
  | zero s' => cases s <;> cases s' <;> rfl

/-! ## Floating point numbers -/

variable {x y : Float}

/-- A floating point number as a multiple of the least positive one. -/
def units (x : Float) : Int := unitsOf x.toModel.unpack

theorem isRounded (x : Float) : IsRounded x.toModel.unpack := isRounded_unpack _

theorem isNaN_eq_false : x.isNaN = false ↔ x.toModel.unpack ≠ .notANumber := by
  show x.toModel.unpack.isNaN = false ↔ _
  cases x.toModel.unpack <;> simp [UnpackedFloat.isNaN]

theorem unpack_add (x y : Float) : (x + y).toModel.unpack =
    UnpackedFloat.unpack Format.binary64 (UnpackedFloat.pack Format.binary64
      (UnpackedFloat.add Format.binary64 x.toModel.unpack y.toModel.unpack)) := rfl

theorem natAbs_units_le (x : Float) : (units x).natAbs ≤ beyond := natAbs_unitsOf_le (isRounded x)

theorem lt_iff_compare : x < y ↔
    UnpackedFloat.compare x.toModel.unpack y.toModel.unpack = some .lt := by
  have hlt : x < y ↔ UnpackedFloat.lt x.toModel.unpack y.toModel.unpack = true :=
    decide_eq_true_iff
  rw [hlt, UnpackedFloat.lt, beq_iff_eq]

/-- What is not a number is not below anything, and nothing is below it. -/
theorem isNaN_of_lt (h : x < y) : x.isNaN = false ∧ y.isNaN = false := by
  rw [lt_iff_compare] at h
  constructor
  · rw [isNaN_eq_false]
    intro hx
    rw [hx] at h
    exact nomatch h
  · rw [isNaN_eq_false]
    intro hy
    have hnone : UnpackedFloat.compare x.toModel.unpack .notANumber = none := by
      cases x.toModel.unpack <;> rfl
    rw [hy, hnone] at h
    exact nomatch h

theorem add_ne_notANumber (h : (x + y).isNaN = false) :
    UnpackedFloat.add Format.binary64 x.toModel.unpack y.toModel.unpack ≠ .notANumber :=
  fun hsum => isNaN_eq_false.mp h <| by rw [unpack_add, hsum]; rfl

/-- A sum lies in the direction in which its second part leads. -/
theorem leadsTo_units (h : (x + y).isNaN = false) :
    LeadsTo (units x) (units y) (units (x + y)) := by
  obtain ⟨hform, hleads⟩ := leadsTo_add (isRounded x) (isRounded y) (add_ne_notANumber h)
  rw [← unitsOf_unpack_pack hform] at hleads
  exact hleads

/-- Where adding a number changes nothing any more, it never will again. -/
theorem add_add_eq (h : (x + y).isNaN = false) (hy : units y ≠ 0)
    (hunits : units (x + y) = units x) : x + y + y = x + y := by
  have hnan := add_ne_notANumber h
  have hx : x.toModel.unpack ≠ .notANumber := fun hx => hnan (by rw [hx]; rfl)
  have hne : units x ≠ 0 := fun hzero => by
    obtain ⟨s, hs⟩ := eq_zero hx hzero
    have hstep : units (x + y) = units y := by
      rw [hs] at hnan
      have hform := (leadsTo_add (u := .zero s) trivial (isRounded y) hnan).1
      rw [units, unpack_add, hs, unitsOf_unpack_pack hform, unitsOf_zero_add]
      exact clamp_of_le (natAbs_units_le y)
    omega
  have hsame : (x + y).toModel.unpack = x.toModel.unpack :=
    eq_of_unitsOf_eq (isRounded _) (isRounded _) hunits (hunits.trans_ne hne)
  have hmodel : (x + y + y).toModel = (x + y).toModel := by
    have hsum : ∀ z w : Float, (z + w).toModel = Float.Model.pack
        (UnpackedFloat.add Format.binary64 z.toModel.unpack w.toModel.unpack) := fun _ _ => rfl
    rw [hsum, hsame, hsum]
  exact congrArg Float.ofModel hmodel

/-! ## Exact values -/

variable {negative : Bool} {field : BitVec 11} {fraction : BitVec 52}

theorem unpack_bitsOf_least (negative : Bool) (fraction : BitVec 52) :
    UnpackedFloat.unpack Format.binary64 (bitsOf negative 0#11 fraction) ≠ .notANumber ∧
      unitsOf (UnpackedFloat.unpack Format.binary64 (bitsOf negative 0#11 fraction)) =
        (signOf negative).apply (inUnits fraction.toNat leastExponent) := by
  have hexponent : unpackExponent (bitsOf negative 0#11 fraction) = 0#11 :=
    unpackExponent_packComponents
  have hmantissa : unpackMantissa (bitsOf negative 0#11 fraction) = fraction :=
    unpackMantissa_packComponents
  rw [UnpackedFloat.unpack]
  simp only [hexponent, hmantissa, unpackSign_bitsOf]
  rw [if_neg (by decide), if_pos trivial]
  split
  · rename_i hzero
    obtain rfl : fraction = 0#52 := hzero
    cases negative <;> exact ⟨nofun, rfl⟩
  · exact ⟨nofun, rfl⟩

/-- Both readings of a finite number give the same number. -/
theorem units_of_ofFloat? {b : Binary} (h : ofFloat? x = some b) :
    x.isNaN = false ∧ units x = (signOf b.negative).apply (inUnits b.mantissa b.exponent) := by
  obtain ⟨negative, field, fraction, hbits⟩ := exists_bitsOf x
  rw [ofFloat?_of_bits hbits] at h
  have hunpack : x.toModel.unpack =
      UnpackedFloat.unpack Format.binary64 (bitsOf negative field fraction) :=
    congrArg (UnpackedFloat.unpack Format.binary64) hbits
  rw [isNaN_eq_false, units, hunpack]
  split at h
  · exact nomatch h
  · split at h
    · rename_i hleast
      obtain rfl : field = 0#11 := BitVec.eq_of_toNat_eq hleast
      cases h
      exact unpack_bitsOf_least negative fraction
    · rename_i hlargest hleast
      have hlt := field.isLt
      have hnormal := isNormal_of_lt (Nat.pos_of_ne_zero hleast) (by omega)
      cases h
      rw [unpack_bitsOf hnormal, Nat.add_comm]
      exact ⟨nofun, rfl⟩

theorem eq_of_toBits (h : x.toBits = y.toBits) : x = y := by
  obtain ⟨⟨bits, hvalid⟩⟩ := x
  obtain ⟨⟨bits', hvalid'⟩⟩ := y
  obtain rfl : bits = bits' := h
  rfl

/-- Numbers without an exact value are infinite. -/
theorem eq_infinity_of_ofFloat? (h : ofFloat? x = none) (hnan : x.isNaN = false) :
    ∃ negative, x = signed negative (1 / 0) := by
  obtain ⟨negative, field, fraction, hbits⟩ := exists_bitsOf x
  rw [ofFloat?_of_bits hbits] at h
  have hfield : field.toNat = 2047 := by
    by_contra hne
    rw [if_neg hne] at h
    split at h <;> exact nomatch h
  obtain rfl : field = -1#11 := BitVec.eq_of_toNat_eq hfield
  have hmantissa : unpackMantissa (bitsOf negative (-1#11) fraction) = fraction :=
    unpackMantissa_packComponents
  have hexponent : unpackExponent (bitsOf negative (-1#11) fraction) = -1#11 :=
    unpackExponent_packComponents
  have hzero : fraction = 0#52 := by
    by_contra hne
    refine isNaN_eq_false.mp hnan ?_
    show UnpackedFloat.unpack Format.binary64 x.toBits.toBitVec = _
    rw [hbits, UnpackedFloat.unpack]
    simp only [hexponent, hmantissa]
    rw [if_pos trivial, if_neg hne]
  subst hzero
  refine ⟨negative, eq_of_toBits (UInt64.toBitVec_inj.mp ?_)⟩
  rw [hbits]
  cases negative <;> rfl

end Binary

end EventScript
