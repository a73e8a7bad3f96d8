import EventScript.Proofs.Number.Doubles

/-! # The bits of a floating point number

A floating point number is written with a sign, a field for its exponent, and 52 bits of its
mantissa.  Where the field is neither zero nor all ones the number is normal, and the leading one of
its mantissa is not written (`Written`).  Both readings of these bits, the one of the floating point
operations and `ofFloat?`, give the same number.

* `exists_bitsOf`, `ofFloat?_of_bits`   the bits of any number, and what `ofFloat?` reads in them
* `written_ofBits`, `Written.neg`       numbers made of bits, and their opposites
* `Written.ofFloat?_eq`                 the exact value
-/

namespace EventScript

namespace Binary

open Float.Model Float.Model.UnpackedFloat

/-- The sign of a number. -/
def signOf (negative : Bool) : Sign := if negative then .negative else .positive

/-- The bits of a number with given parts. -/
def bitsOf (negative : Bool) (field : BitVec 11) (fraction : BitVec 52) :
    BitVec Format.binary64.numBits :=
  packComponents Format.binary64 (signOf negative) field fraction

variable {negative : Bool} {field : BitVec 11} {fraction : BitVec 52}

/-- The mantissa of a normal number, with the bit that is not written. -/
theorem toNat_leading (fraction : BitVec 52) :
    (1#1 ++ fraction).toNat = 2 ^ 52 + fraction.toNat := by
  rw [BitVec.toNat_append, ← Nat.shiftLeft_add_eq_or_of_lt fraction.isLt]
  rfl

theorem toNat_bitsOf : (bitsOf negative field fraction).toNat =
    (negative.toNat * 2 ^ 11 + field.toNat) * 2 ^ 52 + fraction.toNat := by
  have hsign : (signOf negative).toBitVec.toNat = negative.toNat := by cases negative <;> rfl
  unfold bitsOf packComponents
  rw [BitVec.toNat_append, BitVec.toNat_append, ← Nat.shiftLeft_add_eq_or_of_lt fraction.isLt,
    ← Nat.shiftLeft_add_eq_or_of_lt field.isLt, Nat.shiftLeft_eq, Nat.shiftLeft_eq, hsign]

theorem unpackSign_bitsOf :
    Sign.ofBitVec (unpackSign (bitsOf negative field fraction)) = signOf negative := by
  simp only [unpackSign, bitsOf, packComponents, BitVec.extractLsb]
  rw [BitVec.extractLsb'_append_eq_of_le (by omega),
    BitVec.extractLsb'_append_eq_of_le (by omega)]
  cases negative <;> rfl

/-- The exponent of a normal number is neither the least nor the largest one. -/
structure IsNormal (field : BitVec 11) : Prop where
  least : field ≠ 0#11
  largest : field ≠ -1#11

theorem isNormal_of_lt (hpos : 0 < field.toNat) (hlt : field.toNat < 2047) : IsNormal field where
  least h := absurd (congrArg BitVec.toNat h) hpos.ne'
  largest h := absurd (congrArg BitVec.toNat h) hlt.ne

theorem IsNormal.pos (h : IsNormal field) : 0 < field.toNat :=
  Nat.pos_of_ne_zero fun hzero => h.least (BitVec.eq_of_toNat_eq hzero)

theorem IsNormal.lt (h : IsNormal field) : field.toNat < 2047 := by
  have hne : field.toNat ≠ 2047 := fun hall => h.largest (BitVec.eq_of_toNat_eq hall)
  have hlt := field.isLt
  omega

/-- A normal number as the operations take it apart. -/
def normal (negative : Bool) (field : BitVec 11) (fraction : BitVec 52) : UnpackedFloat :=
  .finite (signOf negative) (2 ^ 52 + fraction.toNat) ((field.toNat : Int) - 1075)
    (Nat.add_pos_left (Nat.two_pow_pos 52) _)

theorem unpack_bitsOf (h : IsNormal field) :
    UnpackedFloat.unpack Format.binary64 (bitsOf negative field fraction) =
      normal negative field fraction := by
  have hexponent : unpackExponent (bitsOf negative field fraction) = field :=
    unpackExponent_packComponents
  have hmantissa : unpackMantissa (bitsOf negative field fraction) = fraction :=
    unpackMantissa_packComponents
  rw [UnpackedFloat.unpack]
  simp only [hexponent, hmantissa, unpackSign_bitsOf]
  rw [if_neg h.largest, if_neg h.least]
  simp only [toNat_leading]
  rfl

theorem pack_normal (h : IsNormal field) :
    UnpackedFloat.pack Format.binary64 (normal negative field fraction) =
      bitsOf negative field fraction := by
  have hlog : (2 ^ 52 + fraction.toNat).log2 = 52 := by
    have hlt := fraction.isLt
    rw [Nat.log2_eq_iff (by omega)]
    omega
  have hbiased : (((field.toNat : Int) - 1075) + Format.binary64.exponentBias +
      Format.binary64.mantissaBitsWithoutImplicit).toNat = field.toNat := by
    show (((field.toNat : Int) - 1075) + (1023 : Nat) + (52 : Nat)).toNat = field.toNat
    omega
  have hlt := h.lt
  have hfraction : BitVec.ofNat 52 (2 ^ 52 + fraction.toNat) = fraction :=
    BitVec.eq_of_toNat_eq (by simp [Nat.mod_eq_of_lt fraction.isLt])
  unfold normal
  rw [UnpackedFloat.pack]
  simp only [hlog, hbiased]
  rw [if_neg (by omega), if_pos (show 52 + 1 = Format.binary64.mantissaBits from rfl), hfraction,
    BitVec.ofNat_toNat]
  rfl

variable {x : Float}

/-- What `ofFloat?` reads in the bits of a number. -/
theorem ofFloat?_of_bits (h : x.toBits.toBitVec = bitsOf negative field fraction) :
    ofFloat? x =
      if field.toNat = 2047 then none
      else if field.toNat = 0 then some ⟨negative, fraction.toNat, -1074, false⟩
      else some ⟨negative, fraction.toNat + 2 ^ 52, (field.toNat : Int) - 1075,
        fraction.toNat = 0 && field.toNat > 1⟩ := by
  have hbits : x.toBits.toNat = (negative.toNat * 2 ^ 11 + field.toNat) * 2 ^ 52 + fraction.toNat :=
    (congrArg BitVec.toNat h).trans toNat_bitsOf
  have hfield := field.isLt
  have hfraction := fraction.isLt
  have hsign : x.toBits.toNat >>> 63 = negative.toNat := by
    rw [hbits, Nat.shiftRight_eq_div_pow]
    omega
  have hnegative : (x.toBits.toNat >>> 63 == 1) = negative := by
    rw [hsign]
    cases negative <;> rfl
  have hexponent : (x.toBits.toNat >>> 52) % 2048 = field.toNat := by
    rw [hbits, Nat.shiftRight_eq_div_pow]
    omega
  have hmantissa : x.toBits.toNat % hidden = fraction.toNat := by
    rw [hbits, show hidden = 2 ^ 52 from rfl]
    omega
  unfold ofFloat?
  simp only [hnegative, hexponent, hmantissa]
  rfl

/-- The bits of any number are a sign, a field for the exponent and one for the mantissa. -/
theorem exists_bitsOf (x : Float) :
    ∃ negative field fraction, x.toBits.toBitVec = bitsOf negative field fraction := by
  have hlt : x.toBits.toBitVec.toNat < 2 ^ 64 := x.toBits.toBitVec.isLt
  generalize x.toBits.toBitVec = bits at hlt
  refine ⟨2 ^ 63 ≤ bits.toNat, BitVec.ofNat 11 (bits.toNat / 2 ^ 52), BitVec.ofNat 52 bits.toNat,
    BitVec.eq_of_toNat_eq ?_⟩
  rw [toNat_bitsOf, BitVec.toNat_ofNat, BitVec.toNat_ofNat]
  by_cases hsign : 2 ^ 63 ≤ bits.toNat
  · rw [decide_eq_true hsign]
    show _ = (1 * 2 ^ 11 + _) * 2 ^ 52 + _
    omega
  · rw [decide_eq_false hsign]
    show _ = (0 * 2 ^ 11 + _) * 2 ^ 52 + _
    omega

/-- A floating point number is normal and written with given parts. -/
structure Written (x : Float) (negative : Bool) (field : BitVec 11) (fraction : BitVec 52) :
    Prop where
  bits : x.toBits.toBitVec = bitsOf negative field fraction
  normal : IsNormal field

theorem written_ofBits {bits : UInt64} (hbits : bits.toBitVec = bitsOf negative field fraction)
    (h : IsNormal field) : Written (Float.ofBits bits) negative field fraction where
  bits := by
    show UnpackedFloat.pack Format.binary64 (UnpackedFloat.unpack Format.binary64 bits.toBitVec) = _
    rw [hbits, unpack_bitsOf h, pack_normal h]
  normal := h

/-- The opposite number has the other sign. -/
theorem Written.neg (h : Written x negative field fraction) :
    Written (-x) (!negative) field fraction where
  bits := by
    show UnpackedFloat.pack Format.binary64
      (UnpackedFloat.unpack Format.binary64 x.toBits.toBitVec).neg = _
    rw [h.bits, unpack_bitsOf h.normal, ← pack_normal h.normal]
    cases negative <;> rfl
  normal := h.normal

/-- What `ofFloat?` takes a normal number apart to. -/
theorem Written.ofFloat?_eq (h : Written x negative field fraction) :
    ofFloat? x = some ⟨negative, fraction.toNat + 2 ^ 52, (field.toNat : Int) - 1075,
      fraction.toNat = 0 && field.toNat > 1⟩ := by
  rw [ofFloat?_of_bits h.bits, if_neg h.normal.lt.ne, if_neg h.normal.pos.ne']

end Binary

end EventScript
