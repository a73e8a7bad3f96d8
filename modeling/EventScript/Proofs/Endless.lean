import EventScript.Proofs.Number.Sums
import EventScript.Proofs.Progression

/-! # Counting without end

`list.range` goes on until it has passed its end, and no ceiling is set to the rounds of a native.
Over integers every round comes closer to the end, unless that is infinite.  Floating point numbers
are rounded, so there is more to it: far from zero the sum of a number and a step may be the number
itself, and then there are no other numbers any more.  These are the only ways not to end.  From the
second round on, a step that is not an integer, or a start that is not, makes all numbers floating
point ones; as long as they change they lead in the direction of the step, and of floating point
numbers there are finitely many in each direction.

* `ends_countFrom`            counting ends if it does from the next number on
* `unitsLeft_lt`, `ends_float`   each new floating point number leaves fewer of them
* `exists_bound`, `ends_int`  only an infinite end has infinitely many integers in front of it
* `not_ends_of_invariant`     numbers that are always followed by another one
* `range_never_ends_iff`      when `list.range` does not end
-/

namespace EventScript

open Evaluate

/-! ## The way to the end -/

/-- Counting comes from one number to another one. -/
inductive ComesTo (upward : Bool) (stop step : Number) : Number → Number → Prop
  | here (i : Number) : ComesTo upward stop step i i
  | next {i j k : Number} (hahead : IsAhead upward i stop) (hadd : i.add step = .ok j)
      (hrest : ComesTo upward stop step j k) : ComesTo upward stop step i k

/-- Counting comes to a number in front of the end that the step does not change. -/
def GetsStuck (upward : Bool) (start stop step : Number) : Prop :=
  ∃ i, ComesTo upward stop step start i ∧ IsAhead upward i stop ∧ i.add step = .ok i

/-- Integers are counted towards an infinite end. -/
def HasNoEnd (upward : Bool) (start stop step : Number) : Prop :=
  (∃ m n : Int, start = .int m ∧ step = .int n) ∧
    stop = .float (Binary.signed (!upward) (1 / 0))

section

variable {upward : Bool} {i j start stop step : Number} {w : World}

theorem lt_float (x y : Float) : (Number.float x).lt (.float y) = true ↔ x < y := by
  have hcompare : (Number.float x).compare? (.float y) =
      if x < y then some .lt else if x == y then some .eq else if x > y then some .gt else none :=
    rfl
  rw [Number.lt, hcompare, beq_iff_eq]
  split
  · simpa
  · rename_i hlt
    refine iff_of_false (fun h => ?_) hlt
    split at h
    · cases h
    · split at h <;> cases h

theorem compare?_of_isNaN {x : Float} (h : x.isNaN = true) (n : Int) :
    (Number.int n).compare? (.float x) = none ∧ (Number.float x).compare? (.int n) = none := by
  have hnone : Binary.ofFloat? x = none := by
    cases hx : Binary.ofFloat? x with
    | none => rfl
    | some b => cases h.symm.trans (Binary.units_of_ofFloat? hx).1
  constructor <;> rw [Number.compare?, hnone] <;> exact if_pos h

/-- What is not a number is not below any number, and no number is below it. -/
theorem isNaN_of_lt {a b : Number} (h : a.lt b = true) : a.isNaN = false ∧ b.isNaN = false := by
  cases a with
  | int m =>
    cases b with
    | int n => exact ⟨rfl, rfl⟩
    | float y =>
      refine ⟨rfl, Bool.eq_false_of_not_eq_true fun hnan => ?_⟩
      rw [Number.lt, (compare?_of_isNaN hnan m).1] at h
      cases h
  | float x =>
    cases b with
    | int n =>
      refine ⟨Bool.eq_false_of_not_eq_true fun hnan => ?_, rfl⟩
      rw [Number.lt, (compare?_of_isNaN hnan n).2] at h
      cases h
    | float y => exact Binary.isNaN_of_lt ((lt_float x y).mp h)

theorem isNaN_of_isAhead (h : IsAhead upward i stop) : i.isNaN = false ∧ stop.isNaN = false := by
  cases upward with
  | true => exact isNaN_of_lt h
  | false => exact (isNaN_of_lt h).symm

/-! ## One round -/

/-- The task to count on from a number. -/
def countFrom (upward : Bool) (stop step i : Number) (found : Array Value) (run : Runner) :
    Eval (Array Value) :=
  run (.count (.number i) (.number stop) (.number step) upward found)

section

variable (found : Array Value)

theorem yields_of_not_isAhead (h : ¬ IsAhead upward i stop) :
    Yields (countFrom upward stop step i found) w (.ok found w) :=
  .task (.of_eq fun run => countNext_of_not_isAhead run h found)

/-- Counting ends with a sum that is not a number. -/
theorem yields_nan (upward : Bool) (mark : Nat) (stop : Number) (step : Value) :
    Yields (fun run => run (.count (.nan mark) (.number stop) step upward found)) w
      (.ok found w) := by
  have hnan : (Number.float (0 / 0)).isNaN = true := rfl
  have hnone : ¬ IsAhead upward (.float (0 / 0)) stop := fun h =>
    nomatch hnan.symm.trans (isNaN_of_isAhead h).1
  have hbelow : (if upward then Library.below (.nan mark) (.number stop)
      else Library.below (.number stop) (.nan mark)) w = .ok false w := by
    have hfalse := Bool.eq_false_iff.mpr hnone
    cases upward <;> exact congrArg (EStateM.Result.ok · w) hfalse
  refine .task (.of_eq fun run => ?_)
  show Library.countNext run (.nan mark) (.number stop) step upward found w = _
  unfold Library.countNext
  exact Eval.run_bind_of_ok hbelow

/-- Counting ends if it ends from the next number on, where there is one. -/
theorem ends_countFrom (h : IsAhead upward i stop → ∀ j, i.add step = .ok j → j.isNaN = false →
    ∀ found, Ends (countFrom upward stop step j found) w) :
    Ends (countFrom upward stop step i found) w := by
  by_cases hahead : IsAhead upward i stop
  · cases hadd : i.add step with
    | error f =>
      refine ends_iff_yields.mpr ⟨.error (.fault f) w, nofun, .task (.of_eq fun run => ?_)⟩
      refine (countNext_of_isAhead run hahead found).trans ?_
      rw [hadd]
      rfl
    | ok j =>
      cases hnan : j.isNaN with
      | true =>
        obtain ⟨mark, u, hvalue⟩ : ∃ mark u, Eval.ofNumber j w = .ok (.nan mark) u := by
          unfold Eval.ofNumber
          exact ⟨_, _, congrFun (if_pos hnan) w⟩
        refine ends_iff_yields.mpr ⟨.ok (found.push (.number i)) u, trivial,
          .task ((yields_nan _ upward mark stop (.number step)).congr fun run => ?_)⟩
        refine (countNext_of_isAhead run hahead found).trans ?_
        rw [hadd]
        exact Eval.run_bind_of_ok hvalue
      | false =>
        have hnext := h hahead j hadd hnan (found.push (.number i))
        obtain ⟨r, hr, hyields⟩ := ends_iff_yields.mp hnext
        exact ends_iff_yields.mpr ⟨r, hr, .task (hyields.congr fun run =>
          countNext_of_add run hahead hadd hnan found)⟩
  · exact ends_iff_yields.mpr ⟨.ok found w, trivial, yields_of_not_isAhead found hahead⟩

end

/-! ## Floating point numbers -/

/-- A floating point number leads upwards or downwards. -/
def IsDirected (upward : Bool) (s : Float) : Prop :=
  if upward then 0 < Binary.units s else Binary.units s < 0

/-- How many floating point numbers are left in a direction at most. -/
def unitsLeft (upward : Bool) (x : Float) : Nat :=
  (if upward then Binary.beyond - Binary.units x else Binary.beyond + Binary.units x).toNat

theorem IsDirected.ne_zero {s : Float} (h : IsDirected upward s) : Binary.units s ≠ 0 := by
  cases upward with
  | true => exact ne_of_gt h
  | false => exact ne_of_lt h

/-- A sum is closer to the end of all numbers, if it is not stuck. -/
theorem unitsLeft_lt {x s : Float} (hs : IsDirected upward s) (hnan : (x + s).isNaN = false)
    (hfree : x + s + s ≠ x + s) : unitsLeft upward (x + s) < unitsLeft upward x := by
  have hne : Binary.units (x + s) ≠ Binary.units x := fun hsame =>
    hfree (Binary.add_add_eq hnan hs.ne_zero hsame)
  have hleads := Binary.leadsTo_units hnan
  have hbound := Binary.natAbs_units_le (x + s)
  unfold IsDirected at hs
  unfold unitsLeft
  cases upward with
  | true =>
    have hs : 0 < Binary.units s := hs
    have hle := hleads.1 hs.le
    simp only [if_true]
    omega
  | false =>
    have hs : Binary.units s < 0 := hs
    have hle := hleads.2 hs.le
    simp only [Bool.false_eq_true, if_false]
    omega

/-- Numbers that are not both integers are added as floating point numbers. -/
theorem add_eq_bind (h : ¬ ∃ m n : Int, i = .int m ∧ step = .int n) :
    i.add step = i.toFloat >>= fun x => step.toFloat >>= fun s => pure (.float (x + s)) := by
  cases i with
  | int m =>
    cases step with
    | int n => exact absurd ⟨m, n, rfl, rfl⟩ h
    | float s => rfl
  | float x => cases step <;> rfl

theorem not_both_int (x : Float) (step : Number) :
    ¬ ∃ m n : Int, Number.float x = .int m ∧ step = .int n := by
  rintro ⟨m, n, h, -⟩
  cases h

theorem add_eq_ok (h : ¬ ∃ m n : Int, i = .int m ∧ step = .int n) (hadd : i.add step = .ok j) :
    ∃ x s, i.toFloat = .ok x ∧ step.toFloat = .ok s ∧ j = .float (x + s) := by
  rw [add_eq_bind h] at hadd
  cases hx : i.toFloat with
  | error f =>
    rw [hx] at hadd
    exact nomatch hadd
  | ok x =>
    rw [hx] at hadd
    cases hs : step.toFloat with
    | error f =>
      rw [hs] at hadd
      exact nomatch hadd
    | ok s =>
      rw [hs] at hadd
      exact ⟨x, s, rfl, rfl, (Except.ok.inj hadd).symm⟩

/-- A number with a mantissa leads where its sign says. -/
theorem isDirected_of_ofFloat? {s : Float} {b : Binary} (hb : Binary.ofFloat? s = some b)
    (hm : 0 < b.mantissa) : IsDirected (!b.negative) s := by
  have hpos := Binary.inUnits_pos hm b.exponent
  have hunits := (Binary.units_of_ofFloat? hb).2
  unfold IsDirected
  rw [hunits]
  cases b.negative with
  | true =>
    show -(Binary.inUnits b.mantissa b.exponent : Int) < 0
    omega
  | false =>
    show 0 < (Binary.inUnits b.mantissa b.exponent : Int)
    omega

/-- All integers are on the same side of an infinity. -/
theorem isAhead_infinity (upward : Bool) (n : Int) (negative : Bool) :
    IsAhead upward (.int n) (.float (Binary.signed negative (1 / 0))) ↔ negative = !upward := by
  have hbelow : (Number.int n).lt (.float (Binary.signed negative (1 / 0))) = !negative := by
    cases negative <;> rfl
  have habove : (Number.float (Binary.signed negative (1 / 0))).lt (.int n) = negative := by
    cases negative <;> rfl
  unfold IsAhead
  rw [hbelow, habove]
  cases upward <;> cases negative <;> decide

/-- An integer in front of a number is compared with its exact value. -/
theorem compareInt_of_isAhead {n : Int} {x : Float} {b : Binary} (hb : Binary.ofFloat? x = some b)
    (h : IsAhead upward (.int n) (.float x)) :
    Binary.compareInt n b = if upward then .lt else .gt := by
  cases upward with
  | true =>
    have hlt := beq_iff_eq.mp h
    rw [Number.compare?, hb] at hlt
    exact Option.some.inj hlt
  | false =>
    have hlt := beq_iff_eq.mp h
    rw [Number.compare?, hb] at hlt
    exact Ordering.swap_eq_lt.mp (Option.some.inj hlt)

theorem sign_of_isAhead {s : Float} {b : Binary} (hb : Binary.ofFloat? s = some b)
    (h : IsAhead upward (.int 0) (.float s)) : 0 < b.mantissa ∧ b.negative = !upward := by
  have hpow := Nat.two_pow_pos b.exponent.toNat
  have hcompare := compareInt_of_isAhead hb h
  rw [Binary.compareInt, Binary.scale_eq] at hcompare
  simp only [Int.zero_mul] at hcompare
  rcases Nat.eq_zero_or_pos b.mantissa with hzero | hm
  · rw [hzero, Nat.zero_mul, Int.natCast_zero, Int.neg_zero, ite_self] at hcompare
    cases upward <;> exact absurd hcompare (by decide)
  · have hscaled : (0 : Int) < (b.mantissa * 2 ^ b.exponent.toNat : Nat) :=
      Int.natCast_pos.mpr (Nat.mul_pos hm hpow)
    refine ⟨hm, ?_⟩
    cases hnegative : b.negative with
    | true =>
      rw [hnegative, if_pos rfl, Int.compare_eq_gt.mpr (by omega)] at hcompare
      cases upward <;> first | rfl | exact nomatch hcompare
    | false =>
      rw [hnegative, if_neg (by decide), Int.compare_eq_lt.mpr hscaled] at hcompare
      cases upward <;> first | rfl | exact nomatch hcompare

theorem isDirected_float {s : Float} (h : IsAhead upward (.int 0) (.float s)) :
    IsDirected upward s := by
  have hnan : s.isNaN = false := (isNaN_of_isAhead h).2
  cases hb : Binary.ofFloat? s with
  | some b =>
    obtain ⟨hm, hnegative⟩ := sign_of_isAhead hb h
    have hdirected := isDirected_of_ofFloat? hb hm
    rwa [hnegative, Bool.not_not] at hdirected
  | none =>
    obtain ⟨negative, rfl⟩ := Binary.eq_infinity_of_ofFloat? hb hnan
    obtain rfl := (isAhead_infinity upward 0 negative).mp h
    have hbeyond := Binary.beyond_pos
    cases upward with
    | true =>
      show (0 : Int) < Binary.beyond
      omega
    | false =>
      show -(Binary.beyond : Int) < 0
      omega

theorem isDirected_int {n : Int} {s : Float} (h : IsAhead upward (.int 0) (.int n))
    (hs : (Number.int n).toFloat = .ok s) : IsDirected upward s := by
  have hrange : Binary.InRange n := by
    by_contra hrange
    rw [Number.toFloat_int_eq_error (Binary.ofInt?_eq_none hrange)] at hs
    exact nomatch hs
  obtain ⟨x, hx, b, hb, hnegative, hstands⟩ := Binary.exists_ofInt? hrange
  obtain rfl : x = s := Except.ok.inj ((Number.toFloat_int hx).symm.trans hs)
  have hdirection : n ≠ 0 ∧ decide (n < 0) = !upward := by
    cases upward with
    | true =>
      have hn := of_decide_eq_true ((Number.lt_int 0 n).symm.trans h)
      exact ⟨hn.ne', decide_eq_false hn.not_gt⟩
    | false =>
      have hn := of_decide_eq_true ((Number.lt_int n 0).symm.trans h)
      exact ⟨hn.ne, decide_eq_true hn⟩
  have hne : n.natAbs ≠ 0 := Int.natAbs_ne_zero.mpr hdirection.1
  have hnearest : 0 < Binary.nearest n.natAbs :=
    (Nat.two_pow_pos _).trans_le (Binary.two_pow_log2_le_nearest hne)
  have hm : 0 < b.mantissa := by
    refine Nat.pos_of_ne_zero fun hzero => ?_
    rw [Binary.StandsFor, hzero, Nat.zero_mul] at hstands
    exact (Nat.mul_pos hnearest (Nat.two_pow_pos _)).ne hstands
  have hdirected := isDirected_of_ofFloat? hb hm
  rwa [hnegative, hdirection.2, Bool.not_not] at hdirected

/-- The step leads in its direction also where it has to be rounded. -/
theorem isDirected_of_isAhead {s : Float} (h : IsAhead upward (.int 0) step)
    (hs : step.toFloat = .ok s) : IsDirected upward s := by
  cases step with
  | int n => exact isDirected_int h hs
  | float x =>
    cases hs
    exact isDirected_float h

/-- Counting ends from a floating point number on, if it does not get stuck. -/
theorem ends_float (hstep : IsAhead upward (.int 0) step) {x : Float}
    (hfree : ¬ GetsStuck upward (.float x) stop step) (found : Array Value) :
    Ends (countFrom upward stop step (.float x) found) w := by
  -- by induction on the numbers that are left in the direction of the step
  induction hleft : unitsLeft upward x using Nat.strong_induction_on generalizing x found with
  | _ left ih =>
    refine ends_countFrom found fun hahead j hadd hnan found => ?_
    obtain ⟨x, s, ⟨⟩, hs, rfl⟩ := add_eq_ok (not_both_int x step) hadd
    by_cases hnext : IsAhead upward (.float (x + s)) stop
    · have hmoves : x + s + s ≠ x + s := fun hsame => by
        refine hfree ⟨_, .next hahead hadd (.here _), hnext, ?_⟩
        rw [add_eq_bind (not_both_int _ _), hs]
        exact congrArg (fun y => Except.ok (Number.float y)) hsame
      have hrest : ¬ GetsStuck upward (.float (x + s)) stop step := fun ⟨k, hcomes, hk⟩ =>
        hfree ⟨k, .next hahead hadd hcomes, hk⟩
      have hless := unitsLeft_lt (isDirected_of_isAhead hstep hs) hnan hmoves
      exact ih _ (hleft ▸ hless) hrest found rfl
    · exact ends_countFrom found fun h => absurd h hnext

/-! ## Integers -/

/-- Only finitely many integers lie in front of an exact value. -/
theorem ahead_of_compareInt {n : Int} {b : Binary}
    (h : Binary.compareInt n b = if upward then .lt else .gt) :
    Ahead upward n (if upward then (b.mantissa * 2 ^ b.exponent.toNat : Nat)
      else -(b.mantissa * 2 ^ b.exponent.toNat : Nat)) := by
  have hone : (1 : Int) ≤ (2 ^ (-b.exponent).toNat : Nat) := by exact_mod_cast Nat.two_pow_pos _
  have hnum : (0 : Int) ≤ (b.mantissa * 2 ^ b.exponent.toNat : Nat) := Int.natCast_nonneg _
  rw [Binary.compareInt, Binary.scale_eq] at h
  simp only at h
  generalize ((b.mantissa * 2 ^ b.exponent.toNat : Nat) : Int) = num at *
  generalize ((2 ^ (-b.exponent).toNat : Nat) : Int) = den at *
  -- a denominator only makes the distance from zero larger
  cases upward with
  | true =>
    have hlt := compare_lt_iff_lt.mp h
    show n < num
    by_contra hge
    have hmul : n ≤ n * den := le_mul_of_one_le_right (by omega) hone
    split at hlt <;> omega
  | false =>
    have hgt := compare_gt_iff_gt.mp h
    show -num < n
    by_contra hle
    have hmul : n * den ≤ n := mul_le_of_one_le_right (by omega) hone
    split at hgt <;> omega

/-- Only finitely many integers lie in front of an end that is not infinite. -/
theorem exists_bound (upward : Bool) (stop : Number) :
    (∃ bound : Int, ∀ n : Int, IsAhead upward (.int n) stop → Ahead upward n bound) ∨
      stop = .float (Binary.signed (!upward) (1 / 0)) := by
  cases stop with
  | int p => exact .inl ⟨p, fun n => (isAhead_int upward n p).mp⟩
  | float x =>
    cases hb : Binary.ofFloat? x with
    | some b => exact .inl ⟨_, fun n h => ahead_of_compareInt (compareInt_of_isAhead hb h)⟩
    | none =>
      cases hnan : x.isNaN with
      | true => exact .inl ⟨0, fun n h => nomatch hnan.symm.trans (isNaN_of_isAhead h).2⟩
      | false =>
        obtain ⟨negative, rfl⟩ := Binary.eq_infinity_of_ofFloat? hb hnan
        by_cases hside : negative = !upward
        · exact .inr (by rw [hside])
        · exact .inl ⟨0, fun n h => absurd ((isAhead_infinity upward n negative).mp h) hside⟩

/-- Counting over integers ends with a bound. -/
theorem ends_int {m n bound : Int} (hstep : IsAhead upward (.int 0) (.int n))
    (hbound : ∀ k : Int, IsAhead upward (.int k) stop → Ahead upward k bound)
    (found : Array Value) : Ends (countFrom upward stop (.int n) (.int m) found) w := by
  -- by induction on the distance from the bound
  induction hleft : (bound - m).natAbs using Nat.strong_induction_on generalizing m found with
  | _ left ih =>
    refine ends_countFrom found fun hahead j hadd _ found => ?_
    obtain rfl : .int (m + n) = j := Except.ok.inj hadd
    have hstep' := (isAhead_int upward 0 n).mp hstep
    have hm := hbound m hahead
    by_cases hnext : IsAhead upward (.int (m + n)) stop
    · have hm' := hbound _ hnext
      refine ih _ ?_ found rfl
      cases upward <;> simp only [Ahead, if_true, Bool.false_eq_true, if_false] at hstep' hm hm' <;>
        omega
    · exact ends_countFrom found fun h => absurd h hnext

/-! ## Counting without end -/

/-- Counting never ends where every number is ahead of the end and followed by another one. -/
theorem not_ends_of_invariant {I : Number → Prop}
    (hI : ∀ i, I i → IsAhead upward i stop ∧ ∃ j, i.add step = .ok j ∧ I j) (hi : I i)
    (found : Array Value) : ¬ Ends (countFrom upward stop step i found) w := by
  have hbounded : ∀ m, ∃ u,
      countFrom upward stop step i found (bounded m) w = .error .outOfFuel u := by
    intro m
    -- one round for each step of the bound
    induction m generalizing i found with
    | zero => exact ⟨w, rfl⟩
    | succ m ih =>
      obtain ⟨hahead, j, hadd, hj⟩ := hI i hi
      have hnan : j.isNaN = false := (isNaN_of_isAhead (hI j hj).1).1
      obtain ⟨u, hu⟩ := ih hj (found.push (.number i))
      exact ⟨u, (countNext_of_add _ hahead hadd hnan found).trans hu⟩
  rintro ⟨bound, r, hr, hends⟩
  obtain ⟨u, hu⟩ := hbounded bound
  rw [hends bound le_rfl] at hu
  subst hu
  exact hr rfl

theorem not_ends_of_getsStuck (h : GetsStuck upward i stop step) (found : Array Value) :
    ¬ Ends (countFrom upward stop step i found) w := by
  refine not_ends_of_invariant (I := fun i => GetsStuck upward i stop step) ?_ h found
  rintro i ⟨k, hcomes, hahead, hstuck⟩
  cases hcomes with
  | here => exact ⟨hahead, _, hstuck, _, .here _, hahead, hstuck⟩
  | next hi hadd hrest => exact ⟨hi, _, hadd, _, hrest, hahead, hstuck⟩

theorem not_ends_of_hasNoEnd (h : HasNoEnd upward i stop step) (found : Array Value) :
    ¬ Ends (countFrom upward stop step i found) w := by
  obtain ⟨⟨m, n, rfl, rfl⟩, rfl⟩ := h
  refine not_ends_of_invariant (I := fun i => ∃ m : Int, i = .int m) ?_ ⟨m, rfl⟩ found
  rintro _ ⟨m, rfl⟩
  exact ⟨(isAhead_infinity upward m _).mpr rfl, .int (m + n), rfl, m + n, rfl⟩

theorem ends_countFrom_iff (hstep : IsAhead upward (.int 0) step) (found : Array Value) :
    Ends (countFrom upward stop step start found) w ↔
      ¬ (GetsStuck upward start stop step ∨ HasNoEnd upward start stop step) := by
  refine ⟨fun hends h => h.elim (not_ends_of_getsStuck · found hends)
    (not_ends_of_hasNoEnd · found hends), fun h => ?_⟩
  obtain ⟨hfree, hend⟩ := not_or.mp h
  by_cases hints : ∃ m n : Int, start = .int m ∧ step = .int n
  · obtain ⟨m, n, rfl, rfl⟩ := hints
    rcases exists_bound upward stop with ⟨bound, hbound⟩ | hinfinite
    · exact ends_int hstep hbound found
    · exact absurd ⟨⟨m, n, rfl, rfl⟩, hinfinite⟩ hend
  · -- from the second number on there are floating point numbers only
    refine ends_countFrom found fun hahead j hadd _ found => ?_
    obtain ⟨x, s, -, -, rfl⟩ := add_eq_ok hints hadd
    exact ends_float hstep (fun ⟨k, hcomes, hk⟩ => hfree ⟨k, .next hahead hadd hcomes, hk⟩) found

end

/-- The call of `list.range` with three numbers. -/
def rangeOf (start stop step : Number) (run : Runner) : Eval Value :=
  run (.native (.builtin (.list .range)) [.number start, .number stop, .number step])

section

variable {upward : Bool} {start stop step : Number} {w : World}

/-- A step leads into one direction only. -/
theorem direction_unique {other : Bool} (h : IsAhead upward (.int 0) step)
    (h' : IsAhead other (.int 0) step) : upward = other := by
  cases step with
  | int n =>
    have hn := (isAhead_int upward 0 n).mp h
    have hn' := (isAhead_int other 0 n).mp h'
    cases upward <;> cases other <;>
      simp only [Ahead, if_true, Bool.false_eq_true, if_false] at hn hn' ⊢ <;> omega
  | float s =>
    have hs := isDirected_float h
    have hs' := isDirected_float h'
    cases upward <;> cases other <;>
      simp only [IsDirected, if_true, Bool.false_eq_true, if_false] at hs hs' ⊢ <;> omega

/-- `list.range` counts in the direction of the step, or not at all. -/
theorem range_numbers (run : Runner) (start stop step : Number) (w : World) :
    Library.range run (.number start) (.number stop) (.number step) w =
      (if (Number.int 0).lt step then countFrom true stop step start #[] run >>= Eval.newList
      else if step.lt (.int 0) then countFrom false stop step start #[] run >>= Eval.newList
      else Eval.newList #[]) w := by
  have hup : Library.below (.int 0) (.number step) w = .ok ((Number.int 0).lt step) w := rfl
  have hdown : Library.below (.number step) (.int 0) w = .ok (step.lt (.int 0)) w := rfl
  unfold Library.range
  rw [Eval.run_bind_of_ok hup]
  cases (Number.int 0).lt step with
  | true => rfl
  | false =>
    refine (Eval.run_bind_of_ok hdown).trans ?_
    cases step.lt (.int 0) <;> rfl

/-- The step shows the direction of counting. -/
theorem range_of_isAhead (run : Runner) (hstep : IsAhead upward (.int 0) step) :
    Library.range run (.number start) (.number stop) (.number step) w =
      (countFrom upward stop step start #[] run >>= Eval.newList) w := by
  rw [range_numbers]
  cases upward with
  | true =>
    have hup : (Number.int 0).lt step = true := hstep
    rw [if_pos hup]
  | false =>
    have hdown : step.lt (.int 0) = true := hstep
    have hother : ¬ IsAhead true (.int 0) step := fun h => nomatch direction_unique h hstep
    have hup : ¬ (Number.int 0).lt step = true := hother
    rw [if_neg hup, if_pos hdown]

theorem ends_rangeOf_iff (hstep : IsAhead upward (.int 0) step) :
    Ends (rangeOf start stop step) w ↔ Ends (countFrom upward stop step start #[]) w := by
  constructor
  · rintro ⟨bound, r, hr, hends⟩
    have hrange : (countFrom upward stop step start #[] (bounded bound) >>= Eval.newList) w = r :=
      (range_of_isAhead (bounded bound) hstep).symm.trans (hends (bound + 1) (Nat.le_succ bound))
    cases hcount : countFrom upward stop step start #[] (bounded bound) w with
    | ok items u =>
      exact ends_iff_yields.mpr ⟨.ok items u, trivial, .of_run hcount trivial⟩
    | error e u =>
      rw [Eval.run_bind_of_error hcount] at hrange
      subst hrange
      exact ends_iff_yields.mpr ⟨.error e u, hr, .of_run hcount hr⟩
  · intro hends
    obtain ⟨r, hr, hyields⟩ := ends_iff_yields.mp hends
    cases r with
    | ok items u =>
      have hlist : Yields (fun _ => Eval.newList items) u (Eval.newList items u) :=
        .of_eq fun _ => rfl
      refine ends_iff_yields.mpr ⟨Eval.newList items u, trivial, .task ?_⟩
      exact (hyields.bind hlist).congr fun run => range_of_isAhead run hstep
    | error e u =>
      refine ends_iff_yields.mpr ⟨.error e u, hr, .task ?_⟩
      exact (Yields.bind_error hyields).congr fun run => range_of_isAhead run hstep

/-- Nothing is counted with a step that leads nowhere. -/
theorem ends_rangeOf_of_no_direction (h : ∀ upward, ¬ IsAhead upward (.int 0) step) :
    Ends (rangeOf start stop step) w := by
  refine ends_iff_yields.mpr ⟨Eval.newList #[] w, trivial, .task (.of_eq fun run => ?_)⟩
  have hup : ¬ (Number.int 0).lt step = true := h true
  have hdown : ¬ step.lt (.int 0) = true := h false
  refine (range_numbers run start stop step w).trans ?_
  rw [if_neg hup, if_neg hdown]

end

/-- `list.range` never ends exactly where counting comes to a number in front of the end that the
    step does not change, or where integers are counted towards an infinite end in the direction of
    the step. -/
theorem range_never_ends_iff (start stop step : Number) (w : World) :
    ¬ Ends (rangeOf start stop step) w ↔
      ∃ upward, IsAhead upward (.int 0) step ∧
        (GetsStuck upward start stop step ∨ HasNoEnd upward start stop step) := by
  by_cases hstep : ∃ upward, IsAhead upward (.int 0) step
  · obtain ⟨upward, hstep⟩ := hstep
    rw [ends_rangeOf_iff hstep, ends_countFrom_iff hstep, not_not]
    refine ⟨fun h => ⟨upward, hstep, h⟩, ?_⟩
    rintro ⟨other, hother, h⟩
    rwa [direction_unique hstep hother]
  · exact iff_of_false (not_not.mpr (ends_rangeOf_of_no_direction (not_exists.mp hstep)))
      fun ⟨upward, h, _⟩ => hstep ⟨upward, h⟩

/-- One is added in vain to a floating point number whose successor is two away, and no integer
    passes an infinite end. -/
theorem range_never_ends_iff_absorbed :
    ¬ Ends (rangeOf (.float 9007199254740992.0) (.int 9007199254740993) (.int 1)) default ∧
      ¬ Ends (rangeOf (.int 0) (.float (1 / 0)) (.int 1)) default :=
  ⟨(range_never_ends_iff _ _ _ default).mpr ⟨true, rfl, .inl ⟨_, .here _, rfl, rfl⟩⟩,
    (range_never_ends_iff _ _ _ default).mpr ⟨true, rfl, .inr ⟨⟨0, 1, rfl, rfl⟩, rfl⟩⟩⟩

end EventScript
