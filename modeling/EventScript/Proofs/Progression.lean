import EventScript.Proofs.Yields.Expressions
import Mathlib.Data.Rat.Floor
import Mathlib.Tactic.Linarith

/-! # Counting in steps

`list.range` counts from a start towards an end, which is left out, by adding the step again and
again.  Over integers of any size and sign this gives an arithmetic progression, and how long it is
can be told by a division: the distance, measured in steps, is rounded up, and a distance in the
wrong direction counts as none.

* `terms_succ`                          a progression begins with its start
* `lt_termCount_iff`                    a term is there as long as it has not passed the end
* `yields_count`                        what counting gives from any number on
* `range_is_arithmetic_progression`     what `list.range` gives
-/

namespace EventScript

open Evaluate

/-! ## Progressions -/

/-- The first terms of an arithmetic progression. -/
def terms (start step : Int) (n : Nat) : List Int :=
  (List.range n).map fun k : Nat => start + k * step

/-- The number of terms in front of an end: the distance in steps, rounded up, if there is one. -/
def termCount (start stop step : Int) : Nat := ⌈((stop - start : Int) : ℚ) / step⌉.toNat

/-- The arithmetic progression from a start towards an end, which is left out. -/
def progression (start stop step : Int) : List Int := terms start step (termCount start stop step)

/-- A number has not passed the end of its way upwards or downwards. -/
def Ahead (upward : Bool) (i stop : Int) : Prop := if upward then i < stop else stop < i

instance (upward : Bool) (i stop : Int) : Decidable (Ahead upward i stop) :=
  inferInstanceAs (Decidable (if upward then i < stop else stop < i))

section

variable {start stop step : Int}

@[simp] theorem length_terms (start step : Int) (n : Nat) : (terms start step n).length = n := by
  simp [terms]

theorem terms_succ (start step : Int) (n : Nat) :
    terms start step (n + 1) = start :: terms (start + step) step n := by
  unfold terms
  rw [List.range_succ_eq_map, List.map_cons, List.map_map, Nat.cast_zero, zero_mul, add_zero]
  refine congrArg (start :: ·) (List.map_congr_left fun k _ => ?_)
  show start + ((k + 1 : Nat) : Int) * step = start + step + k * step
  rw [Nat.cast_succ]
  ring

theorem length_progression (start stop step : Int) :
    (progression start stop step).length = termCount start stop step := length_terms ..

theorem termCount_eq_max (start stop step : Int) :
    (termCount start stop step : Int) = max 0 ⌈((stop - start : Int) : ℚ) / step⌉ := by
  rw [termCount, Int.ofNat_toNat, max_comm]

/-- A number of steps is below the count if it is below the distance, measured in steps. -/
theorem lt_termCount {k : Nat} :
    k < termCount start stop step ↔ (k : ℚ) < ((stop - start : Int) : ℚ) / step := by
  rw [termCount, Int.lt_toNat, Int.lt_ceil, Int.cast_natCast]

/-- A term is there as long as it is ahead of the end, on the way that the step takes. -/
theorem lt_termCount_iff {upward : Bool} (hstep : Ahead upward 0 step) {k : Nat} :
    k < termCount start stop step ↔ Ahead upward (start + k * step) stop := by
  have hcast : ((k : Int) * step : Int) = (k : ℚ) * step := by push_cast; rfl
  cases upward with
  | true =>
    have hpos : (0 : ℚ) < step := Int.cast_pos.mpr hstep
    rw [lt_termCount, lt_div_iff₀ hpos, ← hcast, Int.cast_lt]
    show _ ↔ start + k * step < stop
    omega
  | false =>
    have hneg : (step : ℚ) < 0 := Int.cast_lt_zero.mpr hstep
    rw [lt_termCount, lt_div_iff_of_neg hneg, ← hcast, Int.cast_lt]
    show _ ↔ stop < start + k * step
    omega

theorem termCount_zero (start stop : Int) : termCount start stop 0 = 0 := by
  rw [termCount, Int.cast_zero, div_zero, Int.ceil_zero]
  rfl

end

/-! ## Counting -/

/-- A number of any kind has not passed the end of its way upwards or downwards. -/
def IsAhead (upward : Bool) (i stop : Number) : Prop :=
  (if upward then i.lt stop else stop.lt i) = true

section

variable {upward : Bool} {i j stop step : Number} {w : World}

/-- Counting looks first whether the end has been passed. -/
theorem isAhead_eq (upward : Bool) (i stop : Number) (w : World) :
    (if upward then Library.below (.number i) (.number stop)
      else Library.below (.number stop) (.number i)) w =
      .ok (if upward then i.lt stop else stop.lt i) w := by
  cases upward <;> rfl

/-- A number ahead of the end is followed by its sum with the step. -/
theorem countNext_of_isAhead (run : Runner) (h : IsAhead upward i stop) (found : Array Value) :
    Library.countNext run (.number i) (.number stop) (.number step) upward found w =
      (Eval.ofExcept (i.add step) >>= fun j => Eval.ofNumber j >>= fun next =>
        run (.count next (.number stop) (.number step) upward (found.push (.number i)))) w := by
  unfold Library.countNext
  rw [Eval.run_bind_of_ok (isAhead_eq upward i stop w)]
  exact congrFun (if_pos h) w

theorem countNext_of_add (run : Runner) (h : IsAhead upward i stop) (hadd : i.add step = .ok j)
    (hnan : j.isNaN = false) (found : Array Value) :
    Library.countNext run (.number i) (.number stop) (.number step) upward found w =
      run (.count (.number j) (.number stop) (.number step) upward (found.push (.number i))) w := by
  have hvalue : Eval.ofNumber j w = .ok (.number j) w := by
    unfold Eval.ofNumber
    exact congrFun (if_neg (by simp [hnan])) w
  rw [countNext_of_isAhead run h, hadd]
  exact Eval.run_bind_of_ok hvalue

theorem countNext_of_not_isAhead (run : Runner) (h : ¬ IsAhead upward i stop)
    (found : Array Value) :
    Library.countNext run (.number i) (.number stop) (.number step) upward found w =
      .ok found w := by
  unfold Library.countNext
  rw [Eval.run_bind_of_ok (isAhead_eq upward i stop w)]
  exact congrFun (if_neg h) w

end

section

variable {upward : Bool} {i stop step : Int} {w : World}

theorem isAhead_int (upward : Bool) (i stop : Int) :
    IsAhead upward (.int i) (.int stop) ↔ Ahead upward i stop := by
  unfold IsAhead Ahead
  rw [Number.lt_int, Number.lt_int]
  cases upward <;> simp

theorem below_ints (m n : Int) (w : World) :
    Library.below (.int m) (.int n) w = .ok (decide (m < n)) w := by
  rw [← Number.lt_int]
  exact Library.below_int rfl n w

/-- Counting gives the terms of a progression, up to the first one that is not ahead of the end. -/
theorem yields_count {n : Nat} (hahead : ∀ k : Nat, k < n → Ahead upward (i + k * step) stop)
    (hend : ¬ Ahead upward (i + n * step) stop) (found : Array Value) :
    Yields (fun run => run (.count (.int i) (.int stop) (.int step) upward found)) w
      (.ok (found ++ ((terms i step n).map Value.int).toArray) w) := by
  -- by induction on the terms that are left, each of which is added to those that were found
  induction n generalizing i found with
  | zero =>
    have hend : ¬ Ahead upward i stop := by simpa using hend
    have hnone : found ++ ((terms i step 0).map Value.int).toArray = found := by simp [terms]
    rw [hnone]
    exact .task (.of_eq fun run => countNext_of_not_isAhead run (mt (isAhead_int ..).mp hend) found)
  | succ n ih =>
    have hshift : ∀ k : Nat, i + step + k * step = i + (k + 1 : Nat) * step := fun k => by
      rw [Nat.cast_succ]
      ring
    have hfirst : Ahead upward i stop := by simpa using hahead 0 (Nat.succ_pos n)
    have hrest := ih (i := i + step) (fun k hk => hshift k ▸ hahead (k + 1) (Nat.succ_lt_succ hk))
      (hshift n ▸ hend) (found.push (.int i))
    have hitems : found.push (.int i) ++ ((terms (i + step) step n).map Value.int).toArray =
        found ++ ((terms i step (n + 1)).map Value.int).toArray := by
      rw [terms_succ]
      simp
    rw [hitems] at hrest
    exact .task (hrest.congr fun run =>
      countNext_of_add run ((isAhead_int ..).mpr hfirst) rfl rfl found)

end

/-! ## The function -/

/-- `list.range` gives a new list of integers, and does nothing else. -/
def RangeGives (w : World) (args : List Value) (items : List Int) : Prop :=
  Yields (fun run => run (.native (.builtin (.list .range)) args)) w
    (.ok (.list w.store.lists.next) (w.withList (items.map Value.int).toArray))

section

variable {w : World} {start stop step : Int}

/-- Counting with a step that is not zero goes on up to the end of the progression. -/
theorem yields_count_progression {upward : Bool} (hstep : Ahead upward 0 step) :
    Yields (fun run => run (.count (.int start) (.int stop) (.int step) upward #[])) w
      (.ok ((progression start stop step).map Value.int).toArray w) := by
  have hahead : ∀ k : Nat, k < termCount start stop step → Ahead upward (start + k * step) stop :=
    fun k hk => (lt_termCount_iff hstep).mp hk
  have hend : ¬ Ahead upward (start + termCount start stop step * step) stop := fun hend =>
    Nat.lt_irrefl _ ((lt_termCount_iff hstep).mpr hend)
  have hcount := yields_count (w := w) hahead hend #[]
  rwa [Array.empty_append] at hcount

theorem yields_range (w : World) (start stop step : Int) :
    Yields (fun run => Library.range run (.int start) (.int stop) (.int step)) w
      (.ok (.list w.store.lists.next)
        (w.withList ((progression start stop step).map Value.int).toArray)) := by
  unfold Library.range
  refine .bind (.of_eq fun run => below_ints 0 step w) ?_
  by_cases hup : 0 < step
  · have hahead : Ahead true 0 step := hup
    simp only [hup, decide_true, if_true]
    exact .bind (yields_count_progression hahead) (.of_eq fun _ => rfl)
  · simp only [hup, decide_false, Bool.false_eq_true, if_false]
    refine .bind (.of_eq fun run => below_ints step 0 w) ?_
    by_cases hdown : step < 0
    · have hahead : Ahead false 0 step := hdown
      simp only [hdown, decide_true, if_true]
      exact .bind (yields_count_progression hahead) (.of_eq fun _ => rfl)
    · simp only [hdown, decide_false, Bool.false_eq_true, if_false]
      obtain rfl : step = 0 := by omega
      have hnone : progression start stop 0 = [] := by rw [progression, termCount_zero]; rfl
      rw [hnone]
      exact .of_eq fun _ => rfl

end

/-- Over integers of any size and sign, `list.range` gives the arithmetic progression from its start
    by its step, as long as that has not passed the end: so many numbers as the distance has steps,
    rounded up, and none where the distance has the other sign.  A step of zero gives none.  Without
    a step it counts by one, and without a start from zero. -/
theorem range_is_arithmetic_progression (w : World) (start stop step : Int) :
    (∃ items : List Int,
      RangeGives w [.int start, .int stop, .int step] items ∧
      (∀ k : Nat, k < items.length → items[k]? = some (start + k * step)) ∧
      (items.length : Int) = max 0 ⌈((stop - start : Int) : ℚ) / step⌉ ∧
      (0 < step → ∀ k : Nat, k < items.length ↔ start + k * step < stop) ∧
      (step < 0 → ∀ k : Nat, k < items.length ↔ stop < start + k * step) ∧
      (step = 0 → items = []) ∧
      (step = 1 → RangeGives w [.int start, .int stop] items)) ∧
    ∀ n : Int, ∃ items, RangeGives w [.int n] items ∧ RangeGives w [.int 0, .int n] items := by
  have hlength := length_progression start stop step
  refine ⟨⟨progression start stop step, .task (yields_range w start stop step), fun k hk => ?_, ?_,
    fun hup k => ?_, fun hdown k => ?_, ?_, ?_⟩, fun n => ⟨progression 0 n 1, ?_, ?_⟩⟩
  · rw [hlength] at hk
    simp [progression, terms, hk]
  · rw [hlength, termCount_eq_max]
  · have hahead : Ahead true 0 step := hup
    rw [hlength]
    exact lt_termCount_iff hahead
  · have hahead : Ahead false 0 step := hdown
    rw [hlength]
    exact lt_termCount_iff hahead
  · rintro rfl
    exact List.length_eq_zero_iff.mp (hlength.trans (termCount_zero start stop))
  · rintro rfl
    exact .task (yields_range w start stop 1)
  · exact .task (yields_range w 0 n 1)
  · exact .task (yields_range w 0 n 1)

/-- Three numbers fit into a distance of nine if the step is four, also where there are no odd
    floating point numbers any more. -/
theorem range_is_arithmetic_progression_downwards :
    RangeGives default [.int (2 ^ 64 + 9), .int (2 ^ 64), .int (-4)]
        [2 ^ 64 + 9, 2 ^ 64 + 5, 2 ^ 64 + 1] ∧
      (-4 : Int) < 0 ∧ ∀ k : Nat, k < 3 ↔ (2 ^ 64 : Int) < 2 ^ 64 + 9 + k * -4 := by
  obtain ⟨⟨items, hgives, hterms, -, -, hdown, -⟩, -⟩ :=
    range_is_arithmetic_progression default (2 ^ 64 + 9) (2 ^ 64) (-4)
  have hahead := hdown (by decide)
  have hlength : items.length = 3 := by
    have htwo := (hahead 2).mpr (by omega)
    have hthree := mt (hahead 3).mp (by omega)
    omega
  have hitems : items = [2 ^ 64 + 9, 2 ^ 64 + 5, 2 ^ 64 + 1] := by
    refine List.ext_getElem? fun k => ?_
    match k with
    | 0 | 1 | 2 => exact hterms _ (by omega)
    | k + 3 => rw [List.getElem?_eq_none (by omega), List.getElem?_eq_none (Nat.le_add_left 3 k)]
  exact ⟨hitems ▸ hgives, by decide, hlength ▸ hahead⟩

end EventScript
