import EventScript.Library.Random
import EventScript.Proofs.Number.Remainder
import Mathlib.Algebra.BigOperators.Group.List.Lemmas
import Mathlib.Algebra.Order.BigOperators.Group.List
import Mathlib.Tactic.Linarith

/-! # Items by weight

A draw by weights takes the weights off a part of their sum, and picks the item at which nothing of
it remains.  In exact arithmetic that is the first place up to which the weights come to the part at
least.  A weight that comes to it exactly uses it up, so that the item in front is picked where the
part is the sum of the weights up to it, and a first item without weight is picked where the part is
zero.

* `Number.le_zero_iff`               a number that is used up
* `exactPick_of_usesUp`              the place at which the weights are used up
* `weighted_eq_exactPick`            draws that do not round pick what exact arithmetic picks
* `weighted_picks_where_used_up`     the item that is picked
-/

namespace EventScript

open Library

/-! ## Exact values -/

/-- The exact value of a finite floating point number. -/
def Binary.value (b : Binary) : ℚ :=
  (if b.negative then -(b.mantissa : ℚ) else b.mantissa) * 2 ^ b.exponent

/-- The exact value of a number, if it is finite. -/
def Number.value? : Number → Option ℚ
  | int n => some n
  | float x => (Binary.ofFloat? x).map Binary.value

/-- A finite number is compared with zero by its sign. -/
theorem Binary.compareInt_zero (b : Binary) : (Binary.compareInt 0 b).swap = compare b.value 0 := by
  obtain ⟨negative, m, e, narrow⟩ := b
  have hpow : (0 : ℚ) < 2 ^ e := zpow_pos (by norm_num) e
  rw [Binary.compareInt, scale_eq, Binary.value]
  rcases Nat.eq_zero_or_pos m with rfl | hm
  · cases negative <;> simp
  · have hscaled : (0 : Int) < (m * 2 ^ e.toNat : Nat) := by positivity
    have hvalue : (0 : ℚ) < m * 2 ^ e := by positivity
    cases negative
    · rw [compare_gt_iff_gt.mpr (by simpa using hvalue)]
      simp only [Int.zero_mul, Bool.false_eq_true, if_false]
      rw [compare_lt_iff_lt.mpr hscaled, Ordering.swap_lt]
    · rw [compare_lt_iff_lt.mpr (by simpa using hvalue)]
      simp only [Int.zero_mul, if_true]
      rw [compare_gt_iff_gt.mpr (by omega), Ordering.swap_gt]

/-- A number is at most zero if its exact value is. -/
theorem Number.le_zero_iff {n : Number} {x : ℚ} (h : n.value? = some x) :
    n.le (.int 0) = true ↔ x ≤ 0 := by
  have hcompare : n.compare? (.int 0) = some (compare x 0) := by
    cases n with
    | int m =>
      obtain rfl : (m : ℚ) = x := Option.some.inj h
      rw [Number.compare?]
      congr 1
      rcases lt_trichotomy m 0 with hm | rfl | hm
      · rw [compare_lt_iff_lt.mpr hm, compare_lt_iff_lt.mpr (Int.cast_lt_zero.mpr hm)]
      · simp
      · rw [compare_gt_iff_gt.mpr hm, compare_gt_iff_gt.mpr (Int.cast_pos.mpr hm)]
    | float y =>
      obtain ⟨b, hb, rfl⟩ := Option.map_eq_some_iff.mp h
      rw [Number.compare?, hb, ← Binary.compareInt_zero]
  rw [Number.le, Number.lt, Number.eq, hcompare, Bool.or_eq_true, beq_iff_eq, beq_iff_eq]
  simp [le_iff_lt_or_eq, compare_lt_iff_lt]

/-! ## The place -/

/-- The sum of the weights in front of a place. -/
def upTo (ws : List ℚ) (k : Nat) : ℚ := (ws.take k).sum

/-- The weights use up an amount at a place. -/
structure UsesUp (ws : List ℚ) (x : ℚ) (i : Nat) : Prop where
  lt : i < ws.length
  before : 0 < i → upTo ws i < x
  reached : x ≤ upTo ws (i + 1)

/-- The item that is picked if nothing is rounded. -/
def exactPick {ι : Type} (x : ℚ) (items : List (ι × ℚ)) : Option ι :=
  Id.run (pickWeighted (fun r q => pure (r - q)) (fun r => decide (r ≤ 0)) x items)

section

variable {ι : Type} {ws : List ℚ} {x q : ℚ} {i j : Nat}

theorem exactPick_cons (item : ι) (rest : List (ι × ℚ)) :
    exactPick x ((item, q) :: rest) = if x - q ≤ 0 then some item else exactPick (x - q) rest := by
  unfold exactPick
  rw [pickWeighted]
  by_cases h : x - q ≤ 0
  · simp [h]
  · simp [h]

theorem upTo_cons (k : Nat) : upTo (q :: ws) (k + 1) = q + upTo ws k := by
  rw [upTo, List.take_succ_cons, List.sum_cons, upTo]

theorem upTo_succ (h : i < ws.length) : upTo ws (i + 1) = upTo ws i + ws[i] := by
  rw [upTo, List.take_succ_eq_append_getElem h, List.sum_append, List.sum_singleton, upTo]

theorem upTo_length : upTo ws ws.length = ws.sum := by rw [upTo, List.take_length]

/-- Sums of weights that are not negative grow. -/
theorem upTo_mono (hws : ∀ q ∈ ws, 0 ≤ q) (h : i ≤ j) : upTo ws i ≤ upTo ws j := by
  obtain ⟨k, rfl⟩ := Nat.exists_eq_add_of_le h
  have hrest : 0 ≤ ((ws.drop i).take k).sum := List.sum_nonneg fun q hq =>
    hws q (List.mem_of_mem_drop (List.mem_of_mem_take hq))
  rw [upTo, upTo, List.take_add, List.sum_append]
  linarith

/-- There is one place at which weights use up an amount. -/
theorem UsesUp.unique (hws : ∀ q ∈ ws, 0 ≤ q) (hi : UsesUp ws x i) (hj : UsesUp ws x j) :
    i = j := by
  have hnot : ∀ {i j}, UsesUp ws x i → UsesUp ws x j → ¬ i < j := fun hi hj hlt => by
    have hsums := upTo_mono hws (Nat.succ_le_of_lt hlt)
    have hbefore := hj.before (Nat.zero_lt_of_lt hlt)
    have hreached := hi.reached
    linarith
  have := hnot hi hj
  have := hnot hj hi
  omega

/-- A weight of zero uses up a part of the sum only if it is the first one and the part is zero. -/
theorem UsesUp.weight_eq_zero_iff {r : ℚ} (hi : UsesUp ws (r * ws.sum) i) (hws : ∀ q ∈ ws, 0 ≤ q)
    (hsum : 0 < ws.sum) (hr : 0 ≤ r) : ws[i]? = some 0 ↔ r = 0 ∧ ws[0]? = some 0 := by
  rw [List.getElem?_eq_getElem hi.lt, Option.some.injEq]
  constructor
  · intro hzero
    have hreached := hi.reached
    rw [upTo_succ hi.lt, hzero, add_zero] at hreached
    -- nothing is added at the place, so that it is the first one
    obtain rfl : i = 0 := by
      by_contra hpos
      exact (hi.before (Nat.pos_of_ne_zero hpos)).not_ge hreached
    rw [upTo, List.take_zero, List.sum_nil] at hreached
    have hnone : r * ws.sum = 0 := le_antisymm hreached (mul_nonneg hr hsum.le)
    exact ⟨(mul_eq_zero.mp hnone).resolve_right hsum.ne', by
      rw [List.getElem?_eq_getElem hi.lt, hzero]⟩
  · rintro ⟨rfl, hzero⟩
    have hfirst : UsesUp ws (0 * ws.sum) 0 := by
      refine ⟨Nat.zero_lt_of_lt hi.lt, fun h => absurd h (lt_irrefl 0), ?_⟩
      rw [zero_mul]
      exact upTo_mono hws (Nat.zero_le 1)
    obtain rfl := hi.unique hws hfirst
    simpa [List.getElem?_eq_getElem hi.lt] using hzero

/-- Weights use up an amount that they come to together. -/
theorem exists_usesUp (hne : ws ≠ []) (hx : x ≤ ws.sum) : ∃ i, UsesUp ws x i := by
  have hlength : 0 < ws.length := List.length_pos_of_ne_nil hne
  have hall : ∃ i, x ≤ upTo ws (i + 1) :=
    ⟨ws.length - 1, by rwa [Nat.sub_add_cancel hlength, upTo_length]⟩
  refine ⟨Nat.find hall, ?_, fun hpos => ?_, Nat.find_spec hall⟩
  · have hleast : Nat.find hall ≤ ws.length - 1 :=
      Nat.find_min' hall (by rwa [Nat.sub_add_cancel hlength, upTo_length])
    omega
  · have hmin := Nat.find_min hall (Nat.sub_one_lt_of_lt hpos)
    rwa [Nat.sub_add_cancel hpos, not_le] at hmin

/-- In exact arithmetic the item is picked at which the weights use up the amount. -/
theorem exactPick_of_usesUp (hws : ∀ q ∈ ws, 0 ≤ q) (h : UsesUp ws x i) (items : List ι)
    (hlength : items.length = ws.length) : exactPick x (items.zip ws) = items[i]? := by
  induction ws generalizing x i items with
  | nil => exact absurd h.lt (Nat.not_lt_zero i)
  | cons q ws ih =>
    obtain ⟨item, rest, rfl⟩ := List.exists_cons_of_length_eq_add_one hlength
    have hrest : rest.length = ws.length := by simpa using hlength
    have hweights : ∀ r ∈ ws, 0 ≤ r := fun r hr => hws r (List.mem_cons_of_mem q hr)
    rw [List.zip_cons_cons, exactPick_cons]
    cases i with
    | zero =>
      have hreached := h.reached
      rw [upTo_cons, upTo, List.take_zero, List.sum_nil] at hreached
      rw [if_pos (by linarith), List.getElem?_cons_zero]
    | succ i =>
      have hbefore := h.before (Nat.succ_pos i)
      have hreached := h.reached
      rw [upTo_cons] at hbefore hreached
      have hnone := upTo_mono hweights (Nat.zero_le i)
      rw [upTo, List.take_zero, List.sum_nil] at hnone
      rw [if_neg (by linarith), List.getElem?_cons_succ]
      have hplace : UsesUp ws (x - q) i :=
        ⟨by simpa using h.lt, fun _ => by linarith, by linarith⟩
      exact ih hweights hplace rest hrest

end

/-! ## The draw -/

/-- Numbers are taken off one after the other, and nothing is rounded. -/
def TakesOff : Number → List Number → Prop
  | _, [] => True
  | a, n :: ns => ∃ b x q, a.value? = some x ∧ n.value? = some q ∧ a.sub n = .ok b ∧
      b.value? = some (x - q) ∧ TakesOff b ns

/-- A draw by weights in which nothing is rounded: with exact weights and an exact number that is
    drawn, the product with the sum of the weights and all the differences are exact. -/
structure DrawsExactly (g : Generator) (ns : List Number) (ws : List ℚ) (r : ℚ) : Prop where
  weights : ns.map Number.value? = ws.map some
  drawn : (Number.float (Generator.unit g).1).value? = some r
  rest : ∃ total amount, ns.foldlM Number.add (.int 0) = .ok total ∧
    (Number.float (Generator.unit g).1).mul total = .ok amount ∧
    amount.value? = some (r * ws.sum) ∧ TakesOff amount ns

section

variable {ns : List Number} {a n t : Number} {ws : List ℚ} {x : ℚ} {w : World}

theorem run_takeWeight {b : Number} (h : a.sub n = .ok b) :
    takeWeight a (.number n) w = .ok b w := by
  have hnumber : number (.number n) w = .ok n w := rfl
  rw [takeWeight, Eval.run_bind_of_ok hnumber, h]
  rfl

theorem run_totalFrom (h : ns.foldlM Number.add a = .ok t) :
    totalFrom a (ns.map Value.number) w = .ok t w := by
  induction ns generalizing a with
  | nil =>
    cases h
    rfl
  | cons n ns ih =>
    rw [List.foldlM_cons] at h
    cases hsum : a.add n with
    | error f =>
      rw [hsum] at h
      cases h
    | ok b =>
      rw [hsum] at h
      have hnumber : number (.number n) w = .ok n w := rfl
      have hadd : Eval.ofExcept (a.add n) w = .ok b w := by
        rw [hsum]
        rfl
      rw [List.map_cons, totalFrom, Eval.run_bind_of_ok hnumber, Eval.run_bind_of_ok hadd]
      exact ih h

/-- Where nothing is rounded, the loop picks what it picks in exact arithmetic. -/
theorem run_pickWeighted {ι : Type} (items : List ι) (ha : a.value? = some x) (h : TakesOff a ns)
    (hns : ns.map Number.value? = ws.map some) :
    pickWeighted takeWeight (·.le (.int 0)) a (items.zip (ns.map Value.number)) w =
      .ok (exactPick x (items.zip ws)) w := by
  induction ns generalizing a x items ws with
  | nil =>
    obtain rfl : ws = [] := by simpa using hns.symm
    rw [List.map_nil, List.zip_nil_right, List.zip_nil_right]
    rfl
  | cons n ns ih =>
    obtain ⟨q, ws, rfl⟩ : ∃ q qs, ws = q :: qs := by
      cases ws with
      | nil => cases hns
      | cons q qs => exact ⟨q, qs, rfl⟩
    rw [List.map_cons, List.map_cons, List.cons.injEq] at hns
    obtain ⟨hn, hns⟩ := hns
    cases items with
    | nil => rfl
    | cons item items =>
      obtain ⟨b, x', q', ha', hn', hsub, hb, hrest⟩ := h
      obtain rfl : x' = x := Option.some.inj (ha'.symm.trans ha)
      obtain rfl : q' = q := Option.some.inj (hn'.symm.trans hn)
      rw [List.map_cons, List.zip_cons_cons, List.zip_cons_cons, pickWeighted,
        Eval.run_bind_of_ok (run_takeWeight hsub), exactPick_cons]
      by_cases hused : x' - q' ≤ 0
      · rw [if_pos hused, if_pos ((Number.le_zero_iff hb).mpr hused)]
        rfl
      · rw [if_neg hused, if_neg (mt (Number.le_zero_iff hb).mp hused)]
        exact ih items hb hrest hns

/-- A draw in which nothing is rounded picks what is picked in exact arithmetic. -/
theorem weighted_eq_exactPick {p q : ListRef} {r : ℚ} {v : Value}
    (hweights : (w.store.list q).toList = ns.map Value.number)
    (hdraw : DrawsExactly w.generator ns ws r)
    (hpick : exactPick (r * ws.sum) ((w.store.list p).toList.zip ws) = some v) :
    RandomFunction.weighted.apply [.list p, .list q] w =
      .ok v { w with generator := (Generator.unit w.generator).2 } := by
  obtain ⟨hns, -, total, amount, hsum, hmul, hamount, htakes⟩ := hdraw
  generalize hw' : { w with generator := (Generator.unit w.generator).2 } = w'
  have hstore : w'.store = w.store := by rw [← hw']
  have hsome : isSomething (.list p) w = .ok true w := by
    have hne : (w.store.list p).isEmpty = false := by
      rw [Bool.eq_false_iff, Ne, Array.isEmpty_iff]
      intro hempty
      rw [hempty, List.zip_nil_left] at hpick
      cases hpick
    show EStateM.Result.ok (!(w.store.list p).isEmpty) w = _
    rw [hne]
    rfl
  have hunit : drawUnit w = .ok (.float (Generator.unit w.generator).1) w' := by
    rw [← hw']
    rfl
  have hitems : items (.list p) w' = .ok (w.store.list p).toList w' := by
    rw [← hstore]
    rfl
  have hvalues : items (.list q) w' = .ok (ns.map Value.number) w' := by
    rw [← hweights, ← hstore]
    rfl
  have htotal : totalFrom (.int 0) (ns.map Value.number) w' = .ok total w' := run_totalFrom hsum
  have hproduct : Eval.ofExcept ((Number.float (Generator.unit w.generator).1).mul total) w' =
      .ok amount w' := by
    rw [hmul]
    rfl
  have hloop := run_pickWeighted (w := w') (w.store.list p).toList hamount htakes hns
  rw [hpick] at hloop
  show drawWeighted (.list p) (.list q) w = _
  rw [drawWeighted, Eval.run_bind_of_ok hsome]
  simp only [Bool.not_true, Bool.false_eq_true, if_false]
  rw [Eval.run_bind_of_ok hunit, Eval.run_bind_of_ok hvalues, Eval.run_bind_of_ok htotal,
    Eval.run_bind_of_ok hproduct, Eval.run_bind_of_ok hitems, Eval.run_bind_of_ok hvalues,
    Eval.run_bind_of_ok hloop]
  rfl

end

/-- Of items with weights that are not negative and not all zero, that one is picked at which the
    weights come to the drawn part of their sum for the first time, in exact arithmetic and in every
    draw that does not round.  Where they come to more than the part, the part lies between the sums
    in front of and behind the weight of the item; they come to exactly the part where it is one of
    the sums.  The weight of the item is zero where the first weight is zero and so is the draw. -/
theorem weighted_picks_where_used_up (ws : List ℚ) (r : ℚ) (hws : ∀ q ∈ ws, 0 ≤ q)
    (hsum : 0 < ws.sum) (hr : 0 ≤ r) (hr' : r < 1) :
    ∃ i, (∀ j, UsesUp ws (r * ws.sum) j ↔ j = i) ∧
      (∀ {ι : Type} (items : List ι), items.length = ws.length →
        exactPick (r * ws.sum) (items.zip ws) = items[i]?) ∧
      (∀ (w : World) (p q : ListRef) (ns : List Number), (w.store.list p).size = ws.length →
        (w.store.list q).toList = ns.map Value.number → DrawsExactly w.generator ns ws r →
        ∃ v, (w.store.list p)[i]? = some v ∧
          RandomFunction.weighted.apply [.list p, .list q] w =
            .ok v { w with generator := (Generator.unit w.generator).2 }) ∧
      (upTo ws i ≤ r * ws.sum ∧ r * ws.sum < upTo ws (i + 1) ↔ r * ws.sum ≠ upTo ws (i + 1)) ∧
      (ws[i]? = some 0 ↔ r = 0 ∧ ws[0]? = some 0) := by
  have hne : ws ≠ [] := by
    rintro rfl
    exact lt_irrefl 0 hsum
  have hpart : 0 ≤ r * ws.sum := mul_nonneg hr hsum.le
  obtain ⟨i, hi⟩ := exists_usesUp hne (mul_le_of_le_one_left hsum.le hr'.le)
  have hpick : ∀ {ι : Type} (items : List ι), items.length = ws.length →
      exactPick (r * ws.sum) (items.zip ws) = items[i]? :=
    fun items => exactPick_of_usesUp hws hi items
  have hfront : upTo ws i ≤ r * ws.sum := by
    rcases Nat.eq_zero_or_pos i with rfl | hpos
    · exact hpart
    · exact (hi.before hpos).le
  refine ⟨i, fun j => ⟨fun hj => hj.unique hws hi, fun hj => hj ▸ hi⟩, hpick, ?_, ?_, ?_⟩
  · intro w p q ns hlength hweights hdraw
    have hplace : i < (w.store.list p).size := hlength ▸ hi.lt
    have hitem := hpick (w.store.list p).toList (by rw [Array.length_toList, hlength])
    rw [Array.getElem?_toList, Array.getElem?_eq_getElem hplace] at hitem
    exact ⟨_, Array.getElem?_eq_getElem hplace, weighted_eq_exactPick hweights hdraw hitem⟩
  · exact ⟨fun h => h.2.ne, fun h => ⟨hfront, lt_of_le_of_ne hi.reached h⟩⟩
  · exact hi.weight_eq_zero_iff hws hsum hr

/-! ## A draw of zero -/

theorem word_zeros (i : Nat) : Generator.word (Array.replicate Generator.size 0) i = 0 := by
  have hplace : i % Generator.size < Generator.size := Nat.mod_lt i (by decide)
  simp [Generator.word, Array.getD, hplace]

theorem draw32_zeros {k : Nat} (hk : k < Generator.size) :
    Generator.draw32 ⟨Array.replicate Generator.size 0, k, none⟩ =
      (0, ⟨Array.replicate Generator.size 0, k + 1, none⟩) := by
  have htemper : Generator.temper 0 = 0 := by decide
  unfold Generator.draw32
  simp only [hk, if_true, word_zeros, htemper]

/-- Words that are all zero draw zero. -/
theorem unit_zeros : (Generator.unit ⟨Array.replicate Generator.size 0, 0, none⟩).1 = 0 := by
  unfold Generator.unit
  simp only [bind, StateT.bind, draw32_zeros (by decide : 0 < Generator.size),
    draw32_zeros (by decide : 0 + 1 < Generator.size)]
  rfl

/-- A world with two items of the weights zero and one, and with words that draw zero. -/
def drawingZero : World :=
  { (default : World) with
    store := { (default : Store) with
      lists := ⟨#[#[.text "never", .text "always"], #[.int 0, .int 1]]⟩ }
    generator := ⟨Array.replicate Generator.size 0, 0, none⟩ }

/-- A draw of zero picks an item without weight. -/
theorem weighted_picks_where_used_up_weightless :
    RandomFunction.weighted.apply [.list ⟨0⟩, .list ⟨1⟩] drawingZero =
      .ok (.text "never")
        { drawingZero with generator := (Generator.unit drawingZero.generator).2 } := by
  obtain ⟨i, huses, -, hruns, -, -⟩ := weighted_picks_where_used_up [0, 1] 0 (by simp)
    (by simp) (by simp) (by simp)
  have hzero : (Binary.ofFloat? 0).map Binary.value = some 0 := by
    have hparts : Binary.ofFloat? 0 = some ⟨false, 0, -1074, false⟩ := rfl
    rw [hparts, Option.map_some, Binary.value]
    simp
  have hdraw : DrawsExactly drawingZero.generator [.int 0, .int 1] [0, 1] 0 := by
    have hone : (Binary.ofFloat? (-1)).map Binary.value = some (-1) := by
      have hparts : Binary.ofFloat? (-1) = some ⟨true, Binary.hidden, -52, true⟩ := rfl
      rw [hparts, Option.map_some, Binary.value]
      norm_num [Binary.hidden, Nat.shiftLeft_eq]
    have hunit : (Generator.unit drawingZero.generator).1 = 0 := unit_zeros
    have hnone : Number.value? (.int 0) = some 0 := by simp [Number.value?]
    have hwhole : Number.value? (.int 1) = some 1 := by simp [Number.value?]
    refine ⟨by simp [hnone, hwhole], ?_, .int 1, .float 0, rfl, ?_, ?_, ?_⟩
    · rw [hunit]
      exact hzero
    · rw [hunit]
      rfl
    · rw [zero_mul]
      exact hzero
    · exact ⟨.float 0, 0, 0, hzero, hnone, rfl, by rw [sub_zero]; exact hzero,
        .float (-1), 0, 1, hzero, hwhole, rfl, by rw [zero_sub]; exact hone, trivial⟩
  obtain ⟨v, hv, hrun⟩ := hruns drawingZero ⟨0⟩ ⟨1⟩ [.int 0, .int 1] rfl rfl hdraw
  have hfirst : i = 0 := by
    refine ((huses 0).mp ⟨by simp, fun h => absurd h (lt_irrefl 0), ?_⟩).symm
    simp [upTo]
  subst hfirst
  obtain rfl : (Value.text "never") = v := Option.some.inj hv
  exact hrun

end EventScript
