import EventScript.Library.Globals
import EventScript.Proofs.Faults

/-! # Work of the library

A function of the library reads the store, makes and changes lists and maps, draws from the
generator and prints, breaks off with the faults of natives, and otherwise goes back to the runner
it was given.
`Work` says just that of a computation, so that what holds of these steps, and carries over from one
to the next, holds of all functions of the library.

* `work_builtin`        the functions of the library
* `work_listMember`     the members of lists
* `work_stringMember`   the members of strings
* `work_namespaces`     the namespaces that a session starts with
-/

namespace EventScript

open Library Fault

/-- The computation is a chain of the steps that functions of the library take. -/
inductive Work (run : Runner) : {α : Type} → Eval α → Prop
  | pure {α : Type} (a : α) : Work run (pure a)
  | bind {α β : Type} {act : Eval α} {next : α → Eval β} (hact : Work run act)
      (hnext : ∀ a, Work run (next a)) : Work run (act >>= next)
  /-- What is read comes from a store. -/
  | read {α β : Type} {f : Store → α} {next : α → Eval β} (hnext : ∀ s, Work run (next (f s))) :
      Work run (Eval.read f >>= next)
  | fault {α : Type} {f : Fault} (hf : f.OfNative) : Work run (Eval.fault f : Eval α)
  | problem {α : Type} (p : Problem) (span : Option Span) :
      Work run (Eval.problem p span : Eval α)
  | newList (items : Array Value) : Work run (Eval.newList items)
  | newMap (entries : Table Key Value) : Work run (Eval.newMap entries)
  | modifyList (r : ListRef) (f : Array Value → Array Value) : Work run (Eval.modifyList r f)
  | ofNumber (n : Number) : Work run (Eval.ofNumber n)
  | draw {α : Type} (d : Generator.Draw α) : Work run (Library.draw d)
  | print (vs : List Value) : Work run (Library.print vs)
  | native (n : Native) (args : List Value) : Work run (run (.native n args))
  | visit (v : Visit) (f : Value) (source : Visited) (place : Nat) (found : List Value) :
      Work run (run (.visit v f source place found))
  | count (i stop step : Value) (upward : Bool) (found : Array Value) :
      Work run (run (.count i stop step upward found))

attribute [grind ←] Work.pure Work.bind Work.fault Work.problem Work.newList Work.newMap
  Work.modifyList Work.ofNumber Work.draw Work.print

variable {α β : Type} {run : Runner}

/-! ## Composition -/

@[grind ←]
theorem work_read (f : Store → α) : Work run (Eval.read f) := by
  rw [← bind_pure (Eval.read f)]
  exact .read fun s => .pure (f s)

@[grind ←]
theorem work_truth (v : Value) : Work run (Eval.truth v) := work_read _

@[grind ←]
theorem work_ofExcept {x : Except Fault α} (hx : Fails OfNative x) :
    Work run (Eval.ofExcept x) := by
  cases x with
  | ok a => exact .pure a
  | error f => exact .fault (hx f rfl)

@[grind ←]
theorem work_ofFloat (x : Float) : Work run (Eval.ofFloat x) := .ofNumber _

@[grind ←]
theorem work_map {act : Eval α} (f : α → β) (hact : Work run act) : Work run (f <$> act) := by
  rw [← bind_pure_comp]
  exact .bind hact fun a => .pure _

@[grind ←]
theorem work_mapM {f : α → Eval β} (hf : ∀ a, Work run (f a)) (xs : List α) :
    Work run (xs.mapM f) := by
  induction xs with
  | nil => exact .pure _
  | cons x rest ih =>
    rw [List.mapM_cons]
    exact .bind (hf x) fun b => .bind ih fun bs => .pure _

@[grind ←]
theorem work_foldlM {f : β → α → Eval β} (hf : ∀ b a, Work run (f b a)) (b : β)
    (xs : List α) : Work run (xs.foldlM f b) := by
  induction xs generalizing b with
  | nil => exact .pure _
  | cons x rest ih => exact .bind (hf b x) ih

/-! ## Arguments -/

@[grind ←]
theorem work_refuse : Work run (refuse : Eval α) := .fault ofNative_wrongKind

@[grind ←]
theorem work_orRefuse (a : Option α) : Work run (orRefuse a) := by
  unfold orRefuse
  grind

@[grind ←]
theorem work_number (v : Value) : Work run (number v) := by
  unfold number
  grind

@[grind ←]
theorem work_float (v : Value) : Work run (Library.float v) := by
  unfold Library.float
  grind

@[grind ←]
theorem work_integer (v : Value) : Work run (integer v) := by
  unfold integer
  grind

@[grind ←]
theorem work_integer? (v : Value) : Work run (integer? v) := by
  unfold integer?
  grind

@[grind ←]
theorem work_text (v : Value) : Work run (text v) := by
  unfold text
  grind

@[grind ←]
theorem work_member (v : Value) : Work run (member v) := by
  unfold member
  grind

@[grind ←]
theorem work_items (v : Value) : Work run (items v) := by
  unfold items
  grind

@[grind ←]
theorem work_size (v : Value) : Work run (size v) := by
  unfold size
  grind

@[grind ←]
theorem work_alike (a b : Value) : Work run (alike a b) :=
  work_read _

theorem fails_belowFrom (s : Store) (depth : Nat) (a b : Value) :
    Fails OfNative (s.belowFrom depth a b) := by
  induction depth generalizing a b with
  | zero => exact fails_throw ofNative_wrongKind
  | succ depth ih =>
    unfold Store.belowFrom
    grind

@[grind ←]
theorem work_below (a b : Value) : Work run (below a b) :=
  .read fun s => work_ofExcept (fails_belowFrom s _ a b)

@[grind ←]
theorem work_isSomething (v : Value) : Work run (isSomething v) :=
  work_read _

@[grind ←]
theorem work_listOf (vs : List Value) : Work run (listOf vs) :=
  .newList _

@[grind ←]
theorem work_listOfFloats (xs : List Float) : Work run (listOfFloats xs) := by
  unfold listOfFloats
  grind

@[grind ←]
theorem work_itemAt (v : Value) (place : Nat) : Work run (itemAt v place) := by
  unfold itemAt
  grind

@[grind ←]
theorem work_repeated (xs : List α) (count : Int) : Work run (repeated xs count) := by
  unfold repeated
  grind

/-! ## Comparing and adding up -/

@[grind ←]
theorem work_smallestFrom (v : Value) (vs : List Value) :
    Work run (smallestFrom v vs) := by
  induction vs generalizing v with
  | nil => exact .pure _
  | cons w rest ih =>
    unfold smallestFrom
    grind

@[grind ←]
theorem work_largestFrom (v : Value) (vs : List Value) : Work run (largestFrom v vs) := by
  induction vs generalizing v with
  | nil => exact .pure _
  | cons w rest ih =>
    unfold largestFrom
    grind

@[grind ←]
theorem work_totalFrom (n : Number) (vs : List Value) : Work run (totalFrom n vs) := by
  induction vs generalizing n with
  | nil => exact .pure _
  | cons w rest ih =>
    unfold totalFrom
    grind

@[grind ←]
theorem work_times (a b : Value) : Work run (times a b) := by
  unfold times
  grind

@[grind ←]
theorem work_smallest (vs : List Value) : Work run (smallest vs) := by
  unfold smallest
  grind

@[grind ←]
theorem work_largest (vs : List Value) : Work run (largest vs) := by
  unfold largest
  grind

/-! ## Functions on numbers -/

@[grind ←]
theorem fails_checked (x y : Float) : Fails OfNative (checked x y) := by
  unfold checked
  grind

@[grind ←]
theorem fails_power (x y : Float) : Fails OfNative (power x y) := by
  unfold power
  grind

theorem fails_cubeRoot (s : Store) (depth : Nat) (v : Value) :
    Fails OfNative (cubeRoot s depth v) := by
  induction depth generalizing v with
  | zero => exact fails_throw ofNative_wrongKind
  | succ depth ih =>
    unfold cubeRoot
    grind

@[grind ←]
theorem work_analytic (f : Float → Float) (v : Value) : Work run (analytic f v) := by
  unfold analytic
  grind

@[grind ←]
theorem work_logarithm (f : Float → Float) (v : Value) : Work run (logarithm f v) := by
  unfold logarithm
  grind

@[grind ←]
theorem work_arithmeticOf {r : Except Fault Number} (hr : Fails OfNative r) :
    Work run (arithmeticOf r) := by
  unfold arithmeticOf
  grind

/-- The fraction that a number makes of the way between two edges. -/
theorem fails_fraction (x a b : Number) :
    Fails OfNative (do (← x.sub a).div (← b.sub a)) := by
  grind

@[grind ←]
theorem work_unitStep (edge0 edge1 x : Value) :
    Work run (unitStep edge0 edge1 x) := by
  unfold unitStep
  refine .bind (work_alike edge0 edge1) fun same => ?_
  split
  · grind
  · refine .bind (work_number edge0) fun a => .bind (work_number edge1) fun b => ?_
    refine .bind (work_number x) fun x => ?_
    exact .bind (work_ofExcept (fails_fraction x a b)) fun _ => .pure _

theorem work_cbrt (x : Value) : Work run (MathFunction.apply .cbrt [x]) :=
  .read fun s =>
    .bind (work_ofExcept (fails_cubeRoot s _ x)) fun _ => work_ofFloat _

theorem work_inverseLerp (a b v : Value) :
    Work run (MathFunction.apply .inverseLerp [a, b, v]) := by
  refine .bind (work_alike a b) fun same => ?_
  split
  · exact .pure _
  · refine .bind (work_number a) fun a => .bind (work_number b) fun b => ?_
    exact .bind (work_number v) fun v => work_arithmeticOf (fails_fraction v a b)

theorem work_remap (v inMin inMax outMin outMax : Value) :
    Work run (MathFunction.apply .remap [v, inMin, inMax, outMin, outMax]) := by
  refine .bind (work_number v) fun v => .bind (work_number inMin) fun a => ?_
  refine .bind (work_number inMax) fun b => ?_
  refine .bind (work_ofExcept (fails_fraction v a b)) fun t => ?_
  grind

theorem work_smootherstep (edge0 edge1 x : Value) :
    Work run (MathFunction.apply .smootherstep [edge0, edge1, x]) := by
  refine .bind (work_unitStep edge0 edge1 x) fun t => ?_
  refine .bind (work_ofExcept (by grind)) fun inner => ?_
  grind

@[grind ←]
theorem work_mathFunction (f : MathFunction) (args : List Value) :
    Work run (f.apply args) := by
  unfold MathFunction.apply
  split
  -- the longest chains have lemmas of their own
  all_goals first
    | grind
    | exact work_cbrt _
    | exact work_inverseLerp _ _ _
    | exact work_remap _ _ _ _ _
    | exact work_smootherstep _ _ _

/-! ## Functions on strings -/

@[grind ←]
theorem work_slice (v start stop : Value) : Work run (slice v start stop) := by
  unfold slice
  grind

@[grind ←]
theorem work_reversed (v : Value) : Work run (reversed v) := by
  unfold reversed
  grind

@[grind ←]
theorem work_occurs (v wanted : Value) : Work run (occurs v wanted) := by
  unfold occurs
  grind

@[grind ←]
theorem work_joined (separator : String) (vs : List Value) :
    Work run (joined separator vs) := by
  unfold joined
  grind

@[grind ←]
theorem work_splitOn (v separator : Value) : Work run (splitOn v separator) := by
  unfold splitOn
  grind

@[grind ←]
theorem work_filling (needed : Int) (unit : List α) : Work run (filling needed unit) := by
  unfold filling
  grind

@[grind ←]
theorem work_padding (v length filler : Value) : Work run (padding v length filler) := by
  unfold padding
  grind

@[grind ←]
theorem work_appended (a b : Value) : Work run (appended a b) := by
  unfold appended
  grind

@[grind ←]
theorem work_substring (v start stop : Value) : Work run (substring v start stop) := by
  unfold substring
  grind

@[grind ←]
theorem work_itemIn? (v index : Value) : Work run (itemIn? v index) := by
  unfold itemIn?
  grind

@[grind ←]
theorem work_codePoint (v : Value) : Work run (codePoint v) := by
  unfold codePoint
  grind

@[grind ←]
theorem work_charCodeAt (v index : Value) : Work run (charCodeAt v index) := by
  unfold charCodeAt
  grind

@[grind ←]
theorem work_charOf (v : Value) : Work run (charOf v) := by
  unfold charOf
  grind

@[grind ←]
theorem work_leadingNumber (cs : List Char) : Work run (leadingNumber cs) := by
  unfold leadingNumber
  grind

@[grind ←]
theorem work_leadingInteger (cs : List Char) (base : Int) :
    Work run (leadingInteger cs base) := by
  unfold leadingInteger
  grind

@[grind ←]
theorem work_stringFunction (f : StringFunction) (args : List Value) :
    Work run (f.apply args) := by
  unfold StringFunction.apply
  split <;> grind

@[grind ←]
theorem work_stringMember (m : StringMember) (t : String) (args : List Value) :
    Work run (m.apply t args) := by
  unfold StringMember.apply
  split <;> grind

/-! ## Functions on vectors -/

@[grind ←]
theorem work_vector (name : String) (v : Value) : Work run (vector name v) := by
  unfold vector
  grind

@[grind ←]
theorem work_twoVectors (a b : Value) : Work run (twoVectors a b) := by
  unfold twoVectors
  grind

@[grind ←]
theorem work_product (a b : Value) : Work run (Library.product a b) := by
  unfold Library.product
  grind

@[grind ←]
theorem work_quotient (a b : Value) : Work run (quotient a b) := by
  unfold quotient
  grind

@[grind ←]
theorem work_spread (n : Nat) (v : Value) : Work run (spread n v) := by
  unfold spread
  grind

@[grind ←]
theorem work_combineSpread (f : Float → Float → Float) (xs : List Float) (s : Spread) :
    Work run (combineSpread f xs s) := by
  unfold combineSpread
  grind

@[grind ←]
theorem work_circular (v : Value) : Work run (circular v) := by
  unfold circular
  grind

@[grind ←]
theorem work_isNear (xs ys : List Float) (epsilon : Value) :
    Work run (isNear xs ys epsilon) := by
  unfold isNear
  grind

@[grind ←]
theorem work_vectorFunction (f : VectorFunction) (args : List Value) :
    Work run (f.apply args) := by
  unfold VectorFunction.apply
  split <;> grind

/-! ## Functions that draw -/

@[grind ←]
theorem work_drawUnit : Work run (drawUnit) := by
  unfold drawUnit
  grind

@[grind ←]
theorem work_drawFloat : Work run (drawFloat) :=
  .draw _

@[grind ←]
theorem work_drawAngle : Work run (drawAngle) := by
  unfold drawAngle
  grind

@[grind ←]
theorem work_drawBetween (lo hi : Int) : Work run (drawBetween lo hi) := by
  unfold drawBetween
  grind

@[grind ←]
theorem work_drawWithin (extent : Value) : Work run (drawWithin extent) := by
  unfold drawWithin
  grind

@[grind ←]
theorem work_takeWeight (remaining : Number) (weight : Value) :
    Work run (takeWeight remaining weight) := by
  unfold takeWeight
  grind

@[grind ←]
theorem work_pickWeighted (isUsedUp : Number → Bool) (remaining : Number)
    (vs : List (Value × Value)) :
    Work run (pickWeighted takeWeight isUsedUp remaining vs) := by
  induction vs generalizing remaining with
  | nil => exact .pure _
  | cons w rest ih =>
    unfold pickWeighted
    grind

@[grind ←]
theorem work_lastItem (v : Value) : Work run (lastItem v) := by
  unfold lastItem
  grind

@[grind ←]
theorem work_drawWeighted (v weights : Value) : Work run (drawWeighted v weights) := by
  unfold drawWeighted
  refine .bind (work_isSomething v) fun any => ?_
  split
  · exact .pure _
  · refine .bind work_drawUnit fun u => .bind (work_items weights) fun ws => ?_
    refine .bind (work_totalFrom _ ws) fun total => ?_
    refine .bind (work_ofExcept (fails_mul u total).ofNative) fun remaining => ?_
    grind

@[grind ←]
theorem work_drawChoices (v : Value) (n k : Nat) : Work run (drawChoices v n k) := by
  induction k with
  | zero => exact .pure _
  | succ k ih =>
    unfold drawChoices
    grind

@[grind ←]
theorem work_population (v : Value) : Work run (population v) := by
  unfold population
  grind

@[grind ←]
theorem work_drawDirection : Work run (drawDirection) := by
  unfold drawDirection
  grind

@[grind ←]
theorem work_scaledBy (x : Float) (radius : Value) : Work run (scaledBy x radius) := by
  unfold scaledBy
  grind

@[grind ←]
theorem work_shuffled (v : Value) : Work run (shuffled v) := by
  unfold shuffled
  grind

theorem work_randomFloat (lo hi : Value) :
    Work run (RandomFunction.apply .float [lo, hi]) := by
  refine .bind work_drawUnit fun u => .bind (work_number lo) fun lo => ?_
  refine .bind (work_number hi) fun hi => ?_
  exact .bind (work_ofExcept (by grind)) fun _ => .ofNumber _

theorem work_gaussian (args : List Value) :
    Work run (RandomFunction.apply .gaussian args) := by
  have hdraw : Work run (do
      let z ← draw Generator.normal
      let mean ← number (args.headD (.int 0))
      let deviation ← number ((args.drop 1).headD (.int 1))
      Eval.ofNumber (← Eval.ofExcept do mean.add (← (Number.float z).mul deviation))) := by
    refine .bind (.draw _) fun z => .bind (work_number _) fun mean => ?_
    refine .bind (work_number _) fun deviation => ?_
    exact .bind (work_ofExcept (by grind)) fun _ => .ofNumber _
  unfold RandomFunction.apply
  grind

@[grind ←]
theorem work_randomFunction (f : RandomFunction) (args : List Value) :
    Work run (f.apply args) := by
  unfold RandomFunction.apply
  split
  -- as above
  all_goals first
    | grind
    | exact work_randomFloat _ _
    | exact work_gaussian _

/-! ## Sorting -/

section Sorting

variable {below : α → α → Eval Bool}

@[grind ←]
theorem work_placeOf (hbelow : ∀ a b, Work run (below a b)) (sorted : Array α) (a : α)
    (bound lo hi : Nat) : Work run (Sorting.placeOf below sorted a bound lo hi) := by
  induction bound generalizing lo hi with
  | zero => exact .pure _
  | succ bound ih =>
    unfold Sorting.placeOf
    grind

@[grind ←]
theorem work_insertAll (hbelow : ∀ a b, Work run (below a b)) (sorted : Array α)
    (xs : List α) : Work run (Sorting.insertAll below sorted xs) := by
  induction xs generalizing sorted with
  | nil => exact .pure _
  | cons x rest ih =>
    unfold Sorting.insertAll
    grind

@[grind ←]
theorem work_fallingRun (hbelow : ∀ a b, Work run (below a b)) (last : α)
    (fallen xs : List α) : Work run (Sorting.fallingRun below last fallen xs) := by
  induction xs generalizing last fallen with
  | nil => exact .pure _
  | cons x rest ih =>
    unfold Sorting.fallingRun
    grind

@[grind ←]
theorem work_risingRun (hbelow : ∀ a b, Work run (below a b)) (last : α)
    (risen xs : List α) : Work run (Sorting.risingRun below last risen xs) := by
  induction xs generalizing last risen with
  | nil => exact .pure _
  | cons x rest ih =>
    unfold Sorting.risingRun
    grind

@[grind ←]
theorem work_sorted (hbelow : ∀ a b, Work run (below a b)) (xs : List α) :
    Work run (Sorting.sorted below xs) := by
  unfold Sorting.sorted
  split <;> grind

end Sorting

/-! ## Functions on lists -/

@[grind ←]
theorem work_libraryCall (f : Value) (args : List Value) :
    Work run (Library.callValue run f args) := by
  unfold Library.callValue
  split
  · exact .native _ args
  · exact work_refuse

@[grind ←]
theorem work_visited (v : Value) : Work run (visited v) := by
  unfold visited
  grind

@[grind ←]
theorem work_nextVisited (place : Nat) (source : Visited) :
    Work run (nextVisited place source) := by
  unfold nextVisited
  split <;> grind

@[grind ←]
theorem work_visitEnd (v : Visit) (found : List Value) : Work run (visitEnd v found) := by
  unfold visitEnd
  grind

theorem work_visitNext (v : Visit) (f : Value) (source : Visited) (place : Nat)
    (found : List Value) : Work run (visitNext run v f source place found) := by
  have hvisit := @Work.visit run
  unfold visitNext
  grind

@[grind ←]
theorem work_visitAll (v : Visit) (value f : Value) :
    Work run (visitAll run v value f) :=
  .bind (work_visited value) fun source => .visit v f source 0 []

theorem work_countNext (i stop step : Value) (upward : Bool) (found : Array Value) :
    Work run (countNext run i stop step upward found) := by
  have hcount := @Work.count run
  unfold countNext
  grind

@[grind ←]
theorem work_range (start stop step : Value) : Work run (range run start stop step) := by
  have hcount := @Work.count run
  unfold range
  grind

@[grind ←]
theorem work_foldItems (f acc : Value) (place : Nat) (vs : List Value) :
    Work run (foldItems run f acc place vs) := by
  induction vs generalizing acc place with
  | nil => exact .pure _
  | cons v rest ih =>
    unfold foldItems
    grind

@[grind ←]
theorem work_flatten (v : Value) : Work run (flatten v) := by
  unfold flatten
  grind

@[grind ←]
theorem work_indexOf (v wanted : Value) : Work run (indexOf v wanted) := by
  unfold indexOf
  grind

@[grind ←]
theorem work_sort (v compare : Value) : Work run (Library.sort run v compare) := by
  unfold Library.sort
  grind

@[grind ←]
theorem work_splice (v start count : Value) (inserted : List Value) :
    Work run (splice v start count inserted) := by
  unfold splice
  grind

@[grind ←]
theorem work_itemFromEither (v index : Value) : Work run (itemFromEither v index) := by
  unfold itemFromEither
  grind

@[grind ←]
theorem work_average (v : Value) : Work run (average v) := by
  unfold average
  grind

@[grind ←]
theorem work_takeOut (r : ListRef) (v : Option Value) (rest : Array Value → Array Value) :
    Work run (takeOut r v rest) := by
  unfold takeOut
  grind

@[grind ←]
theorem work_listFunction (f : ListFunction) (args : List Value) :
    Work run (f.apply run args) := by
  unfold ListFunction.apply
  split <;> grind

@[grind ←]
theorem work_listMember (m : ListMember) (r : ListRef) (args : List Value) :
    Work run (m.apply run r args) := by
  unfold ListMember.apply
  split <;> grind

/-! ## All functions -/

@[grind ←]
theorem work_coreFunction (f : CoreFunction) (args : List Value) :
    Work run (f.apply args) := by
  unfold CoreFunction.apply
  split <;> grind

@[grind ←]
theorem work_builtin (b : Builtin) (args : List Value) : Work run (b.apply run args) := by
  cases b with
  | core f => exact work_coreFunction f args
  | math f => exact work_mathFunction f args
  | list f => exact work_listFunction f args
  | string f => exact work_stringFunction f args
  | random f => exact work_randomFunction f args
  | vector f => exact work_vectorFunction f args

/-! ## The globals of a fresh session -/

theorem work_vectorConstants (constants : List (String × List Int)) :
    Work run (vectorConstants constants) := by
  induction constants with
  | nil => exact .pure _
  | cons constant rest ih => exact .bind (work_listOf _) fun v => .bind ih fun vs => .pure _

@[grind ←]
theorem work_newNamespace (members : List (String × Value)) : Work run (newNamespace members) := by
  unfold newNamespace
  grind

theorem work_namespaces : Work run namespaces := by
  have hconstants := @work_vectorConstants run
  unfold namespaces
  grind

end EventScript
