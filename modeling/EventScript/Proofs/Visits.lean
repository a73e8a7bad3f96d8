import EventScript.Proofs.Yields.Expressions

/-! # Visits of lists

Some functions on lists call a function for one item after the other.  That function is free to
change the list meanwhile, and a visit sees what the list has become: it looks for the next item in
the list as the last call has left it behind.  So a visit that comes to an end is the same as a
finite sequence of rounds, each of which starts in the world in which the one before has ended.

* `Visits`                  the rounds of a visit, up to its end or to a call that fails
* `Visits.yields`, `visits_of_bounded`   a visit comes to an end exactly by its rounds
* `Visits.congr`, `Visits.items_prefix`  calls that leave the list alone
* `visits_exist`, `not_visits`           visits that end, and visits that never do
* `list_visits_are_live`    what this comes to for the functions on lists
-/

namespace EventScript

open Evaluate

/-! ## Rounds -/

/-- The function that was given to a visit is called with an item and its place. -/
def CallYields (f item : Value) (k : Nat) (w : World)
    (r : EStateM.Result Failure World Value) : Prop :=
  Yields (fun run => Library.callValue run f [item, .int k]) w r

namespace Visit

/-- A round of a visit: the item, and what the function answered. -/
structure Round where
  item : Value
  answer : Value
  /-- The answer counts as true. -/
  yes : Bool

/-- The round in which a call gave an answer and left a world behind. -/
def roundOf (item answer : Value) (u : World) : Round := ⟨item, answer, u.store.isTruthy answer⟩

/-- A round behind which the outcome is clear, so that no further item is visited. -/
def stops (v : Visit) (d : Round) : Bool :=
  match v with
  | find | findIndex | any => d.yes
  | every => !d.yes
  | collect | keep => false

/-- The results so far, the last one first. -/
def found (v : Visit) (rounds : List Round) : List Value :=
  match v with
  | collect => (rounds.map (·.answer)).reverse
  | keep => ((rounds.filter (·.yes)).map (·.item)).reverse
  | _ => []

/-- What a visit gives in the end. -/
def conclude (v : Visit) (rounds : List Round) : Eval Value :=
  match v with
  | collect => Library.listOf (rounds.map (·.answer))
  | keep => Library.listOf ((rounds.filter (·.yes)).map (·.item))
  | find => return (rounds.find? (·.yes)).elim .null (·.item)
  | findIndex => return .int ((rounds.findIdx? (·.yes)).elim (-1) Int.ofNat)
  | every => return .bool (rounds.all (·.yes))
  | any => return .bool (rounds.any (·.yes))

/-- What a visit comes to behind some rounds, where a call may have failed. -/
def outcome (v : Visit) (rounds : List Round) :
    EStateM.Result Failure World Unit → EStateM.Result Failure World Value
  | .ok _ u => v.conclude rounds u
  | .error e u => .error e u

end Visit

open Visit

/-- The rounds of a visit from a place on, given which item there is at a place in a world: each of
    them looks for the item at its place, in the world that the round before has left behind, and
    calls the function with it. -/
inductive Visits (itemAt : World → Nat → Option Value) (v : Visit) (f : Value) :
    Nat → World → List Round → EStateM.Result Failure World Unit → Prop
  | ended {k : Nat} {w : World} (hend : itemAt w k = none) : Visits itemAt v f k w [] (.ok () w)
  | failed {k : Nat} {w u : World} {item : Value} {e : Failure} (hitem : itemAt w k = some item)
      (hcall : CallYields f item k w (.error e u)) (he : e ≠ .outOfFuel) :
      Visits itemAt v f k w [] (.error e u)
  | stopped {k : Nat} {w u : World} {item answer : Value} (hitem : itemAt w k = some item)
      (hcall : CallYields f item k w (.ok answer u))
      (hstops : v.stops (roundOf item answer u) = true) :
      Visits itemAt v f k w [roundOf item answer u] (.ok () u)
  | next {k : Nat} {w u : World} {item answer : Value} {rounds : List Round}
      {r : EStateM.Result Failure World Unit} (hitem : itemAt w k = some item)
      (hcall : CallYields f item k w (.ok answer u))
      (hgoes : v.stops (roundOf item answer u) = false)
      (hrest : Visits itemAt v f (k + 1) u rounds r) :
      Visits itemAt v f k w (roundOf item answer u :: rounds) r

/-- The item that a list has at a place at this moment. -/
def World.itemAt (r : ListRef) (w : World) (k : Nat) : Option Value := (w.store.list r)[k]?

section

variable {v : Visit} {f : Value} {r : ListRef} {w : World} {rounds done : List Round} {k : Nat}
  {run : Runner}

/-! ## One round -/

/-- The end of the list is reached. -/
theorem visitEnd_eq (hdone : ∀ d ∈ done, v.stops d = false) :
    Library.visitEnd v (v.found done) = v.conclude done := by
  cases v with
  | collect | keep => simp [Library.visitEnd, found, conclude]
  | find =>
    have hnone : done.find? (·.yes) = none := by simpa [stops] using hdone
    simp only [conclude, hnone]
    rfl
  | findIndex =>
    have hnone : done.findIdx? (·.yes) = none := by simpa [stops] using hdone
    simp only [conclude, hnone]
    rfl
  | every =>
    have hall : done.all (·.yes) = true := by simpa [stops] using hdone
    simp only [conclude, hall]
    rfl
  | any =>
    have hany : done.any (·.yes) = false := by simpa [stops] using hdone
    simp only [conclude, hany]
    rfl

/-- The outcome is clear behind a round that stops the visit. -/
theorem conclude_of_stops {d : Round} (hdone : ∀ d ∈ done, v.stops d = false)
    (hstops : v.stops d = true) : v.conclude (done ++ [d]) =
      match v with
      | .find => pure d.item
      | .findIndex => pure (.int done.length)
      | .every => pure (.bool false)
      | .any => pure (.bool true)
      | .collect | .keep => v.conclude done := by
  cases v with
  | collect | keep => cases hstops
  | find =>
    have hyes : d.yes = true := hstops
    have hnone : done.find? (·.yes) = none := by simpa [stops] using hdone
    simp [conclude, List.find?_append, hnone, hyes]
  | findIndex =>
    have hyes : d.yes = true := hstops
    have hnone : done.findIdx? (·.yes) = none := by simpa [stops] using hdone
    simp [conclude, List.findIdx?_append, hnone, hyes, List.findIdx?_cons]
  | every =>
    have hyes : d.yes = false := by simpa [stops] using hstops
    simp [conclude, hyes]
  | any =>
    have hyes : d.yes = true := hstops
    simp [conclude, hyes]

/-- The results behind a round that does not stop the visit. -/
theorem found_append (done : List Round) (d : Round) : v.found (done ++ [d]) =
    match v, d.yes with
    | .collect, _ => d.answer :: v.found done
    | .keep, true => d.item :: v.found done
    | _, _ => v.found done := by
  cases v <;> cases h : d.yes <;> simp [found, h]

theorem visitNext_of_none (hdone : ∀ d ∈ done, v.stops d = false)
    (hitem : w.itemAt r done.length = none) :
    Library.visitNext run v f (.items r) done.length (v.found done) w = v.conclude done w := by
  have hnext : Library.nextVisited done.length (.items r) w = .ok none w := by
    show EStateM.Result.ok ((w.itemAt r done.length).map (·, Visited.items r)) w = _
    rw [hitem]
    rfl
  unfold Library.visitNext
  rw [Eval.run_bind_of_ok hnext]
  exact congrFun (visitEnd_eq hdone) w

/-- The visit goes on behind a round that does not stop it, and comes to its end behind one that
    does. -/
def Visit.goOn (run : Runner) (v : Visit) (f : Value) (r : ListRef) (done : List Round)
    (item answer : Value) : Eval Value := fun u =>
  if v.stops (roundOf item answer u) then v.conclude (done ++ [roundOf item answer u]) u
  else run (.visit v f (.items r) (done.length + 1)
    (v.found (done ++ [roundOf item answer u]))) u

theorem visitNext_of_some {item : Value} (hdone : ∀ d ∈ done, v.stops d = false)
    (hitem : w.itemAt r done.length = some item) :
    Library.visitNext run v f (.items r) done.length (v.found done) w =
      (Library.callValue run f [item, .int done.length] >>= goOn run v f r done item) w := by
  have hnext : Library.nextVisited done.length (.items r) w = .ok (some (item, .items r)) w := by
    show EStateM.Result.ok ((w.itemAt r done.length).map (·, Visited.items r)) w = _
    rw [hitem]
    rfl
  unfold Library.visitNext
  rw [Eval.run_bind_of_ok hnext]
  refine congrFun (congrArg (Library.callValue run f [item, .int done.length] >>= ·) ?_) w
  funext answer u
  have htruth : Eval.truth answer u = .ok (u.store.isTruthy answer) u := rfl
  rw [Eval.run_bind_of_ok htruth]
  unfold goOn roundOf
  generalize u.store.isTruthy answer = yes
  by_cases hstops : v.stops ⟨item, answer, yes⟩ = true
  · rw [if_pos hstops, conclude_of_stops hdone hstops]
    cases v <;> cases yes <;> first | rfl | cases hstops
  · rw [if_neg hstops, found_append]
    cases v <;> cases yes <;> first | rfl | exact absurd rfl hstops

/-! ## All rounds -/

/-- A visit does all of its rounds. -/
theorem Visits.yields {fin : EStateM.Result Failure World Unit}
    (h : Visits (World.itemAt r) v f k w rounds fin) (hk : done.length = k)
    (hdone : ∀ d ∈ done, v.stops d = false) :
    Yields (fun run => run (.visit v f (.items r) k (v.found done))) w
      (v.outcome (done ++ rounds) fin) := by
  -- the rounds that are over give the results so far, so they grow by one round at each step
  induction h generalizing done with
  | ended hend =>
    subst hk
    rw [List.append_nil]
    exact .task (.of_eq fun run => visitNext_of_none hdone hend)
  | failed hitem hcall he =>
    subst hk
    exact .task ((Yields.bind_error hcall).congr fun run => visitNext_of_some hdone hitem)
  | @stopped k w u item answer hitem hcall hstops =>
    subst hk
    have hrest : Yields (fun run => goOn run v f r done item answer) u
        (v.conclude (done ++ [roundOf item answer u]) u) := .of_eq fun run => if_pos hstops
    exact .task ((hcall.bind hrest).congr fun run => visitNext_of_some hdone hitem)
  | @next k w u item answer rounds fin hitem hcall hgoes hrest ih =>
    subst hk
    have hdone' : ∀ d ∈ done ++ [roundOf item answer u], v.stops d = false := by
      simpa [or_imp, forall_and] using ⟨hdone, hgoes⟩
    have hrec := ih (List.length_append ..) hdone'
    rw [List.append_assoc] at hrec
    have hrest : Yields (fun run => goOn run v f r done item answer) u
        (v.outcome (done ++ roundOf item answer u :: rounds) fin) :=
      hrec.congr fun run => if_neg (by simp [hgoes])
    exact .task ((hcall.bind hrest).congr fun run => visitNext_of_some hdone hitem)

theorem asks_call (f item : Value) (k : Nat) :
    Asks (fun _ => True) fun run => Library.callValue run f [item, .int k] :=
  asks_libraryCall (fun _ => trivial) f _

/-- A visit that comes to an end consists of rounds. -/
theorem visits_of_bounded {n : Nat} {res : EStateM.Result Failure World Value}
    (hdone : ∀ d ∈ done, v.stops d = false)
    (h : bounded n (.visit v f (.items r) done.length (v.found done)) w = res)
    (hres : IsOutcome res) :
    ∃ rounds fin, Visits (World.itemAt r) v f done.length w rounds fin ∧
      res = v.outcome (done ++ rounds) fin := by
  -- each round leaves one step less for the rest of the visit
  induction n generalizing done w with
  | zero =>
    subst h
    exact absurd rfl hres
  | succ n ih =>
    cases hitem : w.itemAt r done.length with
    | none =>
      refine ⟨[], .ok () w, .ended hitem, ?_⟩
      rw [List.append_nil, ← h]
      exact visitNext_of_none hdone hitem
    | some item =>
      have hstep : (Library.callValue (bounded n) f [item, .int done.length] >>=
          goOn (bounded n) v f r done item) w = res :=
        (visitNext_of_some hdone hitem).symm.trans h
      cases hcall : Library.callValue (bounded n) f [item, .int done.length] w with
      | error e u =>
        rw [Eval.run_bind_of_error hcall] at hstep
        subst hstep
        have hyields : CallYields f item done.length w (.error e u) :=
          .of_bounded (asks_call f item _) hcall hres
        exact ⟨[], .error e u, .failed hitem hyields hres, rfl⟩
      | ok answer u =>
        rw [Eval.run_bind_of_ok hcall] at hstep
        have hyields : CallYields f item done.length w (.ok answer u) :=
          .of_bounded (asks_call f item _) hcall trivial
        by_cases hstops : v.stops (roundOf item answer u) = true
        · refine ⟨_, _, .stopped hitem hyields hstops, ?_⟩
          rw [← hstep]
          exact if_pos hstops
        · have hgoes : v.stops (roundOf item answer u) = false := by simpa using hstops
          have hdone' : ∀ d ∈ done ++ [roundOf item answer u], v.stops d = false := by
            simpa [or_imp, forall_and] using ⟨hdone, hgoes⟩
          unfold goOn at hstep
          rw [if_neg hstops] at hstep
          obtain ⟨rounds, fin, hrest, houtcome⟩ := ih hdone' (by rwa [List.length_append])
          rw [List.append_assoc] at houtcome
          rw [List.length_append] at hrest
          exact ⟨_, fin, .next hitem hyields hgoes hrest, houtcome⟩

/-! ## Calls that leave the list alone -/

/-- Visits are the same where the items are, in all worlds that the calls leave behind. -/
theorem Visits.congr {itemAt itemAt' : World → Nat → Option Value} {I : World → Prop}
    {fin : EStateM.Result Failure World Unit} (h : Visits itemAt v f k w rounds fin) (hw : I w)
    (hsame : ∀ u k, I u → itemAt' u k = itemAt u k)
    (hkeep : ∀ {u k item res}, I u → itemAt u k = some item → CallYields f item k u res →
      LeavesIn I res) :
    Visits itemAt' v f k w rounds fin := by
  induction h with
  | ended hend => exact .ended ((hsame _ _ hw).trans hend)
  | failed hitem hcall he => exact .failed ((hsame _ _ hw).trans hitem) hcall he
  | stopped hitem hcall hstops => exact .stopped ((hsame _ _ hw).trans hitem) hcall hstops
  | next hitem hcall hgoes hrest ih =>
    exact .next ((hsame _ _ hw).trans hitem) hcall hgoes (ih (hkeep hw hitem hcall))

theorem drop_of_getElem? {α : Type} {xs : Array α} {k : Nat} {x : α} (h : xs[k]? = some x) :
    xs.toList.drop k = x :: xs.toList.drop (k + 1) := by
  obtain ⟨hk, rfl⟩ := Array.getElem?_eq_some_iff.mp h
  exact List.drop_eq_getElem_cons hk

/-- The items of a visit of fixed items are these items, in order, each at most once. -/
theorem Visits.items_prefix {xs : Array Value} {fin : EStateM.Result Failure World Unit}
    (h : Visits (fun _ k => xs[k]?) v f k w rounds fin) :
    rounds.map (·.item) <+: xs.toList.drop k := by
  induction h with
  | ended | failed => exact List.nil_prefix
  | stopped hitem hcall hstops =>
    rw [drop_of_getElem? hitem]
    exact List.prefix_cons_inj _ |>.mpr List.nil_prefix
  | next hitem hcall hgoes hrest ih =>
    rw [drop_of_getElem? hitem]
    exact List.prefix_cons_inj _ |>.mpr ih

/-- A visit of fixed items that collects the answers does not end before the last item. -/
theorem Visits.length_eq {xs : Array Value} {fin : EStateM.Result Failure World Unit}
    (h : Visits (fun _ k => xs[k]?) .collect f k w rounds fin) (hk : k ≤ xs.size) {u : World}
    (hfin : fin = .ok () u) : k + rounds.length = xs.size := by
  induction h with
  | ended hend =>
    have hsize := Array.getElem?_eq_none_iff.mp hend
    rw [List.length_nil]
    omega
  | failed => cases hfin
  | stopped hitem hcall hstops => cases hstops
  | next hitem hcall hgoes hrest ih =>
    obtain ⟨hlt, -⟩ := Array.getElem?_eq_some_iff.mp hitem
    have hrec := ih hlt hfin
    rw [List.length_cons]
    omega

/-- A visit comes to an end if each of its calls does and the items are behind it some day. -/
theorem visits_exist {itemAt : World → Nat → Option Value} {I : World → Prop} {n : Nat} (hw : I w)
    (hbound : ∀ u k, I u → n ≤ k → itemAt u k = none)
    (hcalls : ∀ {u k item}, I u → itemAt u k = some item →
      ∃ res, IsOutcome res ∧ CallYields f item k u res ∧ LeavesIn I res) :
    ∃ rounds fin, Visits itemAt v f k w rounds fin := by
  -- by induction on the places that are left
  induction hleft : n - k generalizing k w with
  | zero => exact ⟨[], _, .ended (hbound w k hw (by omega))⟩
  | succ left ih =>
    cases hitem : itemAt w k with
    | none => exact ⟨[], _, .ended hitem⟩
    | some item =>
      obtain ⟨res, hres, hcall, hleaves⟩ := hcalls hw hitem
      cases res with
      | error e u => exact ⟨[], _, .failed hitem hcall hres⟩
      | ok answer u =>
        cases hstops : v.stops (roundOf item answer u) with
        | true => exact ⟨_, _, .stopped hitem hcall hstops⟩
        | false =>
          obtain ⟨rounds, fin, hrest⟩ := ih (k := k + 1) hleaves (by omega)
          exact ⟨_, fin, .next hitem hcall hstops hrest⟩

/-- There are no rounds up to an end where each round is followed by another one. -/
theorem not_visits {itemAt : World → Nat → Option Value} {I : Nat → World → Prop}
    {fin : EStateM.Result Failure World Unit} (hw : I k w)
    (hrounds : ∀ {u k}, I k u → ∃ item answer u', itemAt u k = some item ∧
      CallYields f item k u (.ok answer u') ∧ v.stops (roundOf item answer u') = false ∧
      I (k + 1) u') :
    ¬ Visits itemAt v f k w rounds fin := by
  intro h
  -- a call has one outcome only, so every round is the one that the invariant speaks of
  induction h with
  | ended hend =>
    obtain ⟨item, _, _, hitem, _⟩ := hrounds hw
    rw [hend] at hitem
    cases hitem
  | failed hitem hcall he =>
    obtain ⟨item, _, _, hitem', hcall', _⟩ := hrounds hw
    cases hitem.symm.trans hitem'
    cases hcall.unique hcall'
  | stopped hitem hcall hstops =>
    obtain ⟨item, _, _, hitem', hcall', hgoes, _⟩ := hrounds hw
    cases hitem.symm.trans hitem'
    cases hcall.unique hcall'
    exact Bool.false_ne_true (hgoes.symm.trans hstops)
  | next hitem hcall hgoes hrest ih =>
    obtain ⟨item, _, _, hitem', hcall', _, hnext⟩ := hrounds hw
    cases hitem.symm.trans hitem'
    cases hcall.unique hcall'
    exact ih hnext

theorem Visits.isOutcome {itemAt : World → Nat → Option Value}
    {fin : EStateM.Result Failure World Unit} (h : Visits itemAt v f k w rounds fin) :
    IsOutcome fin := by
  induction h with
  | ended | stopped => trivial
  | failed hitem hcall he => exact he
  | next hitem hcall hgoes hrest ih => exact ih

end

/-! ## The functions on lists -/

namespace ListFunction

/-- The visit that a function makes of the list that it is given. -/
def visit? : ListFunction → Option Visit
  | map | flatMap => some .collect
  | filter => some .keep
  | find => some .find
  | findIndex => some .findIndex
  | every => some .every
  | any => some .any
  | _ => none

/-- What a function does with the outcome of its visit. -/
def finish : ListFunction → Value → Eval Value
  | flatMap, x => Library.flatten x
  | _, x => return x

/-- What a function comes to behind the rounds of its visit. -/
def outcome (g : ListFunction) (v : Visit) (rounds : List Round) :
    EStateM.Result Failure World Unit → EStateM.Result Failure World Value
  | .ok _ u => (v.conclude rounds >>= g.finish) u
  | .error e u => .error e u

variable {g : ListFunction} {v : Visit} {f : Value} {r : ListRef} {w : World}
  {rounds : List Round} {fin : EStateM.Result Failure World Unit} {run : Runner}

theorem step_eq (hg : g.visit? = some v) :
    step run (.native (.builtin (.list g)) [.list r, f]) =
      (run (.visit v f (.items r) 0 (v.found [])) >>= g.finish) := by
  have hpure : ∀ act : Eval Value, act = act >>= fun x => pure x := fun act => (bind_pure act).symm
  cases g <;> cases hg
  case flatMap => rfl
  all_goals exact hpure _

theorem bind_finish {act : Eval Value} (h : act w = v.outcome rounds fin) :
    (act >>= g.finish) w = g.outcome v rounds fin := by
  cases fin with
  | error e u => exact Eval.run_bind_of_error h
  | ok _ u =>
    show (act >>= g.finish) w = (v.conclude rounds >>= g.finish) u
    cases hconclude : v.conclude rounds u with
    | ok x u' =>
      have hact : act w = .ok x u' := h.trans hconclude
      rw [Eval.run_bind_of_ok hact, Eval.run_bind_of_ok hconclude]
    | error e u' =>
      have hact : act w = .error e u' := h.trans hconclude
      rw [Eval.run_bind_of_error hact, Eval.run_bind_of_error hconclude]

theorem isOutcome_outcome (hg : g.visit? = some v) (hfin : IsOutcome fin) :
    IsOutcome (g.outcome v rounds fin) := by
  cases fin with
  | error e u => exact hfin
  | ok _ u => cases g <;> cases hg <;> trivial

/-- A function on lists is called with a list and a function. -/
def on (g : ListFunction) (r : ListRef) (f : Value) (run : Runner) : Eval Value :=
  run (.native (.builtin (.list g)) [.list r, f])

theorem on_eq (hg : g.visit? = some v) (n : Nat) : g.on r f (bounded (n + 1)) =
    (bounded n (.visit v f (.items r) 0 (v.found [])) >>= g.finish) := by
  show step (bounded n) (.native (.builtin (.list g)) [.list r, f]) = _
  rw [step_eq hg]

theorem yields_on_iff (hg : g.visit? = some v) {res : EStateM.Result Failure World Value} :
    IsOutcome res ∧ Yields (g.on r f) w res ↔
      ∃ rounds fin, Visits (World.itemAt r) v f 0 w rounds fin ∧ res = g.outcome v rounds fin := by
  constructor
  · rintro ⟨hres, bound, hbound⟩
    have hstep : (bounded bound (.visit v f (.items r) 0 (v.found [])) >>= g.finish) w = res := by
      rw [← on_eq hg]
      exact hbound (bound + 1) (Nat.le_succ bound)
    have hvisit : IsOutcome (bounded bound (.visit v f (.items r) 0 (v.found [])) w) := by
      cases hact : bounded bound (.visit v f (.items r) 0 (v.found [])) w with
      | ok x u => trivial
      | error e u =>
        rw [Eval.run_bind_of_error hact] at hstep
        rwa [← hstep] at hres
    have hnil : ∀ d ∈ ([] : List Round), v.stops d = false := by simp
    obtain ⟨rounds, fin, hvisits, houtcome⟩ := visits_of_bounded hnil rfl hvisit
    exact ⟨rounds, fin, hvisits, hstep.symm.trans (bind_finish houtcome)⟩
  · rintro ⟨rounds, fin, hvisits, rfl⟩
    refine ⟨isOutcome_outcome hg hvisits.isOutcome, ?_⟩
    have hnil : ∀ d ∈ ([] : List Round), v.stops d = false := by simp
    obtain ⟨bound, hbound⟩ := hvisits.yields rfl hnil
    refine ⟨bound + 1, fun m hm => ?_⟩
    obtain ⟨n, rfl⟩ : ∃ n, m = n + 1 := ⟨m - 1, by omega⟩
    rw [on_eq hg]
    exact bind_finish (hbound n (by omega))

end ListFunction

/-- The functions on lists that call a function for every item (`map`, `filter`, `find`,
    `findIndex`, `every`, `some` and `flatMap`) look for each item in the list as it is when its
    turn comes: they visit its places one after the other, each in the list that the calls before
    have left behind.

    So, if no call changes the list, the function is called with the items that the list had at the
    start, in order, each at most once and with its index, and as many answers are collected as
    there were items.  The visit ends if each call ends and the list does not become longer than
    some number of items.  It never ends if each call gives an answer that lets the visit go on, and
    leaves the list longer than the next place. -/
theorem list_visits_are_live {g : ListFunction} {v : Visit} (hg : g.visit? = some v) (r : ListRef)
    (f : Value) (w : World) :
    (∀ res, IsOutcome res ∧ Yields (g.on r f) w res ↔
      ∃ rounds fin, Visits (World.itemAt r) v f 0 w rounds fin ∧ res = g.outcome v rounds fin) ∧
    (∀ (I : World → Prop) xs, I w → (∀ u, I u → u.store.list r = xs) →
      (∀ u k item res, I u → u.itemAt r k = some item → CallYields f item k u res →
        LeavesIn I res) →
      ∀ rounds fin, Visits (World.itemAt r) v f 0 w rounds fin →
        Visits (fun _ k => xs[k]?) v f 0 w rounds fin ∧ rounds.map (·.item) <+: xs.toList ∧
        (v = .collect → ∀ u, fin = .ok () u → rounds.length = xs.size)) ∧
    (∀ (I : World → Prop) n, I w → (∀ u, I u → (u.store.list r).size ≤ n) →
      (∀ u k item, I u → u.itemAt r k = some item →
        ∃ res, IsOutcome res ∧ CallYields f item k u res ∧ LeavesIn I res) →
      Ends (g.on r f) w) ∧
    (∀ I : Nat → World → Prop, I 0 w →
      (∀ u k, I k u → ∃ item answer u', u.itemAt r k = some item ∧
        CallYields f item k u (.ok answer u') ∧ v.stops (roundOf item answer u') = false ∧
        I (k + 1) u') →
      ¬ Ends (g.on r f) w) := by
  refine ⟨fun res => ListFunction.yields_on_iff hg, ?_, ?_, ?_⟩
  · intro I xs hw hlist hkeep rounds fin hvisits
    have hfixed : Visits (fun _ k => xs[k]?) v f 0 w rounds fin :=
      hvisits.congr hw (fun u k hu => by rw [World.itemAt, hlist u hu]) (hkeep _ _ _ _)
    refine ⟨hfixed, hfixed.items_prefix, ?_⟩
    rintro rfl u hfin
    simpa using hfixed.length_eq (Nat.zero_le _) hfin
  · intro I n hw hbound hcalls
    have hbehind : ∀ u k, I u → n ≤ k → u.itemAt r k = none := fun u k hu hk =>
      Array.getElem?_eq_none (Nat.le_trans (hbound u hu) hk)
    obtain ⟨rounds, fin, hvisits⟩ := visits_exist (v := v) (k := 0) hw hbehind (hcalls _ _ _)
    exact ends_iff_yields.mpr
      ⟨_, (ListFunction.yields_on_iff hg).mpr ⟨rounds, fin, hvisits, rfl⟩⟩
  · intro I hw hrounds hends
    obtain ⟨res, hres⟩ := ends_iff_yields.mp hends
    obtain ⟨rounds, fin, hvisits, -⟩ := (ListFunction.yields_on_iff hg).mp hres
    exact not_visits hw (hrounds _ _) hvisits

/-! ## A list that grows -/

/-- `xs.push(null)`. -/
def pushNull : Expr :=
  .call default (.member default (.name default "xs") "push") [.null default]

/-- `fn(): xs.push(null)`. -/
def growBy : Closure := ⟨[], .expr pushNull, globalScope, none⟩

/-- A session with a list `xs` of one item, and with a function as a native that makes it grow. -/
def growable : World :=
  { Session.bareWorld {} [] with
    store := { Store.empty with
      lists := ⟨#[#[.int 1]]⟩
      functions := ⟨#[growBy]⟩
      natives := ⟨#[.callback ⟨0⟩ none]⟩
      scopes := ⟨#[⟨Table.ofList [("xs", .list ⟨0⟩)], none⟩]⟩ } }

/-- The function can be called, and the list is longer than a number of items. -/
structure Growing (k : Nat) (w : World) : Prop where
  listHeld : w.store.lists.Holds ⟨0⟩
  longer : k < (w.store.list ⟨0⟩).size
  nativeHeld : w.store.natives.Holds ⟨0⟩
  native : w.store.native ⟨0⟩ = .callback ⟨0⟩ none
  function : w.store.function ⟨0⟩ = growBy
  scopeHeld : w.store.scopes.Holds globalScope
  bound : (w.store.scope globalScope).bindings.get? "xs" = some (.list ⟨0⟩)
  calls : w.callDepth < w.settings.maxCallDepth

/-- A call of the function makes the list longer. -/
theorem Growing.call {k : Nat} {w : World} (h : Growing k w) (xs : List Value) :
    ∃ x u, Yields (fun run => run (.native (.made ⟨0⟩) xs)) w (.ok x u) ∧ Growing (k + 1) u := by
  -- the body runs in a scope of its own, in which `xs` is the global name
  have hname : HasValue w.store.scopes.next (.name default "xs")
      (w.enter.withInner globalScope) (.list ⟨0⟩) _ :=
    hasValue_name default (lookup?_withInner h.scopeHeld h.bound)
  have hargs : HaveValues w.store.scopes.next [.null default]
      ((w.enter.withInner globalScope).withNative
        (.listMember ⟨0⟩ .push)) [.null] _ :=
    haveValues_one (.task (.of_eq fun _ => rfl))
  have hmember : ListMember.ofName? "push" = some .push := rfl
  have hpush := hasValue_memberCall default default hname hmember hargs
    (mapM_toNative (by simp) _) (Heap.get_push_next _ _) fun _ => rfl
  have hcall : Yields (fun run => run (.native (.made ⟨0⟩) xs)) w (.ok _ _) :=
    yields_callback h.native h.calls (by rw [h.function]; exact yields_invoke rfl rfl hpush)
  have hlonger : k + 1 < ((w.store.lists.modify ⟨0⟩ (·.push .null)).get ⟨0⟩).size := by
    rw [Heap.get_modify_self _ _ h.listHeld, Array.size_push]
    exact Nat.succ_lt_succ h.longer
  have hscope := Heap.get_push_of_holds w.store.scopes ⟨.empty, some globalScope⟩ h.scopeHeld
  exact ⟨_, _, hcall, {
    listHeld := (Heap.holds_modify _ _ _ _).mpr h.listHeld
    longer := hlonger
    nativeHeld := (Heap.extends_push _ _).holds h.nativeHeld
    native := (Heap.get_push_of_holds _ _ h.nativeHeld).trans h.native
    function := h.function
    scopeHeld := (Heap.extends_push _ _).holds h.scopeHeld
    bound := (congrArg (fun s => s.bindings.get? "xs") hscope).trans h.bound
    calls := h.calls }⟩

/-- `print` leaves the list alone and is called with its one item; the function that makes the list
    grow is called for ever. -/
theorem list_visits_are_live_growable :
    Ends (ListFunction.map.on ⟨0⟩ (Library.builtin (.core .print))) growable ∧
    (∀ rounds fin, Visits (World.itemAt ⟨0⟩) .collect (Library.builtin (.core .print)) 0 growable
      rounds fin → rounds.map (·.item) <+: [.int 1]) ∧
    ¬ Ends (ListFunction.map.on ⟨0⟩ (.native (.made ⟨0⟩))) growable := by
  have hmap : ListFunction.map.visit? = some .collect := rfl
  have hprint : ∀ item k u, ∃ u',
      CallYields (Library.builtin (.core .print)) item k u (.ok .null u') ∧ u'.store = u.store :=
    fun item k u => ⟨_, .task (.of_eq fun _ => rfl), rfl⟩
  obtain ⟨-, halone, hends, -⟩ :=
    list_visits_are_live hmap ⟨0⟩ (Library.builtin (.core .print)) growable
  obtain ⟨-, -, -, hgrows⟩ := list_visits_are_live hmap ⟨0⟩ (.native (.made ⟨0⟩)) growable
  refine ⟨?_, ?_, ?_⟩
  · refine hends (fun u => u.store.list ⟨0⟩ = #[.int 1]) 1 rfl (fun u hu => by rw [hu]; decide) ?_
    intro u k item hu _
    obtain ⟨u', hcall, hstore⟩ := hprint item k u
    have hlist : u'.store.list ⟨0⟩ = #[.int 1] := by rw [hstore, hu]
    exact ⟨.ok .null u', trivial, hcall, hlist⟩
  · intro rounds fin hvisits
    refine (halone (fun u => u.store.list ⟨0⟩ = #[.int 1]) #[.int 1] rfl (fun _ hu => hu) ?_
      rounds fin hvisits).2.1
    intro u k item res hu _ hres
    obtain ⟨u', hcall, hstore⟩ := hprint item k u
    cases hres.unique hcall
    show u'.store.list ⟨0⟩ = _
    rw [hstore, hu]
  · refine hgrows Growing ⟨by decide, by decide, by decide, rfl, rfl, by decide, rfl, by decide⟩ ?_
    intro u k hu
    have hlonger := hu.longer
    have hitem : u.itemAt ⟨0⟩ k = some (u.store.list ⟨0⟩)[k] := Array.getElem?_eq_getElem hlonger
    obtain ⟨answer, u', hcall, hnext⟩ := hu.call [_, .int k]
    exact ⟨_, answer, u', hitem, hcall, rfl, hnext⟩

end EventScript
