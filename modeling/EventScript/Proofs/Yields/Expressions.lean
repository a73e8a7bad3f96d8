import EventScript.Proofs.Yields
import EventScript.Proofs.Instances

/-! # What expressions and statements yield

For some forms of expressions and statements, what they yield when their parts yield something.

* `GivesList`                                                computations that make a list
* `Store.lookup?_define_self`, `Store.lookup?_define_of_ne`  names behind a declaration
* `hasValue_name`, `hasValue_list`, `hasValue_index`, ...    expressions
* `hasValue_call`, `hasValue_memberCall`, `yields_callback`  calls of and by natives
* `executes_expression`, `executes_let`                      statements
-/

namespace EventScript

open Evaluate

/-- An expression has a value in a scope. -/
def HasValue (E : ScopeRef) (e : Expr) (w : World) (x : Value) (u : World) : Prop :=
  Yields (fun run => run (.eval e E)) w (.ok x u)

/-- Expressions have values, from left to right. -/
def HaveValues (E : ScopeRef) (es : List Expr) (w : World) (xs : List Value) (u : World) : Prop :=
  Yields (fun run => evalAll run E es) w (.ok xs u)

/-- A statement ends normally in a scope. -/
def Executes (E : ScopeRef) (t : Stmt) (w u : World) : Prop :=
  Yields (fun run => run (.exec t E)) w (.ok .normal u)

/-- The world with one more native. -/
def World.withNative (w : World) (n : MadeNative) : World :=
  { w with store := { w.store with natives := w.store.natives.push n } }

/-- The world with one more list. -/
def World.withList (w : World) (items : Array Value) : World :=
  { w with store := { w.store with lists := w.store.lists.push items } }

/-- A computation makes a new list with some items, and does nothing else. -/
def GivesList (act : Eval Value) (w : World) (items : List Value) : Prop :=
  act w = .ok (.list w.store.lists.next) (w.withList items.toArray)

/-- The world with a list changed. -/
def World.changeList (w : World) (r : ListRef) (f : Array Value → Array Value) : World :=
  { w with store := { w.store with lists := w.store.lists.modify r f } }

/-- The world with one more scope, inside of another one. -/
def World.withInner (w : World) (E : ScopeRef) : World :=
  { w with store := { w.store with scopes := w.store.scopes.push ⟨.empty, some E⟩ } }

/-- The world with one more call in progress. -/
def World.enter (w : World) : World := { w with callDepth := w.callDepth + 1 }

/-- The world behind a call. -/
def World.leave (w : World) : World := { w with callDepth := w.callDepth - 1 }

/-- The world with a name bound in a scope. -/
def World.define (w : World) (E : ScopeRef) (name : String) (x : Value) : World :=
  { w with store := w.store.define E name x }

theorem list_withList_next (w : World) (items : Array Value) :
    (w.withList items).store.list w.store.lists.next = items := Heap.get_push_next _ _

theorem list_withList {w : World} {r : ListRef} (hr : w.store.lists.Holds r) (items : Array Value) :
    (w.withList items).store.list r = w.store.list r := Heap.get_push_of_holds _ _ hr

/-! ## Names -/

namespace Store

variable {s s' : Store} {E : ScopeRef} {name other : String} {x : Value}

/-- A name stands for the same in two stores whose scopes have the same to say about it. -/
theorem lookup?_congr (h : ∀ q, (s'.scope q).parent = (s.scope q).parent ∧
    (s'.scope q).bindings.get? name = (s.scope q).bindings.get? name) (q : ScopeRef) :
    s'.lookup? name q = s.lookup? name q := by
  have hfrom : ∀ bound q, s'.resolveFrom name bound q = s.resolveFrom name bound q := by
    intro bound
    induction bound with
    | zero => exact fun _ => rfl
    | succ bound ih =>
      intro q
      obtain ⟨hparent, hget⟩ := h q
      have hcontains : (s'.scope q).bindings.contains name =
          (s.scope q).bindings.contains name := by
        simp only [Table.contains, hget]
      simp only [resolveFrom, hcontains, hparent, funext ih]
  have hresolve : s'.resolve name q = s.resolve name q := hfrom _ q
  unfold lookup?
  rw [hresolve]
  exact congrArg _ (funext fun p => (h p).2)

theorem lookup?_of_scopes (h : s'.scopes = s.scopes) (q : ScopeRef) :
    s'.lookup? name q = s.lookup? name q := by
  refine lookup?_congr (fun q => ?_) q
  simp only [scope, h, and_self]

theorem lookup?_define_self (hE : s.scopes.Holds E) :
    (s.define E name x).lookup? name E = some x := by
  refine lookup?_own ?_
  show ((s.scopes.modify E _).get E).bindings.get? name = some x
  rw [Heap.get_modify_self _ _ hE]
  exact Table.get?_put_self _ _ _

theorem lookup?_define_of_ne (h : other ≠ name) (q : ScopeRef) :
    (s.define E name x).lookup? other q = s.lookup? other q := by
  refine lookup?_congr (fun q => ?_) q
  show ((s.scopes.modify E _).get q).parent = (s.scopes.get q).parent ∧
    ((s.scopes.modify E _).get q).bindings.get? other = (s.scopes.get q).bindings.get? other
  by_cases hq : q = E
  · subst hq
    by_cases hE : s.scopes.Holds q
    · rw [Heap.get_modify_self _ _ hE]
      exact ⟨rfl, Table.get?_put_of_ne _ _ h⟩
    · rw [Heap.get_of_not_holds _ hE,
        Heap.get_of_not_holds _ (fun hm => hE ((s.scopes.holds_modify q q _).mp hm))]
      exact ⟨rfl, rfl⟩
  · rw [Heap.get_modify_of_ne _ _ hq]
    exact ⟨rfl, rfl⟩

end Store

section

variable {w : World} {E : ScopeRef} {name : String}

/-- A scope sees the names of the scope that it is made in. -/
theorem lookup?_withInner (hE : w.store.scopes.Holds E) {x : Value}
    (hx : (w.store.scope E).bindings.get? name = some x) :
    (w.withInner E).store.lookup? name w.store.scopes.next = some x := by
  have hinner : (w.withInner E).store.scope w.store.scopes.next = ⟨.empty, some E⟩ :=
    Heap.get_push_next _ _
  have houter : (w.withInner E).store.scope E = w.store.scope E := Heap.get_push_of_holds _ _ hE
  have hcontains : (w.store.scope E).bindings.contains name = true := by
    rw [Table.contains, hx]
    rfl
  -- the inner scope is not the first one, so its index leaves a step for the way out
  obtain ⟨bound, hbound⟩ : ∃ bound, w.store.scopes.next.index = bound + 1 :=
    ⟨w.store.scopes.next.index - 1, (Nat.succ_pred_eq_of_pos (Nat.zero_lt_of_lt hE)).symm⟩
  have hresolve : (w.withInner E).store.resolve name w.store.scopes.next = some E := by
    show (w.withInner E).store.resolveFrom name (w.store.scopes.next.index + 1) _ = _
    have hempty : (Table.empty : Table String Value).contains name = false := rfl
    simp [hbound, Store.resolveFrom, hinner, houter, hcontains, hempty]
  unfold Store.lookup?
  rw [hresolve]
  show ((w.withInner E).store.scope E).bindings.get? name = _
  rw [houter, hx]

@[simp] theorem lookup?_withNative (n : MadeNative) :
    (w.withNative n).store.lookup? name E = w.store.lookup? name E := by
  have hscopes : (w.withNative n).store.scopes = w.store.scopes := rfl
  exact Store.lookup?_of_scopes hscopes E

@[simp] theorem lookup?_withList (items : Array Value) :
    (w.withList items).store.lookup? name E = w.store.lookup? name E := by
  have hscopes : (w.withList items).store.scopes = w.store.scopes := rfl
  exact Store.lookup?_of_scopes hscopes E

@[simp] theorem lookup?_changeList (r : ListRef) (f : Array Value → Array Value) :
    (w.changeList r f).store.lookup? name E = w.store.lookup? name E := by
  have hscopes : (w.changeList r f).store.scopes = w.store.scopes := rfl
  exact Store.lookup?_of_scopes hscopes E

end

section

variable {E : ScopeRef} {e o key callee a b : Expr} {es : List Expr} {name : String} {r : ListRef}
  {x y z : Value} {xs ys : List Value} {w u v v' : World} (span span' : Span)

/-! ## Expressions -/

theorem hasValue_name (h : w.store.lookup? name E = some x) :
    HasValue E (.name span name) w x w := by
  refine .task (.of_eq fun run => ?_)
  show Eval.lookup name E (some span) w = _
  unfold Eval.lookup
  rw [Eval.run_bind_of_ok (a := some x) (v := w) (by rw [← h]; rfl)]
  rfl

theorem hasValue_number (n : Number) : HasValue E (.number span n) w (.number n) w :=
  .task (.of_eq fun _ => rfl)

theorem haveValues_nil : HaveValues E [] w [] w := .of_eq fun _ => rfl

theorem haveValues_cons (he : HasValue E e w x u) (hes : HaveValues E es u xs v) :
    HaveValues E (e :: es) w (x :: xs) v := by
  show Yields (fun run => run (.eval e E) >>= _) w _
  exact .bind he (.bind hes (.of_eq fun _ => rfl))

theorem haveValues_one (he : HasValue E e w x u) : HaveValues E [e] w [x] u :=
  haveValues_cons he haveValues_nil

/-- A list literal makes a list. -/
theorem hasValue_list (hes : HaveValues E es w xs u) :
    HasValue E (.list span es) w (.list u.store.lists.next) (u.withList xs.toArray) := by
  refine .task ?_
  show Yields (fun run => evalAll run E es >>= _) w _
  exact .bind hes (.of_eq fun _ => rfl)

theorem hasValue_length (ho : HasValue E o w (.list r) u) :
    HasValue E (.member span o "length") w (.int (u.store.list r).size) u := by
  refine .task ?_
  show Yields (fun run => run (.eval o E) >>= _) w _
  exact .bind ho (.of_eq fun _ => rfl)

/-- A member of a list is a native that is made when the member is read. -/
theorem hasValue_listMember (ho : HasValue E o w (.list r) u) {m : ListMember}
    (hm : ListMember.ofName? name = some m) :
    HasValue E (.member span o name) w (.native (.made u.store.natives.next))
      (u.withNative (.listMember r m)) := by
  have hlength : (name == "length") = false := by
    rw [beq_eq_false_iff_ne]
    rintro rfl
    cases hm
  refine .task ?_
  show Yields (fun run => run (.eval o E) >>= _) w _
  refine .bind ho (.of_eq fun _ => ?_)
  show listMember r name u = _
  unfold listMember
  rw [if_neg (by simp [hlength]), hm]
  rfl

theorem hasValue_mapMember {m : MapRef} (ho : HasValue E o w (.map m) u)
    (hx : (u.store.map m).get? (.text name) = some x) :
    HasValue E (.member span o name) w x u := by
  refine .task ?_
  show Yields (fun run => run (.eval o E) >>= _) w _
  refine .bind ho (.of_eq fun _ => ?_)
  show EStateM.Result.ok (((u.store.map m).get? (.text name)).getD .null) u = _
  rw [hx]
  rfl

theorem hasValue_index {i : Nat} (ho : HasValue E o w (.list r) u)
    (hkey : HasValue E key u (.int i) v) (hx : (v.store.list r)[i]? = some x) :
    HasValue E (.index span o key) w x v := by
  have hindex : Yields (fun run => indexKey run E key) u (.ok (.int i) v) := by
    show Yields (fun run => run (.eval key E) >>= _) u _
    exact .bind hkey (.of_eq fun _ => rfl)
  refine .task ?_
  show Yields (fun run => run (.eval o E) >>= _) w _
  refine .bind ho ?_
  show Yields (fun run => indexKey run E key >>= fun key => access (.list r) key span) u _
  refine .bind hindex (.of_eq fun _ => ?_)
  show EStateM.Result.ok ((v.store.list r)[i]?.getD .null) v = _
  rw [hx]
  rfl

theorem hasValue_binary {operator : BinaryOperator} (hand : operator ≠ .and) (hor : operator ≠ .or)
    (ha : HasValue E a w x u) (hb : HasValue E b u y v)
    (hop : binary operator x y span v = .ok z v') :
    HasValue E (.binary span operator a b) w z v' := by
  have hstep : ∀ run, expression run E (.binary span operator a b) =
      (run (.eval a E) >>= fun x => run (.eval b E) >>= fun y => binary operator x y span) := by
    intro run
    cases operator <;> first | exact absurd rfl hand | exact absurd rfl hor | rfl
  refine .task ?_
  show Yields (fun run => expression run E (.binary span operator a b)) w _
  simp only [hstep]
  exact .bind ha (.bind hb (.of_eq fun _ => hop))

/-! ## Calls of natives -/

/-- Natives are handed every value but functions of the language as it is. -/
theorem toNative_of_ne (hx : ∀ f, x ≠ .function f) : toNative x w = .ok x w := by
  cases x with
  | function f => exact absurd rfl (hx f)
  | _ => rfl

theorem mapM_toNative (h : ∀ x ∈ xs, ∀ f, x ≠ .function f) (w : World) :
    xs.mapM toNative w = .ok xs w := by
  induction xs with
  | nil => rfl
  | cons x xs ih =>
    obtain ⟨hx, hxs⟩ := List.forall_mem_cons.mp h
    rw [List.mapM_cons, Eval.run_bind_of_ok (toNative_of_ne hx), Eval.run_bind_of_ok (ih hxs)]
    rfl

theorem hasValue_call {f : Native} {u' : World} (hf : HasValue E callee w (.native f) u)
    (hargs : HaveValues E es u xs u') (hxs : xs.mapM toNative u' = .ok ys v)
    (hcall : Yields (fun run => run (.native f ys)) v (.ok z v')) :
    HasValue E (.call span callee es) w z v' := by
  refine .task ?_
  show Yields (fun run => run (.eval callee E) >>= _) w _
  refine .bind hf (.bind hargs ?_)
  show Yields (fun run => xs.mapM toNative >>= _) u' _
  refine .bind (.of_eq fun _ => hxs) ?_
  show Yields (fun run => Eval.reporting _ _ (run (.native f ys))) v _
  exact .reporting hcall

/-- A member of a list is called. -/
theorem hasValue_memberCall {m : ListMember} {u' : World} (ho : HasValue E o w (.list r) u)
    (hm : ListMember.ofName? name = some m)
    (hargs : HaveValues E es (u.withNative (.listMember r m)) xs u')
    (hxs : xs.mapM toNative u' = .ok ys v)
    (hmade : v.store.native u.store.natives.next = .listMember r m)
    (happly : ∀ run, m.apply run r ys v = .ok z v') :
    HasValue E (.call span (.member span' o name) es) w z v' := by
  refine hasValue_call span (hasValue_listMember span' ho hm) hargs hxs
    (.task (.of_eq fun run => ?_))
  show (Eval.read (fun s => s.native u.store.natives.next) >>= _) v = _
  rw [Eval.run_bind_of_ok (a := .listMember r m) (v := v) (by rw [← hmade]; rfl)]
  exact happly run

/-- A function without parameters runs in a scope of its own. -/
theorem yields_invoke {f : Closure} (hparams : f.params = []) (hbody : f.body = .expr e)
    (he : HasValue w.store.scopes.next e (w.withInner f.scope) x u) :
    Yields (fun run => invoke run f xs) w (.ok x u) := by
  have hbind : ∀ run, bindParams run f.scope w.store.scopes.next f.params xs = pure () := by
    intro run
    rw [hparams]
    rfl
  unfold invoke
  rw [hbody]
  exact .bind (.of_eq fun _ => rfl) (.bind (.of_eq fun run => congrFun (hbind run) _) he)

/-- A function of the language that is handed over to a native is called by it. -/
theorem yields_callback {q : NativeRef} {f : FunctionRef} {other : Option String}
    (hmade : w.store.native q = .callback f other)
    (hdepth : w.callDepth < w.settings.maxCallDepth)
    (hinvoke : Yields (fun run => invoke run (w.store.function f) xs) w.enter (.ok x u)) :
    Yields (fun run => run (.native (.made q) xs)) w (.ok x u.leave) := by
  have hcall : Yields (fun run => run (.call f xs none)) w (.ok x u.leave) :=
    .task (hinvoke.ensuring.congr fun run =>
      callFunction_of_not_full run f xs none (Nat.not_le_of_lt hdepth))
  refine .task (hcall.congr fun run => ?_)
  show (Eval.read (fun s => s.native q) >>= _) w = _
  rw [Eval.run_bind_of_ok (a := .callback f other) (v := w) (by rw [← hmade]; rfl)]

/-! ## Statements -/

theorem executes_expression (he : HasValue E e w x u) : Executes E (.expression span e) w u := by
  refine .task ?_
  show Yields (fun run => run (.eval e E) >>= _) w _
  exact .bind he (.of_eq fun _ => rfl)

theorem executes_let (he : HasValue E e w x u) :
    Executes E (.letName span name e) w (u.define E name x) := by
  refine .task ?_
  show Yields (fun run => run (.eval e E) >>= _) w _
  exact .bind he (.of_eq fun _ => rfl)

end

end EventScript
