import EventScript.Proofs.Patterns.Shapes
import EventScript.Proofs.Quiescence
import EventScript.Proofs.Reload.Declared
import EventScript.Proofs.Reload.Unbound

/-! # Declaring instances

The declaration of an instance evaluates the defaults of its schema and then the given fields, one
after the other, and does nothing else before it is sure that no required field is missing.  So it
either comes to a complete instance, or the world is the one that the expressions left behind.

* `Evaluates`                     expressions under names are evaluated one after the other
* `givenFields_cases`             the values go into the fields under these names
* `bindMethods_spec`              methods are bound to an instance that is there
* `declareInstance_outcome`       what a declaration comes to, whether it succeeds or not
-/

namespace EventScript

open Evaluate

/-! ## Evaluating named expressions -/

/-- Expressions are evaluated in a scope, one after the other, to values under their names. -/
inductive Evaluates (bound : Nat) (scope : ScopeRef) :
    World → List (String × Expr) → List (String × Value) → World → Prop
  | nil (w : World) : Evaluates bound scope w [] [] w
  | cons {u v w : World} {name : String} {e : Expr} {x : Value} {es : List (String × Expr)}
      {xs : List (String × Value)} (head : bounded bound (.eval e scope) u = .ok x v)
      (tail : Evaluates bound scope v es xs w) :
      Evaluates bound scope u ((name, e) :: es) ((name, x) :: xs) w

/-- The evaluation of expressions, one after the other, fails at one of them. -/
def Stops (bound : Nat) (scope : ScopeRef) (w : World) (es : List (String × Expr)) (x : Failure)
    (w' : World) : Prop :=
  ∃ before name e after xs u, es = before ++ (name, e) :: after ∧
    Evaluates bound scope w before xs u ∧ bounded bound (.eval e scope) u = .error x w'

namespace Evaluates

variable {bound : Nat} {scope : ScopeRef} {u v w : World}

theorem append {es fs : List (String × Expr)} {xs ys : List (String × Value)}
    (hes : Evaluates bound scope u es xs v) (hfs : Evaluates bound scope v fs ys w) :
    Evaluates bound scope u (es ++ fs) (xs ++ ys) w := by
  induction hes with
  | nil _ => exact hfs
  | cons head _ ih => exact .cons head (ih hfs)

/-- The values have the names of the expressions. -/
theorem names {es : List (String × Expr)} {xs : List (String × Value)}
    (h : Evaluates bound scope u es xs v) : xs.map Prod.fst = es.map Prod.fst := by
  induction h with
  | nil _ => rfl
  | cons _ _ ih => rw [List.map_cons, List.map_cons, ih]

/-- What every evaluation carries over holds behind some of them if it held before. -/
theorem carries {P : World → Prop}
    (hP : ∀ {e u v x}, bounded bound (.eval e scope) u = .ok x v → P u → P v)
    {es : List (String × Expr)} {xs : List (String × Value)} (h : Evaluates bound scope u es xs v)
    (hu : P u) : P v := by
  induction h with
  | nil _ => exact hu
  | cons head _ ih => exact ih (hP head hu)

end Evaluates

variable {bound : Nat} {scope : ScopeRef}

/-- What fails among some expressions fails among more. -/
theorem Stops.append {w w' : World} {es : List (String × Expr)} {x : Failure}
    (h : Stops bound scope w es x w') (fs : List (String × Expr)) :
    Stops bound scope w (es ++ fs) x w' := by
  obtain ⟨before, name, e, after, xs, u, rfl, hbefore, he⟩ := h
  exact ⟨before, name, e, after ++ fs, xs, u, by simp, hbefore, he⟩

/-- What fails behind some expressions fails behind these. -/
theorem Evaluates.stops {w v w' : World} {es fs : List (String × Expr)}
    {xs : List (String × Value)} {x : Failure} (hes : Evaluates bound scope w es xs v)
    (h : Stops bound scope v fs x w') : Stops bound scope w (es ++ fs) x w' := by
  obtain ⟨before, name, e, after, ys, u, rfl, hbefore, he⟩ := h
  exact ⟨es ++ before, name, e, after, xs ++ ys, u, by simp, hes.append hbefore, he⟩

variable (bound scope) in
/-- Values go into the fields under their names; if an expression fails, its failure is all that
    comes out. -/
theorem givenFields_cases (t : Table String Value) (es : List (String × Expr)) (w : World) :
    (∃ xs u, Evaluates bound scope w es xs u ∧
      givenFields (bounded bound) scope t es w = .ok (t.putAll xs) u) ∨
    ∃ x u, Stops bound scope w es x u ∧ givenFields (bounded bound) scope t es w = .error x u := by
  induction es generalizing t w with
  | nil => exact .inl ⟨[], w, .nil w, rfl⟩
  | cons field rest ih =>
    obtain ⟨name, e⟩ := field
    cases he : bounded bound (.eval e scope) w with
    | error x u =>
      exact .inr ⟨x, u, ⟨[], name, e, rest, [], w, rfl, .nil w, he⟩, Eval.run_bind_of_error he⟩
    | ok y v =>
      have hrun : givenFields (bounded bound) scope t ((name, e) :: rest) w =
          givenFields (bounded bound) scope (t.put name y) rest v := Eval.run_bind_of_ok he
      rw [hrun]
      rcases ih (t.put name y) v with ⟨xs, u, hxs, hok⟩ | ⟨x, u, hstops, herror⟩
      · exact .inl ⟨(name, y) :: xs, u, .cons he hxs, hok⟩
      · obtain ⟨before, n, d, after, ys, z, rfl, hbefore, hd⟩ := hstops
        exact .inr ⟨x, u, ⟨_, n, d, after, _, z, rfl, .cons he hbefore, hd⟩, herror⟩

/-! ## Binding methods -/

/-- A name is looked up in the scope itself where that binds it. -/
theorem Store.lookup?_own {s : Store} {q : ScopeRef} {name : String} {v : Value}
    (h : (s.scope q).bindings.get? name = some v) : s.lookup? name q = some v := by
  have hresolve : s.resolve name q = some q := by
    simp [Store.resolve, Store.resolveFrom, Table.contains, h]
  simp [Store.lookup?, hresolve, h]

/-- The value is a method that is bound to an instance: it has the parameters and the body of a
    closure, and runs in a scope of its own inside of the closure's, where `self` resolves to the
    instance. -/
structure Store.BoundTo (s : Store) (i : InstanceRef) (m : Closure) (g : FunctionRef)
    (q : ScopeRef) : Prop where
  function : s.function g = { m with scope := q }
  scope : s.scope q = ⟨Table.empty.put "self" (.inst i), some m.scope⟩

theorem Store.BoundTo.self {s : Store} {i : InstanceRef} {m : Closure} {g : FunctionRef}
    {q : ScopeRef} (h : s.BoundTo i m g q) : s.lookup? "self" q = some (.inst i) :=
  Store.lookup?_own (by rw [h.scope]; exact Table.get?_put_self _ _ _)

/-- A store comes out of another one by binding methods to an instance. -/
structure MethodsBound (i : InstanceRef) (methods : List (String × FunctionRef)) (s s' : Store) :
    Prop where
  rest : s' = { s with
    functions := s'.functions, scopes := s'.scopes, instances := s'.instances }
  functions : s.functions.Extends s'.functions
  scopes : s.scopes.Extends s'.scopes
  size : s'.instances.size = s.instances.size
  others : ∀ j, j ≠ i → s'.inst j = s.inst j
  schema : (s'.inst i).schema = (s.inst i).schema
  mutated : (s'.inst i).mutated = (s.inst i).mutated
  bound : ∀ k f, (k, f) ∈ methods → ∃ m g q, (s'.inst i).data.get? k = some (.function g) ∧
    s'.BoundTo i m g q ∧ s'.functions.Holds g ∧ s'.scopes.Holds q ∧ ¬ s.scopes.Holds q ∧
    (s.functions.Holds f → m = s.function f)
  kept : ∀ k, k ∉ methods.map Prod.fst → (s'.inst i).data.get? k = (s.inst i).data.get? k

/-- Binding methods to an instance that is there always succeeds. -/
theorem bindMethods_spec {i : InstanceRef} {methods : List (String × FunctionRef)} {v : World}
    (hnodup : (methods.map Prod.fst).Nodup) (hheld : v.store.instances.Holds i) :
    ∃ s', bindMethods i methods v = .ok () { v with store := s' } ∧
      MethodsBound i methods v.store s' := by
  induction methods generalizing v with
  | nil =>
    exact ⟨v.store, rfl, rfl, .refl _, .refl _, rfl, fun _ _ => rfl, rfl, rfl, by simp,
      fun _ _ => rfl⟩
  | cons method rest ih =>
    obtain ⟨name, f⟩ := method
    obtain ⟨hname, hnodup⟩ := List.nodup_cons.mp hnodup
    let m := v.store.function f
    let scope : Scope := ⟨Table.empty.put "self" (.inst i), some m.scope⟩
    let bound : Closure := { m with scope := v.store.scopes.next }
    let add (j : Instance) : Instance :=
      { j with data := j.data.put name (.function v.store.functions.next) }
    let s₁ : Store := { v.store with
      functions := v.store.functions.push bound
      scopes := v.store.scopes.push scope
      instances := v.store.instances.modify i add }
    have hstep : bindMethods i ((name, f) :: rest) v = bindMethods i rest { v with store := s₁ } :=
      rfl
    obtain ⟨s', hok, hrest⟩ :=
      ih (v := { v with store := s₁ }) hnodup ((Heap.holds_modify _ _ _ _).mpr hheld)
    have hi : s₁.inst i = add (v.store.inst i) := Heap.get_modify_self _ _ hheld
    have hfunctions : v.store.functions.Extends s₁.functions :=
      v.store.functions.extends_push bound
    have hscopes : v.store.scopes.Extends s₁.scopes := v.store.scopes.extends_push scope
    refine ⟨s', hstep.trans hok, hrest.rest, hfunctions.trans hrest.functions,
      hscopes.trans hrest.scopes, hrest.size.trans (by simp [s₁, Heap.size, Heap.modify]),
      fun j hj => ?_, ?_, ?_, fun k l hkl => ?_, fun k hk => ?_⟩
    · exact (hrest.others j hj).trans (Heap.get_modify_of_ne _ _ hj)
    · rw [hrest.schema, hi]
    · rw [hrest.mutated, hi]
    · rcases List.mem_cons.mp hkl with hkl | hkl
      · obtain ⟨rfl, rfl⟩ : k = name ∧ l = f := by simpa using hkl
        have hg : s₁.functions.Holds v.store.functions.next := Heap.holds_push_next _ _
        have hq : s₁.scopes.Holds v.store.scopes.next := Heap.holds_push_next _ _
        refine ⟨m, v.store.functions.next, v.store.scopes.next, ?_, ⟨?_, ?_⟩,
          hrest.functions.holds hg, hrest.scopes.holds hq, Nat.lt_irrefl _, fun _ => rfl⟩
        · rw [hrest.kept k hname, hi]
          exact Table.get?_put_self _ _ _
        · exact (hrest.functions.get_eq _ hg).trans (Heap.get_push_next _ _)
        · exact (hrest.scopes.get_eq _ hq).trans (Heap.get_push_next _ _)
      · obtain ⟨m', g, q, hdata, hbound, hg, hq, hfresh, hmethod⟩ := hrest.bound k l hkl
        refine ⟨m', g, q, hdata, hbound, hg, hq, fun h => hfresh (hscopes.holds h), fun hl => ?_⟩
        rw [hmethod (hfunctions.holds hl)]
        exact hfunctions.get_eq l hl
    · rw [List.map_cons, List.mem_cons, not_or] at hk
      rw [hrest.kept k hk.2, hi]
      exact Table.get?_put_of_ne _ _ hk.1

/-! ## What a declaration comes to -/

/-- A scope that was made stays. -/
theorem steady_scopeHeld (scope : ScopeRef) :
    Steady fun v w : World => v.store.scopes.Holds scope → w.store.scopes.Holds scope where
  same h hv := by rw [h]; exact hv
  trans huv hvw hu := hvw (huv hu)
  change {v w} h hv := by
    cases h with
    | scopeMade bindings parent => exact (v.store.scopes.extends_push _).holds hv
    | defined r name x => exact (Heap.holds_modify _ _ _ _).mpr hv
    | undefined name => exact (Heap.holds_modify _ _ _ _).mpr hv
    | instanceDeclared | importsRecorded | unsubscribed =>
      simpa only [store_withInstance, store_recordImports, store_unsubscribe] using hv
    | _ => exact hv

namespace Evaluates

variable {w u : World} {es : List (String × Expr)} {xs : List (String × Value)}

/-- The scope in which expressions are evaluated is still there behind them. -/
theorem holds (h : Evaluates bound scope w es xs u) (hheld : w.store.scopes.Holds scope) :
    u.store.scopes.Holds scope :=
  h.carries (P := fun v => v.store.scopes.Holds scope)
    (fun hok => ((Law.bounded_steady (steady_scopeHeld scope) bound).eval trivial scope).of_ok hok)
    hheld

/-- The file that is being executed is the same behind expressions as before. -/
theorem currentFile (h : Evaluates bound scope w es xs u) : u.currentFile = w.currentFile :=
  h.carries (P := fun v => v.currentFile = w.currentFile)
    (fun hok hv =>
      (((indifferent_framed.runs_bounded bound).eval trivial scope).of_ok hok).currentFile.trans hv)
    rfl

end Evaluates

theorem Table.contains_putAll {ds gs : List (String × Value)} {k : String} :
    (((Table.empty.putAll ds).putAll gs).contains k = true) ↔ k ∈ (ds ++ gs).map Prod.fst := by
  rw [← Table.putAll_append, Table.contains, Table.get?_putAll]
  have hempty : (Table.empty : Table String Value).get? k = none := rfl
  rw [hempty, Option.or_none, List.lookup_isSome_iff, List.mem_map]
  refine exists_congr fun p => ?_
  rw [List.mem_reverse, beq_iff_eq, eq_comm]

/-- The declaration of an instance makes one world of another: here `ds` are the values of the
    defaults of the schema, and `gs` those of the given fields. -/
structure Constructed (declared : Schema) (schema name : String) (scope : ScopeRef)
    (ds gs : List (String × Value)) (i : InstanceRef) (v w : World) : Prop where
  /-- The instance is a new one. -/
  new : ¬ v.store.instances.Holds i ∧ w.store.instances.Holds i
  /-- The name is bound to it, and no other name to anything else. -/
  bound : w.store.scope scope = { v.store.scope scope with
    bindings := (v.store.scope scope).bindings.put name (.inst i) }
  schema : (w.store.inst i).schema = schema
  mutated : (w.store.inst i).mutated = []
  /-- A method of the schema is bound to the instance: `self` resolves to it. -/
  methods : ∀ k f, declared.methods.get? k = some f → ∃ m g q,
    (w.store.inst i).data.get? k = some (.function g) ∧ w.store.BoundTo i m g q ∧
    w.store.lookup? "self" q = some (.inst i) ∧
    (v.store.functions.Holds f → m = v.store.function f)
  /-- Any other key has the value that was given, or else the default. -/
  fields : ∀ k, declared.methods.get? k = none →
    (w.store.inst i).data.get? k = (gs.reverse.lookup k).or (ds.reverse.lookup k)
  /-- The name is tracked once more for the file in execution, if there is one. -/
  tracked : ∀ file, w.tracked file =
    if recordedFile? v.currentFile = some file then v.tracked file ++ [name] else v.tracked file
  functions : v.store.functions.Extends w.store.functions
  instances : v.store.instances.Extends w.store.instances
  scopes : ∀ q, v.store.scopes.Holds q → q ≠ scope → w.store.scope q = v.store.scope q
  rest : w = { v with
    store := { v.store with
      functions := w.store.functions, scopes := w.store.scopes, instances := w.store.instances }
    instancesByFile := w.instancesByFile
    declarations := w.declarations }

/-- What the declaration of an instance comes to.  Whenever it fails, the world is the one that the
    evaluated expressions left behind. -/
inductive InstanceOutcome (bound : Nat) (scope : ScopeRef) (span : Span) (schema name : String)
    (fields : List (String × Expr)) (w : World) :
    EStateM.Result Failure World Completion → Prop
  | unknown (h : w.schemas.get? schema = none) :
    InstanceOutcome bound scope span schema name fields w
      (.error (.diagnostic ⟨.unknownSchema schema, some span, none⟩) w)
  | stopped {r : SchemaRef} {x : Failure} {u : World} (h : w.schemas.get? schema = some r)
      (stops : Stops bound scope w (writtenDefaults (w.store.schema r).fields ++ fields) x u) :
    InstanceOutcome bound scope span schema name fields w (.error x u)
  | missing {r : SchemaRef} {ds gs : List (String × Value)} {v u : World}
      {before after : List SchemaField} {f : SchemaField} (h : w.schemas.get? schema = some r)
      (defaults : Evaluates bound scope w (writtenDefaults (w.store.schema r).fields) ds v)
      (given : Evaluates bound scope v fields gs u)
      (split : (w.store.schema r).fields = before ++ f :: after)
      (first : ∀ g ∈ before, g.required = true → g.name ∈ (ds ++ gs).map Prod.fst)
      (required : f.required = true) (absent : f.name ∉ (ds ++ gs).map Prod.fst) :
    InstanceOutcome bound scope span schema name fields w
      (.error (.diagnostic ⟨.missingField f.name schema name, some span, none⟩) u)
  | complete {r : SchemaRef} {ds gs : List (String × Value)} {v u w' : World} {i : InstanceRef}
      (h : w.schemas.get? schema = some r)
      (defaults : Evaluates bound scope w (writtenDefaults (w.store.schema r).fields) ds v)
      (given : Evaluates bound scope v fields gs u)
      (required : ∀ f ∈ (w.store.schema r).fields, f.required = true →
        f.name ∈ (ds ++ gs).map Prod.fst)
      (file : u.currentFile = w.currentFile)
      (constructed : Constructed (w.store.schema r) schema name scope ds gs i u w') :
    InstanceOutcome bound scope span schema name fields w (.ok .normal w')

/-- Make an instance of a schema from the values of its fields, with its methods, under a name. -/
def construct (scope : ScopeRef) (schema name : String) (declared : Schema)
    (data : Table String Value) : Eval Unit := do
  let i ← Eval.newInstance ⟨schema, data, [], []⟩
  bindMethods i declared.methods.entries
  Eval.define scope name (.inst i)
  modify (withInstance scope name i)

/-- The rest of a declaration, once the values of the fields are known. -/
def finishInstance (scope : ScopeRef) (span : Span) (schema name : String) (declared : Schema)
    (data : Table String Value) : Eval Unit :=
  match declared.fields.find? fun f => f.required && !data.contains f.name with
  | some f => Eval.problem (.missingField f.name schema name) (some span)
  | none => construct scope schema name declared data

variable (scope) in
/-- A declaration evaluates the defaults of the schema, then the given fields. -/
theorem declareInstance_eq (run : Runner) (span : Span) {schema : String} (name : String)
    (fields : List (String × Expr)) {w : World} {r : SchemaRef}
    (hr : w.schemas.get? schema = some r) :
    declareInstance run scope span schema name fields w =
      (givenFields run scope .empty (writtenDefaults (w.store.schema r).fields) >>= fun data =>
        givenFields run scope data fields >>=
          finishInstance scope span schema name (w.store.schema r)) w := by
  rw [declareInstance, Eval.run_get_bind, hr, ← defaults_eq_givenFields]
  rfl

/-- Putting an instance on record is of no matter to anything but the records. -/
theorem withInstance_eq (scope : ScopeRef) (name : String) (i : InstanceRef) (w : World) :
    withInstance scope name i w = { w with
      instancesByFile := (withInstance scope name i w).instancesByFile
      declarations := (withInstance scope name i w).declarations } := by
  unfold withInstance
  split <;> rfl

theorem tracked_withInstance (scope : ScopeRef) (name : String) (i : InstanceRef) (w : World)
    (file : String) : (withInstance scope name i w).tracked file =
      if recordedFile? w.currentFile = some file then w.tracked file ++ [name]
      else w.tracked file := by
  unfold withInstance
  cases hfile : recordedFile? w.currentFile with
  | none => rfl
  | some current =>
    refine (Table.getD_pushTo _ _ _ _).trans ?_
    simp only [Option.some.injEq, eq_comm (a := file)]
    rfl

/-- Making an instance, once the values of its fields are known, always succeeds. -/
theorem construct_spec {declared : Schema} {schema name : String} {ds gs : List (String × Value)}
    {u : World} (hheld : u.store.scopes.Holds scope) :
    ∃ i w', construct scope schema name declared ((Table.empty.putAll ds).putAll gs) u = .ok () w' ∧
      Constructed declared schema name scope ds gs i u w' := by
  let made : Instance := ⟨schema, (Table.empty.putAll ds).putAll gs, [], []⟩
  let i := u.store.instances.next
  let s₁ : Store := { u.store with instances := u.store.instances.push made }
  have hext : u.store.instances.Extends s₁.instances := u.store.instances.extends_push made
  have hmade : s₁.inst i = made := Heap.get_push_next _ _
  obtain ⟨s₂, hbind, hmethods⟩ := bindMethods_spec (v := { u with store := s₁ })
    declared.methods.nodup (show s₁.instances.Holds i from Heap.holds_push_next _ _)
  let s₃ : Store := s₂.define scope name (.inst i)
  let w' : World := withInstance scope name i { u with store := s₃ }
  have hstore : w'.store = s₃ := store_withInstance _ _ _ _
  have hrun : construct scope schema name declared made.data u = .ok () w' := by
    change (bindMethods i declared.methods.entries >>= fun _ =>
      Eval.define scope name (.inst i) >>= fun _ => modify (withInstance scope name i))
        { u with store := s₁ } = _
    rw [Eval.run_bind_of_ok hbind]
    rfl
  have hscopeHeld : s₂.scopes.Holds scope := hmethods.scopes.holds hheld
  -- binding the name changes no other scope
  have hscope : ∀ q, q ≠ scope → w'.store.scope q = s₂.scope q := fun q hq => by
    rw [hstore]
    exact Heap.get_modify_of_ne _ _ hq
  have hinst : ∀ j, w'.store.inst j = s₂.inst j := fun j => by rw [hstore]; rfl
  have hdata : (s₁.inst i).data = (Table.empty.putAll ds).putAll gs := by rw [hmade]
  refine ⟨i, w', hrun, ⟨Nat.lt_irrefl _, ?_⟩, ?_, ?_, ?_, fun k f hk => ?_, fun k hk => ?_,
    tracked_withInstance _ _ _ _, ?_, ⟨?_, fun j hj => ?_⟩, fun q hq hne => ?_, ?_⟩
  · have hnext : s₁.instances.Holds i := Heap.holds_push_next _ _
    rw [hstore]
    exact Nat.lt_of_lt_of_eq hnext hmethods.size.symm
  · rw [hstore]
    refine (Heap.get_modify_self _ _ hscopeHeld).trans ?_
    rw [hmethods.scopes.get_eq scope hheld]
    rfl
  · rw [hinst, hmethods.schema]
    exact congrArg Instance.schema hmade
  · rw [hinst, hmethods.mutated]
    exact congrArg Instance.mutated hmade
  · obtain ⟨m, g, q, hget, hbound, hg, hq, hfresh, hclosure⟩ :=
      hmethods.bound k f ((Table.mem_entries_iff ..).mpr hk)
    have hne : q ≠ scope := fun h => hfresh (h ▸ hheld)
    have hbound' : w'.store.BoundTo i m g q := by
      refine ⟨?_, (hscope q hne).trans hbound.scope⟩
      rw [hstore]
      exact hbound.function
    exact ⟨m, g, q, (hinst i).symm ▸ hget, hbound', hbound'.self, hclosure⟩
  · have hnot : k ∉ declared.methods.entries.map Prod.fst := fun hmem => by
      have hcontains := (Table.contains_iff_mem_keys _ k).mpr hmem
      simp [Table.contains, hk] at hcontains
    rw [hinst, hmethods.kept k hnot, hdata, Table.get?_putAll, Table.get?_putAll]
    exact congrArg _ (Option.or_none ..)
  · rw [hstore]
    exact hmethods.functions
  · rw [hstore]
    exact Nat.le_trans hext.size_le (Nat.le_of_eq hmethods.size.symm)
  · have hne : j ≠ i := fun h => Nat.lt_irrefl _ (h ▸ hj)
    rw [hstore]
    exact (hmethods.others j hne).trans (hext.get_eq j hj)
  · rw [hscope q hne]
    exact hmethods.scopes.get_eq q hq
  · refine (withInstance_eq ..).trans ?_
    rw [hstore]
    exact congrArg (fun s : Store => { u with
      store := s, instancesByFile := w'.instancesByFile, declarations := w'.declarations })
        (congrArg (fun s : Store => { s with scopes := s₃.scopes }) hmethods.rest)

/-- Once the values are known, either a required field is missing, or the instance is made. -/
theorem finishInstance_cases (span : Span) (declared : Schema) (schema name : String)
    (ds gs : List (String × Value)) {u : World} (hheld : u.store.scopes.Holds scope) :
    (∃ before f after, declared.fields = before ++ f :: after ∧
      (∀ g ∈ before, g.required = true → g.name ∈ (ds ++ gs).map Prod.fst) ∧
      f.required = true ∧ f.name ∉ (ds ++ gs).map Prod.fst ∧
      finishInstance scope span schema name declared ((Table.empty.putAll ds).putAll gs) u =
        .error (.diagnostic ⟨.missingField f.name schema name, some span, none⟩) u) ∨
    ((∀ f ∈ declared.fields, f.required = true → f.name ∈ (ds ++ gs).map Prod.fst) ∧
      ∃ i w', finishInstance scope span schema name declared
        ((Table.empty.putAll ds).putAll gs) u = .ok () w' ∧
        Constructed declared schema name scope ds gs i u w') := by
  have hgiven : ∀ f : SchemaField,
      (!(f.required && !((Table.empty.putAll ds).putAll gs).contains f.name)) = true →
        f.required = true → f.name ∈ (ds ++ gs).map Prod.fst := by
    intro f hf hrequired
    rw [hrequired, Bool.true_and, Bool.not_not] at hf
    exact Table.contains_putAll.mp hf
  rw [finishInstance]
  cases hfind : declared.fields.find? fun f =>
      f.required && !((Table.empty.putAll ds).putAll gs).contains f.name with
  | some f =>
    obtain ⟨hf, before, after, hsplit, hbefore⟩ := List.find?_eq_some_iff_append.mp hfind
    rw [Bool.and_eq_true, Bool.not_eq_true', ← Bool.not_eq_true, Table.contains_putAll] at hf
    exact .inl ⟨before, f, after, hsplit, fun g hg => hgiven g (hbefore g hg), hf.1, hf.2, rfl⟩
  | none =>
    refine .inr ⟨fun f hf => hgiven f ?_, construct_spec hheld⟩
    rw [Bool.not_eq_true', Bool.eq_false_iff]
    exact List.find?_eq_none.mp hfind f hf

/-- Instance construction is complete or leaves nothing.  The declaration of an instance in any
    scope either ends normally with a complete instance, or fails and leaves the world as the
    evaluated expressions did. -/
theorem declareInstance_outcome {span : Span} {schema name : String}
    {fields : List (String × Expr)} {w : World} (hheld : w.store.scopes.Holds scope) :
    InstanceOutcome bound scope span schema name fields w
      (bounded (bound + 1) (.exec (.instanceOf span schema name fields) scope) w) := by
  change InstanceOutcome bound scope span schema name fields w
    ((declareInstance (bounded bound) scope span schema name fields >>= fun _ =>
      pure .normal : Eval Completion) w)
  cases hr : w.schemas.get? schema with
  | none =>
    have hunknown : declareInstance (bounded bound) scope span schema name fields w =
        .error (.diagnostic ⟨.unknownSchema schema, some span, none⟩) w := by
      rw [declareInstance, Eval.run_get_bind, hr]
      rfl
    rw [Eval.run_bind_of_error hunknown]
    exact .unknown hr
  | some r =>
    have hstart := declareInstance_eq scope (bounded bound) span name fields hr
    rcases givenFields_cases bound scope .empty (writtenDefaults (w.store.schema r).fields) w
      with ⟨ds, v, hds, hok⟩ | ⟨x, u, hstops, herror⟩
    · rw [Eval.run_bind_of_ok hok] at hstart
      rcases givenFields_cases bound scope (Table.empty.putAll ds) fields v
        with ⟨gs, u, hgs, hok'⟩ | ⟨x, u, hstops, herror⟩
      · rw [Eval.run_bind_of_ok hok'] at hstart
        rcases finishInstance_cases span (w.store.schema r) schema name ds gs
            (hgs.holds (hds.holds hheld))
          with ⟨before, f, after, hsplit, hbefore, hrequired, habsent, hmissing⟩ |
            ⟨hgiven, i, w', hmade, hconstructed⟩
        · rw [Eval.run_bind_of_error (hstart.trans hmissing)]
          exact .missing hr hds hgs hsplit hbefore hrequired habsent
        · rw [Eval.run_bind_of_ok (hstart.trans hmade)]
          exact .complete hr hds hgs hgiven (hgs.currentFile.trans hds.currentFile) hconstructed
      · rw [Eval.run_bind_of_error (hstart.trans (Eval.run_bind_of_error herror))]
        exact .stopped hr (hds.stops hstops)
    · rw [Eval.run_bind_of_error (hstart.trans (Eval.run_bind_of_error herror))]
      exact .stopped hr (hstops.append fields)

/-- A schema with a default, a field that must be given, and a method. -/
def lockSource : String :=
  "schema Lock:\n  required:\n    state: string\n  turns: number = 2\n" ++
    "  fn open():\n    return self.state\n"

/-- A session in which the schema is declared. -/
def locked : World := Session.serve (Session.start {} []) [.load lockSource "locks"]

/-- The given fields of a lock. -/
def lockFields : List (String × Expr) := [("state", .string default "shut")]

/-- A lock with its state is declared in the outermost scope, and one without it is refused. -/
theorem declareInstance_outcome_lock :
    locked.store.scopes.Holds globalScope ∧
    InstanceOutcome (runBound - 1) globalScope default "Lock" "lock" lockFields locked
      (run (.exec (.instanceOf default "Lock" "lock" lockFields) globalScope) locked) ∧
    InstanceOutcome (runBound - 1) globalScope default "Lock" "lock" [] locked
      (run (.exec (.instanceOf default "Lock" "lock" []) globalScope) locked) ∧
    (Session.perform (run (.exec (.instanceOf default "Lock" "lock" lockFields) globalScope))
      locked).1.isOk = true ∧
    (Session.perform (run (.exec (.instanceOf default "Lock" "lock" []) globalScope))
      locked).1.isOk = false := by
  have hheld : locked.store.scopes.Holds globalScope := by decide +kernel
  exact ⟨hheld, declareInstance_outcome hheld, declareInstance_outcome hheld, by decide +kernel,
    by decide +kernel⟩

end EventScript
