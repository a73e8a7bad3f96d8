import EventScript.Proofs.Reload.Plan

/-! # Executing declarative programs

A program that only declares goes by its plan: whoever executes it, behind it the names are bound to
instances whose fields are the constants that the program writes out.

* `declareInstance_follows`, `declareSchema_follows`   single declarations
* `exec_follows`                                       single statements
* `execute_follows`                                    programs
-/

namespace EventScript

open Evaluate

/-! ## Schemas -/

theorem declareMethods_eq_ok {scope : ScopeRef} {methods : List FunctionDecl}
    {t t' : Table String FunctionRef} {v w : World}
    (hok : declareMethods scope t methods v = .ok t' w) :
    (∃ functions, w = { v with store := { v.store with functions := functions } }) ∧
      ∀ k, k ∈ t'.keys ↔ k ∈ t.keys ∨ k ∈ methods.map (·.name) := by
  induction methods generalizing t v with
  | nil =>
    obtain ⟨rfl, rfl⟩ := Eval.pure_eq_ok hok
    exact ⟨⟨_, rfl⟩, by simp⟩
  | cons m rest ih =>
    obtain ⟨f, v₁, hnew, hrest⟩ := Eval.bind_eq_ok hok
    cases hnew
    obtain ⟨⟨functions, hw⟩, hkeys⟩ := ih hrest
    refine ⟨⟨functions, hw⟩, fun k => ?_⟩
    rw [hkeys, Table.mem_keys_put, List.map_cons, List.mem_cons, or_assoc]

theorem declareSchema_follows {base v w : World} {p : Plan} (hv : Follows base p v)
    {name : String} {parent : Option String} {fields : List SchemaField}
    {methods : List FunctionDecl}
    (hok : declareSchema globalScope name parent fields methods v = .ok () w) (span : Span) :
    Follows base (p.after (.schema span name parent fields methods)) w := by
  obtain ⟨t, v₁, hmethods, hrest⟩ := Eval.bind_eq_ok hok
  obtain ⟨⟨functions, rfl⟩, hkeys⟩ := declareMethods_eq_ok hmethods
  let schema : Schema := ⟨name, parent, fields, t⟩
  let v₂ : World := { v with store :=
    { v.store with functions := functions, schemas := v.store.schemas.push schema } }
  have hkeeps : Keeps v v₂ := ⟨⟨.refl _, .refl _⟩, .refl _, v.store.schemas.extends_push schema,
    .refl _, rfl, rfl, rfl⟩
  have hschema : v₂.store.schema v.store.schemas.next = schema := Heap.get_push_next _ _
  have hfits : (Blueprint.mk (writtenDefaults fields) (methods.map (·.name))).Fits
      (v₂.store.schema v.store.schemas.next) := by
    have hempty : (Table.empty : Table String FunctionRef).keys = [] := rfl
    rw [hschema]
    exact ⟨rfl, fun k => by rw [hkeys, hempty]; simp⟩
  have hbound := (hv.keeps hkeeps).bindSchema (Heap.holds_push_next _ _) hfits name
  cases hrest
  exact hbound

/-! ## Instances -/

theorem defaults_eq_givenFields (run : Runner) (scope : ScopeRef) (t : Table String Value)
    (fields : List SchemaField) :
    defaults run scope t fields = givenFields run scope t (writtenDefaults fields) := by
  induction fields generalizing t with
  | nil => rfl
  | cons f rest ih =>
    rw [defaults]
    cases hd : f.default with
    | none =>
      have hwritten : writtenDefaults (f :: rest) = writtenDefaults rest := by
        simp [writtenDefaults, hd]
      rw [hwritten, ih]
    | some e =>
      have hwritten : writtenDefaults (f :: rest) = (f.name, e) :: writtenDefaults rest := by
        simp [writtenDefaults, hd]
      rw [hwritten, givenFields]
      simp only [ih]

/-- One more field that is written. -/
theorem Filled.put {s : Store} {written : List (String × Expr)} {t : Table String Value}
    (h : Filled s written t) {name : String} {e : Expr} {c : Constant} {y : Value}
    (hc : e.constant? = some c) (hy : s.Denotes c y) (hroom : c.depth ≤ s.containers) :
    Filled s (written ++ [(name, e)]) (t.put name y) := by
  intro k
  by_cases hk : k = name
  · subst hk
    have hconstant : (Blueprint.mk (written ++ [(k, e)]) []).constant? k = some c := by
      simp [Blueprint.constant?, hc]
    rw [hconstant]
    exact ⟨y, Table.get?_put_self _ _ _, hy, hroom⟩
  · have hk' : (k == name) = false := by simpa using hk
    have hconstant : (Blueprint.mk (written ++ [(name, e)]) []).constant? k =
        (Blueprint.mk written []).constant? k := by
      simp [Blueprint.constant?, List.lookup_cons, hk']
    have hget : (t.put name y).get? k = t.get? k := Table.get?_put_of_ne _ _ hk
    have hold := h k
    rw [hconstant]
    cases hc' : (Blueprint.mk written []).constant? k with
    | none => rw [hc'] at hold; exact hget.trans hold
    | some d =>
      rw [hc'] at hold
      obtain ⟨x, hx, hrest⟩ := hold
      exact ⟨x, hget.trans hx, hrest⟩

theorem givenFields_eq_ok {bound : Nat} {scope : ScopeRef} {before fields : List (String × Expr)}
    {t t' : Table String Value} {v w : World}
    (hliteral : (Blueprint.mk fields []).literal = true) (ht : Filled v.store before t)
    (hok : givenFields (bounded bound) scope t fields v = .ok t' w) :
    OnlyMade v w ∧ Filled w.store (before ++ fields) t' := by
  induction fields generalizing before t v with
  | nil =>
    obtain ⟨rfl, rfl⟩ := Eval.pure_eq_ok hok
    exact ⟨.refl _, by simpa using ht⟩
  | cons field rest ih =>
    obtain ⟨name, e⟩ := field
    simp only [Blueprint.literal, List.all_cons, Bool.and_eq_true] at hliteral ih
    obtain ⟨c, hc⟩ := Option.isSome_iff_exists.mp hliteral.1
    obtain ⟨y, v₁, hy, hrest⟩ := Eval.bind_eq_ok hok
    obtain ⟨hmade, hdenotes, hroom⟩ := eval_constant hc hy
    have hfilled : Filled v₁.store (before ++ [(name, e)]) (t.put name y) :=
      (ht.mono hmade.grows).put hc hdenotes (by omega)
    obtain ⟨hmade', hfilled'⟩ := ih hliteral.2 hfilled hrest
    exact ⟨hmade.trans hmade', by simpa using hfilled'⟩

/-- Methods are bound to an instance that is there: its other fields stay, and so does every other
    instance. -/
theorem bindMethods_eq_ok {r : InstanceRef} {methods : List (String × FunctionRef)} {v w : World}
    (hheld : v.store.instances.Holds r) (hok : bindMethods r methods v = .ok () w) :
    ∃ functions scopes instances,
      w = { v with store :=
        { v.store with functions := functions, scopes := scopes, instances := instances } } ∧
      v.store.scopes.Extends scopes ∧ instances.size = v.store.instances.size ∧
      (∀ q, q ≠ r → instances.get q = v.store.inst q) ∧
      (∀ k ∈ methods.map Prod.fst, ∃ f, (instances.get r).data.get? k = some (.function f)) ∧
      (∀ k, k ∉ methods.map Prod.fst →
        (instances.get r).data.get? k = (v.store.inst r).data.get? k) := by
  induction methods generalizing v with
  | nil =>
    obtain ⟨-, rfl⟩ := Eval.pure_eq_ok hok
    exact ⟨_, _, _, rfl, .refl _, rfl, fun _ _ => rfl, by simp, fun _ _ => rfl⟩
  | cons m rest ih =>
    obtain ⟨name, f⟩ := m
    let method := v.store.function f
    let scope : Scope := ⟨Table.empty.put "self" (.inst r), some method.scope⟩
    let bound : Closure := { method with scope := v.store.scopes.next }
    let add (i : Instance) : Instance :=
      { i with data := i.data.put name (.function v.store.functions.next) }
    let v₁ : World := { v with store :=
      { v.store with
        functions := v.store.functions.push bound
        scopes := v.store.scopes.push scope
        instances := v.store.instances.modify r add } }
    have hheld' : v₁.store.instances.Holds r := (Heap.holds_modify _ _ _ _).mpr hheld
    obtain ⟨functions, scopes, instances, hw, hscopes, hsize, hothers, hbound, hkept⟩ :=
      ih hheld' hok
    have hr : v₁.store.inst r = add (v.store.inst r) := Heap.get_modify_self _ _ hheld
    refine ⟨functions, scopes, instances, hw, (v.store.scopes.extends_push scope).trans hscopes,
      hsize.trans (by simp [v₁, Heap.size, Heap.modify]), fun q hq => ?_, fun k hk => ?_,
      fun k hk => ?_⟩
    · exact (hothers q hq).trans (Heap.get_modify_of_ne _ _ hq)
    · by_cases hrest : k ∈ rest.map Prod.fst
      · exact hbound k hrest
      · obtain rfl : k = name := by simpa [hrest] using hk
        refine ⟨v.store.functions.next, ?_⟩
        rw [hkept k hrest, hr]
        exact Table.get?_put_self _ _ _
    · rw [List.map_cons, List.mem_cons, not_or] at hk
      rw [hkept k hk.2, hr]
      exact Table.get?_put_of_ne _ _ hk.1

/-- Making an instance with its methods keeps everything a plan is about, and the instance is what
    its blueprint says. -/
theorem newInstance_made {schema : String} {declared : Schema} {b : Blueprint}
    (hfits : b.Fits declared) {fields : List (String × Expr)} {data : Table String Value}
    {v w : World} (hdata : Filled v.store (b.written ++ fields) data)
    (hok : bindMethods v.store.instances.next declared.methods.entries
      { v with store :=
        { v.store with instances := v.store.instances.push ⟨schema, data, [], []⟩ } } = .ok () w) :
    Keeps v w ∧ w.store.instances.Holds v.store.instances.next ∧
      ({ b with written := b.written ++ fields } : Blueprint).Made w.store
        (w.store.inst v.store.instances.next) := by
  have hext := v.store.instances.extends_push ⟨schema, data, [], []⟩
  obtain ⟨functions, scopes, instances, rfl, hscopes, hsize, hothers, hbound, hkept⟩ :=
    bindMethods_eq_ok (Heap.holds_push_next _ _) hok
  have hnew : (v.store.instances.push ⟨schema, data, [], []⟩).get v.store.instances.next =
      ⟨schema, data, [], []⟩ := Heap.get_push_next _ _
  have hinstances : v.store.instances.Extends instances := by
    refine ⟨Nat.le_trans hext.size_le (Nat.le_of_eq hsize.symm), fun q hq => ?_⟩
    have hne : q ≠ v.store.instances.next := fun h => Nat.lt_irrefl _ (h ▸ hq)
    exact (hothers q hne).trans (hext.get_eq q hq)
  refine ⟨⟨⟨.refl _, .refl _⟩, hscopes, .refl _, hinstances, rfl, rfl, rfl⟩, ?_, ?_, ?_⟩
  · have hheld : (v.store.instances.push ⟨schema, data, [], []⟩).Holds v.store.instances.next :=
      Heap.holds_push_next _ _
    exact Nat.lt_of_lt_of_eq hheld hsize.symm
  · intro k hk
    exact hbound k ((hfits.methods k).mp hk)
  · intro k hk
    have hget : (instances.get v.store.instances.next).data.get? k = data.get? k := by
      rw [hkept k fun h => hk ((hfits.methods k).mpr h)]
      exact congrArg (fun i : Instance => i.data.get? k) hnew
    have hfield := (hdata k).mono
      (show v.store.Grows { v.store with
        functions := functions, scopes := scopes, instances := instances } from
        ⟨.refl _, .refl _⟩)
    change HasField _ _ k ((Blueprint.mk (b.written ++ fields) []).constant? k)
    cases hc : (Blueprint.mk (b.written ++ fields) []).constant? k with
    | none => rw [hc] at hfield; exact hget.trans hfield
    | some c =>
      rw [hc] at hfield
      obtain ⟨y, hy, hrest⟩ := hfield
      exact ⟨y, hget.trans hy, hrest⟩

theorem keeps_withInstance (scope : ScopeRef) (name : String) (r : InstanceRef) (w : World) :
    Keeps w (withInstance scope name r w) := by
  unfold withInstance
  split <;> exact keeps_of_store_eq rfl rfl rfl rfl

/-- Declaring an instance of constants goes by the plan. -/
theorem declareInstance_follows {bound : Nat} {base v w : World} {p : Plan}
    (hv : Follows base p v) {span : Span} {schema name : String} {fields : List (String × Expr)}
    (hallows : p.allows (.instanceOf span schema name fields) = true)
    (hok : declareInstance (bounded bound) globalScope span schema name fields v = .ok () w) :
    Follows base (p.after (.instanceOf span schema name fields)) w := by
  obtain ⟨_, _, hget, hrest⟩ := Eval.bind_eq_ok hok
  cases hget
  cases hr : v.schemas.get? schema with
  | none =>
    simp only [hr] at hrest
    cases hrest
  | some r =>
    simp only [hr] at hrest
    cases hb : p.schemas schema with
    | none => simp [hv.unregistered schema hb] at hr
    | some b =>
      obtain ⟨q, hq, hheld, hfits⟩ := hv.schemas schema b hb
      obtain rfl : r = q := Option.some.inj (hr.symm.trans hq)
      have hliteral : (Blueprint.mk b.written []).literal = true ∧
          (Blueprint.mk fields []).literal = true := by
        simpa [Plan.allows, hb, Blueprint.literal] using hallows
      obtain ⟨declared, _, hread, hrest⟩ := Eval.bind_eq_ok hrest
      cases hread
      obtain ⟨data, v₁, hdefaults, hrest⟩ := Eval.bind_eq_ok hrest
      obtain ⟨data', v₂, hgiven, hrest⟩ := Eval.bind_eq_ok hrest
      generalize List.find? _ _ = missing at hrest
      cases missing with
      | some f => cases hrest
      | none =>
        obtain ⟨i, v₃, hnew, hrest⟩ := Eval.bind_eq_ok hrest
        cases hnew
        obtain ⟨_, v₄, hmethods, hrest⟩ := Eval.bind_eq_ok hrest
        obtain ⟨_, v₅, hdefine, hrest⟩ := Eval.bind_eq_ok hrest
        cases hdefine
        rw [defaults_eq_givenFields] at hdefaults
        have hempty : Filled v.store [] Table.empty := fun k => rfl
        obtain ⟨hmade, hfilled⟩ :=
          givenFields_eq_ok (hfits.written ▸ hliteral.1) hempty hdefaults
        obtain ⟨hmade', hfilled'⟩ := givenFields_eq_ok hliteral.2 hfilled hgiven
        rw [List.nil_append, ← hfits.written] at hfilled'
        obtain ⟨hkeeps, hheld', hinstance⟩ := newInstance_made hfits hfilled' hmethods
        have hbefore : Keeps v v₂ := (hmade.trans hmade').keeps
        have hbound := (hv.keeps hbefore).bindInstance hkeeps hheld' (Nat.lt_irrefl _) hinstance
          name
        cases hrest
        have hplan : p.after (.instanceOf span schema name fields) =
            { p with instances := fun n =>
                if n = name then some { b with written := b.written ++ fields }
                else p.instances n } := by
          simp [Plan.after, hb]
        rw [hplan]
        exact hbound.keeps (keeps_withInstance _ name _ _)

/-! ## Programs -/

/-- A handler of another event is of no matter to a plan. -/
theorem keeps_withHandler {event : String} (hevent : event ≠ reloadEvent)
    (condition : Option Expr) (body : Block) (scope : ScopeRef) (w : World) :
    Keeps w (withHandler event condition body scope w) :=
  keeps_of_store_eq rfl rfl rfl (Table.getD_put_of_ne _ _ _ hevent.symm)

/-- A statement that only declares finishes normally and goes by the plan. -/
theorem exec_follows {bound : Nat} {base v w : World} {p : Plan} (hv : Follows base p v)
    {s : Stmt} (hallows : p.allows s = true) {c : Completion}
    (hok : bounded bound (.exec s globalScope) v = .ok c w) :
    c = .normal ∧ Follows base (p.after s) w := by
  cases bound with
  | zero => cases hok
  | succ bound =>
    change statement (bounded bound) globalScope s v = .ok c w at hok
    cases s with
    | schema span name parent fields methods =>
      obtain ⟨_, v₁, hdeclare, hrest⟩ := Eval.bind_eq_ok hok
      obtain ⟨rfl, rfl⟩ := Eval.pure_eq_ok hrest
      exact ⟨rfl, declareSchema_follows hv hdeclare span⟩
    | instanceOf span schema name fields =>
      obtain ⟨_, v₁, hdeclare, hrest⟩ := Eval.bind_eq_ok hok
      obtain ⟨rfl, rfl⟩ := Eval.pure_eq_ok hrest
      exact ⟨rfl, declareInstance_follows hv hallows hdeclare⟩
    | on span event condition body =>
      obtain ⟨name, v₁, hname, hrest⟩ := Eval.bind_eq_ok hok
      obtain ⟨_, v₂, hregister, hrest⟩ := Eval.bind_eq_ok hrest
      obtain ⟨rfl, rfl⟩ := Eval.pure_eq_ok hrest
      cases hregister
      cases event with
      | string span' written =>
        obtain ⟨y, v₃, heval, hrest⟩ := Eval.bind_eq_ok hname
        obtain ⟨hmade, hvalue, -⟩ := eval_constant (c := .text written) rfl heval
        obtain rfl : y = .text written := hvalue
        obtain ⟨rfl, rfl⟩ := Eval.pure_eq_ok hrest
        have hevent : name ≠ reloadEvent := by simpa [Plan.allows] using hallows
        exact ⟨rfl, (hv.keeps hmade.keeps).keeps (keeps_withHandler hevent _ _ _ _)⟩
      | _ => simp [Plan.allows] at hallows
    | _ => simp [Plan.allows] at hallows

theorem topLevel_follows {bound : Nat} {base v w : World} {p : Plan} (hv : Follows base p v)
    {body : List Stmt} (hallows : p.allowsAll body = true)
    (hok : topLevel (bounded bound) body v = .ok () w) : Follows base (p.afterAll body) w := by
  induction body generalizing p v with
  | nil =>
    obtain ⟨-, rfl⟩ := Eval.pure_eq_ok hok
    exact hv
  | cons s rest ih =>
    rw [Plan.allowsAll, Bool.and_eq_true] at hallows
    obtain ⟨c, v₁, hexec, hrest⟩ := Eval.bind_eq_ok hok
    obtain ⟨rfl, hv₁⟩ := exec_follows hv hallows.1 hexec
    exact ih hv₁ hallows.2 hrest

/-- A program that only declares goes by its plan. -/
theorem execute_follows {bound : Nat} {base v w : World} {p : Plan} (hv : Follows base p v)
    {program : Program} (hallows : p.allowsAll program.body = true) {file : Option String}
    (hok : execute (bounded bound) program file v = .ok () w) :
    Follows base (p.afterAll program.body) w := by
  let begun : World := recordImports program file { v with currentFile := file }
  have hbegun : Keeps v begun := by
    have hstart : Keeps v { v with currentFile := file } := keeps_of_store_eq rfl rfl rfl rfl
    refine hstart.trans ?_
    unfold begun recordImports
    split <;> exact keeps_of_store_eq rfl rfl rfl rfl
  obtain ⟨u, hrun, rfl⟩ := execute_eq_ok hok
  exact (topLevel_follows (hv.keeps hbegun) hallows hrun).keeps
    (keeps_of_store_eq rfl rfl rfl rfl)

end EventScript
