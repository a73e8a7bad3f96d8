import EventScript.Proofs.Globals
import EventScript.Proofs.Reload.Constant

/-! # Plans of declarative programs

What a program declares can be read off its statements as long as these only declare schemas,
handlers, and instances with written values.  A `Plan` says which schemas are registered and which
names are bound to instances of which fields; a statement changes the plan, and `Follows` says that
a world is as planned.

* `Follows.keeps`          what leaves a world as planned
* `Follows.bindSchema`     a schema is declared
* `Follows.bindInstance`   an instance is declared
-/

namespace EventScript

open Evaluate

/-! ## Plans -/

/-- What an instance is made of: the fields that are written to it, one after the other, and the
    names of its methods. -/
structure Blueprint where
  written : List (String × Expr)
  methods : List String

/-- The constant that a field has in the end, if it has one. -/
def Blueprint.constant? (b : Blueprint) (field : String) : Option Constant :=
  (b.written.reverse.lookup field).bind Expr.constant?

/-- Every field is written with a constant. -/
def Blueprint.literal (b : Blueprint) : Bool := b.written.all fun e => e.2.constant?.isSome

/-- The fields with defaults. -/
def writtenDefaults (fields : List SchemaField) : List (String × Expr) :=
  fields.filterMap fun f => f.default.map (f.name, ·)

/-- What the instances of a schema are made of before their own fields. -/
def Schema.blueprint (s : Schema) : Blueprint := ⟨writtenDefaults s.fields, s.methods.keys⟩

/-- The schemas that are registered, and the instances that global names are bound to. -/
structure Plan where
  schemas : String → Option Blueprint
  instances : String → Option Blueprint

namespace Plan

/-- The plan of a world without any planned instances. -/
def ofWorld (w : World) : Plan where
  schemas name := (w.schemas.get? name).map fun r => (w.store.schema r).blueprint
  instances _ := none

/-- The plan behind a statement. -/
def after (p : Plan) : Stmt → Plan
  | .schema _ name _ fields methods =>
    { schemas := fun n =>
        if n = name then some ⟨writtenDefaults fields, methods.map (·.name)⟩ else p.schemas n
      -- the name is bound to the schema now
      instances := fun n => if n = name then none else p.instances n }
  | .instanceOf _ schema name fields =>
    { p with instances := fun n =>
        if n = name then
          (p.schemas schema).map fun b => { b with written := b.written ++ fields }
        else p.instances n }
  | _ => p

/-- The statement only declares: a schema, a handler of an event with a written name that is not
    the one behind reloads, or an instance whose fields and defaults are constants. -/
def allows (p : Plan) : Stmt → Bool
  | .schema _ _ _ _ _ => true
  | .on _ (.string _ event) _ _ => event != reloadEvent
  | .instanceOf _ schema _ fields =>
    (p.schemas schema).all fun b => { b with written := b.written ++ fields }.literal
  | _ => false

/-- The plan behind statements. -/
def afterAll (p : Plan) (body : List Stmt) : Plan := body.foldl after p

/-- The statements only declare. -/
def allowsAll (p : Plan) : List Stmt → Bool
  | [] => true
  | s :: rest => p.allows s && (p.after s).allowsAll rest

end Plan

/-! ## Worlds as planned -/

/-- A field has a value of a constant, or there is no such field. -/
def HasField (s : Store) (t : Table String Value) (field : String) : Option Constant → Prop
  | some c => ∃ y, t.get? field = some y ∧ s.Denotes c y ∧ c.depth ≤ s.containers
  | none => t.get? field = none

/-- The table has the fields that are written, and no others. -/
def Filled (s : Store) (written : List (String × Expr)) (t : Table String Value) : Prop :=
  ∀ k, HasField s t k ((Blueprint.mk written []).constant? k)

/-- The fields of an instance are those of a blueprint. -/
structure Blueprint.Made (b : Blueprint) (s : Store) (i : Instance) : Prop where
  method : ∀ k ∈ b.methods, ∃ f, i.data.get? k = some (.function f)
  written : ∀ k, k ∉ b.methods → HasField s i.data k (b.constant? k)

/-- A schema gives its instances what a blueprint says. -/
structure Blueprint.Fits (b : Blueprint) (schema : Schema) : Prop where
  written : b.written = writtenDefaults schema.fields
  methods : ∀ k, k ∈ b.methods ↔ k ∈ schema.methods.keys

/-- A world is as planned; it was made from another one in which the names that are not planned were
    bound to no instances. -/
structure Follows (base : World) (p : Plan) (w : World) : Prop where
  grows : base.store.Grows w.store
  scope : w.store.scopes.Holds globalScope
  listeners : w.listeners = base.listeners
  handlers : w.handlers.getD reloadEvent [] = base.handlers.getD reloadEvent []
  schemas : ∀ name b, p.schemas name = some b → ∃ r, w.schemas.get? name = some r ∧
    w.store.schemas.Holds r ∧ b.Fits (w.store.schema r)
  unregistered : ∀ name, p.schemas name = none → w.schemas.get? name = none
  instances : ∀ n b, p.instances n = some b → ∃ r, w.Names n r ∧
    b.Made w.store (w.store.inst r)
  distinct : ∀ m n r, (p.instances m).isSome → (p.instances n).isSome →
    w.instanceOf? m = some r → w.instanceOf? n = some r → m = n
  others : ∀ n, p.instances n = none → base.instanceOf? n = none → w.instanceOf? n = none

/-- Everything that a plan is about is as it was; objects may have been made. -/
structure Keeps (v w : World) : Prop where
  grows : v.store.Grows w.store
  scopes : v.store.scopes.Extends w.store.scopes
  schemaObjects : v.store.schemas.Extends w.store.schemas
  instances : v.store.instances.Extends w.store.instances
  schemas : w.schemas = v.schemas
  listeners : w.listeners = v.listeners
  handlers : w.handlers.getD reloadEvent [] = v.handlers.getD reloadEvent []

/-- What leaves the objects alone keeps what a plan is about if it leaves its registries alone. -/
theorem keeps_of_store_eq {v w : World} (hstore : w.store = v.store)
    (hschemas : w.schemas = v.schemas) (hlisteners : w.listeners = v.listeners)
    (hhandlers : w.handlers.getD reloadEvent [] = v.handlers.getD reloadEvent []) : Keeps v w where
  grows := hstore ▸ .refl _
  scopes := hstore ▸ .refl _
  schemaObjects := hstore ▸ .refl _
  instances := hstore ▸ .refl _
  schemas := hschemas
  listeners := hlisteners
  handlers := hhandlers

theorem Keeps.trans {u v w : World} (huv : Keeps u v) (hvw : Keeps v w) : Keeps u w where
  grows := huv.grows.trans hvw.grows
  scopes := huv.scopes.trans hvw.scopes
  schemaObjects := huv.schemaObjects.trans hvw.schemaObjects
  instances := huv.instances.trans hvw.instances
  schemas := hvw.schemas.trans huv.schemas
  listeners := hvw.listeners.trans huv.listeners
  handlers := hvw.handlers.trans huv.handlers

theorem OnlyMade.keeps {v w : World} (h : OnlyMade v w) : Keeps v w := by
  obtain ⟨lists, maps, hlists, hmaps, rfl⟩ := h
  exact ⟨⟨hlists, hmaps⟩, .refl _, .refl _, .refl _, rfl, rfl, rfl⟩

theorem Store.Grows.containers_le {s s' : Store} (h : s.Grows s') :
    s.containers ≤ s'.containers := Nat.add_le_add h.lists.size_le h.maps.size_le

theorem HasField.mono {s s' : Store} (hgrows : s.Grows s') {t : Table String Value}
    {field : String} {c : Option Constant} (h : HasField s t field c) :
    HasField s' t field c := by
  cases c with
  | none => exact h
  | some c =>
    obtain ⟨y, hy, hdenotes, hroom⟩ := h
    exact ⟨y, hy, hdenotes.mono hgrows, Nat.le_trans hroom hgrows.containers_le⟩

theorem Filled.mono {s s' : Store} (hgrows : s.Grows s') {written : List (String × Expr)}
    {t : Table String Value} (h : Filled s written t) : Filled s' written t :=
  fun k => (h k).mono hgrows

theorem Blueprint.Made.mono {b : Blueprint} {s s' : Store} (hgrows : s.Grows s') {i : Instance}
    (h : b.Made s i) : b.Made s' i :=
  ⟨h.method, fun k hk => (h.written k hk).mono hgrows⟩

section Keeps

variable {v w : World} (h : Keeps v w) (hscope : v.store.scopes.Holds globalScope)

include h hscope

theorem Keeps.global? (name : String) : w.global? name = v.global? name := by
  have hsame : w.store.scope globalScope = v.store.scope globalScope :=
    h.scopes.get_eq globalScope hscope
  rw [World.global?, hsame, World.global?]

theorem Keeps.instanceOf? (name : String) : w.instanceOf? name = v.instanceOf? name := by
  rw [World.instanceOf?, h.global? hscope, World.instanceOf?]

theorem Keeps.names {name : String} {r : InstanceRef} (hr : v.Names name r) : w.Names name r :=
  ⟨(h.instanceOf? hscope name).trans hr.1, h.instances.holds hr.2⟩

end Keeps

/-- Making objects leaves a world as planned. -/
theorem Follows.keeps {base v w : World} {p : Plan} (hv : Follows base p v) (h : Keeps v w) :
    Follows base p w where
  grows := hv.grows.trans h.grows
  scope := h.scopes.holds hv.scope
  listeners := h.listeners.trans hv.listeners
  handlers := h.handlers.trans hv.handlers
  schemas name b hb := by
    obtain ⟨r, hr, hheld, hfits⟩ := hv.schemas name b hb
    refine ⟨r, h.schemas ▸ hr, h.schemaObjects.holds hheld, ?_⟩
    have hsame : w.store.schema r = v.store.schema r := h.schemaObjects.get_eq r hheld
    exact hsame ▸ hfits
  unregistered name hname := h.schemas ▸ hv.unregistered name hname
  instances n b hb := by
    obtain ⟨r, hr, hmade⟩ := hv.instances n b hb
    refine ⟨r, h.names hv.scope hr, ?_⟩
    have hsame : w.store.inst r = v.store.inst r := h.instances.get_eq r hr.2
    exact hsame ▸ hmade.mono h.grows
  distinct m n r hm hn hmr hnr := by
    rw [h.instanceOf? hv.scope] at hmr hnr
    exact hv.distinct m n r hm hn hmr hnr
  others n hn hbase := (h.instanceOf? hv.scope n).trans (hv.others n hn hbase)

theorem Store.grows_define (s : Store) (r : ScopeRef) (name : String) (v : Value) :
    s.Grows (s.define r name v) := ⟨.refl _, .refl _⟩

/-- Registering a schema and binding its name to it goes by the plan. -/
theorem Follows.bindSchema {base v : World} {p : Plan} (hv : Follows base p v) {r : SchemaRef}
    (hheld : v.store.schemas.Holds r) {b : Blueprint} (hfits : b.Fits (v.store.schema r))
    (name : String) :
    Follows base
      { schemas := fun n => if n = name then some b else p.schemas n
        instances := fun n => if n = name then none else p.instances n }
      (({ v with schemas := v.schemas.put name r } : World).bind name (.schema r)) := by
  let w : World := { v with schemas := v.schemas.put name r }
  have hself : (w.bind name (.schema r)).instanceOf? name = none := by
    rw [World.instanceOf?, World.global?_bind_self (w := w) hv.scope]
  have hother : ∀ {n}, n ≠ name → (w.bind name (.schema r)).instanceOf? n = v.instanceOf? n :=
    fun h => World.instanceOf?_bind_of_ne w _ h
  refine ⟨⟨hv.grows.lists, hv.grows.maps⟩, (Heap.holds_modify _ _ _ _).mpr hv.scope,
    hv.listeners, hv.handlers, ?_, ?_, ?_, ?_, ?_⟩
  · intro n b' hb'
    by_cases hn : n = name
    · subst hn
      obtain rfl : b = b' := by simpa using hb'
      exact ⟨r, Table.get?_put_self _ _ _, hheld, hfits⟩
    · obtain ⟨q, hq, hrest⟩ := hv.schemas n b' (by simpa [hn] using hb')
      exact ⟨q, (Table.get?_put_of_ne _ _ hn).trans hq, hrest⟩
  · intro n hn
    have hne : n ≠ name := fun h => by simp [h] at hn
    exact (Table.get?_put_of_ne _ _ hne).trans (hv.unregistered n (by simpa [hne] using hn))
  · intro n b' hb'
    have hne : n ≠ name := fun h => by simp [h] at hb'
    obtain ⟨q, hq, hmade⟩ := hv.instances n b' (by simpa [hne] using hb')
    exact ⟨q, ⟨(hother hne).trans hq.1, hq.2⟩, hmade.mono (v.store.grows_define _ _ _)⟩
  · intro m n q hm hn hmq hnq
    have hmne : m ≠ name := fun h => by simp [h] at hm
    have hnne : n ≠ name := fun h => by simp [h] at hn
    exact hv.distinct m n q (by simpa [hmne] using hm) (by simpa [hnne] using hn)
      ((hother hmne).symm.trans hmq) ((hother hnne).symm.trans hnq)
  · intro n hn hbase
    by_cases hne : n = name
    · subst hne
      exact hself
    · exact (hother hne).trans (hv.others n (by simpa [hne] using hn) hbase)

/-- Binding a name to an instance that was just made goes by the plan. -/
theorem Follows.bindInstance {base v w : World} {p : Plan} (hv : Follows base p v)
    (h : Keeps v w) {r : InstanceRef} (hheld : w.store.instances.Holds r)
    (hnew : ¬ v.store.instances.Holds r) {b : Blueprint} (hmade : b.Made w.store (w.store.inst r))
    (name : String) :
    Follows base { p with instances := fun n => if n = name then some b else p.instances n }
      (w.bind name (.inst r)) := by
  have hw := hv.keeps h
  have hself : (w.bind name (.inst r)).instanceOf? name = some r :=
    World.instanceOf?_bind_self hw.scope name r
  have hother : ∀ {n}, n ≠ name → (w.bind name (.inst r)).instanceOf? n = w.instanceOf? n :=
    fun h => World.instanceOf?_bind_of_ne w _ h
  -- no name that was planned before is bound to the new instance
  have hunnamed : ∀ n, (p.instances n).isSome → w.instanceOf? n ≠ some r := by
    intro n hn hr
    obtain ⟨b', hb'⟩ := Option.isSome_iff_exists.mp hn
    obtain ⟨q, hq, -⟩ := hv.instances n b' hb'
    obtain rfl : r = q := Option.some.inj (hr.symm.trans (h.names hv.scope hq).1)
    exact hnew hq.2
  refine ⟨⟨hw.grows.lists, hw.grows.maps⟩, (Heap.holds_modify _ _ _ _).mpr hw.scope,
    hw.listeners, hw.handlers, hw.schemas, hw.unregistered, ?_, ?_, ?_⟩
  · intro n b' hb'
    by_cases hn : n = name
    · subst hn
      obtain rfl : b = b' := by simpa using hb'
      exact ⟨r, ⟨hself, hheld⟩, hmade.mono (w.store.grows_define _ _ _)⟩
    · obtain ⟨q, hq, hmade'⟩ := hw.instances n b' (by simpa [hn] using hb')
      exact ⟨q, ⟨(hother hn).trans hq.1, hq.2⟩, hmade'.mono (w.store.grows_define _ _ _)⟩
  · intro m n q hm hn hmq hnq
    by_cases hmne : m = name
    · by_cases hnne : n = name
      · exact hmne.trans hnne.symm
      · rw [hmne, hself] at hmq
        exact absurd ((hother hnne).symm.trans (hnq.trans hmq.symm))
          (hunnamed n (by simpa [hnne] using hn))
    · by_cases hnne : n = name
      · rw [hnne, hself] at hnq
        exact absurd ((hother hmne).symm.trans (hmq.trans hnq.symm))
          (hunnamed m (by simpa [hmne] using hm))
      · exact hw.distinct m n q (by simpa [hmne] using hm) (by simpa [hnne] using hn)
          ((hother hmne).symm.trans hmq) ((hother hnne).symm.trans hnq)
  · intro n hn hbase
    have hne : n ≠ name := fun h => by simp [h] at hn
    exact (hother hne).trans (hw.others n (by simpa [hne] using hn) hbase)

end EventScript
