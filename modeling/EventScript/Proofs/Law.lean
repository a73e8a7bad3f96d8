import EventScript.Proofs.Names

/-! # Laws of runs

Everything that a program can do to a world is a chain of the single changes listed in `Change`,
apart from what is put back at the end of a piece of work (the file in execution, the number of
calls in progress) and from the dispatch of events.  A `Law` relates the world before a computation
to the world behind it, holds for every single change, and carries over the three constructions; a
computation that goes by the law is said to obey it.

* `Change.registry`  what a single change does to the registry of handlers
* `obeyed_bind`      computations that obey a law do so one after the other
* `obeyed_modify`    a single change obeys every law
-/

namespace EventScript

open Evaluate

/-- A single change of a world. -/
inductive Change (w : World) : World → Prop
  | listMade (items : Array Value) :
    Change w { w with store := { w.store with lists := w.store.lists.push items } }
  | listModified (r : ListRef) (f : Array Value → Array Value) :
    Change w { w with store := { w.store with lists := w.store.lists.modify r f } }
  | mapMade (entries : Table Key Value) :
    Change w { w with store := { w.store with maps := w.store.maps.push entries } }
  | entryPut (r : MapRef) (k : Key) (v : Value) :
    Change w { w with store :=
      { w.store with maps := w.store.maps.modify r fun t => t.put k v } }
  | functionMade (f : Closure) :
    Change w { w with store := { w.store with functions := w.store.functions.push f } }
  | schemaMade (schema : Schema) :
    Change w { w with store := { w.store with schemas := w.store.schemas.push schema } }
  | nativeMade (n : MadeNative) :
    Change w { w with store := { w.store with natives := w.store.natives.push n } }
  | listenerMade (listener : Listener) :
    Change w { w with store := { w.store with listeners := w.store.listeners.push listener } }
  | scopeMade (bindings : Table String Value) (parent : Option ScopeRef) :
    Change w { w with store := { w.store with scopes := w.store.scopes.push ⟨bindings, parent⟩ } }
  | instanceMade (schema : String) (data : Table String Value) :
    Change w { w with store :=
      { w.store with instances := w.store.instances.push ⟨schema, data, [], []⟩ } }
  | fieldAssigned (r : InstanceRef) (name : String) (v : Value) :
    Change w { w with store :=
      { w.store with instances := w.store.instances.modify r (·.assign name v) } }
  | methodBound (r : InstanceRef) (name : String) (f : FunctionRef) :
    Change w { w with store :=
      { w.store with instances := w.store.instances.modify r fun i =>
          { i with data := i.data.put name (.function f) } } }
  | fieldsRestored (r : InstanceRef) (kept : Kept) :
    Change w { w with store :=
      { w.store with instances := w.store.instances.modify r kept.restore } }
  | defined (r : ScopeRef) (name : String) (v : Value) :
    Change w { w with store := w.store.define r name v }
  | undefined (name : String) :
    Change w { w with store := w.store.undefine globalScope name }
  | marked : Change w { w with store := { w.store with nextMark := w.store.nextMark + 1 } }
  | drawn (g : Generator) : Change w { w with generator := g }
  | printed (text : String) : Change w { w with output := text }
  | noted (n : Note) : Change w { w with journal := n :: w.journal }
  | schemaDeclared (name : String) (r : SchemaRef) (hr : w.store.schemas.Holds r) :
    Change w { w with schemas := w.schemas.put name r }
  | handlerRegistered (event : String) (condition : Option Expr) (body : Block)
      (scope : ScopeRef) : Change w (withHandler event condition body scope w)
  | instanceDeclared (scope : ScopeRef) (name : String) (r : InstanceRef) :
    Change w (withInstance scope name r w)
  | importsRecorded (program : Program) (file : Option String) :
    Change w (recordImports program file w)
  | sourceKept (file source : String) : Change w (withSource file source w)
  | subscribed (event : String) (r : ListenerRef) :
    Change w { w with listeners := w.listeners.pushTo event r }
  | unsubscribed (event : String) (r : ListenerRef) : Change w (unsubscribe event r w)
  | handlersDropped (file : String) : Change w (dropHandlers file w)
  | instancesDropped (file : String) : Change w (dropInstances file w)

/-- Two worlds are at the same point of a run: the file in execution, the calls in progress and
    everything about events agree. -/
structure SameMoment (v w : World) : Prop where
  currentFile : w.currentFile = v.currentFile
  callDepth : w.callDepth = v.callDepth
  queue : w.queue = v.queue
  processing : w.processing = v.processing
  history : w.history = v.history

/-- A single change is made at one point of a run. -/
theorem Change.sameMoment {v w : World} (h : Change v w) : SameMoment v w := by
  cases h with
  | instanceDeclared scope name r =>
    unfold withInstance
    split <;> exact ⟨rfl, rfl, rfl, rfl, rfl⟩
  | importsRecorded program file =>
    unfold recordImports
    split <;> exact ⟨rfl, rfl, rfl, rfl, rfl⟩
  | unsubscribed event r =>
    unfold unsubscribe
    split <;> exact ⟨rfl, rfl, rfl, rfl, rfl⟩
  | _ => exact ⟨rfl, rfl, rfl, rfl, rfl⟩

/-- Two worlds have the same registry of handlers, and it came about in the same way. -/
structure SameRegistry (v w : World) : Prop where
  handlers : w.handlers = v.handlers
  handlersByFile : w.handlersByFile = v.handlersByFile
  nextSerial : w.nextSerial = v.nextSerial
  ledger : w.ledger = v.ledger

/-- A single change registers a handler, drops the handlers of a file, or leaves the registry as it
    is. -/
theorem Change.registry {v w : World} (h : Change v w) :
    (∃ event condition body scope, w = withHandler event condition body scope v) ∨
      (∃ file, w = dropHandlers file v) ∨ SameRegistry v w := by
  cases h with
  | handlerRegistered event condition body scope =>
    exact .inl ⟨event, condition, body, scope, rfl⟩
  | handlersDropped file => exact .inr (.inl ⟨file, rfl⟩)
  | instanceDeclared scope name r =>
    unfold withInstance
    split <;> exact .inr (.inr ⟨rfl, rfl, rfl, rfl⟩)
  | importsRecorded program file =>
    unfold recordImports
    split <;> exact .inr (.inr ⟨rfl, rfl, rfl, rfl⟩)
  | unsubscribed event r =>
    unfold unsubscribe
    split <;> exact .inr (.inr ⟨rfl, rfl, rfl, rfl⟩)
  | _ => exact .inr (.inr ⟨rfl, rfl, rfl, rfl⟩)

/-- Relations between the world before a computation and the world behind it, that hold of single
    changes and carry over to whatever is made of computations.  A law may ask for code of some
    kind, and then it says nothing about worlds that keep other code; and it may forbid that some
    names are added to some scopes, and then it says nothing about worlds in which the next scope is
    one of those. -/
structure Law where
  /-- The code that may run. -/
  code : Node → Prop := fun _ => True
  /-- The names that may be added to a scope. -/
  adds : ScopeRef → String → Prop := fun _ _ => True
  /-- What holds behind a computation that succeeds. -/
  done : World → World → Prop
  /-- What holds behind a computation that fails. -/
  failed : Failure → World → World → Prop
  /-- What holds behind a queue that was dispatched to the end. -/
  drained : World → World → Prop
  /-- What holds behind a dispatch that failed. -/
  cut : Failure → World → World → Prop
  refl : ∀ w, done w w
  trans : ∀ {u v w}, done u v → done v w → done u w
  failed_of_done : ∀ {e v w}, e ≠ .outOfFuel → done v w → failed e v w
  trans_failed : ∀ {e u v w}, done u v → failed e v w → failed e u w
  reported : ∀ {f d v w}, failed (.fault f) v w → failed (.diagnostic d) v w
  change : ∀ {v w}, Change v w → (v.CodeIn code → w.CodeIn code) → World.NamesKept adds v w →
    done v w
  executing : ∀ {v w file}, done { v with currentFile := file } w →
    done v { w with currentFile := v.currentFile }
  executing_failed : ∀ {e v w file}, failed e { v with currentFile := file } w →
    failed e v { w with currentFile := v.currentFile }
  calling : ∀ {v w}, done { v with callDepth := v.callDepth + 1 } w →
    done v { w with callDepth := w.callDepth - 1 }
  calling_failed : ∀ {e v w}, failed e { v with callDepth := v.callDepth + 1 } w →
    failed e v { w with callDepth := w.callDepth - 1 }
  waiting : ∀ {v} e, v.processing = true → done v (enqueue e v)
  processed : ∀ {v w} e, v.processing = false →
    drained { enqueue e v with processing := true } w → done v { w with processing := false }
  processed_failed : ∀ {f v w} e, v.processing = false →
    cut f { enqueue e v with processing := true } w →
      failed f v { w with queue := [], processing := false }
  /-- The parts of code that may run may run. -/
  inside : ∀ {x}, code x → ∀ child ∈ x.children, code child.2 := by intros; trivial
  /-- The body of a function that is declared may run. -/
  declared : ∀ {f}, code (.function f) → code (.body (.block f.body)) := by intros; trivial
  /-- The body of a handler that is registered may run. -/
  handled : ∀ {span event condition body}, code (.stmt (.on span event condition body)) →
    code (.body (.block body)) := by intros; trivial
  /-- A condition behind an `else` runs as a statement. -/
  chained : ∀ {s}, code (.ifStmt s) → code (.stmt (.ifThen s)) := by intros; trivial
  /-- What a source says may run. -/
  sourced : ∀ {source file program}, Program.compile source file = .ok program →
    ∀ s ∈ program.body, code (.stmt s) := by intros; trivial
  other : ∀ {v w}, ¬ v.CodeIn code → done v w := by
    exact fun h => absurd (.of_forall (fun _ => trivial) _) h
  other_failed : ∀ {e v w}, ¬ v.CodeIn code → failed e v w := by
    exact fun h => absurd (.of_forall (fun _ => trivial) _) h
  /-- Everything may be added to the outermost scope. -/
  outermost : ∀ name, adds globalScope name := by intros; trivial
  forbidden : ∀ {v w name}, ¬ adds v.store.scopes.next name → done v w := by
    exact fun h => absurd trivial h
  forbidden_failed : ∀ {e v w name}, ¬ adds v.store.scopes.next name → failed e v w := by
    exact fun h => absurd trivial h

namespace Law

variable {α β : Type} {L : Law}

/-- The worlds before and behind a computation are related, for one that succeeds and for one that
    fails. -/
def Relates (done : World → World → Prop) (failed : Failure → World → World → Prop)
    (act : Eval α) : Prop :=
  ∀ w, match act w with
    | .ok _ v => done w v
    | .error e v => failed e w v

/-- The computation obeys the law. -/
def Obeyed (L : Law) (act : Eval α) : Prop := Relates L.done L.failed act

/-- What a law says about a computation that succeeds. -/
theorem Obeyed.of_ok {act : Eval α} (hact : L.Obeyed act) {v w : World} {a : α}
    (hok : act v = .ok a w) : L.done v w := by
  have h := hact v
  rwa [hok] at h

/-- The law is about code of all kinds. -/
class Open (L : Law) : Prop where
  code : ∀ x, L.code x

/-- Every piece of work of the runner obeys the law, and so does its dispatch of the queue. -/
structure Runs (L : Law) (run : Runner) : Prop where
  eval : ∀ {e}, L.code (.expr e) → ∀ scope, L.Obeyed (run (.eval e scope))
  exec : ∀ {s}, L.code (.stmt s) → ∀ {scope}, (∀ name ∈ s.binds, L.adds scope name) →
    L.Obeyed (run (.exec s scope))
  whileLoop : ∀ {test body}, L.code (.expr test) → L.code (.block body) →
    ∀ span scope rounds, L.Obeyed (run (.whileLoop span test body scope rounds))
  call : ∀ f args span, L.Obeyed (run (.call f args span))
  native : ∀ n args, L.Obeyed (run (.native n args))
  visit : ∀ v f source place found, L.Obeyed (run (.visit v f source place found))
  count : ∀ i stop step upward found, L.Obeyed (run (.count i stop step upward found))
  drain : Relates L.drained L.cut (run .drain)

/-! ## Composition -/

@[grind ←]
theorem obeyed_pure (a : α) : L.Obeyed (pure a) := fun w => L.refl w

@[grind ←]
theorem obeyed_get : L.Obeyed (get : Eval World) := fun w => L.refl w

theorem obeyed_throw {e : Failure} (he : e ≠ .outOfFuel) : L.Obeyed (throw e : Eval α) :=
  fun w => L.failed_of_done he (L.refl w)

/-- Relations that go together relate the worlds around computations one after the other. -/
theorem relates_bind {done : World → World → Prop} {failed : Failure → World → World → Prop}
    (htrans : ∀ {u v w}, done u v → done v w → done u w)
    (hfailed : ∀ {e u v w}, done u v → failed e v w → failed e u w) {act : Eval α}
    {next : α → Eval β} (hact : Relates done failed act)
    (hnext : ∀ a, Relates done failed (next a)) : Relates done failed (act >>= next) := by
  intro w
  have hw := hact w
  cases ha : act w with
  | error e v =>
    rw [ha] at hw
    rw [Eval.run_bind_of_error ha]
    exact hw
  | ok a v =>
    rw [ha] at hw
    rw [Eval.run_bind_of_ok ha]
    have hv := hnext a v
    cases hb : next a v with
    | ok b u => rw [hb] at hv; exact htrans hw hv
    | error e u => rw [hb] at hv; exact hfailed hw hv

/-- A computation leaves a property of worlds as it is, whether it fails or not. -/
def Preserves (P : World → Prop) (act : Eval α) : Prop :=
  Relates (fun v w => P v → P w) (fun _ v w => P v → P w) act

theorem preserves_bind {P : World → Prop} {act : Eval α} {next : α → Eval β}
    (hact : Preserves P act) (hnext : ∀ a, Preserves P (next a)) : Preserves P (act >>= next) :=
  relates_bind (fun huv hvw hu => hvw (huv hu)) (fun huv hvw hu => hvw (huv hu)) hact hnext

@[grind ←]
theorem obeyed_bind {act : Eval α} {next : α → Eval β} (hact : L.Obeyed act)
    (hnext : ∀ a, L.Obeyed (next a)) : L.Obeyed (act >>= next) :=
  @relates_bind α β L.done L.failed L.trans L.trans_failed act next hact hnext

@[grind ←]
theorem obeyed_map {act : Eval α} (f : α → β) (hact : L.Obeyed act) : L.Obeyed (f <$> act) := by
  intro w
  have hw := hact w
  change match EStateM.map f act w with | .ok _ v => L.done w v | .error e v => L.failed e w v
  unfold EStateM.map
  cases ha : act w <;> rw [ha] at hw <;> exact hw

@[grind ←]
theorem obeyed_mapM {f : α → Eval β} (hf : ∀ a, L.Obeyed (f a)) (xs : List α) :
    L.Obeyed (xs.mapM f) := by
  induction xs with
  | nil => exact obeyed_pure _
  | cons x rest ih =>
    rw [List.mapM_cons]
    exact obeyed_bind (hf x) fun b => obeyed_bind ih fun bs => obeyed_pure _

/-- A computation obeys the law if it does so in worlds that only keep code that may run. -/
theorem obeyed_of_code {act : Eval α} (hact : ∀ w : World, w.CodeIn L.code →
    match act w with
    | .ok _ v => L.done w v
    | .error e v => L.failed e w v) : L.Obeyed act := by
  intro w
  by_cases hw : w.CodeIn L.code
  · exact hact w hw
  · cases act w with
    | ok _ v => exact L.other hw
    | error e v => exact L.other_failed hw

/-- What is read from the store comes from a world that only keeps code that may run. -/
theorem obeyed_bindRead {f : Store → α} {next : α → Eval β}
    (hnext : ∀ w : World, w.CodeIn L.code → L.Obeyed (next (f w.store))) :
    L.Obeyed (Eval.read f >>= next) := obeyed_of_code fun w hw => hnext w hw w

/-- A single change obeys every law, unless it brings code into the world that may not run, or adds
    names that may not be added. -/
theorem obeyed_modify {f : World → World} (hf : ∀ w, Change w (f w))
    (hcode : ∀ w : World, w.CodeIn L.code → (f w).CodeIn L.code)
    (hnames : ∀ w, World.NamesKept L.adds w (f w)) :
    L.Obeyed (modify f) := fun w => L.change (hf w) (hcode w) (hnames w)

/-- A single change of the store obeys every law, unless it brings code into the world that may not
    run, or adds names that may not be added. -/
theorem obeyed_modifyStore {f : Store → Store}
    (hf : ∀ w : World, Change w { w with store := f w.store })
    (hcode : ∀ w : World, w.CodeIn L.code → World.CodeIn L.code { w with store := f w.store })
    (hnames : ∀ w : World, World.NamesKept L.adds w { w with store := f w.store }) :
    L.Obeyed (Eval.modifyStore f) := obeyed_modify hf hcode hnames

/-- A computation in a world that is prepared for it and repaired behind it. -/
theorem obeyed_bracket {act : Eval α} (enter : World → World) (leave : World → World → World)
    (hact : L.Obeyed act) (hdone : ∀ {w v}, L.done (enter w) v → L.done w (leave w v))
    (hfailed : ∀ {e w v}, L.failed e (enter w) v → L.failed e w (leave w v)) :
    L.Obeyed fun w => Eval.ensuring act (leave w) (enter w) := by
  intro w
  have h := hact (enter w)
  unfold Eval.ensuring
  cases ha : act (enter w) with
  | ok a v =>
    rw [ha] at h
    simpa only [ha] using hdone h
  | error e v =>
    rw [ha] at h
    simpa only [ha] using hfailed h

@[grind ←]
theorem obeyed_reporting (name : String) (span : Option Span) {act : Eval α}
    (hact : L.Obeyed act) : L.Obeyed (Eval.reporting name span act) := by
  intro w
  have hw := hact w
  unfold Eval.reporting
  cases ha : act w with
  | ok a v => rwa [ha] at hw
  | error e v =>
    rw [ha] at hw
    cases e with
    | fault f =>
      by_cases hf : f.isRefusal = true
      · simpa [hf] using L.reported hw
      · simpa [hf] using hw
    | diagnostic d => exact hw
    | outOfFuel => exact hw

/-! ## Reading and failing -/

@[grind ←]
theorem obeyed_read (f : Store → α) : L.Obeyed (Eval.read f) := fun w => L.refl w

@[grind ←]
theorem obeyed_truth (v : Value) : L.Obeyed (Eval.truth v) := obeyed_read _

@[grind ←]
theorem obeyed_fault (f : Fault) : L.Obeyed (Eval.fault f : Eval α) := obeyed_throw nofun

@[grind ←]
theorem obeyed_problem (p : Problem) (span : Option Span) :
    L.Obeyed (Eval.problem p span : Eval α) := obeyed_throw nofun

@[grind ←]
theorem obeyed_ofExcept (x : Except Fault α) : L.Obeyed (Eval.ofExcept x) := by
  cases x with
  | ok a => exact obeyed_pure a
  | error f => exact obeyed_fault f

/-! ## Making and changing objects -/

@[grind ←]
theorem obeyed_newList (items : Array Value) : L.Obeyed (Eval.newList items) :=
  obeyed_bind (obeyed_read _) fun _ =>
    obeyed_bind
      (obeyed_modifyStore (fun _ => .listMade items) (fun _ h => h.congr rfl rfl rfl rfl)
        fun _ => .of_scopes rfl)
      fun _ => obeyed_pure _

@[grind ←]
theorem obeyed_newMap (entries : Table Key Value) : L.Obeyed (Eval.newMap entries) :=
  obeyed_bind (obeyed_read _) fun _ =>
    obeyed_bind
      (obeyed_modifyStore (fun _ => .mapMade entries) (fun _ h => h.congr rfl rfl rfl rfl)
        fun _ => .of_scopes rfl)
      fun _ => obeyed_pure _

@[grind ←]
theorem obeyed_newFunction {f : Closure} (hf : f.CodeIn L.code) :
    L.Obeyed (Eval.newFunction f) :=
  obeyed_bind (obeyed_read _) fun _ =>
    obeyed_bind
      (obeyed_modifyStore (fun _ => .functionMade f) (fun _ h => h.functionMade hf)
        fun _ => .of_scopes rfl)
      fun _ => obeyed_pure _

@[grind ←]
theorem obeyed_newSchema {schema : Schema} (hfields : ∀ f ∈ schema.fields, L.code (.field f)) :
    L.Obeyed (Eval.newSchema schema) :=
  obeyed_bind (obeyed_read _) fun _ =>
    obeyed_bind
      (obeyed_modifyStore (fun _ => .schemaMade schema) (fun _ h => h.schemaMade hfields)
        fun _ => .of_scopes rfl)
      fun _ => obeyed_pure _

@[grind ←]
theorem obeyed_newInstance (schema : String) (data : Table String Value) :
    L.Obeyed (Eval.newInstance ⟨schema, data, [], []⟩) :=
  obeyed_bind (obeyed_read _) fun _ =>
    obeyed_bind
      (obeyed_modifyStore (fun _ => .instanceMade schema data)
        (fun _ h => h.congr rfl rfl rfl rfl) fun _ => .of_scopes rfl)
      fun _ => obeyed_pure _

@[grind ←]
theorem obeyed_newNative (n : MadeNative) : L.Obeyed (Eval.newNative n) :=
  obeyed_bind (obeyed_read _) fun _ =>
    obeyed_bind
      (obeyed_modifyStore (fun _ => .nativeMade n) (fun _ h => h.congr rfl rfl rfl rfl)
        fun _ => .of_scopes rfl)
      fun _ => obeyed_pure _

@[grind ←]
theorem obeyed_newScope (parent : Option ScopeRef) (bindings : Table String Value) :
    L.Obeyed (Eval.newScope parent bindings) :=
  obeyed_bind (obeyed_read _) fun _ =>
    obeyed_bind
      (obeyed_modifyStore (fun _ => .scopeMade bindings parent)
        (fun _ h => h.congr rfl rfl rfl rfl) fun w => .of_push w ⟨bindings, parent⟩)
      fun _ => obeyed_pure _

@[grind ←]
theorem obeyed_childScope (r : ScopeRef) : L.Obeyed (Eval.childScope r) := obeyed_newScope _ _

/-- Every name may be added to a scope that was just made. -/
theorem obeyed_bindChildScope (r : ScopeRef) {next : ScopeRef → Eval α}
    (hnext : ∀ inner, (∀ name, L.adds inner name) → L.Obeyed (next inner)) :
    L.Obeyed (Eval.childScope r >>= next) := by
  intro w
  by_cases hfree : ∀ name, L.adds w.store.scopes.next name
  · have hmade : Eval.childScope r w = .ok w.store.scopes.next
        { w with store := { w.store with scopes := w.store.scopes.push ⟨.empty, some r⟩ } } := rfl
    have hchild := (obeyed_childScope (L := L) r).of_ok hmade
    rw [Eval.run_bind_of_ok hmade]
    have h := hnext _ hfree
      { w with store := { w.store with scopes := w.store.scopes.push ⟨.empty, some r⟩ } }
    split at h
    · exact L.trans hchild h
    · exact L.trans_failed hchild h
  · obtain ⟨name, hname⟩ := Classical.not_forall.mp hfree
    split
    · exact L.forbidden hname
    · exact L.forbidden_failed hname

@[grind ←]
theorem obeyed_ofNumber (n : Number) : L.Obeyed (Eval.ofNumber n) := by
  have hmark : L.Obeyed (Eval.read (·.nextMark) >>= fun mark =>
      Eval.modifyStore (fun s => { s with nextMark := mark + 1 }) >>= fun _ =>
        pure (Value.nan mark)) := fun w =>
    L.change .marked (fun h => h.congr rfl rfl rfl rfl) (.of_scopes rfl)
  unfold Eval.ofNumber
  split
  · exact hmark
  · exact obeyed_pure _

@[grind ←]
theorem obeyed_ofLiteral (l : Literal) : L.Obeyed (Eval.ofLiteral l) := by
  unfold Eval.ofLiteral
  grind

@[grind ←]
theorem obeyed_modifyList (r : ListRef) (f : Array Value → Array Value) :
    L.Obeyed (Eval.modifyList r f) :=
  obeyed_modifyStore (fun _ => .listModified r f) (fun _ h => h.congr rfl rfl rfl rfl)
    fun _ => .of_scopes rfl

@[grind ←]
theorem obeyed_putKey (r : MapRef) (k : Key) (v : Value) : L.Obeyed (Eval.putKey r k v) :=
  obeyed_modifyStore (fun _ => .entryPut r k v) (fun _ h => h.congr rfl rfl rfl rfl)
    fun _ => .of_scopes rfl

/-! ## Scopes -/

@[grind ←]
theorem obeyed_lookup (name : String) (r : ScopeRef) (span : Option Span) :
    L.Obeyed (Eval.lookup name r span) := by
  unfold Eval.lookup
  grind

@[grind ←]
theorem obeyed_global? (name : String) : L.Obeyed (Eval.global? name) := obeyed_read _

@[grind ←]
theorem obeyed_define {r : ScopeRef} {name : String} (hadds : L.adds r name) (v : Value) :
    L.Obeyed (Eval.define r name v) :=
  obeyed_modifyStore (fun _ => .defined r name v) (fun _ h => h.congr rfl rfl rfl rfl)
    fun w => .define w hadds v

@[grind ←]
theorem obeyed_assign {r : ScopeRef} {name : String} (hadds : L.adds r name) (v : Value) :
    L.Obeyed (Eval.assign r name v) :=
  obeyed_modifyStore (fun w => .defined ((w.store.resolve name r).getD r) name v)
    (fun _ h => h.congr rfl rfl rfl rfl) fun w => .assign w (fun _ => hadds) v

end Law

end EventScript
