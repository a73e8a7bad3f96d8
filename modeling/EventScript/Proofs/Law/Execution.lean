import EventScript.Proofs.Law.Evaluation

/-! # Execution obeys every law

Statements, handlers, calls, files and host actions obey a law whenever the runner that they go back
to does.  So every run with a bound obeys the law, by induction on the bound.  Only the dispatch of
the queue is left to each law: it is given as a hypothesis on one step.

* `runs_bounded`   every run with a bound obeys the law
* `runs_run`       so does every run
-/

namespace EventScript

open Evaluate

namespace Law

variable {α : Type} {L : Law} {run : Runner}

/-! ## Descriptions of values -/

mutual

theorem obeyed_build : ∀ d : Datum, L.Obeyed (build d)
  | .literal l => by unfold build; exact obeyed_ofLiteral l
  | .list items => by
    unfold build
    exact obeyed_bind (obeyed_buildAll items) fun vs => obeyed_newList _
  | .map entries => by
    unfold build
    exact obeyed_bind (obeyed_buildEntries .empty entries) fun t =>
      obeyed_bind (obeyed_newMap t) fun r => obeyed_pure _
  | .global name => by unfold build; exact obeyed_lookup name _ _
  | .host name => by
    unfold build
    refine obeyed_bind obeyed_get fun w => ?_
    split
    · exact obeyed_newNative _
    · exact obeyed_pure _

theorem obeyed_buildAll : ∀ ds : List Datum, L.Obeyed (buildAll ds)
  | [] => by unfold buildAll; exact obeyed_pure _
  | d :: rest => by
    unfold buildAll
    exact obeyed_bind (obeyed_build d) fun v =>
      obeyed_bind (obeyed_buildAll rest) fun vs => obeyed_pure _

theorem obeyed_buildEntries (t : Table Key Value) : ∀ es : List (Key × Datum),
    L.Obeyed (buildEntries t es)
  | [] => by unfold buildEntries; exact obeyed_pure _
  | (k, d) :: rest => by
    unfold buildEntries
    exact obeyed_bind (obeyed_build d) fun v => obeyed_buildEntries _ rest

end

section Runner

variable (hrun : L.Runs run)

include hrun

/-! ## Blocks and events -/

@[grind ←]
theorem obeyed_statements {scope : ScopeRef} {ss : List Stmt}
    (hss : ∀ s ∈ ss, L.code (.stmt s)) (hadds : ∀ s ∈ ss, ∀ name ∈ s.binds, L.adds scope name) :
    L.Obeyed (statements run scope ss) := by
  induction ss with
  | nil => exact obeyed_pure _
  | cons s rest ih =>
    obtain ⟨hs, hrest⟩ := List.forall_mem_cons.mp hss
    obtain ⟨hbinds, hbindRest⟩ := List.forall_mem_cons.mp hadds
    unfold statements
    refine obeyed_bind (hrun.exec hs hbinds) fun (c : Completion) => ?_
    split
    · exact ih hrest hbindRest
    · exact obeyed_pure _

theorem obeyed_block {b : Block} (hb : L.code (.block b)) {scope : ScopeRef}
    (hadds : ∀ name ∈ b.binds, L.adds scope name) : L.Obeyed (block run b scope) :=
  obeyed_statements hrun (fun _ hs => L.inside hb _ (List.mem_map_of_mem hs))
    fun _ hs name hname => hadds name (List.mem_flatMap_of_mem hs hname)

/-- A block may run in a scope that was just made. -/
@[grind ←]
theorem obeyed_blockInside {b : Block} (hb : L.code (.block b)) {scope : ScopeRef}
    (hopen : ∀ name, L.adds scope name) : L.Obeyed (block run b scope) :=
  obeyed_block hrun hb fun name _ => hopen name

omit hrun in
/-- While events are dispatched, a new one waits. -/
theorem emit_of_processing (name : String) (data : MapRef) {w : World}
    (hp : w.processing = true) : emit run name data w = .ok () (enqueue ⟨name, data⟩ w) := by
  simp [emit, enqueue, World.record, hp]

omit hrun in
/-- Otherwise the queue is dispatched with the new event at its end. -/
theorem emit_of_not_processing (name : String) (data : MapRef) {w : World}
    (hp : w.processing = false) :
    emit run name data w =
      match run .drain { enqueue ⟨name, data⟩ w with processing := true } with
      | .ok a v => .ok a { v with processing := false }
      | .error e v => .error e { v with queue := [], processing := false } := by
  have hemit : emit run name data w = processQueue run (enqueue ⟨name, data⟩ w) := by
    simp [emit, enqueue, World.record, hp]
  rw [hemit]
  simp only [processQueue, Eval.run_modify_bind, Eval.ensuring, Eval.onFailure]
  cases run .drain { enqueue ⟨name, data⟩ w with processing := true } <;> rfl

/-- An event either waits for the dispatch in progress or starts one. -/
@[grind ←]
theorem obeyed_emit (name : String) (data : MapRef) : L.Obeyed (emit run name data) := by
  intro w
  have hdrain := hrun.drain { enqueue ⟨name, data⟩ w with processing := true }
  cases hp : w.processing with
  | true =>
    rw [emit_of_processing name data hp]
    exact L.waiting _ hp
  | false =>
    rw [emit_of_not_processing name data hp]
    cases hd : run .drain { enqueue ⟨name, data⟩ w with processing := true } with
    | ok a v => rw [hd] at hdrain; exact L.processed _ hp hdrain
    | error f v => rw [hd] at hdrain; exact L.processed_failed _ hp hdrain

@[grind ←]
theorem obeyed_emitValues (event data : Value) : L.Obeyed (emitValues run event data) := by
  unfold emitValues
  split <;> grind

omit hrun in
@[grind ←]
theorem obeyed_listenersFor (name : String) : L.Obeyed (listenersFor name) := by
  unfold listenersFor
  grind

omit hrun in
/-- The scope for an event is made at the beginning. -/
theorem eventScope_bind (parent : ScopeRef) (data : MapRef) (next : ScopeRef → Eval α) :
    (eventScope parent data >>= next) = (Eval.childScope parent >>= fun inner =>
      Eval.define inner "event" (.map data) >>= fun _ => next inner) := by
  simp only [eventScope, bind_assoc, pure_bind]

omit hrun in
/-- Every name may be added to the scope for an event. -/
theorem obeyed_bindEventScope (parent : ScopeRef) (data : MapRef) {next : ScopeRef → Eval α}
    (hnext : ∀ inner, (∀ name, L.adds inner name) → L.Obeyed (next inner)) :
    L.Obeyed (eventScope parent data >>= next) := by
  rw [eventScope_bind]
  exact obeyed_bindChildScope parent fun inner hopen =>
    obeyed_bind (obeyed_define (hopen _) _) fun _ => hnext inner hopen

theorem obeyed_guardHolds {h : Handler} (hh : h.CodeIn L.code) (data : MapRef) :
    L.Obeyed (guardHolds run h data) := by
  unfold guardHolds
  split
  · exact obeyed_pure _
  · rename_i e he
    exact obeyed_bindEventScope _ data fun scope _ =>
      obeyed_bind (hrun.eval (hh.condition e he) scope) fun v => obeyed_truth v

/-- The body of a handler runs in a scope of its own. -/
theorem obeyed_handlerBody {h : Handler} (hh : h.CodeIn L.code) (data : MapRef) :
    L.Obeyed (do let _ ← block run h.body (← eventScope h.scope data)) :=
  obeyed_bindEventScope _ _ fun _ hopen =>
    obeyed_bind (obeyed_blockInside hrun (L.inside hh.body (0, .block h.body) (by simp)) hopen)
      fun _ => obeyed_pure _

/-! ## Statements -/

theorem obeyed_assignTo (scope : ScopeRef) (v : Value) {target : Target}
    (htarget : L.code (.target target))
    (hadds : ∀ span name, target = .name span name → L.adds scope name) :
    L.Obeyed (assignTo run scope v target) := by
  have hparts := L.inside htarget
  unfold assignTo
  split
  · exact obeyed_assign (hadds _ _ rfl) v
  · refine obeyed_bind (hrun.eval (by simpa using hparts) scope) fun (obj : Value) => ?_
    split <;> grind
  · obtain ⟨hobject, hkey⟩ := List.forall_mem_cons.mp hparts
    refine obeyed_bind (hrun.eval hobject scope) fun (obj : Value) => ?_
    have hindex := obeyed_indexKey hrun scope (by simpa using hkey)
    split <;> grind
  · exact obeyed_putReactive _ _ v _

omit hrun in
@[grind ←]
theorem obeyed_checkRounds (rounds : Nat) (span : Span) : L.Obeyed (checkRounds rounds span) := by
  unfold checkRounds
  grind

@[grind ←]
theorem obeyed_forEach {body : Block} (hbody : L.code (.block body)) (span : Span)
    (item : String) (scope : ScopeRef) (rounds : Nat) (vs : List Value) :
    L.Obeyed (forEach run span item body scope rounds vs) := by
  induction vs generalizing rounds with
  | nil => exact obeyed_pure _
  | cons v rest ih =>
    unfold forEach
    refine obeyed_bind (obeyed_checkRounds _ span) fun _ => ?_
    refine obeyed_bindChildScope scope fun inner hopen => ?_
    refine obeyed_bind (obeyed_define (hopen item) v) fun _ => ?_
    refine obeyed_bind (obeyed_blockInside hrun hbody hopen) fun c => ?_
    split
    · exact obeyed_pure _
    · exact obeyed_pure _
    · exact ih _

theorem obeyed_whileLoop {test : Expr} {body : Block} (htest : L.code (.expr test))
    (hbody : L.code (.block body)) (span : Span) (scope : ScopeRef) (rounds : Nat) :
    L.Obeyed (whileLoop run span test body scope rounds) := by
  unfold whileLoop
  refine obeyed_bind (hrun.eval htest scope) fun v => obeyed_bind (obeyed_truth v) fun holds => ?_
  split
  · refine obeyed_bind (obeyed_checkRounds _ span) fun _ => ?_
    refine obeyed_bindChildScope scope fun inner hopen => ?_
    refine obeyed_bind (obeyed_blockInside hrun hbody hopen) fun c => ?_
    split
    · exact obeyed_pure _
    · exact obeyed_pure _
    · exact hrun.whileLoop htest hbody span scope _
  · exact obeyed_pure _

@[grind ←]
theorem obeyed_caseGuardHolds (scope : ScopeRef) {guard : Option Expr}
    (hguard : ∀ e ∈ guard, L.code (.expr e)) : L.Obeyed (caseGuardHolds run scope guard) := by
  unfold caseGuardHolds
  split
  · exact obeyed_pure _
  · exact obeyed_bind (hrun.eval (hguard _ rfl) scope) fun v => obeyed_truth v

@[grind ←]
theorem obeyed_matchCases (scope : ScopeRef) (v : Value) {cases : List MatchCase}
    (hcases : ∀ c ∈ cases, L.code (.matchCase c)) : L.Obeyed (matchCases run scope v cases) := by
  induction cases with
  | nil => exact obeyed_pure _
  | cons c rest ih =>
    obtain ⟨hc, hrest⟩ := List.forall_mem_cons.mp hcases
    have hpattern : L.code (.pattern c.pattern) := L.inside hc (0, .pattern c.pattern) (by simp)
    have hbody : L.code (.block c.body) := L.inside hc (0, .block c.body) (by simp)
    have hguard : ∀ e ∈ c.guard, L.code (.expr e) := fun e he =>
      L.inside hc (0, .expr e) (by simpa using he)
    unfold matchCases
    refine obeyed_bindChildScope scope fun inner hopen => ?_
    refine obeyed_bind (obeyed_fits hrun inner c.pattern v hpattern fun name _ => hopen name)
      fun fit => ?_
    have hrest' := ih hrest
    grind

@[grind ←]
theorem obeyed_eventName (scope : ScopeRef) {e : Expr} (he : L.code (.expr e)) :
    L.Obeyed (eventName run scope e) := by
  unfold eventName
  refine obeyed_bind (hrun.eval he scope) fun (v : Value) => ?_
  split <;> grind

omit hrun in
/-- The function that a declaration makes, with its name or as a method. -/
theorem declared_codeIn {f : FunctionDecl} (hf : L.code (.function f)) (scope : ScopeRef) :
    Closure.CodeIn L.code ⟨f.params, .block f.body, scope, some f.name⟩ :=
  ⟨fun p hp => L.inside hf (0, .param p) (by simpa using hp), L.declared hf⟩

omit hrun in
@[grind ←]
theorem obeyed_declareMethods (scope : ScopeRef) (t : Table String FunctionRef)
    {methods : List FunctionDecl} (hmethods : ∀ m ∈ methods, L.code (.function m)) :
    L.Obeyed (declareMethods scope t methods) := by
  induction methods generalizing t with
  | nil => exact obeyed_pure _
  | cons m rest ih =>
    obtain ⟨hm, hrest⟩ := List.forall_mem_cons.mp hmethods
    exact obeyed_bind (obeyed_newFunction (declared_codeIn hm scope)) fun f => ih _ hrest

omit hrun in
@[grind ←]
theorem obeyed_declareSchema {scope : ScopeRef} {name : String} (parent : Option String)
    (hadds : L.adds scope name) {fields : List SchemaField} {methods : List FunctionDecl}
    (hfields : ∀ f ∈ fields, L.code (.field f)) (hmethods : ∀ m ∈ methods, L.code (.function m)) :
    L.Obeyed (declareSchema scope name parent fields methods) := by
  refine obeyed_bind (obeyed_declareMethods scope _ hmethods) fun methods => fun w => ?_
  have hsame : ∀ {u : World} (t : Table String SchemaRef), u.CodeIn L.code →
      World.CodeIn L.code { u with schemas := t } :=
    fun _ h => ⟨h.function, h.field, h.handler, h.registered⟩
  -- only a schema that was made before is registered
  have hmade := L.change (Change.schemaMade (w := w) ⟨name, parent, fields, methods⟩)
    (fun h => h.schemaMade hfields) (.of_scopes rfl)
  exact L.trans hmade (L.trans
    (L.change (.schemaDeclared name _ (Heap.holds_push_next _ _)) (hsame _) (.of_scopes rfl))
    (L.change (.defined scope name _) (fun h => h.congr rfl rfl rfl rfl) (.define _ hadds _)))

@[grind ←]
theorem obeyed_defaults (scope : ScopeRef) (t : Table String Value) {fields : List SchemaField}
    (hfields : ∀ f ∈ fields, L.code (.field f)) : L.Obeyed (defaults run scope t fields) := by
  induction fields generalizing t with
  | nil => exact obeyed_pure _
  | cons f rest ih =>
    obtain ⟨hf, hrest⟩ := List.forall_mem_cons.mp hfields
    unfold defaults
    split
    · exact ih t hrest
    · rename_i e he
      have hdefault : L.code (.expr e) := L.inside hf (0, .expr e) (by simpa using he)
      exact obeyed_bind (hrun.eval hdefault scope) fun v => ih _ hrest

@[grind ←]
theorem obeyed_givenFields (scope : ScopeRef) (t : Table String Value)
    {fields : List (String × Expr)} (hfields : ∀ f ∈ fields, L.code (.expr f.2)) :
    L.Obeyed (givenFields run scope t fields) := by
  induction fields generalizing t with
  | nil => exact obeyed_pure _
  | cons f rest ih =>
    obtain ⟨hf, hrest⟩ := List.forall_mem_cons.mp hfields
    exact obeyed_bind (hrun.eval hf scope) fun v => ih _ hrest

omit hrun in
@[grind ←]
theorem obeyed_bindMethods (r : InstanceRef) (methods : List (String × FunctionRef)) :
    L.Obeyed (bindMethods r methods) := by
  induction methods with
  | nil => exact obeyed_pure _
  | cons m rest ih =>
    obtain ⟨name, f⟩ := m
    unfold bindMethods
    refine obeyed_bindRead fun w hw => ?_
    -- the code of the method is that of a function that the world has already
    obtain ⟨hparams, hbody⟩ := hw.function f
    refine obeyed_bind (obeyed_newScope _ _) fun scope => ?_
    refine obeyed_bind (obeyed_newFunction ⟨hparams, hbody⟩) fun bound => ?_
    exact obeyed_bind
      (obeyed_modifyStore (fun _ => .methodBound r name bound)
        (fun _ h => h.congr rfl rfl rfl rfl) fun _ => .of_scopes rfl) fun _ => ih

omit hrun in
/-- The instance is made, completed and bound. -/
theorem obeyed_bindInstance {scope : ScopeRef} (schema : String) {name : String}
    (hadds : L.adds scope name) (data : Table String Value)
    (methods : List (String × FunctionRef)) :
    L.Obeyed (do
      let i ← Eval.newInstance ⟨schema, data, [], []⟩
      bindMethods i methods
      Eval.define scope name (.inst i)
      modify (withInstance scope name i)) := by
  refine obeyed_bind (obeyed_newInstance schema data) fun i => ?_
  refine obeyed_bind (obeyed_bindMethods i methods) fun _ => ?_
  refine obeyed_bind (obeyed_define hadds _) fun _ => ?_
  exact obeyed_modify (fun _ => .instanceDeclared scope name i)
    (fun _ h => h.withInstance scope name i) fun w => .of_store (store_withInstance scope name i w)

@[grind ←]
theorem obeyed_declareInstance {scope : ScopeRef} (span : Span) (schema : String) {name : String}
    (hadds : L.adds scope name) {fields : List (String × Expr)}
    (hfields : ∀ f ∈ fields, L.code (.expr f.2)) :
    L.Obeyed (declareInstance run scope span schema name fields) := by
  unfold declareInstance
  refine obeyed_bind obeyed_get fun w => ?_
  split
  · exact obeyed_problem _ _
  · rename_i r _
    refine obeyed_bindRead fun w hw => ?_
    refine obeyed_bind (obeyed_defaults hrun scope _ (hw.field r)) fun data => ?_
    refine obeyed_bind (obeyed_givenFields hrun scope data hfields) fun data => ?_
    split
    · exact obeyed_problem _ _
    · exact obeyed_bindInstance schema hadds _ _

omit hrun in
@[grind ←]
theorem obeyed_withHandler (event : String) {condition : Option Expr} {body : Block}
    (hcondition : ∀ e ∈ condition, L.code (.expr e)) (hbody : L.code (.body (.block body)))
    (scope : ScopeRef) : L.Obeyed (modify (withHandler event condition body scope)) :=
  obeyed_modify (fun _ => .handlerRegistered event condition body scope)
    (fun _ h => h.withHandler event hcondition hbody scope) fun _ => .of_scopes rfl

theorem obeyed_ifThen (scope : ScopeRef) {s : IfStmt} (hs : L.code (.ifStmt s)) :
    L.Obeyed (statement run scope (.ifThen s)) := by
  have hparts := L.inside hs
  simp only [Node.children, List.forall_mem_cons] at hparts
  obtain ⟨htest, hconsequent, halternate, -⟩ := hparts
  have hotherwise := L.inside halternate
  have hblock : ∀ {b}, L.code (.block b) → L.Obeyed (Eval.childScope scope >>= block run b) :=
    fun hb => obeyed_bindChildScope scope fun _ hopen => obeyed_blockInside hrun hb hopen
  unfold statement
  refine obeyed_bind (hrun.eval htest scope) fun v => obeyed_bind (obeyed_truth v) fun holds => ?_
  split
  · exact hblock hconsequent
  · split
    · exact obeyed_pure _
    · rename_i b hb
      exact hblock (hotherwise (0, .block b) (by simp [hb]))
    · rename_i t ht
      exact hrun.exec (L.chained (hotherwise (0, .ifStmt t) (by simp [ht]))) (by simp [Stmt.binds])

theorem obeyed_statement {scope : ScopeRef} {s : Stmt} (hs : L.code (.stmt s))
    (hadds : ∀ name ∈ s.binds, L.adds scope name) : L.Obeyed (statement run scope s) := by
  have heval := @hrun.eval
  have hwhile := @hrun.whileLoop
  have hparts := L.inside hs
  cases s with
  | letName span name e =>
    have hname : L.adds scope name := hadds name (by simp [Stmt.binds])
    simp at hparts
    unfold statement
    grind
  | assign span target e =>
    obtain ⟨htarget, he⟩ := by simpa using hparts
    have htargets : ∀ span name, target = .name span name → L.adds scope name := by
      rintro span name rfl
      exact hadds name (by simp [Stmt.binds])
    unfold statement
    exact obeyed_bind (heval he scope) fun v =>
      obeyed_bind (obeyed_assignTo hrun scope v htarget htargets) fun _ => obeyed_pure _
  | forIn span item iterable body =>
    obtain ⟨hiterable, hbody⟩ := List.forall_mem_cons.mp hparts
    have hloop := obeyed_forEach hrun (by simpa using hbody : L.code (.block body))
    unfold statement
    refine obeyed_bind (heval hiterable scope) fun (v : Value) => ?_
    split <;> grind
  | function f =>
    have hf := declared_codeIn (by simpa using hparts : L.code (.function f)) scope
    have hname : L.adds scope f.name := hadds f.name (by simp [Stmt.binds])
    unfold statement
    grind
  | ifThen s => exact obeyed_ifThen hrun scope (by simpa using hparts)
  | on span event condition body =>
    have hbody := L.handled hs
    obtain ⟨hevent, -, hcondition⟩ := by simpa using hparts
    unfold statement
    exact obeyed_bind (obeyed_eventName hrun scope hevent) fun name =>
      obeyed_bind (obeyed_withHandler name hcondition hbody scope) fun _ => obeyed_pure _
  | schema span name parent fields methods =>
    have hfields : ∀ f ∈ fields, L.code (.field f) := fun _ hf =>
      hparts _ (List.mem_append_left _ (List.mem_map_of_mem hf))
    have hmethods : ∀ m ∈ methods, L.code (.function m) := fun _ hm =>
      hparts _ (List.mem_append_right _ (List.mem_map_of_mem hm))
    have hname : L.adds scope name := hadds name (by simp [Stmt.binds])
    unfold statement
    grind
  | instanceOf span schema name fields =>
    have hfields : ∀ f ∈ fields, L.code (.expr f.2) := fun _ hf =>
      hparts _ (List.mem_map_of_mem hf)
    have hname : L.adds scope name := hadds name (by simp [Stmt.binds])
    unfold statement
    grind
  | _ =>
    simp at hparts
    unfold statement
    grind

/-! ## Calls -/

theorem obeyed_bindParams (closure : ScopeRef) {scope : ScopeRef} {params : List Param}
    (hparams : ∀ p ∈ params, L.code (.param p)) (hadds : ∀ p ∈ params, L.adds scope p.name)
    (args : List Value) : L.Obeyed (bindParams run closure scope params args) := by
  induction params generalizing args with
  | nil => unfold bindParams; exact obeyed_pure _
  | cons p ps ih =>
    obtain ⟨hp, hps⟩ := List.forall_mem_cons.mp hparams
    obtain ⟨hname, hnames⟩ := List.forall_mem_cons.mp hadds
    unfold bindParams
    cases args with
    | cons v vs => exact obeyed_bind (obeyed_define hname v) fun _ => ih hps hnames vs
    | nil =>
      dsimp only
      split
      · rename_i e he
        have hdefault : L.code (.expr e) := L.inside hp (0, .expr e) (by simpa using he)
        exact obeyed_bind (hrun.eval hdefault closure) fun v =>
          obeyed_bind (obeyed_define hname v) fun _ => ih hps hnames []
      · exact obeyed_bind (obeyed_define hname .null) fun _ => ih hps hnames []

theorem obeyed_invoke {f : Closure} (hf : f.CodeIn L.code) (args : List Value) :
    L.Obeyed (invoke run f args) := by
  have hbody := L.inside hf.body
  unfold invoke
  refine obeyed_bindChildScope f.scope fun scope hopen => ?_
  refine obeyed_bind (obeyed_bindParams hrun f.scope hf.params (fun p _ => hopen p.name) args)
    fun _ => ?_
  split
  · rename_i e he
    exact hrun.eval (hbody (0, .expr e) (by simp [he])) scope
  · rename_i b hb
    have hblock : L.code (.block b) := hbody (0, .block b) (by simp [hb])
    refine obeyed_bind (obeyed_blockInside hrun hblock hopen) fun c => ?_
    split <;> exact obeyed_pure _

theorem obeyed_callFunction (r : FunctionRef) (args : List Value) (span : Option Span) :
    L.Obeyed (callFunction run r args span) := by
  unfold callFunction
  refine obeyed_bind obeyed_get fun w => ?_
  dsimp only
  split
  · exact obeyed_problem _ _
  · refine obeyed_of_code fun w hw => ?_
    -- the function is read behind the count, which is no change of the store
    exact obeyed_deeper (obeyed_invoke hrun (hw.function r) args) w

/-! ## Files -/

@[grind ←]
theorem obeyed_topLevel {ss : List Stmt} (hss : ∀ s ∈ ss, L.code (.stmt s)) :
    L.Obeyed (topLevel run ss) := by
  induction ss with
  | nil => exact obeyed_pure _
  | cons s rest ih =>
    obtain ⟨hs, hrest⟩ := List.forall_mem_cons.mp hss
    unfold topLevel
    refine obeyed_bind (hrun.exec hs fun name _ => L.outermost name) fun (c : Completion) => ?_
    split
    · exact obeyed_pure _
    · exact ih hrest

@[grind ←]
theorem obeyed_execute {program : Program} (hprogram : ∀ s ∈ program.body, L.code (.stmt s))
    (file : Option String) : L.Obeyed (execute run program file) :=
  obeyed_inFile file (obeyed_bind
    (obeyed_modify (fun _ => .importsRecorded program file)
      (fun _ h => h.recordImports program file)
      fun w => .of_store (store_recordImports program file w))
    fun _ => obeyed_topLevel hrun hprogram)

omit hrun in
/-- What is done with the program of a source is done with a program that may run. -/
theorem obeyed_bindCompiled (source : String) (file : Option String) {next : Program → Eval α}
    (hnext : ∀ program : Program, (∀ s ∈ program.body, L.code (.stmt s)) →
      L.Obeyed (next program)) : L.Obeyed (compiled source file >>= next) := by
  unfold compiled
  cases hcompile : Program.compile source file with
  | ok program => exact hnext program (L.sourced hcompile)
  | error d => exact fun w => L.failed_of_done nofun (L.refl w)

@[grind ←]
theorem obeyed_load (source file : String) : L.Obeyed (load run source file) :=
  obeyed_bindCompiled source file fun _ hprogram =>
    obeyed_bind
      (obeyed_modify (fun _ => .sourceKept file source) (fun _ h => h.congr rfl rfl rfl rfl)
        fun _ => .of_scopes rfl)
      fun _ => obeyed_execute hrun hprogram file

omit hrun in
@[grind ←]
theorem obeyed_unbind (kept : Table String Kept) (names : List String) :
    L.Obeyed (unbind kept names) := by
  induction names generalizing kept with
  | nil => exact obeyed_pure _
  | cons name rest ih =>
    unfold unbind
    refine obeyed_bind (obeyed_global? name) fun found => ?_
    refine obeyed_bind
      (obeyed_modifyStore (fun _ => .undefined name) (fun _ h => h.congr rfl rfl rfl rfl)
        fun w => .undefine w (L.outermost name)) fun _ => ?_
    split
    · exact obeyed_bind (obeyed_read _) fun i => ih _
    · exact ih kept

omit hrun in
@[grind ←]
theorem obeyed_withdraw (file : String) : L.Obeyed (withdraw file) :=
  have hdrop : L.Obeyed (modify (dropHandlers file)) :=
    obeyed_modify (fun _ => .handlersDropped file) (fun _ h => h.dropHandlers file)
      fun _ => .of_scopes rfl
  obeyed_bind hdrop fun _ =>
    obeyed_bind obeyed_get fun _ =>
      obeyed_bind
        (obeyed_modify (fun _ => .instancesDropped file) (fun _ h => h.congr rfl rfl rfl rfl)
          fun _ => .of_scopes rfl)
        fun _ => obeyed_unbind _ _

omit hrun in
@[grind ←]
theorem obeyed_restoreAll (entries : List (String × Kept)) : L.Obeyed (restoreAll entries) := by
  induction entries with
  | nil => exact obeyed_pure _
  | cons entry rest ih =>
    obtain ⟨name, kept⟩ := entry
    rw [restoreAll]
    refine obeyed_bind (obeyed_global? name) fun found => ?_
    split
    · exact obeyed_bind
        (obeyed_modifyStore (fun _ => .fieldsRestored _ kept)
          (fun _ h => h.congr rfl rfl rfl rfl) fun _ => .of_scopes rfl)
        fun _ => ih
    · exact ih

@[grind ←]
theorem obeyed_exchange {program : Program} (hprogram : ∀ s ∈ program.body, L.code (.stmt s))
    (file : String) : L.Obeyed (exchange run program file) :=
  obeyed_bind (obeyed_withdraw file) fun kept =>
    obeyed_bind (obeyed_execute hrun hprogram file) fun _ => obeyed_restoreAll kept.entries

@[grind ←]
theorem obeyed_announce (file : String) : L.Obeyed (announce run file) :=
  obeyed_bind (obeyed_newMap _) fun data => obeyed_emit hrun _ data

@[grind ←]
theorem obeyed_replace {program : Program} (hprogram : ∀ s ∈ program.body, L.code (.stmt s))
    (file : String) : L.Obeyed (replace run program file) :=
  obeyed_bind (obeyed_exchange hrun hprogram file) fun _ => obeyed_announce hrun file

@[grind ←]
theorem obeyed_reload (source file : String) : L.Obeyed (reload run source file) := by
  unfold reload
  refine obeyed_bind obeyed_get fun w => ?_
  split
  · refine obeyed_bindCompiled source file fun program hprogram => ?_
    refine obeyed_bind
      (obeyed_modify (fun _ => .sourceKept file source) (fun _ h => h.congr rfl rfl rfl rfl)
        fun _ => .of_scopes rfl)
      fun _ => ?_
    exact obeyed_replace hrun hprogram file
  · exact obeyed_load hrun source file

/-! ## The host -/

omit hrun in
theorem obeyed_note (author : NoteAuthor) (shown : List Value) :
    L.Obeyed (note author shown) :=
  obeyed_modify (fun _ => .noted _) (fun _ h => h.congr rfl rfl rfl rfl) fun _ => .of_scopes rfl

theorem obeyed_perform (a : HostAction) : L.Obeyed (perform run a) := by
  induction a with
  | done v => exact obeyed_pure v
  | fail f => exact obeyed_fault f
  | note author shown next ih => exact obeyed_bind (obeyed_note author shown) fun _ => ih
  | look name next ih => exact obeyed_bind (obeyed_global? name) fun v => ih _
  | build d next ih => exact obeyed_bind (obeyed_build d) fun v => ih v
  | put m key v next ih => exact obeyed_bind (obeyed_putKey m _ v) fun _ => ih
  | emit event data next ih => exact obeyed_bind (obeyed_emitValues hrun event data) fun _ => ih
  | load source file next ih => exact obeyed_bind (obeyed_load hrun source file) fun _ => ih
  | reload source file next ih => exact obeyed_bind (obeyed_reload hrun source file) fun _ => ih
  | call f args next ih => exact obeyed_bind (hrun.obeyed_work (work_libraryCall f args)) fun v => ih v
  | unsubscribe event listener next ih =>
    exact obeyed_bind (obeyed_modify (fun _ => .unsubscribed event listener)
      (fun _ h => h.unsubscribe event listener)
      fun w => .of_store (store_unsubscribe event listener w)) fun _ => ih

@[grind ←]
theorem obeyed_tell (data : MapRef) (r : ListenerRef) : L.Obeyed (tell run data r) :=
  obeyed_bind (obeyed_read _) fun _ =>
    obeyed_bind (obeyed_perform hrun _) fun _ => obeyed_pure _

@[grind ←]
theorem obeyed_tellAll (data : MapRef) (rs : List ListenerRef) :
    L.Obeyed (tellAll run data rs) := by
  induction rs with
  | nil => exact obeyed_pure _
  | cons r rest ih => exact obeyed_bind (obeyed_tell hrun data r) fun _ => ih

@[grind ←]
theorem obeyed_tellEach (name : String) (data : MapRef) (rs : List ListenerRef) :
    L.Obeyed (tellEach run name data rs) := by
  induction rs with
  | nil => exact obeyed_pure _
  | cons r rest ih =>
    exact obeyed_bind (obeyed_read _) fun entries =>
      obeyed_bind (obeyed_newMap _) fun copy =>
        obeyed_bind (obeyed_tell hrun copy r) fun _ => ih

theorem obeyed_native (n : Native) (args : List Value) :
    L.Obeyed (Evaluate.native run n args) := by
  unfold Evaluate.native
  split
  · exact hrun.obeyed_work (work_builtin _ args)
  · refine obeyed_bind (obeyed_read _) fun made => ?_
    split
    · exact hrun.obeyed_work (work_listMember _ _ args)
    · exact hrun.obeyed_work (work_stringMember _ _ args)
    · exact hrun.call _ args none
    · exact obeyed_perform hrun _

end Runner

/-! ## Runs -/

/-- A run that reaches its bound is within the law. -/
structure Lenient (L : Law) : Prop where
  failed : ∀ w, L.failed .outOfFuel w w
  cut : ∀ w, L.cut .outOfFuel w w

/-- Every run with a bound obeys a law under which one step dispatches the queue in order. -/
theorem runs_bounded (hL : L.Lenient)
    (hdrain : ∀ run, L.Runs run → Relates L.drained L.cut (drain run)) (bound : Nat) :
    L.Runs (bounded bound) := by
  induction bound with
  | zero =>
    -- without any step left every piece of work fails at once
    have hfail : ∀ {α : Type}, L.Obeyed (throw .outOfFuel : Eval α) := fun w => hL.failed w
    exact ⟨fun _ _ => hfail, fun _ _ _ => hfail, fun _ _ _ _ _ => hfail, fun _ _ _ => hfail,
      fun _ _ => hfail, fun _ _ _ _ _ => hfail, fun _ _ _ _ _ => hfail, hL.cut⟩
  | succ bound ih =>
    exact {
      eval := fun he scope => obeyed_expression ih scope he
      exec := fun hs _ hadds => obeyed_statement ih hs hadds
      whileLoop := obeyed_whileLoop ih
      call := obeyed_callFunction ih
      native := obeyed_native ih
      visit := fun v f source place found =>
        ih.obeyed_work (work_visitNext v f source place found)
      count := fun i stop step upward found =>
        ih.obeyed_work (work_countNext i stop step upward found)
      drain := hdrain _ ih }

/-- Every run obeys such a law. -/
theorem runs_run (hL : L.Lenient)
    (hdrain : ∀ run, L.Runs run → Relates L.drained L.cut (drain run)) :
    L.Runs Evaluate.run := runs_bounded hL hdrain runBound

end Law

end EventScript
