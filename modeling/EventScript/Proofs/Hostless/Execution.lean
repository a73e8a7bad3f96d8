import EventScript.Proofs.Hostless.Evaluation

/-! # Faults of runs

Statements, handlers, calls and files go back to the runner for everything that could break off.
Without a host nobody listens to events, and no native does what a host wants.  So, by induction on
the bound, runs break off with those faults only that pass through a program.

* `raises_deliver`   events that nobody listens to
* `raises_native`    natives that no host made
* `tame_bounded`     runs with a bound
* `tame_run`         runs
-/

namespace EventScript

open Evaluate Fault

variable {α : Type} {F : Fault → Prop}

/-! ## Descriptions of values -/

mutual

theorem raises_build : ∀ d : Datum, Raises F (build d)
  | .literal l => by unfold build; exact raises_ofLiteral l
  | .list items => by
    unfold build
    exact raises_bind (raises_buildAll items) fun vs => raises_newList _
  | .map entries => by
    unfold build
    exact raises_bind (raises_buildEntries .empty entries) fun t =>
      raises_bind (raises_newMap t) fun r => raises_pure _
  | .global name => by unfold build; exact raises_lookup name _ _
  | .host name => by
    unfold build
    intro w hw
    -- a host that has no functions has none of this name
    simp [hw.functions, hw]

theorem raises_buildAll : ∀ ds : List Datum, Raises F (buildAll ds)
  | [] => by unfold buildAll; exact raises_pure _
  | d :: rest => by
    unfold buildAll
    exact raises_bind (raises_build d) fun v =>
      raises_bind (raises_buildAll rest) fun vs => raises_pure _

theorem raises_buildEntries (t : Table Key Value) : ∀ es : List (Key × Datum),
    Raises F (buildEntries t es)
  | [] => by unfold buildEntries; exact raises_pure _
  | (k, d) :: rest => by
    unfold buildEntries
    exact raises_bind (raises_build d) fun v => raises_buildEntries _ rest

end

section Runner

variable {run : Runner} (hrun : Tame run)

include hrun

/-! ## Blocks and events -/

@[grind ←]
theorem raises_statements (scope : ScopeRef) (ss : List Stmt) :
    Raises Escapes (statements run scope ss) := by
  induction ss with
  | nil => exact raises_pure _
  | cons s rest ih =>
    unfold statements
    refine raises_bind (hrun.exec s scope) fun (c : Completion) => ?_
    split
    · exact ih
    · exact raises_pure _

@[grind ←]
theorem raises_block (b : Block) (scope : ScopeRef) :
    Raises Escapes (block run b scope) := raises_statements hrun scope b.statements

@[grind ←]
theorem raises_emit (name : String) (data : MapRef) :
    Raises Escapes (emit run name data) := by
  have hqueue : Raises Escapes (processQueue run) :=
    raises_bind (raises_modify fun _ hw => hw.congr rfl rfl rfl) fun _ =>
      raises_ensuring (raises_onFailure hrun.drain fun _ hw => hw.congr rfl rfl rfl)
        fun _ hw => hw.congr rfl rfl rfl
  unfold emit
  refine raises_bind (raises_modify fun _ hw => hw.congr rfl rfl rfl) fun _ => ?_
  grind

@[grind ←]
theorem raises_emitValues (event data : Value) :
    Raises Escapes (emitValues run event data) := by
  unfold emitValues
  split <;> grind

omit hrun in
@[grind ←]
theorem raises_eventScope (parent : ScopeRef) (data : MapRef) :
    Raises F (eventScope parent data) := by
  unfold eventScope
  grind

@[grind ←]
theorem raises_guardHolds (h : Handler) (data : MapRef) :
    Raises Escapes (guardHolds run h data) := by
  have heval := hrun.eval
  unfold guardHolds
  split <;> grind

omit hrun in
@[grind ←]
theorem raises_record (happening : Happening) : Raises F (Eval.record happening) :=
  raises_modify fun _ hw => hw.congr rfl rfl rfl

@[grind ←]
theorem raises_handle (data : MapRef) (h : Handler) :
    Raises Escapes (handle run data h) := by
  unfold handle
  grind

@[grind ←]
theorem raises_handleAll (data : MapRef) (hs : List Handler) :
    Raises Escapes (handleAll run data hs) := by
  induction hs with
  | nil => exact raises_pure _
  | cons h rest ih => exact raises_bind (raises_handle hrun data h) fun _ => ih

omit hrun in
/-- Nobody listens. -/
theorem raises_bindListeners (name : String) {next : List ListenerRef → Eval α}
    (hnext : Raises F (next [])) : Raises F (listenersFor name >>= next) := by
  intro w hw
  have hnone : listenersFor name w = .ok [] w := by
    simp [listenersFor, hw.listeners, Table.getD, Table.get?, Table.empty]
  rw [Eval.run_bind_of_ok hnone]
  exact hnext w hw

/-- An event goes to nobody but the handlers. -/
theorem raises_deliver (e : QueuedEvent) (hs : List Handler) :
    Raises Escapes (deliver run e hs) :=
  raises_bindListeners e.name <| raises_bind (raises_pure _) fun _ =>
    raises_bindListeners wildcard <| raises_bind (raises_pure _) fun _ =>
      raises_handleAll hrun e.data hs

theorem raises_drain : Raises Escapes (drain run) := by
  unfold drain
  refine raises_bind raises_get fun w => ?_
  split
  · exact raises_pure _
  · rename_i e rest _
    have hdispatch : Raises Escapes (dispatch run e) :=
      raises_bind raises_get fun w => raises_bind (raises_record _) fun _ =>
        raises_bind (raises_deliver hrun e _) fun _ => raises_record _
    exact raises_bind (raises_modify fun _ hw => hw.congr rfl rfl rfl) fun _ =>
      raises_bind hdispatch fun _ => hrun.drain

/-! ## Statements -/

@[grind ←]
theorem raises_assignTo (scope : ScopeRef) (v : Value) (target : Target) :
    Raises Escapes (assignTo run scope v target) := by
  have heval := hrun.eval
  unfold assignTo
  split <;> grind

omit hrun in
@[grind ←]
theorem raises_checkRounds (rounds : Nat) (span : Span) : Raises F (checkRounds rounds span) := by
  unfold checkRounds
  grind

@[grind ←]
theorem raises_forEach (span : Span) (item : String) (body : Block) (scope : ScopeRef)
    (rounds : Nat) (vs : List Value) :
    Raises Escapes (forEach run span item body scope rounds vs) := by
  induction vs generalizing rounds with
  | nil => exact raises_pure _
  | cons v rest ih =>
    unfold forEach
    grind

theorem raises_whileLoop (span : Span) (test : Expr) (body : Block) (scope : ScopeRef)
    (rounds : Nat) : Raises Escapes (whileLoop run span test body scope rounds) := by
  have heval := hrun.eval
  have hloop := hrun.whileLoop
  unfold whileLoop
  grind

@[grind ←]
theorem raises_caseGuardHolds (scope : ScopeRef) (guard : Option Expr) :
    Raises Escapes (caseGuardHolds run scope guard) := by
  have heval := hrun.eval
  unfold caseGuardHolds
  split <;> grind

@[grind ←]
theorem raises_matchCases (scope : ScopeRef) (v : Value) (cases : List MatchCase) :
    Raises Escapes (matchCases run scope v cases) := by
  induction cases with
  | nil => exact raises_pure _
  | cons c rest ih =>
    have hfits := raises_fits hrun
    unfold matchCases
    grind

@[grind ←]
theorem raises_eventName (scope : ScopeRef) (e : Expr) :
    Raises Escapes (eventName run scope e) := by
  unfold eventName
  refine raises_bind (hrun.eval e scope) fun (v : Value) => ?_
  split <;> grind

omit hrun in
@[grind ←]
theorem raises_declareMethods (scope : ScopeRef) (t : Table String FunctionRef)
    (methods : List FunctionDecl) : Raises F (declareMethods scope t methods) := by
  induction methods generalizing t with
  | nil => exact raises_pure _
  | cons m rest ih => exact raises_bind (raises_newFunction _) fun f => ih _

omit hrun in
@[grind ←]
theorem raises_declareSchema (scope : ScopeRef) (name : String) (parent : Option String)
    (fields : List SchemaField) (methods : List FunctionDecl) :
    Raises F (declareSchema scope name parent fields methods) :=
  raises_bind (raises_declareMethods scope _ methods) fun _ =>
    raises_bind (raises_newSchema _) fun _ =>
      raises_bind (raises_modify fun _ hw => hw.congr rfl rfl rfl) fun _ => raises_define _ _ _

@[grind ←]
theorem raises_defaults (scope : ScopeRef) (t : Table String Value) (fields : List SchemaField) :
    Raises Escapes (defaults run scope t fields) := by
  induction fields generalizing t with
  | nil => exact raises_pure _
  | cons f rest ih =>
    unfold defaults
    split
    · exact ih t
    · exact raises_bind (hrun.eval _ scope) fun v => ih _

@[grind ←]
theorem raises_givenFields (scope : ScopeRef) (t : Table String Value)
    (fields : List (String × Expr)) : Raises Escapes (givenFields run scope t fields) := by
  induction fields generalizing t with
  | nil => exact raises_pure _
  | cons f rest ih => exact raises_bind (hrun.eval f.2 scope) fun v => ih _

omit hrun in
@[grind ←]
theorem raises_bindMethods (r : InstanceRef) (methods : List (String × FunctionRef)) :
    Raises F (bindMethods r methods) := by
  induction methods with
  | nil => exact raises_pure _
  | cons m rest ih =>
    unfold bindMethods
    grind

omit hrun in
theorem hostless_withInstance {w : World} (hw : w.Hostless) (scope : ScopeRef) (name : String)
    (r : InstanceRef) : (withInstance scope name r w).Hostless := by
  unfold withInstance
  split <;> exact hw.congr rfl rfl rfl

@[grind ←]
theorem raises_declareInstance (scope : ScopeRef) (span : Span) (schema name : String)
    (fields : List (String × Expr)) :
    Raises Escapes (declareInstance run scope span schema name fields) := by
  have hrecord : ∀ i, Raises Escapes (modify (withInstance scope name i)) := fun i =>
    raises_modify fun _ hw => hostless_withInstance hw scope name i
  unfold declareInstance
  refine raises_bind raises_get fun w => ?_
  split
  · exact raises_problem _ _
  · refine raises_bind (raises_read _) fun declared => ?_
    refine raises_bind (raises_defaults hrun scope _ _) fun data => ?_
    refine raises_bind (raises_givenFields hrun scope data fields) fun data => ?_
    grind

omit hrun in
@[grind ←]
theorem raises_withHandler (event : String) (condition : Option Expr) (body : Block)
    (scope : ScopeRef) : Raises F (modify (withHandler event condition body scope)) :=
  raises_modify fun _ hw => hw.congr rfl rfl rfl

theorem raises_statement (scope : ScopeRef) (s : Stmt) :
    Raises Escapes (statement run scope s) := by
  have heval := hrun.eval
  have hexec := hrun.exec
  have hloop := hrun.whileLoop
  cases s with
  | forIn span item iterable body =>
    unfold statement
    refine raises_bind (heval iterable scope) fun (v : Value) => ?_
    split <;> grind
  | _ =>
    unfold statement
    grind

/-! ## Calls -/

theorem raises_bindParams (closure scope : ScopeRef) (params : List Param) (args : List Value) :
    Raises Escapes (bindParams run closure scope params args) := by
  induction params generalizing args with
  | nil => unfold bindParams; exact raises_pure _
  | cons p ps ih =>
    unfold bindParams
    cases args with
    | cons v vs => exact raises_bind (raises_define scope p.name v) fun _ => ih vs
    | nil =>
      dsimp only
      split
      · exact raises_bind (hrun.eval _ closure) fun v =>
          raises_bind (raises_define scope p.name v) fun _ => ih []
      · exact raises_bind (raises_define scope p.name .null) fun _ => ih []

theorem raises_callFunction (r : FunctionRef) (args : List Value) (span : Option Span) :
    Raises Escapes (callFunction run r args span) := by
  have hinvoke : ∀ f : Closure, Raises Escapes (invoke run f args) := by
    intro f
    have heval := hrun.eval
    have hparams := raises_bindParams hrun
    unfold invoke
    grind
  unfold callFunction
  refine raises_bind raises_get fun w => ?_
  dsimp only
  split
  · exact raises_problem _ _
  · refine raises_bind (raises_modify fun _ hw => hw.congr rfl rfl rfl) fun _ => ?_
    exact raises_bind (raises_read _) fun f =>
      raises_ensuring (hinvoke f) fun _ hw => hw.congr rfl rfl rfl

/-- No host made the native, or it does nothing. -/
theorem raises_native (n : Native) (args : List Value) :
    Raises OfNative (Evaluate.native run n args) := by
  unfold Evaluate.native
  split
  · exact hrun.raises_work (work_builtin _ args)
  · rename_i r
    intro w hw
    have hown := hw.natives r
    have hread : Eval.read (fun s => s.native r) w = .ok (w.store.native r) w := rfl
    rw [Eval.run_bind_of_ok hread]
    cases hmade : w.store.native r with
    | listMember items member => exact hrun.raises_work (work_listMember member items args) w hw
    | stringMember text member => exact hrun.raises_work (work_stringMember member text args) w hw
    | callback f name => exact (hrun.call f args none).mono (fun _ hf => hf.ofNative) w hw
    | host name f =>
      rw [hmade] at hown
      dsimp only
      rw [hown args]
      exact hw

/-! ## Files -/

omit hrun in
theorem hostless_recordImports {w : World} (hw : w.Hostless) (program : Program)
    (file : Option String) : (recordImports program file w).Hostless := by
  unfold recordImports
  split <;> exact hw.congr rfl rfl rfl

theorem raises_topLevel (ss : List Stmt) : Raises Escapes (topLevel run ss) := by
  induction ss with
  | nil => exact raises_pure _
  | cons s rest ih =>
    unfold topLevel
    refine raises_bind (hrun.exec s globalScope) fun (c : Completion) => ?_
    split
    · exact raises_pure _
    · exact ih

theorem raises_execute (program : Program) (file : Option String) :
    Raises Escapes (execute run program file) := by
  refine raises_bind raises_get fun outer => ?_
  refine raises_bind (raises_modify fun _ hw => hw.congr rfl rfl rfl) fun _ => ?_
  refine raises_ensuring (raises_bind (raises_modify fun _ hw => ?_) fun _ => ?_)
    fun _ hw => hw.congr rfl rfl rfl
  · exact hostless_recordImports hw program file
  · exact raises_topLevel hrun program.body

omit hrun in
theorem raises_compiled (source : String) (file : Option String) :
    Raises F (compiled source file) := by
  unfold compiled
  split
  · exact raises_pure _
  · exact fun _ hw => ⟨hw, nofun⟩

theorem raises_load (source file : String) : Raises Escapes (load run source file) :=
  raises_bind (raises_compiled source file) fun program =>
    raises_bind (raises_modify fun _ hw => hw.congr rfl rfl rfl) fun _ =>
      raises_execute hrun program file

omit hrun in
theorem raises_unbind (kept : Table String Kept) (names : List String) :
    Raises F (unbind kept names) := by
  induction names generalizing kept with
  | nil => exact raises_pure _
  | cons name rest ih =>
    unfold unbind
    refine raises_bind (raises_global? name) fun found => ?_
    refine raises_bind (raises_modifyStore fun _ => rfl) fun _ => ?_
    split
    · exact raises_bind (raises_read _) fun i => ih _
    · exact ih kept

omit hrun in
theorem raises_withdraw (file : String) : Raises F (withdraw file) :=
  raises_bind (raises_modify fun _ hw => hw.congr rfl rfl rfl) fun _ =>
    raises_bind raises_get fun _ =>
      raises_bind (raises_modify fun _ hw => hw.congr rfl rfl rfl) fun _ => raises_unbind _ _

omit hrun in
theorem raises_restoreAll (entries : List (String × Kept)) : Raises F (restoreAll entries) := by
  induction entries with
  | nil => exact raises_pure _
  | cons entry rest ih =>
    unfold restoreAll
    grind

theorem raises_reload (source file : String) :
    Raises Escapes (reload run source file) := by
  have hreplace : ∀ program, Raises Escapes (replace run program file) := fun program =>
    raises_bind
      (raises_bind (raises_withdraw file) fun kept =>
        raises_bind (raises_execute hrun program file) fun _ => raises_restoreAll kept.entries)
      fun _ => raises_bind (raises_newMap _) fun data => raises_emit hrun reloadEvent data
  unfold reload
  refine raises_bind raises_get fun w => ?_
  split
  · exact raises_bind (raises_compiled source file) fun program =>
      raises_bind (raises_modify fun _ hw => hw.congr rfl rfl rfl) fun _ => hreplace program
  · exact raises_load hrun source file

end Runner

/-! ## Runs -/

/-- Runs with a bound break off with those faults only that pass through a program. -/
theorem tame_bounded (bound : Nat) : Tame (bounded bound) := by
  induction bound with
  | zero =>
    -- without any step left every piece of work fails at once, and not with a fault
    have hfail : ∀ {α : Type} {F : Fault → Prop}, Raises F (throw .outOfFuel : Eval α) :=
      fun _ hw => ⟨hw, nofun⟩
    exact ⟨fun _ _ => hfail, fun _ _ => hfail, fun _ _ _ _ _ => hfail, fun _ _ _ => hfail, hfail,
      fun _ _ => hfail, fun _ _ _ _ _ => hfail, fun _ _ _ _ _ => hfail⟩
  | succ bound ih =>
    exact {
      eval := fun e scope => raises_expression ih scope e
      exec := fun s scope => raises_statement ih scope s
      whileLoop := raises_whileLoop ih
      call := raises_callFunction ih
      drain := raises_drain ih
      native := raises_native ih
      visit := fun v f source place found =>
        ih.raises_work (work_visitNext v f source place found)
      count := fun i stop step upward found =>
        ih.raises_work (work_countNext i stop step upward found) }

theorem tame_run : Tame Evaluate.run := tame_bounded runBound

end EventScript
