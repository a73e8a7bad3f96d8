import EventScript.Proofs.Asked

/-! # What a step asks of its runner

Natives, the host and the dispatch of events ask the runner for tasks like the rules of evaluation
do.  So every task but the call of a function is done by asking for tasks; a call counts while its
body runs, and it is the body that asks.

* `asks_native`    natives
* `asks_perform`   what the host does
* `asks_step`      every task but a call
-/

namespace EventScript

open Evaluate Library

section

variable {α : Type} {allowed : Task → Prop}

/-! ## Sorting -/

section Sorting

variable {below : Runner → α → α → Eval Bool}
  (hbelow : ∀ a b, Asks allowed fun run => below run a b)

include hbelow

theorem asks_placeOf (sorted : Array α) (a : α) (bound lo hi : Nat) :
    Asks allowed fun run => Sorting.placeOf (below run) sorted a bound lo hi := by
  induction bound generalizing lo hi with
  | zero => exact .leaf (Law.obeyed_pure _)
  | succ bound ih =>
    simp only [Sorting.placeOf]
    split
    · exact .leaf (Law.obeyed_pure _)
    · exact .bind (hbelow _ _) fun _ => .ite (ih _ _) (ih _ _)

theorem asks_insertAll (sorted : Array α) (xs : List α) :
    Asks allowed fun run => Sorting.insertAll (below run) sorted xs := by
  induction xs generalizing sorted with
  | nil => exact .leaf (Law.obeyed_pure _)
  | cons x rest ih => exact .bind (asks_placeOf hbelow _ _ _ _ _) fun _ => ih _

theorem asks_fallingRun (last : α) (run xs : List α) :
    Asks allowed fun runner => Sorting.fallingRun (below runner) last run xs := by
  induction xs generalizing last run with
  | nil => exact .leaf (Law.obeyed_pure _)
  | cons x rest ih => exact .bind (hbelow _ _) fun _ => .ite (ih _ _) (.leaf (Law.obeyed_pure _))

theorem asks_risingRun (last : α) (run xs : List α) :
    Asks allowed fun runner => Sorting.risingRun (below runner) last run xs := by
  induction xs generalizing last run with
  | nil => exact .leaf (Law.obeyed_pure _)
  | cons x rest ih => exact .bind (hbelow _ _) fun _ => .ite (.leaf (Law.obeyed_pure _)) (ih _ _)

theorem asks_sorted (xs : List α) :
    Asks allowed fun run => Sorting.sorted (below run) xs := by
  match xs with
  | [] | [_] => exact .leaf (Law.obeyed_pure _)
  | a :: b :: rest =>
    refine .bind (hbelow _ _) fun _ => .ite ?_ ?_
    · exact .bind (asks_fallingRun hbelow _ _ _) fun _ =>
        .bind (asks_insertAll hbelow _ _) fun _ => .leaf (Law.obeyed_pure _)
    · exact .bind (asks_risingRun hbelow _ _ _) fun _ =>
        .bind (asks_insertAll hbelow _ _) fun _ => .leaf (Law.obeyed_pure _)

end Sorting

/-! ## Natives -/

section Natives

variable (hall : ∀ t, allowed t)

include hall

theorem asks_libraryCall (f : Value) (args : List Value) :
    Asks allowed fun run => Library.callValue run f args := by
  cases f with
  | native n => exact .task (hall _)
  | _ => exact .quiet fun _ => work_refuse

theorem asks_visitNext (v : Visit) (f : Value) (source : Visited) (place : Nat)
    (found : List Value) : Asks allowed fun run => visitNext run v f source place found := by
  refine .bind (.quiet fun _ => work_nextVisited _ _) fun next => ?_
  cases next with
  | none => exact .quiet fun _ => work_visitEnd _ _
  | some next =>
    refine .bind (asks_libraryCall hall _ _) fun answer => ?_
    refine .bind (.leaf (Law.obeyed_truth _)) fun yes => ?_
    cases v <;> cases yes
    all_goals first
      | exact .task (hall _)
      | exact .leaf (Law.obeyed_pure _)

theorem asks_visitAll (v : Visit) (value f : Value) :
    Asks allowed fun run => visitAll run v value f :=
  .bind (.quiet fun _ => work_visited value) fun _ => .task (hall _)

theorem asks_countNext (i stop step : Value) (upward : Bool) (found : Array Value) :
    Asks allowed fun run => countNext run i stop step upward found := by
  refine .bind (.leaf ?_) fun _ => .ite ?_ (.leaf (Law.obeyed_pure _))
  · split <;> exact Law.obeyed_quiet fun _ => work_below _ _
  · exact .bind (.quiet fun _ => work_number _) fun _ =>
      .bind (.quiet fun _ => work_number _) fun _ => .bind (.leaf (Law.obeyed_ofExcept _)) fun _ =>
        .bind (.leaf (Law.obeyed_ofNumber _)) fun _ => .task (hall _)

theorem asks_range (start stop step : Value) :
    Asks allowed fun run => range run start stop step := by
  have hcounted : ∀ upward, Asks allowed fun run =>
      run (.count start stop step upward #[]) >>= Eval.newList := fun _ =>
    .bind (.task (hall _)) fun _ => .leaf (Law.obeyed_newList _)
  exact .bind (.quiet fun _ => work_below _ _) fun _ => .ite (hcounted true)
    (.bind (.quiet fun _ => work_below _ _) fun _ => .ite (hcounted false)
      (.leaf (Law.obeyed_newList _)))

theorem asks_foldItems (f acc : Value) (place : Nat) (vs : List Value) :
    Asks allowed fun run => foldItems run f acc place vs := by
  induction vs generalizing acc place with
  | nil => exact .leaf (Law.obeyed_pure _)
  | cons v rest ih => exact .bind (asks_libraryCall hall _ _) fun _ => ih _ _

/-- Two items are compared by calling a function. -/
theorem asks_comparison (f a b : Value) :
    Asks allowed fun run => Library.callValue run f [a, b] >>= fun v => below v (.int 0) :=
  .bind (asks_libraryCall hall _ _) fun _ => .quiet fun _ => work_below _ _

theorem asks_sort (v compare : Value) : Asks allowed fun run => Library.sort run v compare := by
  refine .bind (.quiet fun _ => work_items v) fun vs => ?_
  cases compare with
  | null =>
    exact .bind (.leaf (Law.obeyed_read _)) fun keyed =>
      .bind (.quiet fun _ => work_sorted (fun _ _ => .pure _) keyed) fun _ =>
        .quiet fun _ => work_listOf _
  | _ =>
    exact .bind (asks_sorted (asks_comparison hall _) vs) fun _ => .quiet fun _ => work_listOf _

theorem asks_reduce (v f : Value) :
    Asks allowed fun run => ListFunction.apply run .reduce [v, f] := by
  refine .bind (.quiet fun _ => work_items v) fun vs => ?_
  cases vs with
  | nil => exact .leaf (Law.obeyed_pure _)
  | cons start rest => exact asks_foldItems hall _ _ _ _

theorem asks_listFunction (f : ListFunction) (args : List Value) :
    Asks allowed fun run => f.apply run args := by
  have hfold : ∀ v f start, Asks allowed fun run =>
      items v >>= foldItems run f start 0 := fun _ _ _ =>
    .bind (.quiet fun _ => work_items _) fun _ => asks_foldItems hall _ _ _ _
  have hflatMap : ∀ v f, Asks allowed fun run => visitAll run .collect v f >>= flatten :=
    fun _ _ => .bind (asks_visitAll hall _ _ _) fun _ => .quiet fun _ => work_flatten _
  unfold ListFunction.apply
  split
  -- what counts, visits items, folds or sorts asks the runner, and the rest asks for nothing
  all_goals first
    | exact asks_range hall _ _ _
    | exact asks_visitAll hall _ _ _
    | exact asks_reduce hall _ _
    | exact hfold _ _ _
    | exact hflatMap _ _
    | exact asks_sort hall _ _
    | exact .quiet fun _ => by grind

theorem asks_listMember (m : ListMember) (r : ListRef) (args : List Value) :
    Asks allowed fun run => m.apply run r args := by
  unfold ListMember.apply
  split
  all_goals first
    | exact asks_listFunction hall _ _
    | exact asks_sort hall _ _
    | exact .quiet fun _ => by grind

theorem asks_builtin (b : Builtin) (args : List Value) :
    Asks allowed fun run => b.apply run args := by
  cases b with
  | core f => exact .quiet fun _ => work_coreFunction f args
  | math f => exact .quiet fun _ => work_mathFunction f args
  | list f => exact asks_listFunction hall f args
  | string f => exact .quiet fun _ => work_stringFunction f args
  | random f => exact .quiet fun _ => work_randomFunction f args
  | vector f => exact .quiet fun _ => work_vectorFunction f args

end Natives

/-! ## Files -/

theorem sameCeilings_unsubscribe (event : String) (listener : ListenerRef) (w : World) :
    SameCeilings w (unsubscribe event listener w) := by
  unfold unsubscribe
  split <;> exact ⟨rfl, rfl⟩

theorem Law.obeyed_compiled {L : Law} (source : String) (file : Option String) :
    L.Obeyed (compiled source file) := by
  unfold compiled
  cases Program.compile source file with
  | ok program => exact obeyed_pure _
  | error d => exact obeyed_throw fun h => by cases h

section Host

variable (hall : ∀ t, allowed t)

include hall

theorem asks_load (source file : String) : Asks allowed fun run => load run source file :=
  .bind (.leaf (Law.obeyed_compiled _ _)) fun program =>
    .bind (.modify fun _ => ⟨rfl, rfl⟩) fun _ =>
      asks_execute (fun _ _ => hall _) program file

theorem asks_replace (program : Program) (file : String) :
    Asks allowed fun run => replace run program file := by
  refine .bind ?_ fun _ => .bind (.leaf (Law.obeyed_newMap _)) fun _ => asks_emit (hall _) _ _
  exact .bind (.leaf (Law.obeyed_withdraw file)) fun _ =>
    .bind (asks_execute (fun _ _ => hall _) program file) fun _ => .leaf (Law.obeyed_restoreAll _)

theorem asks_reload (source file : String) : Asks allowed fun run => reload run source file := by
  refine .bind (.leaf Law.obeyed_get) fun w => .ite ?_ (asks_load hall source file)
  exact .bind (.leaf (Law.obeyed_compiled _ _)) fun program =>
    .bind (.modify fun _ => ⟨rfl, rfl⟩) fun _ => asks_replace hall program file

/-! ## The host -/

theorem asks_perform (a : HostAction) : Asks allowed fun run => perform run a := by
  induction a with
  | done v => exact .leaf (Law.obeyed_pure v)
  | fail f => exact .leaf (Law.obeyed_fault f)
  | note author shown next ih => exact .bind (.leaf (Law.obeyed_note author shown)) fun _ => ih
  | look name next ih => exact .bind (.leaf (Law.obeyed_global? name)) fun _ => ih _
  | build d next ih => exact .bind (.leaf (Law.obeyed_build d)) fun v => ih v
  | put m key v next ih => exact .bind (.leaf (Law.obeyed_putKey m _ v)) fun _ => ih
  | emit event data next ih => exact .bind (asks_emitValues (hall _) event data) fun _ => ih
  | load source file next ih => exact .bind (asks_load hall source file) fun _ => ih
  | reload source file next ih => exact .bind (asks_reload hall source file) fun _ => ih
  | call f args next ih => exact .bind (asks_libraryCall hall f args) fun v => ih v
  | unsubscribe event listener next ih =>
    exact .bind (.modify (sameCeilings_unsubscribe event listener)) fun _ => ih

theorem asks_native (n : Native) (args : List Value) :
    Asks allowed fun run => native run n args := by
  cases n with
  | builtin b => exact asks_builtin hall b args
  | made r =>
    refine .bind (.leaf (Law.obeyed_read _)) fun made => ?_
    cases made with
    | listMember items member => exact asks_listMember hall member items args
    | stringMember text member => exact .quiet fun _ => work_stringMember member text args
    | callback f name => exact .task (hall _)
    | host name f => exact asks_perform hall (f args)

/-! ## Dispatching events -/

theorem asks_tell (data : MapRef) (r : ListenerRef) : Asks allowed fun run => tell run data r :=
  .bind (.leaf (Law.obeyed_read _)) fun _ => .bind (asks_perform hall _) fun _ =>
    .leaf (Law.obeyed_pure _)

theorem asks_tellAll (data : MapRef) (rs : List ListenerRef) :
    Asks allowed fun run => tellAll run data rs := by
  induction rs with
  | nil => exact .leaf (Law.obeyed_pure _)
  | cons r rest ih => exact .bind (asks_tell hall data r) fun _ => ih

theorem asks_tellEach (name : String) (data : MapRef) (rs : List ListenerRef) :
    Asks allowed fun run => tellEach run name data rs := by
  induction rs with
  | nil => exact .leaf (Law.obeyed_pure _)
  | cons r rest ih =>
    exact .bind (.leaf (Law.obeyed_read _)) fun _ => .bind (.leaf (Law.obeyed_newMap _)) fun _ =>
      .bind (asks_tell hall _ r) fun _ => ih

theorem asks_block (b : Block) : BlockAsks allowed b :=
  asks_statements fun _ _ _ => hall _

theorem asks_handle (data : MapRef) (h : Handler) :
    Asks allowed fun run => handle run data h := by
  have hscope : concluding.Obeyed (eventScope h.scope data) :=
    Law.obeyed_bind (Law.obeyed_childScope _) fun _ =>
      Law.obeyed_bind (Law.obeyed_define trivial _) fun _ => Law.obeyed_pure _
  have hguard : Asks allowed fun run => guardHolds run h data := by
    unfold guardHolds
    split
    · exact .leaf (Law.obeyed_pure _)
    · exact .bind (.leaf hscope) fun _ => .bind (.task (hall _)) fun v => .leaf (Law.obeyed_truth v)
  refine .bind hguard fun _ => .bind (.modify fun _ => ⟨rfl, rfl⟩) fun _ =>
    .ite ?_ (.leaf (Law.obeyed_pure _))
  exact .bind (.modify fun _ => ⟨rfl, rfl⟩) fun _ => .bind (.leaf hscope) fun scope =>
    .bind (asks_block hall h.body scope) fun _ => .leaf (Law.obeyed_pure _)

theorem asks_handleAll (data : MapRef) (hs : List Handler) :
    Asks allowed fun run => handleAll run data hs := by
  induction hs with
  | nil => exact .leaf (Law.obeyed_pure _)
  | cons h rest ih => exact .bind (asks_handle hall data h) fun _ => ih

theorem asks_drain : Asks allowed fun run => drain run := by
  refine .bind (.leaf Law.obeyed_get) fun w => ?_
  cases w.queue with
  | nil => exact .leaf (Law.obeyed_pure _)
  | cons e rest =>
    refine .bind (.modify fun _ => ⟨rfl, rfl⟩) fun _ => .bind ?_ fun _ => .task (hall _)
    refine .bind (.leaf Law.obeyed_get) fun w => .bind (.modify fun _ => ⟨rfl, rfl⟩) fun _ =>
      .bind ?_ fun _ => .modify fun _ => ⟨rfl, rfl⟩
    exact .bind (.leaf (Law.obeyed_listenersFor _)) fun _ => .bind (asks_tellAll hall _ _) fun _ =>
      .bind (.leaf (Law.obeyed_listenersFor _)) fun _ => .bind (asks_tellEach hall _ _ _) fun _ =>
        asks_handleAll hall _ _

/-! ## Steps -/

/-- The task is the call of a function of the language. -/
def Task.isCall : Task → Bool
  | call _ _ _ => true
  | _ => false

theorem asks_whileLoop (span : Span) (test : Expr) (body : Block) (scope : ScopeRef)
    (rounds : Nat) : Asks allowed fun run => whileLoop run span test body scope rounds := by
  refine .bind (.task (hall _)) fun v => .bind (.leaf (Law.obeyed_truth v)) fun _ =>
    .ite ?_ (.leaf (Law.obeyed_pure _))
  refine .bind (.leaf (Law.obeyed_checkRounds _ span)) fun _ => ?_
  refine .bind (.leaf (Law.obeyed_childScope scope)) fun inner => ?_
  refine .bind (asks_block hall body inner) fun c => ?_
  cases c with
  | broke | returned _ => exact .leaf (Law.obeyed_pure _)
  | normal | continued => exact .task (hall _)

theorem Node.evalAllowed (x : Node) : x.EvalAllowed allowed := by
  cases x with
  | expr e => exact fun _ => hall _
  | entry x => exact ⟨fun _ _ _ => hall _, fun _ => hall _⟩
  | _ => trivial

theorem Node.execAllowed (x : Node) : x.ExecAllowed allowed := by
  cases x with
  | stmt _ | ifStmt _ => exact fun _ => hall _
  | block _ | matchCase _ => exact asks_block hall _
  | alternate a =>
    cases a with
    | nothing => trivial
    | elseBlock b => exact asks_block hall b
    | elseIf t => exact fun _ => hall _
  | _ => trivial

/-- Every task but a call is done by asking for tasks. -/
theorem asks_step {t : Task} (ht : t.isCall = false) : Asks allowed fun run => step run t := by
  cases t with
  | call f args span => cases ht
  | eval e scope =>
    exact asks_expression ⟨fun _ _ _ => hall _, fun _ _ => hall _⟩
      (fun child _ => child.2.evalAllowed hall) scope
  | exec s scope =>
    by_cases hs : ∃ t, s = .ifThen t
    · obtain ⟨t, rfl⟩ := hs
      exact asks_ifThen (fun _ _ => hall _) (fun child _ => child.2.execAllowed hall) scope
    · exact asks_statement (fun _ _ => hall _) (hall _) (fun _ _ _ _ => hall _)
        (fun child _ => child.2.execAllowed hall) (fun t ht => hs ⟨t, ht⟩) scope
  | whileLoop span test body scope rounds => exact asks_whileLoop hall span test body scope rounds
  | native n args => exact asks_native hall n args
  | drain => exact asks_drain hall
  | visit v f source place found => exact asks_visitNext hall v f source place found
  | count i stop step upward found => exact asks_countNext hall i stop step upward found

end Host

end

end EventScript
