import EventScript.Proofs.Agree
import EventScript.Proofs.Settled

/-! # What computations ask of their runner

The rules of evaluation are written against a runner, so each of them is a chain of tasks that the
runner is asked for and of computations that ask for nothing.  What carries over such chains has to
be shown of the tasks only.

* `Asks.settles`        a computation settles when the tasks that it asks for do
* `Asks.agree`          its outcome is the same with two runners that do these tasks alike
* `asks_expression`, `asks_statement`, `asks_invoke`, `asks_execute`   the rules of evaluation
-/

namespace EventScript

open Evaluate

/-- The computation asks its runner for some tasks.  What else it does keeps to the ceilings: it
    changes neither the settings nor the number of calls in progress, so each of these tasks starts
    with the ceilings with which the computation itself started. -/
inductive Asks (allowed : Task → Prop) : {α : Type} → (Runner → Eval α) → Prop
  /-- A computation that asks for nothing. -/
  | leaf {α : Type} {act : Eval α} (hact : concluding.Obeyed act) : Asks allowed fun _ => act
  /-- A task. -/
  | task {t : Task} (ht : allowed t) : Asks allowed fun run => run t
  | bind {α β : Type} {act : Runner → Eval α} {next : Runner → α → Eval β}
      (hact : Asks allowed act) (hnext : ∀ a, Asks allowed fun run => next run a) :
      Asks allowed fun run => act run >>= next run
  | ensuring {α : Type} {act : Runner → Eval α} {repair : World → World}
      (hact : Asks allowed act) (hrepair : ∀ w, SameCeilings w (repair w)) :
      Asks allowed fun run => Eval.ensuring (act run) repair
  | onFailure {α : Type} {act : Runner → Eval α} {repair : World → World}
      (hact : Asks allowed act) (hrepair : ∀ w, SameCeilings w (repair w)) :
      Asks allowed fun run => Eval.onFailure (act run) repair
  | reporting {α : Type} {act : Runner → Eval α} (name : String) (span : Option Span)
      (hact : Asks allowed act) : Asks allowed fun run => Eval.reporting name span (act run)

theorem Stands.congr {settings : Settings} {depth : Nat} {v w : World}
    (hv : Stands settings depth v) (h : SameCeilings v w) : Stands settings depth w :=
  ⟨h.settings.trans hv.settings, h.callDepth.trans hv.callDepth⟩

/-- A piece of work settles. -/
abbrev TaskSettles (settings : Settings) (depth : Nat) (runs : Nat → Runner) (t : Task) : Prop :=
  Settles settings depth fun n => runs n t

section

variable {α : Type} {allowed : Task → Prop} {settings : Settings} {depth : Nat}

namespace Asks

/-- Work of the library that goes back to no runner. -/
theorem quiet {act : Eval α} (h : ∀ run, Work run act) : Asks allowed fun _ => act :=
  .leaf (Law.obeyed_quiet h)

/-- A change of the world that leaves the ceilings alone. -/
theorem modify {f : World → World} (hf : ∀ w, SameCeilings w (f w)) :
    Asks allowed fun _ => (modify f : Eval Unit) := .leaf hf

theorem ite {p : Prop} [Decidable p] {act act' : Runner → Eval α} (hact : Asks allowed act)
    (hact' : Asks allowed act') : Asks allowed fun run => if p then act run else act' run := by
  split <;> assumption

/-- What asks for tasks that settle settles. -/
theorem settles {runs : Nat → Runner} {act : Runner → Eval α}
    (h : Asks (TaskSettles settings depth runs) act) :
    Settles settings depth fun n => act (runs n) := by
  induction h with
  | leaf hact => exact .leaf hact
  | task ht => exact ht
  | bind _ _ ihact ihnext => exact .bind ihact ihnext
  | ensuring _ hrepair ih => exact .ensuring ih fun w hw => hw.congr (hrepair w)
  | onFailure _ hrepair ih => exact .onFailure ih fun w hw => hw.congr (hrepair w)
  | reporting name span _ ih => exact .reporting name span ih

end Asks

/-! ## Two runners -/

/-- Computations that keep to the ceilings agree with themselves. -/
theorem Law.Obeyed.agree {act : Eval α} (hact : concluding.Obeyed act) :
    Agree (Stands settings depth) act act := by
  refine .refl fun w hw => ?_
  have h := hact w
  cases ha : act w with
  | ok a v =>
    rw [ha] at h
    exact hw.congr h
  | error e v =>
    rw [ha] at h
    exact hw.congr h.2

/-- Runners that do the tasks alike that a computation asks for make no difference to it. -/
theorem Asks.agree {run run' : Runner} {act : Runner → Eval α} (h : Asks allowed act)
    (hallowed : ∀ t, allowed t → Agree (Stands settings depth) (run t) (run' t)) :
    Agree (Stands settings depth) (act run) (act run') := by
  -- only the tasks see the runner; what stands around them is the same on both sides
  induction h with
  | leaf hact => exact hact.agree
  | task ht => exact hallowed _ ht
  | bind _ _ ihact ihnext => exact .bind ihact ihnext
  | ensuring _ hrepair ih =>
    exact fun w hw => (ih w hw).ensuring fun v hv => ⟨rfl, hv.congr (hrepair v)⟩
  | onFailure _ hrepair ih => exact .onFailure ih fun v hv => hv.congr (hrepair v)
  | reporting name span _ ih => exact .reporting name span ih

/-! ## Expressions -/

/-- What does not belong to the expression at hand may be asked for: calls of functions and of
    natives. -/
structure OutwardAllowed (allowed : Task → Prop) : Prop where
  call : ∀ f args span, allowed (.call f args span)
  native : ∀ f args, allowed (.native f args)

theorem asks_evalAll {es : List Expr}
    (hes : ∀ e ∈ es, ∀ scope, allowed (.eval e scope))
    (scope : ScopeRef) : Asks allowed fun run => evalAll run scope es := by
  induction es with
  | nil => exact .leaf (Law.obeyed_pure _)
  | cons e rest ih =>
    obtain ⟨he, hrest⟩ := List.forall_mem_cons.mp hes
    exact .bind (.task (he scope)) fun v => .bind (ih hrest) fun vs => .leaf (Law.obeyed_pure _)

theorem asks_entryKey {key : EntryKey}
    (hkey : ∀ e, key = .computed e → ∀ scope, allowed (.eval e scope))
    (scope : ScopeRef) (span : Span) :
    Asks allowed fun run => entryKey run scope span key := by
  cases key with
  | written s => exact .leaf (Law.obeyed_pure _)
  | computed e =>
    refine .bind (.task (hkey e rfl scope)) fun v => ?_
    cases v with
    | text s => exact .leaf (Law.obeyed_pure _)
    | _ => exact .leaf (Law.obeyed_problem _ _)

/-- The parts of a map entry may be asked for. -/
def EntryAllowed (allowed : Task → Prop) (x : MapEntry) : Prop :=
  (∀ e, x.key = .computed e → ∀ scope, allowed (.eval e scope)) ∧
    ∀ scope, allowed (.eval x.value scope)

theorem asks_evalEntries {entries : List MapEntry}
    (hentries : ∀ x ∈ entries, EntryAllowed allowed x) (scope : ScopeRef)
    (t : Table Key Value) :
    Asks allowed fun run => evalEntries run scope t entries := by
  induction entries generalizing t with
  | nil => exact .leaf (Law.obeyed_pure _)
  | cons entry rest ih =>
    obtain ⟨⟨hkey, hvalue⟩, hrest⟩ := List.forall_mem_cons.mp hentries
    obtain ⟨span, key, value⟩ := entry
    exact .bind (asks_entryKey hkey scope span) fun key =>
      .bind (.task (hvalue scope)) fun v => ih hrest _

theorem asks_indexKey {key : Expr}
    (hkey : ∀ scope, allowed (.eval key scope)) (scope : ScopeRef) :
    Asks allowed fun run => indexKey run scope key := by
  refine .bind (.task (hkey scope)) fun v => ?_
  cases v with
  | text _ | number _ | nan _ => exact .leaf (Law.obeyed_pure _)
  | _ => exact .leaf (Law.obeyed_problem _ _)

theorem asks_callValue (houtward : OutwardAllowed allowed) (callee : Expr)
    (f : Value) (args : List Value) (span : Span) :
    Asks allowed fun run => callValue run callee f args span := by
  cases f with
  | function r => exact .task (houtward.call r args (some span))
  | native f =>
    exact .bind (.leaf (Law.obeyed_mapM Law.obeyed_toNative args)) fun args =>
      .reporting _ _ (.task (houtward.native f args))
  | _ => exact .leaf (Law.obeyed_problem _ _)

/-- The expressions in a part of a tree may be asked for. -/
def Node.EvalAllowed (allowed : Task → Prop) : Node → Prop
  | expr e => ∀ scope, allowed (.eval e scope)
  | entry x => EntryAllowed allowed x
  | _ => True

theorem asks_expression (houtward : OutwardAllowed allowed) {e : Expr}
    (hparts : ∀ child ∈ (Node.expr e).children, child.2.EvalAllowed allowed)
    (scope : ScopeRef) : Asks allowed fun run => expression run scope e := by
  cases e with
  | number _ _ | string _ _ | color _ _ | boolean _ _ | null _ => exact .leaf (Law.obeyed_pure _)
  | name _ _ => exact .leaf (Law.obeyed_lookup _ _ _)
  | vector _ es | list _ es =>
    have hes : ∀ e ∈ es, ∀ scope, allowed (.eval e scope) :=
      fun _ he => hparts _ (List.mem_map_of_mem he)
    exact .bind (asks_evalAll hes scope) fun vs => .leaf (Law.obeyed_newList _)
  | map _ entries =>
    have hentries : ∀ x ∈ entries, EntryAllowed allowed x :=
      fun _ hx => hparts _ (List.mem_map_of_mem hx)
    exact .bind (asks_evalEntries hentries scope .empty) fun t =>
      .bind (.leaf (Law.obeyed_newMap t)) fun r => .leaf (Law.obeyed_pure _)
  | member span object property =>
    have hobject := hparts (0, .expr object) (by simp)
    refine .bind (.task (hobject scope)) fun v => ?_
    cases v with
    | null => exact .leaf (Law.obeyed_problem _ _)
    | _ => exact .leaf (Law.obeyed_access _ _ _)
  | index span object key =>
    have hobject := hparts (0, .expr object) (by simp)
    have hkey := hparts (0, .expr key) (by simp)
    refine .bind (.task (hobject scope)) fun v => ?_
    cases v with
    | null => exact .leaf (Law.obeyed_problem _ _)
    | _ =>
      exact .bind (asks_indexKey hkey scope) fun k => .leaf (Law.obeyed_access _ _ _)
  | call span callee arguments =>
    obtain ⟨hcallee, harguments⟩ := List.forall_mem_cons.mp hparts
    have hargs : ∀ e ∈ arguments, ∀ scope, allowed (.eval e scope) :=
      fun _ he => harguments _ (List.mem_map_of_mem he)
    exact .bind (.task (hcallee scope)) fun f => .bind (asks_evalAll hargs scope) fun args =>
      asks_callValue houtward callee f args span
  | binary span operator left right =>
    have hleft := hparts (0, .expr left) (by simp)
    have hright := hparts (0, .expr right) (by simp)
    have htruth : Asks allowed fun run => do
        return Value.bool (← Eval.truth (← run (.eval right scope))) :=
      .bind (.task (hright scope)) fun w => .bind (.leaf (Law.obeyed_truth w)) fun _ =>
        .leaf (Law.obeyed_pure _)
    cases operator with
    | and =>
      exact .bind (.task (hleft scope)) fun v => .bind (.leaf (Law.obeyed_truth v)) fun b =>
        .ite htruth (.leaf (Law.obeyed_pure _))
    | or =>
      exact .bind (.task (hleft scope)) fun v => .bind (.leaf (Law.obeyed_truth v)) fun b =>
        .ite (.leaf (Law.obeyed_pure _)) htruth
    | _ =>
      exact .bind (.task (hleft scope)) fun v => .bind (.task (hright scope)) fun w =>
        .leaf (Law.obeyed_binary _ v w span)
  | unary span operator operand =>
    have hoperand := hparts (0, .expr operand) (by simp)
    exact .bind (.task (hoperand scope)) fun v => .leaf (Law.obeyed_unary _ v span)
  | conditional _ test consequent alternate =>
    have htest := hparts (0, .expr test) (by simp)
    have hconsequent := hparts (0, .expr consequent) (by simp)
    have halternate := hparts (0, .expr alternate) (by simp)
    exact .bind (.task (htest scope)) fun v => .bind (.leaf (Law.obeyed_truth v)) fun b =>
      .ite (.task (hconsequent scope)) (.task (halternate scope))
  | lambda _ params body =>
    exact .leaf (Law.obeyed_bind (Law.obeyed_newFunction ⟨fun _ _ => trivial, trivial⟩)
      fun r => Law.obeyed_pure _)
  | reactive _ root path => exact .leaf (Law.obeyed_read fun s => reactive s root path)

/-! ## Statements -/

theorem asks_statements {ss : List Stmt}
    (hss : ∀ s ∈ ss, ∀ scope, allowed (.exec s scope))
    (scope : ScopeRef) : Asks allowed fun run => statements run scope ss := by
  induction ss with
  | nil => exact .leaf (Law.obeyed_pure _)
  | cons s rest ih =>
    obtain ⟨hs, hrest⟩ := List.forall_mem_cons.mp hss
    refine .bind (.task (hs scope)) fun c => ?_
    cases c with
    | normal => exact ih hrest
    | _ => exact .leaf (Law.obeyed_pure _)

/-- A block asks for what is allowed, in whatever scope it runs. -/
def BlockAsks (allowed : Task → Prop) (b : Block) : Prop :=
  ∀ scope, Asks allowed fun run => block run b scope

theorem asks_forEach {body : Block} (hbody : BlockAsks allowed body)
    (span : Span) (item : String) (scope : ScopeRef) (rounds : Nat) (vs : List Value) :
    Asks allowed fun run => forEach run span item body scope rounds vs := by
  induction vs generalizing rounds with
  | nil => exact .leaf (Law.obeyed_pure _)
  | cons v rest ih =>
    refine .bind (.leaf (Law.obeyed_checkRounds _ span)) fun _ => ?_
    refine .bind (.leaf (Law.obeyed_childScope scope)) fun inner => ?_
    refine .bind (.leaf (Law.obeyed_define trivial v)) fun _ => ?_
    refine .bind (hbody inner) fun c => ?_
    cases c with
    | broke | returned _ => exact .leaf (Law.obeyed_pure _)
    | normal | continued => exact ih _

theorem asks_emit (hdrain : allowed .drain) (name : String) (data : MapRef) :
    Asks allowed fun run => emit run name data := by
  refine .bind (.modify fun _ => ⟨rfl, rfl⟩) fun _ => ?_
  refine .bind (.leaf Law.obeyed_get) fun w => .ite ?_ (.leaf (Law.obeyed_pure _))
  refine .bind (.modify fun _ => ⟨rfl, rfl⟩) fun _ => ?_
  exact .ensuring (.onFailure (.task hdrain) fun _ => ⟨rfl, rfl⟩) fun _ => ⟨rfl, rfl⟩

/-- What is done once a statement has an event to emit. -/
theorem asks_emitValues (hdrain : allowed .drain) (event data : Value) :
    Asks allowed fun run => emitValues run event data := by
  cases event with
  | text name =>
    cases data with
    | null => exact .bind (.leaf (Law.obeyed_newMap _)) fun r => asks_emit hdrain name r
    | map r => exact asks_emit hdrain name r
    | _ => exact .leaf (Law.obeyed_problem _ _)
  | _ => exact .leaf (Law.obeyed_problem _ _)

section Evaluated

variable (heval : ∀ e scope, allowed (.eval e scope))

include heval

theorem asks_assignTo (scope : ScopeRef) (v : Value) (target : Target) :
    Asks allowed fun run => assignTo run scope v target := by
  cases target with
  | name _ name => exact .leaf (Law.obeyed_assign trivial v)
  | member span object property =>
    refine .bind (.task (heval object scope)) fun obj => ?_
    cases obj with
    | null => exact .leaf (Law.obeyed_problem _ _)
    | _ => exact .leaf (Law.obeyed_putMember _ _ v span)
  | index span object key =>
    refine .bind (.task (heval object scope)) fun obj => ?_
    cases obj with
    | null => exact .leaf (Law.obeyed_problem _ _)
    | _ =>
      exact .bind (asks_indexKey (heval key) scope) fun k =>
        .leaf (Law.obeyed_putMember _ k v span)
  | reactive span root path => exact .leaf (Law.obeyed_putReactive root path v span)

theorem asks_eventName (scope : ScopeRef) (e : Expr) :
    Asks allowed fun run => eventName run scope e := by
  refine .bind (.task (heval e scope)) fun v => ?_
  cases v with
  | text name => exact .leaf (Law.obeyed_pure _)
  | _ => exact .leaf (Law.obeyed_problem _ _)

theorem asks_caseGuardHolds (scope : ScopeRef) (guard : Option Expr) :
    Asks allowed fun run => caseGuardHolds run scope guard := by
  cases guard with
  | none => exact .leaf (Law.obeyed_pure _)
  | some e => exact .bind (.task (heval e scope)) fun v => .leaf (Law.obeyed_truth v)

theorem asks_defaults (scope : ScopeRef) (t : Table String Value) (fields : List SchemaField) :
    Asks allowed fun run => defaults run scope t fields := by
  induction fields generalizing t with
  | nil => exact .leaf (Law.obeyed_pure _)
  | cons f rest ih =>
    simp only [defaults]
    cases f.default with
    | none => exact ih t
    | some e => exact .bind (.task (heval e scope)) fun v => ih _

theorem asks_givenFields (scope : ScopeRef) (t : Table String Value)
    (fields : List (String × Expr)) :
    Asks allowed fun run => givenFields run scope t fields := by
  induction fields generalizing t with
  | nil => exact .leaf (Law.obeyed_pure _)
  | cons f rest ih => exact .bind (.task (heval f.2 scope)) fun v => ih _

theorem asks_declareInstance (scope : ScopeRef) (span : Span) (schema name : String)
    (fields : List (String × Expr)) :
    Asks allowed fun run => declareInstance run scope span schema name fields := by
  refine .bind (.leaf Law.obeyed_get) fun w => ?_
  cases w.schemas.get? schema with
  | none => exact .leaf (Law.obeyed_problem _ _)
  | some r =>
    refine .bind (.leaf (Law.obeyed_read _)) fun declared => ?_
    refine .bind (asks_defaults heval scope .empty _) fun data => ?_
    refine .bind (asks_givenFields heval scope data fields) fun data => .leaf ?_
    split
    · exact Law.obeyed_problem _ _
    · exact Law.obeyed_bindInstance schema trivial _ _

end Evaluated

mutual

theorem asks_fits (heval : ∀ e scope, allowed (.eval e scope))
    (scope : ScopeRef) : ∀ (p : Pattern) (v : Value),
    Asks allowed fun run => fits run scope p v
  | .wildcard _, v => by simp only [fits]; exact .leaf (Law.obeyed_pure _)
  | .name _ name, v => by
    simp only [fits]
    exact .bind (.leaf (Law.obeyed_define trivial v)) fun _ => .leaf (Law.obeyed_pure _)
  | .literal _ e, v => by
    simp only [fits]
    exact .bind (.task (heval e scope)) fun w => .leaf (Law.obeyed_read _)
  | .list _ elements, v => by
    simp only [fits]
    cases v with
    | list r =>
      exact .bind (.leaf (Law.obeyed_read _)) fun vs =>
        .ite (asks_allFit heval scope elements _) (.leaf (Law.obeyed_pure _))
    | _ => exact .leaf (Law.obeyed_pure _)
  | .map _ entries, v => by
    simp only [fits]
    cases v with
    | map r => exact asks_entriesFit heval scope r entries
    | _ => exact .leaf (Law.obeyed_pure _)

theorem asks_allFit (heval : ∀ e scope, allowed (.eval e scope))
    (scope : ScopeRef) : ∀ (ps : List Pattern) (vs : List Value),
    Asks allowed fun run => allFit run scope ps vs
  | [], vs => by simp only [allFit]; exact .leaf (Law.obeyed_pure _)
  | p :: ps, [] => by simp only [allFit]; exact .leaf (Law.obeyed_pure _)
  | p :: ps, v :: vs => by
    simp only [allFit]
    exact .bind (asks_fits heval scope p v) fun _ =>
      .ite (asks_allFit heval scope ps vs) (.leaf (Law.obeyed_pure _))

theorem asks_entriesFit (heval : ∀ e scope, allowed (.eval e scope))
    (scope : ScopeRef) (r : MapRef) : ∀ entries : List (String × Pattern),
    Asks allowed fun run => entriesFit run scope r entries
  | [] => by simp only [entriesFit]; exact .leaf (Law.obeyed_pure _)
  | (key, p) :: rest => by
    simp only [entriesFit]
    refine .bind (.leaf (Law.obeyed_read _)) fun t => ?_
    cases t.get? (.text key) with
    | none => exact .leaf (Law.obeyed_pure _)
    | some v =>
      exact .bind (asks_fits heval scope p v) fun _ =>
        .ite (asks_entriesFit heval scope r rest) (.leaf (Law.obeyed_pure _))

end

theorem asks_matchCases (heval : ∀ e scope, allowed (.eval e scope))
    {cases : List MatchCase} (hcases : ∀ c ∈ cases, BlockAsks allowed c.body)
    (scope : ScopeRef) (v : Value) :
    Asks allowed fun run => matchCases run scope v cases := by
  induction cases with
  | nil => exact .leaf (Law.obeyed_pure _)
  | cons c rest ih =>
    obtain ⟨hc, hrest⟩ := List.forall_mem_cons.mp hcases
    refine .bind (.leaf (Law.obeyed_childScope scope)) fun inner => ?_
    refine .bind (asks_fits heval inner c.pattern v) fun _ => .ite ?_ (ih hrest)
    exact .bind (asks_caseGuardHolds heval inner c.guard) fun _ => .ite (hc inner) (ih hrest)

/-- The statements in a part of a tree may be asked for. -/
def Node.ExecAllowed (allowed : Task → Prop) : Node → Prop
  | stmt s => ∀ scope, allowed (.exec s scope)
  | block b => BlockAsks allowed b
  | matchCase c => BlockAsks allowed c.body
  | ifStmt s => ∀ scope, allowed (.exec (.ifThen s) scope)
  | alternate (.elseBlock b) => BlockAsks allowed b
  | alternate (.elseIf s) => ∀ scope, allowed (.exec (.ifThen s) scope)
  | _ => True

theorem asks_ifThen (heval : ∀ e scope, allowed (.eval e scope))
    {s : IfStmt} (hparts : ∀ child ∈ (Node.ifStmt s).children,
      child.2.ExecAllowed allowed) (scope : ScopeRef) :
    Asks allowed fun run => statement run scope (.ifThen s) := by
  have hconsequent := hparts (0, .block s.consequent) (by simp)
  have halternate := hparts (0, .alternate s.alternate) (by simp)
  have hblock : ∀ {b : Block}, BlockAsks allowed b →
      Asks allowed fun run => Eval.childScope scope >>= Evaluate.block run b :=
    fun hb => .bind (.leaf (Law.obeyed_childScope scope)) hb
  refine .bind (.task (heval s.test scope)) fun v => .bind (.leaf (Law.obeyed_truth v)) fun _ =>
    .ite (hblock hconsequent) ?_
  cases hs : s.alternate with
  | nothing => exact .leaf (Law.obeyed_pure _)
  | elseBlock b =>
    rw [hs] at halternate
    exact hblock halternate
  | elseIf t =>
    rw [hs] at halternate
    exact .task (halternate scope)

theorem asks_statement (heval : ∀ e scope, allowed (.eval e scope))
    (hdrain : allowed .drain)
    (hwhile : ∀ {body}, BlockAsks allowed body → ∀ span test scope,
      allowed (.whileLoop span test body scope 0)) {s : Stmt}
    (hparts : ∀ child ∈ (Node.stmt s).children, child.2.ExecAllowed allowed)
    (hs : ∀ t, s ≠ .ifThen t) (scope : ScopeRef) :
    Asks allowed fun run => statement run scope s := by
  have hnormal : Asks allowed fun _ => (pure .normal : Eval Completion) :=
    .leaf (Law.obeyed_pure _)
  cases s with
  | letName _ name e =>
    exact .bind (.task (heval e scope)) fun v =>
      .bind (.leaf (Law.obeyed_define trivial v)) fun _ => hnormal
  | assign _ target e =>
    exact .bind (.task (heval e scope)) fun v => .bind (asks_assignTo heval scope v target) fun _ =>
      hnormal
  | function f =>
    exact .bind (.leaf (Law.obeyed_newFunction ⟨fun _ _ => trivial, trivial⟩)) fun r =>
      .bind (.leaf (Law.obeyed_define trivial _)) fun _ => hnormal
  | ifThen t => exact absurd rfl (hs t)
  | forIn span item iterable body =>
    have hbody := hparts (0, .block body) (by simp)
    refine .bind (.task (heval iterable scope)) fun v => ?_
    cases v with
    | list r =>
      exact .bind (.leaf (Law.obeyed_read _)) fun vs => asks_forEach hbody span item scope 0 _
    | _ => exact .leaf (Law.obeyed_problem _ _)
  | whileLoop span test body =>
    exact .task (hwhile (hparts (0, .block body) (by simp)) span test scope)
  | matchOn _ discriminant cases =>
    have hcases : ∀ c ∈ cases, BlockAsks allowed c.body := fun _ hc =>
      hparts _ (List.mem_cons_of_mem _ (List.mem_map_of_mem hc))
    exact .bind (.task (heval discriminant scope)) fun v => asks_matchCases heval hcases scope v
  | returnValue _ argument =>
    cases argument with
    | none => exact .leaf (Law.obeyed_pure _)
    | some e => exact .bind (.task (heval e scope)) fun v => .leaf (Law.obeyed_pure _)
  | breakLoop _ | continueLoop _ => exact .leaf (Law.obeyed_pure _)
  | on _ event condition body =>
    refine .bind (asks_eventName heval scope event) fun name => .bind (.leaf ?_) fun _ => hnormal
    exact Law.obeyed_withHandler name (fun _ _ => trivial) trivial scope
  | emit _ event data =>
    cases data with
    | none =>
      exact .bind (asks_eventName heval scope event) fun name =>
        .bind (asks_emitValues hdrain _ _) fun _ => hnormal
    | some e =>
      exact .bind (asks_eventName heval scope event) fun name =>
        .bind (.task (heval e scope)) fun v =>
          .bind (asks_emitValues hdrain _ _) fun _ => hnormal
  | importFile _ => exact hnormal
  | schema _ name parent fields methods =>
    refine .bind (.leaf ?_) fun _ => hnormal
    exact Law.obeyed_declareSchema parent trivial (fun _ _ => trivial) fun _ _ => trivial
  | instanceOf span schema name fields =>
    exact .bind (asks_declareInstance heval scope span schema name fields) fun _ => hnormal
  | expression _ e => exact .bind (.task (heval e scope)) fun _ => hnormal

/-! ## Functions and files -/

theorem asks_bindParams (heval : ∀ e scope, allowed (.eval e scope))
    (closure scope : ScopeRef) (params : List Param) (args : List Value) :
    Asks allowed fun run => bindParams run closure scope params args := by
  induction params generalizing args with
  | nil => cases args <;> exact .leaf (Law.obeyed_pure _)
  | cons p ps ih =>
    cases args with
    | cons v vs => exact .bind (.leaf (Law.obeyed_define trivial v)) fun _ => ih vs
    | nil =>
      simp only [bindParams]
      cases p.default with
      | none => exact .bind (.leaf (Law.obeyed_define trivial .null)) fun _ => ih []
      | some e =>
        exact .bind (.task (heval e closure)) fun v =>
          .bind (.leaf (Law.obeyed_define trivial v)) fun _ => ih []

theorem asks_invoke (heval : ∀ e scope, allowed (.eval e scope))
    (hexec : ∀ s scope, allowed (.exec s scope)) (f : Closure)
    (args : List Value) : Asks allowed fun run => invoke run f args := by
  refine .bind (.leaf (Law.obeyed_childScope f.scope)) fun scope => ?_
  refine .bind (asks_bindParams heval f.scope scope f.params args) fun _ => ?_
  cases f.body with
  | expr e => exact .task (heval e scope)
  | block b =>
    refine .bind (asks_statements (fun s _ => hexec s) scope) fun c => ?_
    cases c <;> exact .leaf (Law.obeyed_pure _)

theorem asks_topLevel (hexec : ∀ s scope, allowed (.exec s scope))
    (ss : List Stmt) : Asks allowed fun run => topLevel run ss := by
  induction ss with
  | nil => exact .leaf (Law.obeyed_pure _)
  | cons s rest ih =>
    refine .bind (.task (hexec s globalScope)) fun c => ?_
    cases c with
    | returned _ => exact .leaf (Law.obeyed_pure _)
    | _ => exact ih

theorem asks_execute (hexec : ∀ s scope, allowed (.exec s scope))
    (program : Program) (file : Option String) :
    Asks allowed fun run => execute run program file := by
  refine .bind (.leaf Law.obeyed_get) fun w => ?_
  refine .bind (.modify fun _ => ⟨rfl, rfl⟩) fun _ => .ensuring ?_ ?_
  · exact .bind (.leaf (Law.obeyed_modify (fun _ => .importsRecorded program file)
      (fun _ h => h.recordImports program file)
      fun w => .of_store (store_recordImports program file w)))
      fun _ => asks_topLevel hexec program.body
  · exact fun _ => ⟨rfl, rfl⟩

end

end EventScript
