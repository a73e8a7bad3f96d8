import EventScript.Proofs.Law.Library

/-! # Evaluation obeys every law

Expressions and patterns go back to the runner for their parts, so they obey every law that the
runner obeys.

* `obeyed_deeper`, `obeyed_inFile`   what is put back behind a call and behind a file
* `obeyed_expression`                expressions
* `obeyed_fits`                      patterns
-/

namespace EventScript

open Evaluate

namespace Law

variable {α : Type} {L : Law} {run : Runner}

/-! ## Bracketed computations -/

/-- What a computation does is a law's matter also while a function of the language is called. -/
theorem obeyed_deeper {act : Eval α} (hact : L.Obeyed act) :
    L.Obeyed (do
      modify fun w => { w with callDepth := w.callDepth + 1 }
      Eval.ensuring act fun w => { w with callDepth := w.callDepth - 1 }) :=
  obeyed_bracket (fun w => { w with callDepth := w.callDepth + 1 })
    (fun _ w => { w with callDepth := w.callDepth - 1 }) hact L.calling L.calling_failed

/-- What a computation does is a law's matter also while a file is executed. -/
theorem obeyed_inFile (file : Option String) {act : Eval α} (hact : L.Obeyed act) :
    L.Obeyed (do
      let outer := (← get).currentFile
      modify fun w => { w with currentFile := file }
      Eval.ensuring act fun w => { w with currentFile := outer }) :=
  obeyed_bracket (fun w => { w with currentFile := file })
    (fun outer w => { w with currentFile := outer.currentFile }) hact L.executing
    L.executing_failed

/-! ## Members and operators -/

@[grind ←]
theorem obeyed_element (obj : Value) (n : Number) : L.Obeyed (element obj n) := by
  unfold element
  grind

@[grind ←]
theorem obeyed_memberOfList (r : ListRef) (name : String) : L.Obeyed (listMember r name) := by
  unfold listMember
  grind

@[grind ←]
theorem obeyed_memberOfString (t name : String) : L.Obeyed (stringMember t name) := by
  unfold stringMember
  grind

@[grind ←]
theorem obeyed_access (obj key : Value) (span : Span) : L.Obeyed (access obj key span) := by
  unfold access
  grind

@[grind ←]
theorem obeyed_putElement (r : ListRef) (key v : Value) (span : Span) :
    L.Obeyed (putElement r key v span) := by
  unfold putElement
  grind

theorem obeyed_assignField (r : InstanceRef) (name : String) (v : Value) :
    L.Obeyed (Eval.modifyInstance r (·.assign name v)) :=
  obeyed_modifyStore (fun _ => .fieldAssigned r name v) (fun _ h => h.congr rfl rfl rfl rfl)
    fun _ => .of_scopes rfl

@[grind ←]
theorem obeyed_putMember (obj key v : Value) (span : Span) :
    L.Obeyed (putMember obj key v span) := by
  unfold putMember
  refine obeyed_bind (obeyed_read _) fun name => ?_
  split
  · exact obeyed_putElement _ key v span
  · exact obeyed_assignField _ name v
  · exact obeyed_putKey _ _ v
  · exact obeyed_problem _ _

@[grind ←]
theorem obeyed_navigateTo (v : Value) (walked : List String) (span : Span)
    (path : List String) : L.Obeyed (navigateTo v walked span path) := by
  induction path generalizing v walked with
  | nil => exact obeyed_pure _
  | cons name rest ih =>
    unfold navigateTo
    grind

@[grind ←]
theorem obeyed_putReactive (root : String) (path : List String) (v : Value) (span : Span) :
    L.Obeyed (putReactive root path v span) := by
  unfold putReactive
  split
  · exact obeyed_define (L.outermost root) v
  · refine obeyed_bind (obeyed_read _) fun start => ?_
    refine obeyed_bind (obeyed_navigateTo start [root] span path) fun obj => ?_
    split
    · exact obeyed_assignField _ _ v
    · exact obeyed_putKey _ _ v
    · exact obeyed_problem _ _

@[grind ←]
theorem obeyed_onNumbers (operator : BinaryOperator) (left right : Value) (span : Span)
    (f : Number → Number → Except Fault Number) :
    L.Obeyed (onNumbers operator left right span f) := by
  unfold onNumbers
  grind

@[grind ←]
theorem obeyed_onDivisor (operator : BinaryOperator) (left right : Value) (span : Span)
    (f : Number → Number → Except Fault Number) :
    L.Obeyed (onDivisor operator left right span f) := by
  unfold onDivisor
  grind

@[grind ←]
theorem obeyed_compare (left right : Value) (span : Span) (f : Number → Number → Bool)
    (g : String → String → Bool) : L.Obeyed (Evaluate.compare left right span f g) := by
  unfold Evaluate.compare
  grind

@[grind ←]
theorem obeyed_add (left right : Value) (span : Span) : L.Obeyed (add left right span) := by
  unfold add
  grind

@[grind ←]
theorem obeyed_binary (operator : BinaryOperator) (left right : Value) (span : Span) :
    L.Obeyed (binary operator left right span) := by
  unfold binary
  cases operator <;> grind

@[grind ←]
theorem obeyed_unary (operator : UnaryOperator) (v : Value) (span : Span) :
    L.Obeyed (unary operator v span) := by
  unfold unary
  cases operator <;> grind

/-! ## Expressions -/

section Runner

variable (hrun : L.Runs run)

include hrun

@[grind ←]
theorem obeyed_evalAll (scope : ScopeRef) {es : List Expr} (hes : ∀ e ∈ es, L.code (.expr e)) :
    L.Obeyed (evalAll run scope es) := by
  induction es with
  | nil => exact obeyed_pure _
  | cons e rest ih =>
    obtain ⟨he, hrest⟩ := List.forall_mem_cons.mp hes
    exact obeyed_bind (hrun.eval he scope) fun v => obeyed_bind (ih hrest) fun vs => obeyed_pure _

@[grind ←]
theorem obeyed_entryKey (scope : ScopeRef) (span : Span) {key : EntryKey}
    (hkey : ∀ e, key = .computed e → L.code (.expr e)) :
    L.Obeyed (entryKey run scope span key) := by
  unfold entryKey
  split
  · exact obeyed_pure _
  · refine obeyed_bind (hrun.eval (hkey _ rfl) scope) fun (v : Value) => ?_
    split <;> grind

@[grind ←]
theorem obeyed_evalEntries (scope : ScopeRef) (t : Table Key Value) {entries : List MapEntry}
    (hentries : ∀ x ∈ entries, L.code (.entry x)) :
    L.Obeyed (evalEntries run scope t entries) := by
  induction entries generalizing t with
  | nil => exact obeyed_pure _
  | cons entry rest ih =>
    obtain ⟨hentry, hrest⟩ := List.forall_mem_cons.mp hentries
    obtain ⟨span, key, value⟩ := entry
    have hkey : ∀ e, key = .computed e → L.code (.expr e) := by
      rintro e rfl
      exact L.inside hentry (0, .expr e) (by simp)
    have hvalue : L.code (.expr value) := L.inside hentry (0, .expr value) (by cases key <;> simp)
    exact obeyed_bind (obeyed_entryKey hrun scope span hkey) fun key =>
      obeyed_bind (hrun.eval hvalue scope) fun v => ih _ hrest

@[grind ←]
theorem obeyed_indexKey (scope : ScopeRef) {key : Expr} (hkey : L.code (.expr key)) :
    L.Obeyed (indexKey run scope key) := by
  unfold indexKey
  refine obeyed_bind (hrun.eval hkey scope) fun (v : Value) => ?_
  split <;> grind

omit hrun in
@[grind ←]
theorem obeyed_toNative (v : Value) : L.Obeyed (toNative v) := by
  unfold toNative
  grind

@[grind ←]
theorem obeyed_callNative (n : Native) (args : List Value) (name : String)
    (span : Option Span) : L.Obeyed (callNative run n args name span) :=
  obeyed_reporting name span (hrun.native n args)

@[grind ←]
theorem obeyed_callValue (callee : Expr) (f : Value) (args : List Value) (span : Span) :
    L.Obeyed (callValue run callee f args span) := by
  have hcall := hrun.call
  unfold callValue
  split <;> grind

theorem obeyed_expression (scope : ScopeRef) {e : Expr} (he : L.code (.expr e)) :
    L.Obeyed (expression run scope e) := by
  have heval := @hrun.eval
  have hparts := L.inside he
  unfold expression
  split <;> simp at hparts <;> grind

end Runner

/-! ## Patterns -/

mutual

theorem obeyed_fits (hrun : L.Runs run) (scope : ScopeRef) : ∀ (p : Pattern) (v : Value),
    L.code (.pattern p) → (∀ name ∈ p.binds, L.adds scope name) → L.Obeyed (fits run scope p v)
  | .wildcard _, v, _, _ => by unfold fits; exact obeyed_pure _
  | .name _ name, v, _, hadds => by
    unfold fits
    exact obeyed_bind (obeyed_define (hadds name (by simp [Pattern.binds])) v)
      fun _ => obeyed_pure _
  | .literal _ e, v, hp, _ => by
    unfold fits
    exact obeyed_bind (hrun.eval (L.inside hp (0, .expr e) (by simp)) scope) fun w => obeyed_read _
  | .list _ elements, v, hp, hadds => by
    have hparts : ∀ p ∈ elements, L.code (.pattern p) := by simpa using L.inside hp
    rw [Pattern.binds] at hadds
    have hall := fun vs => obeyed_allFit hrun scope elements vs hparts hadds
    unfold fits
    grind
  | .map _ entries, v, hp, hadds => by
    have hparts : ∀ x ∈ entries, L.code (.pattern x.2) := fun _ hx =>
      L.inside hp _ (List.mem_map_of_mem hx)
    rw [Pattern.binds] at hadds
    have hall := fun r => obeyed_entriesFit hrun scope r entries hparts hadds
    unfold fits
    grind

theorem obeyed_allFit (hrun : L.Runs run) (scope : ScopeRef) :
    ∀ (ps : List Pattern) (vs : List Value), (∀ p ∈ ps, L.code (.pattern p)) →
    (∀ name ∈ Pattern.allBind ps, L.adds scope name) → L.Obeyed (allFit run scope ps vs)
  | [], vs, _, _ => by unfold allFit; exact obeyed_pure _
  | p :: ps, [], _, _ => by unfold allFit; exact obeyed_pure _
  | p :: ps, v :: vs, hps, hadds => by
    obtain ⟨hp, hrest⟩ := List.forall_mem_cons.mp hps
    rw [Pattern.allBind, List.forall_mem_append] at hadds
    have hfits := obeyed_fits hrun scope p v hp hadds.1
    have hall := obeyed_allFit hrun scope ps vs hrest hadds.2
    unfold allFit
    grind

theorem obeyed_entriesFit (hrun : L.Runs run) (scope : ScopeRef) (r : MapRef) :
    ∀ (entries : List (String × Pattern)), (∀ x ∈ entries, L.code (.pattern x.2)) →
    (∀ name ∈ Pattern.entriesBind entries, L.adds scope name) →
    L.Obeyed (entriesFit run scope r entries)
  | [], _, _ => by unfold entriesFit; exact obeyed_pure _
  | (key, p) :: rest, hentries, hadds => by
    obtain ⟨hp, hrest⟩ := List.forall_mem_cons.mp hentries
    rw [Pattern.entriesBind, List.forall_mem_append] at hadds
    have hfits := fun v => obeyed_fits hrun scope p v hp hadds.1
    have hall := obeyed_entriesFit hrun scope r rest hrest hadds.2
    unfold entriesFit
    grind

end

end Law

end EventScript
