import EventScript.Proofs.Hostless

/-! # Faults of programs

Evaluation reports what a program does wrong, so that a program breaks off with a fault only where
one of its natives does, or where a result of an operator cannot be represented.

* `raises_binary`      operators break off when a result is too large, or a remainder undefined
* `raises_callNative`  calls of natives
* `tame_bounded`       runs break off with the faults that pass through a program
-/

namespace EventScript

open Evaluate Fault

variable {α : Type} {F : Fault → Prop}

/-! ## Members and operators -/

@[grind ←]
theorem raises_element (obj : Value) (n : Number) : Raises F (element obj n) := by
  unfold element
  grind

@[grind ←]
theorem raises_memberOfList (r : ListRef) (name : String) :
    Raises F (Evaluate.listMember r name) := by
  have hmade : ∀ m, Raises F (Eval.newNative (.listMember r m)) := fun _ => raises_newNative trivial
  unfold Evaluate.listMember
  grind

@[grind ←]
theorem raises_memberOfString (t name : String) : Raises F (Evaluate.stringMember t name) := by
  have hmade : ∀ m, Raises F (Eval.newNative (.stringMember t m)) :=
    fun _ => raises_newNative trivial
  unfold Evaluate.stringMember
  grind

@[grind ←]
theorem raises_access (obj key : Value) (span : Span) : Raises F (access obj key span) := by
  unfold access
  grind

@[grind ←]
theorem raises_putElement (r : ListRef) (key v : Value) (span : Span) :
    Raises F (putElement r key v span) := by
  unfold putElement
  grind

@[grind ←]
theorem raises_putMember (obj key v : Value) (span : Span) :
    Raises F (putMember obj key v span) := by
  unfold putMember
  grind

@[grind ←]
theorem raises_navigateTo (v : Value) (walked : List String) (span : Span)
    (path : List String) : Raises F (navigateTo v walked span path) := by
  induction path generalizing v walked with
  | nil => exact raises_pure _
  | cons name rest ih =>
    unfold navigateTo
    grind

@[grind ←]
theorem raises_putReactive (root : String) (path : List String) (v : Value) (span : Span) :
    Raises F (putReactive root path v span) := by
  unfold putReactive
  grind

@[grind ←]
theorem raises_onNumbers (operator : BinaryOperator) (left right : Value) (span : Span)
    {f : Number → Number → Except Fault Number} (hf : ∀ m n, Fails F (f m n)) :
    Raises F (onNumbers operator left right span f) := by
  unfold onNumbers
  grind

/-- A divisor of zero is reported before it comes to the operation. -/
theorem raises_onDivisor (operator : BinaryOperator) (left right : Value) (span : Span)
    {f : Number → Number → Except Fault Number}
    (hf : ∀ m {n : Number}, n.isZero = false → Fails F (f m n)) :
    Raises F (onDivisor operator left right span f) := by
  unfold onDivisor onNumbers
  cases left.number? with
  | none => exact raises_problem _ _
  | some m =>
    cases right.number? with
    | none => exact raises_problem _ _
    | some n =>
      cases hn : n.isZero with
      | true =>
        -- what would come behind the problem is not reached
        simp only [hn, if_true]
        exact fun w hw => ⟨hw, nofun⟩
      | false =>
        simp only [hn, Bool.false_eq_true, if_false]
        exact raises_bind (raises_ofExcept (hf m hn)) fun _ => raises_ofNumber _

@[grind ←]
theorem raises_compare (left right : Value) (span : Span) (f : Number → Number → Bool)
    (g : String → String → Bool) : Raises F (Evaluate.compare left right span f g) := by
  unfold Evaluate.compare
  grind

@[grind ←]
theorem raises_add (left right : Value) (span : Span) :
    Raises Escapes (add left right span) := by
  unfold add
  grind

@[grind ←]
theorem raises_binary (operator : BinaryOperator) (left right : Value) (span : Span) :
    Raises Escapes (binary operator left right span) := by
  have hdivide := raises_onDivisor .divide left right span fun m _ hn => fails_div_of_isZero m hn
  have hremainder := raises_onDivisor .remainder left right span fun m n _ => fails_rem m n
  unfold binary
  cases operator <;> grind

@[grind ←]
theorem raises_unary (operator : UnaryOperator) (v : Value) (span : Span) :
    Raises F (unary operator v span) := by
  unfold unary
  cases operator <;> grind

/-! ## Expressions -/

section Runner

variable {run : Runner} (hrun : Tame run)

include hrun

@[grind ←]
theorem raises_evalAll (scope : ScopeRef) (es : List Expr) :
    Raises Escapes (evalAll run scope es) := by
  induction es with
  | nil => exact raises_pure _
  | cons e rest ih =>
    exact raises_bind (hrun.eval e scope) fun v => raises_bind ih fun vs => raises_pure _

@[grind ←]
theorem raises_entryKey (scope : ScopeRef) (span : Span) (key : EntryKey) :
    Raises Escapes (entryKey run scope span key) := by
  unfold entryKey
  split
  · exact raises_pure _
  · refine raises_bind (hrun.eval _ scope) fun (v : Value) => ?_
    split <;> grind

@[grind ←]
theorem raises_evalEntries (scope : ScopeRef) (t : Table Key Value) (entries : List MapEntry) :
    Raises Escapes (evalEntries run scope t entries) := by
  induction entries generalizing t with
  | nil => exact raises_pure _
  | cons entry rest ih =>
    obtain ⟨span, key, value⟩ := entry
    exact raises_bind (raises_entryKey hrun scope span key) fun key =>
      raises_bind (hrun.eval value scope) fun v => ih _

@[grind ←]
theorem raises_indexKey (scope : ScopeRef) (key : Expr) :
    Raises Escapes (indexKey run scope key) := by
  unfold indexKey
  refine raises_bind (hrun.eval key scope) fun (v : Value) => ?_
  split <;> grind

omit hrun in
@[grind ←]
theorem raises_toNative (v : Value) : Raises F (toNative v) := by
  unfold toNative
  split
  · exact raises_bind (raises_read _) fun f => raises_newNative trivial
  · exact raises_pure _

@[grind ←]
theorem raises_callNative (n : Native) (args : List Value) (name : String)
    (span : Option Span) : Raises Escapes (callNative run n args name span) :=
  raises_reporting name span (hrun.native n args)

@[grind ←]
theorem raises_callValue (callee : Expr) (f : Value) (args : List Value) (span : Span) :
    Raises Escapes (Evaluate.callValue run callee f args span) := by
  have hcall := hrun.call
  unfold Evaluate.callValue
  split <;> grind

theorem raises_expression (scope : ScopeRef) (e : Expr) :
    Raises Escapes (expression run scope e) := by
  have heval := hrun.eval
  unfold expression
  split <;> grind

end Runner

/-! ## Patterns -/

mutual

theorem raises_fits {run : Runner} (hrun : Tame run) (scope : ScopeRef) :
    ∀ (p : Pattern) (v : Value), Raises Escapes (fits run scope p v)
  | .wildcard _, v => by unfold fits; exact raises_pure _
  | .name _ name, v => by
    unfold fits
    exact raises_bind (raises_define scope name v) fun _ => raises_pure _
  | .literal _ e, v => by
    unfold fits
    exact raises_bind (hrun.eval e scope) fun w => raises_read _
  | .list _ elements, v => by
    have hall := raises_allFit hrun scope elements
    unfold fits
    grind
  | .map _ entries, v => by
    have hall := fun r => raises_entriesFit hrun scope r entries
    unfold fits
    grind

theorem raises_allFit {run : Runner} (hrun : Tame run) (scope : ScopeRef) :
    ∀ (ps : List Pattern) (vs : List Value), Raises Escapes (allFit run scope ps vs)
  | [], vs => by unfold allFit; exact raises_pure _
  | p :: ps, [] => by unfold allFit; exact raises_pure _
  | p :: ps, v :: vs => by
    have hfits := raises_fits hrun scope p v
    have hall := raises_allFit hrun scope ps vs
    unfold allFit
    grind

theorem raises_entriesFit {run : Runner} (hrun : Tame run) (scope : ScopeRef) (r : MapRef) :
    ∀ entries : List (String × Pattern), Raises Escapes (entriesFit run scope r entries)
  | [] => by unfold entriesFit; exact raises_pure _
  | (key, p) :: rest => by
    have hfits := raises_fits hrun scope p
    have hall := raises_entriesFit hrun scope r rest
    unfold entriesFit
    grind

end

end EventScript
