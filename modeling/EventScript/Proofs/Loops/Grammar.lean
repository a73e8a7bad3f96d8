import EventScript.Proofs.Grammar.Indentation
import EventScript.Proofs.Loops.Reading

/-! # Loops in the grammar

One lemma per rule: what a rule reads is confined if what it reads through the rules that it comes
back to is.  Only blocks, conditionals, matches and the ends of loops themselves show anything to
the loops around them; a loop and a function show nothing.  By induction on the levels below a rule
this holds of the whole grammar (`guarded_rulesAt`).

* `run_functionBody`, `Program.compile_of_run`   what is read, and what is refused
* `Program.confined_of_compile`                  a program that compiles is confined
-/

namespace EventScript

/-- What is known of the rules that a rule comes back to. -/
structure Rules.Guarded (rules : Rules) : Prop where
  expression : (rules .expression).Blind fun e => (Node.expr e).Confined false
  unary : (rules .unary).Blind fun e => (Node.expr e).Confined false
  statement : (rules .statement).Guards fun o s => (Node.stmt s).Exposes o
  ifStatement : (rules .ifStatement).Guards fun o s => (Node.ifStmt s).Exposes o
  block : (rules .block).Guards fun o b => (Node.block b).Exposes o
  pattern : (rules .pattern).Blind fun p => (Node.pattern p).Confined false
  type : (rules .type).Blind fun _ => True

namespace Grammar

open Parse

variable {rules : Rules}

/-! ## Expressions -/

theorem blind_chainFrom {level : List (TokenKind × BinaryOperator)} {operand : Parse Expr}
    (start : Token) (hoperand : operand.Blind fun e => (Node.expr e).Confined false) (bound : Nat)
    {left : Expr} (hleft : (Node.expr left).Confined false) :
    (chainFrom level operand start bound left).Blind fun e => (Node.expr e).Confined false := by
  induction bound generalizing left with
  | zero => exact blind_expected _
  | succ bound ih =>
    refine .ask (fun _ _ => rfl) fun found => ?_
    cases found with
    | none => exact .pure hleft
    | some operator =>
      refine .bind blind_advance fun _ _ => .bind hoperand fun right hright => ?_
      refine .bind (blind_spanFrom start) fun span _ => ih ?_
      exact .of_children rfl (by simp [hleft, hright])

theorem blind_chain {level : List (TokenKind × BinaryOperator)} {operand : Parse Expr}
    (hoperand : operand.Blind fun e => (Node.expr e).Confined false) :
    (chain level operand).Blind fun e => (Node.expr e).Confined false := by
  refine .ask (fun _ _ => rfl) fun start => .bind hoperand fun left hleft => ?_
  exact .ask (fun _ _ => rfl) fun bound => blind_chainFrom start hoperand bound hleft

theorem blind_propertyName : propertyName.Blind fun _ => True :=
  .ask (fun _ _ => rfl) fun _ =>
    .ite (fun _ => .bind blind_advance fun _ _ => .pure trivial) fun _ => blind_expected _

theorem blind_reactive : reactive.Blind fun e => (Node.expr e).Confined false := by
  have hpath (bound : Nat) : (pathFrom bound).Blind fun _ => True := by
    induction bound with
    | zero => exact blind_expected _
    | succ bound ih =>
      refine .bind (blind_accept _) fun _ _ => .ite (fun _ => ?_) fun _ => .pure trivial
      exact .bind (blind_expect _ _) fun _ _ => .bind ih fun _ _ => .pure trivial
  refine .bind (blind_expect _ _) fun start _ => .bind (blind_expect _ _) fun root _ => ?_
  refine .ask (fun _ _ => rfl) fun bound => .bind (hpath bound) fun path _ => ?_
  exact .bind (blind_spanFrom start) fun span _ => .pure (.of_children rfl (by simp))

section

variable (hr : rules.Guarded)

include hr

theorem blind_parameter : (parameter rules).Blind fun p => (Node.param p).Confined false := by
  refine .bind (blind_expect _ _) fun start _ => ?_
  refine .bind (blind_optional _ hr.expression) fun default hdefault => ?_
  refine .bind (blind_spanFrom start) fun span _ => .pure (.of_children rfl ?_)
  simpa using hdefault

theorem blind_parameters :
    (parameters rules).Blind fun ps => ∀ p ∈ ps, (Node.param p).Confined false := by
  refine .bind (blind_expect _ _) fun _ _ => .bind (blind_separated (blind_parameter hr)) ?_
  exact fun ps hps => .bind (blind_expect _ _) fun _ _ => .pure hps

theorem blind_arguments :
    (arguments rules).Blind fun es => ∀ e ∈ es, (Node.expr e).Confined false := by
  refine .bind (blind_expect _ _) fun _ _ => .bind (blind_separated hr.expression) ?_
  exact fun es hes => .bind (blind_expect _ _) fun _ _ => .pure hes

/-- The body of a function does not see the loops around the function. -/
theorem blind_functionBody :
    (functionBody rules).Blind fun b => (Node.block b).Confined false :=
  (Guards.outsideLoops hr.block).imp fun _ h => h.confined

theorem blind_loopBody : (loopBody rules).Blind fun b => (Node.block b).Confined true :=
  (Guards.insideLoop hr.block).imp fun _ ⟨_, h⟩ => h.confined.mono fun _ => rfl

theorem blind_lambdaBody :
    (lambdaBody rules).Blind fun b => (Node.body b).Confined false := by
  refine .bind (blind_accept _) fun _ _ => .ite (fun _ => ?_) fun _ => ?_
  · refine .bind hr.expression fun e he => .pure (.of_children rfl ?_)
    simpa using he
  refine .bind (blind_accept _) fun _ _ => .ite (fun _ => ?_) fun _ => blind_expected _
  refine .bind (blind_functionBody hr) fun b hb => .pure (.of_children rfl ?_)
  simpa using hb

theorem blind_lambda : (lambda rules).Blind fun e => (Node.expr e).Confined false := by
  refine .bind (blind_expect _ _) fun start _ => .bind (blind_parameters hr) fun ps hps => ?_
  refine .bind (blind_lambdaBody hr) fun b hb => .bind (blind_spanFrom start) fun span _ => ?_
  exact .pure (.of_children rfl (by simpa using ⟨hb, hps⟩))

theorem blind_vectorRest (bound : Nat) :
    (vectorRest rules bound).Blind fun es => ∀ e ∈ es, (Node.expr e).Confined false := by
  induction bound with
  | zero => exact blind_expected _
  | succ bound ih =>
    refine .bind (blind_accept _) fun _ _ => .ite (fun _ => ?_) fun _ => .pure (by simp)
    refine .bind hr.expression fun e he => .bind ih fun es hes => ?_
    exact .pure (List.forall_mem_cons.mpr ⟨he, hes⟩)

theorem blind_parenthesized :
    (parenthesized rules).Blind fun e => (Node.expr e).Confined false := by
  refine .bind (blind_expect _ _) fun start _ => .bind (blind_accept _) fun _ _ => ?_
  refine .ite (fun _ => ?_) fun _ => .bind hr.expression fun first hfirst => ?_
  · exact .bind (blind_spanFrom start) fun span _ => .pure (.of_children rfl (by simp))
  refine .ask (fun _ _ => rfl) fun _ => .ite (fun _ => ?_) fun _ => ?_
  · refine .ask (fun _ _ => rfl) fun bound => .bind (blind_vectorRest hr bound) fun es hes => ?_
    refine .bind (blind_expect _ _) fun _ _ => .bind (blind_spanFrom start) fun span _ => ?_
    exact .pure (.of_children rfl (by simpa using ⟨hfirst, hes⟩))
  · exact .bind (blind_expect _ _) fun _ _ => .pure hfirst

theorem blind_listLiteral : (listLiteral rules).Blind fun e => (Node.expr e).Confined false := by
  refine .bind (blind_expect _ _) fun start _ => .bind (blind_separated hr.expression) ?_
  refine fun es hes => .bind (blind_expect _ _) fun _ _ => .bind (blind_spanFrom start) ?_
  exact fun span _ => .pure (.of_children rfl (by simpa using hes))

theorem blind_entryParts (start : Token) :
    (entryParts rules start).Blind fun parts =>
      ∀ span, (Node.entry ⟨span, parts.1, parts.2⟩).Confined false := by
  refine .bind (blind_accept _) fun _ _ => .ite (fun _ => ?_) fun _ => ?_
  · refine .bind (blind_accept _) fun _ _ => .ite (fun _ => ?_) fun _ => ?_
    · refine .bind hr.expression fun e he => .pure fun span => .of_children rfl ?_
      simpa using he
    · have hname : (Node.expr (.name start.span start.word)).Confined false :=
        .of_children rfl (by simp)
      exact .pure fun span => .of_children rfl (by simpa using hname)
  refine .bind (blind_accept _) fun _ _ => .ite (fun _ => ?_) fun _ => ?_
  · refine .bind (blind_expect _ _) fun _ _ => .bind hr.expression fun e he => ?_
    exact .pure fun span => .of_children rfl (by simpa using he)
  refine .bind (blind_accept _) fun _ _ => .ite (fun _ => ?_) fun _ => blind_expected _
  refine .bind hr.expression fun key hkey => .bind (blind_expect _ _) fun _ _ => ?_
  refine .bind (blind_expect _ _) fun _ _ => .bind hr.expression fun e he => ?_
  exact .pure fun span => .of_children rfl (by simpa using ⟨hkey, he⟩)

theorem blind_mapLiteral : (mapLiteral rules).Blind fun e => (Node.expr e).Confined false := by
  have hentry : (mapEntry rules).Blind fun e => (Node.entry e).Confined false := by
    refine .ask (fun _ _ => rfl) fun start => .bind (blind_entryParts hr start) ?_
    exact fun parts hparts => .bind (blind_spanFrom start) fun span _ => .pure (hparts span)
  refine .ask (fun _ _ => rfl) fun start => .bind (blind_braced hentry) fun entries hentries => ?_
  refine .bind (blind_spanFrom start) fun span _ => .pure (.of_children rfl ?_)
  simpa using hentries

theorem blind_primary : (primary rules).Blind fun e => (Node.expr e).Confined false := by
  have hleaf : ∀ e : Expr, (Node.expr e).children = [] →
      (do let _ ← advance; return e : Parse Expr).Blind fun e => (Node.expr e).Confined false :=
    fun e he => .bind blind_advance fun _ _ => .pure (.of_children rfl (by rw [he]; nofun))
  refine .ask (fun _ _ => rfl) fun t => ?_
  split
  · exact blind_reactive
  · exact blind_lambda hr
  · exact hleaf _ rfl
  · refine hleaf _ ?_
    unfold stringExpr
    split <;> rfl
  · exact hleaf _ rfl
  · exact hleaf _ rfl
  · exact hleaf _ rfl
  · exact blind_parenthesized hr
  · exact blind_listLiteral hr
  · exact blind_mapLiteral hr
  · exact blind_expected _

theorem blind_postfixFrom (start : Token) (bound : Nat) {e : Expr}
    (he : (Node.expr e).Confined false) :
    (postfixFrom rules start bound e).Blind fun e => (Node.expr e).Confined false := by
  induction bound generalizing e with
  | zero => exact blind_expected _
  | succ bound ih =>
    refine .bind (blind_accept _) fun _ _ => .ite (fun _ => ?_) fun _ => ?_
    · refine .bind blind_propertyName fun property _ => .bind (blind_spanFrom start) ?_
      exact fun span _ => ih (.of_children rfl (by simpa using he))
    refine .bind (blind_accept _) fun _ _ => .ite (fun _ => ?_) fun _ => ?_
    · refine .bind hr.expression fun key hkey => .bind (blind_expect _ _) fun _ _ => ?_
      refine .bind (blind_spanFrom start) fun span _ => ih (.of_children rfl ?_)
      simpa using ⟨he, hkey⟩
    refine .ask (fun _ _ => rfl) fun _ => .ite (fun _ => ?_) fun _ => .pure he
    refine .bind (blind_arguments hr) fun es hes => .bind (blind_spanFrom start) fun span _ => ?_
    exact ih (.of_children rfl (by simpa using ⟨he, hes⟩))

theorem blind_unary : (unary rules).Blind fun e => (Node.expr e).Confined false := by
  have hsigned (t : Token) (operator : UnaryOperator) :
      (do
        let _ ← advance
        let operand ← rules .unary
        return .unary (← spanFrom t) operator operand : Parse Expr).Blind
          fun e => (Node.expr e).Confined false := by
    refine .bind blind_advance fun _ _ => .bind hr.unary fun operand hoperand => ?_
    refine .bind (blind_spanFrom t) fun span _ => .pure (.of_children rfl ?_)
    simpa using hoperand
  have hpostfixed : (postfixed rules).Blind fun e => (Node.expr e).Confined false := by
    refine .ask (fun _ _ => rfl) fun start => .bind (blind_primary hr) fun e he => ?_
    exact .ask (fun _ _ => rfl) fun bound => blind_postfixFrom hr start bound he
  refine .ask (fun _ _ => rfl) fun t => ?_
  dsimp only
  split
  · exact hsigned t .not
  · exact hsigned t .negate
  · exact hpostfixed

theorem blind_disjunction : (disjunction rules).Blind fun e => (Node.expr e).Confined false :=
  blind_chain (blind_chain (blind_chain (blind_chain (blind_chain (blind_chain
    (blind_unary hr))))))

theorem blind_expression : (expression rules).Blind fun e => (Node.expr e).Confined false := by
  refine .ask (fun _ _ => rfl) fun start => .bind (blind_accept _) fun _ _ => ?_
  refine .ite (fun _ => ?_) fun _ => blind_disjunction hr
  refine .bind (blind_disjunction hr) fun test htest => .bind (blind_expect _ _) fun _ _ => ?_
  refine .bind (blind_disjunction hr) fun yes hyes => .bind (blind_expect _ _) fun _ _ => ?_
  refine .bind hr.expression fun no hno => .bind (blind_spanFrom start) fun span _ => ?_
  exact .pure (.of_children rfl (by simpa using ⟨htest, hyes, hno⟩))

/-! ## Patterns and types -/

theorem blind_pattern : (pattern rules).Blind fun p => (Node.pattern p).Confined false := by
  have hentry : (mapPatternEntry rules).Blind fun e => (Node.pattern e.2).Confined false := by
    refine .ask (fun _ _ => rfl) fun t => .ask (fun _ _ => rfl) fun _ => ?_
    refine .ite (fun _ => .bind blind_advance fun _ _ => ?_) fun _ => blind_expected _
    refine .bind (blind_accept _) fun _ _ => .ite (fun _ => ?_) fun _ => ?_
    · exact .bind hr.pattern fun _ h => .pure h
    · exact .pure (.of_children rfl (by simp))
  refine .ask (fun _ _ => rfl) fun start => .ite (fun _ => ?_) fun _ => ?_
  · refine .bind blind_advance fun _ _ => .pure ?_
    split <;> exact .of_children rfl (by simp)
  refine .bind (blind_accept _) fun _ _ => .ite (fun _ => ?_) fun _ => ?_
  · refine .bind (blind_separated hr.pattern) fun ps hps => .bind (blind_expect _ _) fun _ _ => ?_
    refine .bind (blind_spanFrom start) fun span _ => .pure (.of_children rfl ?_)
    simpa using hps
  refine .ask (fun _ _ => rfl) fun _ => .ite (fun _ => ?_) fun _ => ?_
  · refine .bind (blind_braced hentry) fun entries hentries => .bind (blind_spanFrom start) ?_
    refine fun span _ => .pure (.of_children rfl (List.forall_mem_map.mpr fun e he => ?_))
    simpa using hentries e he
  · refine .bind (blind_primary hr) fun value hvalue => .bind (blind_spanFrom start) ?_
    exact fun span _ => .pure (.of_children rfl (by simpa using hvalue))

theorem blind_type : (type rules).Blind fun _ => True := by
  refine .bind (blind_expect _ _) fun start _ => .ask (fun _ _ => rfl) fun k => ?_
  split
  · refine .bind (blind_expect _ _) fun _ _ => .bind hr.type fun _ _ => ?_
    exact .bind (blind_expect _ _) fun _ _ => .bind (blind_spanFrom start) fun _ _ => .pure trivial
  · refine .bind (blind_expect _ _) fun _ _ => .bind hr.type fun _ _ => ?_
    refine .bind (blind_expect _ _) fun _ _ => .bind hr.type fun _ _ => ?_
    exact .bind (blind_expect _ _) fun _ _ => .bind (blind_spanFrom start) fun _ _ => .pure trivial
  · have hvalue : enumerationValue.Blind fun _ => True :=
      .bind (blind_expect _ _) fun _ _ => .pure trivial
    refine .bind (blind_expect _ _) fun _ _ => .bind (blind_separated hvalue) fun _ _ => ?_
    exact .bind (blind_expect _ _) fun _ _ => .bind (blind_spanFrom start) fun _ _ => .pure trivial
  · exact .pure trivial

end

/-! ## Statements that show nothing -/

theorem blind_givenName? (what : String) : (givenName? what).Blind fun _ => True := by
  refine .ask (fun _ _ => rfl) fun _ => .ite (fun _ => ?_) fun _ => .pure trivial
  exact .bind blind_advance fun _ _ => .bind (blind_expect _ _) fun _ _ => .pure trivial

theorem blind_importStatement : importStatement.Blind fun _ => True := by
  refine .bind (blind_expect _ _) fun start _ => .bind (blind_expect _ _) fun source _ => ?_
  refine .bind (blind_givenName? _) fun name _ => .bind blind_endStatement fun _ _ => ?_
  exact .bind (blind_spanFrom start) fun span _ => .pure trivial

theorem blind_fromStatement : fromStatement.Blind fun _ => True := by
  have hspecifier : importSpecifier.Blind fun _ => True := by
    refine .ask (fun _ _ => rfl) fun start => .bind (blind_expect _ _) fun imported _ => ?_
    exact .bind (blind_givenName? _) fun _ _ => .bind (blind_spanFrom start) fun _ _ =>
      .pure trivial
  have hspecifiers : importSpecifiers.Blind fun _ => True := by
    refine .bind (blind_accept _) fun _ _ => .ite (fun _ => ?_) fun _ => ?_
    · exact .bind (blind_separated hspecifier) fun _ _ => .bind (blind_expect _ _) fun _ _ =>
        .pure trivial
    · exact .bind (blind_expect _ _) fun _ _ => .pure trivial
  refine .bind (blind_expect _ _) fun start _ => .bind (blind_expect _ _) fun source _ => ?_
  refine .bind (blind_expect _ _) fun _ _ => .bind hspecifiers fun _ _ => ?_
  exact .bind blind_endStatement fun _ _ => .bind (blind_spanFrom start) fun _ _ => .pure trivial

/-- The target of an assignment has the parts of the expression that it was read as. -/
theorem confined_target {e : Expr} {t : Target} (ht : e.target? = some t)
    (he : (Node.expr e).Confined false) : (Node.target t).Confined false := by
  unfold Expr.target? at ht
  have hparts := he.child
  split at ht <;> cases ht <;> exact .of_children rfl hparts

section

variable (hr : rules.Guarded)

include hr

theorem blind_letStatement : (letStatement rules).Blind fun s => (Node.stmt s).Confined false := by
  refine .bind (blind_expect _ _) fun start _ => .bind (blind_expect _ _) fun name _ => ?_
  refine .bind (blind_expect _ _) fun _ _ => .bind hr.expression fun value hvalue => ?_
  refine .bind blind_endStatement fun _ _ => .bind (blind_spanFrom start) fun span _ => ?_
  exact .pure (.of_children rfl (by simpa using hvalue))

theorem blind_setStatement : (setStatement rules).Blind fun s => (Node.stmt s).Confined false := by
  refine .bind (blind_expect _ _) fun start _ => .ask (fun _ _ => rfl) fun targetStart => ?_
  refine .bind hr.expression fun e he => ?_
  split
  · exact .bind (blind_spanFrom _) fun _ _ => .fail _
  · rename_i target htarget
    refine .bind (blind_expect _ _) fun _ _ => .bind hr.expression fun value hvalue => ?_
    refine .bind blind_endStatement fun _ _ => .bind (blind_spanFrom start) fun span _ => ?_
    refine .pure (.of_children rfl ?_)
    simpa using ⟨confined_target htarget he, hvalue⟩

theorem blind_functionRest (start : Token) (name : String) :
    (functionRest rules start name).Blind fun f => (Node.function f).Confined false := by
  refine .bind (blind_parameters hr) fun ps hps => .bind (blind_expect _ _) fun _ _ => ?_
  refine .bind (blind_functionBody hr) fun b hb => .bind (blind_spanFrom start) fun span _ => ?_
  exact .pure (.of_children rfl (by simpa using ⟨hb, hps⟩))

theorem blind_functionDeclaration :
    (functionDeclaration rules).Blind fun f => (Node.function f).Confined false :=
  .bind (blind_expect _ _) fun start _ => .bind (blind_expect _ _) fun name _ =>
    blind_functionRest hr start name.word

theorem blind_forStatement : (forStatement rules).Blind fun s => (Node.stmt s).Confined false := by
  refine .bind (blind_expect _ _) fun start _ => .bind (blind_expect _ _) fun item _ => ?_
  refine .bind (blind_expect _ _) fun _ _ => .bind hr.expression fun iterable hiterable => ?_
  refine .bind (blind_expect _ _) fun _ _ => .bind (blind_loopBody hr) fun body hbody => ?_
  refine .bind (blind_spanFrom start) fun span _ => .pure (.of_children rfl ?_)
  simpa using ⟨hiterable, hbody⟩

theorem blind_whileStatement :
    (whileStatement rules).Blind fun s => (Node.stmt s).Confined false := by
  refine .bind (blind_expect _ _) fun start _ => .bind hr.expression fun test htest => ?_
  refine .bind (blind_expect _ _) fun _ _ => .bind (blind_loopBody hr) fun body hbody => ?_
  refine .bind (blind_spanFrom start) fun span _ => .pure (.of_children rfl ?_)
  simpa using ⟨htest, hbody⟩

theorem blind_returnStatement :
    (returnStatement rules).Blind fun s => (Node.stmt s).Confined false := by
  have hvalue : (returnValue? rules).Blind fun e => ∀ x ∈ e, (Node.expr x).Confined false := by
    refine .ask (fun _ _ => rfl) fun _ => .ite (fun _ => .pure nofun) fun _ => .map ?_
    exact hr.expression.imp fun e he x hx => by cases hx; exact he
  refine .bind (blind_expect _ _) fun start _ => .bind hvalue fun e he => ?_
  refine .bind blind_endStatement fun _ _ => .bind (blind_spanFrom start) fun span _ => ?_
  exact .pure (.of_children rfl (by simpa using he))

theorem blind_onStatement : (onStatement rules).Blind fun s => (Node.stmt s).Confined false := by
  refine .bind (blind_expect _ _) fun start _ => .bind hr.expression fun event hevent => ?_
  refine .bind (blind_optional _ hr.expression) fun condition hcondition => ?_
  refine .bind (blind_expect _ _) fun _ _ => .bind (blind_functionBody hr) fun body hbody => ?_
  refine .bind (blind_spanFrom start) fun span _ => .pure (.of_children rfl ?_)
  simpa using ⟨hevent, hbody, by simpa using hcondition⟩

theorem blind_emitStatement :
    (emitStatement rules).Blind fun s => (Node.stmt s).Confined false := by
  have hdata : (eventData? rules).Blind fun e => ∀ x ∈ e, (Node.expr x).Confined false := by
    refine .ask (fun _ _ => rfl) fun _ => .ite (fun _ => .map ?_) fun _ => .pure nofun
    exact (blind_mapLiteral hr).imp fun e he x hx => by cases hx; exact he
  refine .bind (blind_expect _ _) fun start _ => .bind hr.expression fun event hevent => ?_
  refine .bind hdata fun data hdata => .bind blind_endStatement fun _ _ => ?_
  refine .bind (blind_spanFrom start) fun span _ => .pure (.of_children rfl ?_)
  simpa using ⟨hevent, by simpa using hdata⟩

theorem blind_schemaField (required inSection : Bool) :
    (schemaField rules required inSection).Blind fun f => (Node.field f).Confined false := by
  refine .bind (blind_expect _ _) fun start _ => .bind (blind_expect _ _) fun _ _ => ?_
  refine .bind hr.type fun type _ => .bind (blind_optional _ hr.expression) ?_
  refine fun default hdefault => .bind blind_endStatement fun _ _ => ?_
  refine .bind (blind_spanFrom start) fun span _ => .pure (.of_children rfl ?_)
  simpa using hdefault

theorem blind_schemaPart :
    (schemaPart rules).Blind fun part =>
      (∀ f ∈ part.1, (Node.field f).Confined false) ∧
        ∀ m ∈ part.2, (Node.function m).Confined false := by
  refine .ask (fun _ _ => rfl) fun start => .ask (fun _ _ => rfl) fun atRequired => ?_
  refine .ask (fun _ _ => rfl) fun atOptional => .ite (fun _ => ?_) fun _ => ?_
  · refine .bind blind_advance fun _ _ => .bind (blind_expect _ _) fun _ _ => ?_
    refine .bind ((blind_schemaField hr _ true).indented _) fun fields hfields => ?_
    exact .pure ⟨hfields, by simp⟩
  refine .ask (fun _ _ => rfl) fun _ => .ite (fun _ => ?_) fun _ => ?_
  · exact .bind (blind_functionDeclaration hr) fun m hm => .pure ⟨by simp, by simpa using hm⟩
  refine .ask (fun _ _ => rfl) fun _ => .ite (fun _ => .ask (fun _ _ => rfl) fun _ => ?_) fun _ => ?_
  · refine .ite (fun _ => ?_) fun _ => ?_
    · refine .bind blind_advance fun _ _ => .bind (blind_expect _ _) fun _ _ => ?_
      refine .bind (blind_expect _ _) fun _ _ => .bind (blind_functionRest hr start _) ?_
      exact fun m hm => .pure ⟨by simp, by simpa using hm⟩
    · refine .bind (blind_schemaField hr false false) fun f hf => ?_
      exact .pure ⟨by simpa using hf, by simp⟩
  · exact .bind blind_passUnknown fun _ _ => .pure ⟨by simp, by simp⟩

theorem blind_schemaStatement :
    (schemaStatement rules).Blind fun s => (Node.stmt s).Confined false := by
  refine .bind (blind_expect _ _) fun start _ => .bind (blind_expect _ _) fun name _ => ?_
  refine .bind (blind_optional _ (blind_expect _ _)) fun parent _ => ?_
  refine .bind (blind_expect _ _) fun _ _ => .bind ((blind_schemaPart hr).indented _) ?_
  refine fun parts hparts => .bind (blind_spanFrom start) fun span _ => ?_
  refine .pure (.of_children rfl (List.forall_mem_append.mpr
    ⟨List.forall_mem_map.mpr fun f hf => ?_, List.forall_mem_map.mpr fun m hm => ?_⟩))
  · obtain ⟨part, hpart, hf⟩ := List.mem_flatMap.mp hf
    exact (hparts part hpart).1 f hf
  · obtain ⟨part, hpart, hm⟩ := List.mem_flatMap.mp hm
    exact (hparts part hpart).2 m hm

theorem blind_instanceStatement :
    (instanceStatement rules).Blind fun s => (Node.stmt s).Confined false := by
  have hfield : (instanceField rules).Blind fun f => (Node.expr f.2).Confined false := by
    refine .bind blind_propertyName fun name _ => .bind (blind_expect _ _) fun _ _ => ?_
    exact .bind hr.expression fun value hvalue => .bind blind_endStatement fun _ _ => .pure hvalue
  refine .bind (blind_expect _ _) fun start _ => .bind (blind_expect _ _) fun name _ => ?_
  refine .bind (blind_expect _ _) fun _ _ => .bind (hfield.indented _) fun fields hfields => ?_
  refine .bind (blind_spanFrom start) fun span _ => .pure (.of_children rfl ?_)
  refine List.forall_mem_map.mpr fun f hf => ?_
  obtain ⟨g, hg, heq⟩ := (mem_foldl_putField hf).resolve_left (by simp)
  rw [heq]
  exact hfields g hg

theorem blind_expressionStatement :
    (expressionStatement rules).Blind fun s => (Node.stmt s).Confined false := by
  refine .ask (fun _ _ => rfl) fun start => .bind hr.expression fun e he => ?_
  refine .bind blind_endStatement fun _ _ => .bind (blind_spanFrom start) fun span _ => ?_
  exact .pure (.of_children rfl (by simpa using he))

end

/-! ## Statements that may show the end of a loop -/

/-- A `break` or `continue` is refused where no loop is around it. -/
theorem guards_loopControl {build : Span → Stmt} (hends : ∀ span, (build span).endsLoop = true)
    (hspan : ∀ span, (build span).span = span)
    (hleaf : ∀ span, (Node.stmt (build span)).children = []) :
    (loopControl build).Guards fun o s => (Node.stmt s).Exposes o := by
  have hend (t : Token) : Blind (fun s => s = build t.span)
      (do endStatement; return build t.span : Parse Stmt) :=
    .bind blind_endStatement fun _ _ => .pure rfl
  refine .bindBlind blind_advance fun t _ c => ?_
  -- outside of loops the word is refused before the end of its statement is looked for
  have houtside : (do
      if (← Parse.ask Cursor.loops) = 0 then
        fail (.located (.outsideLoop t.lexeme) t.span)
      endStatement
      return build t.span : Parse Stmt).run (c.within 0) =
        .error (.located (.outsideLoop t.lexeme) t.span) := rfl
  rcases hend t c with ⟨_, d, rfl, hrun⟩ | ⟨e, hrun⟩
  · refine .refused (t := build t.span) ⟨?_, ?_⟩ (fun n => hrun (n + 1))
      (houtside.trans (by rw [hspan]))
    · exact .mk (fun _ => rfl) (by rw [hleaf]; nofun)
    · rintro _ ⟨⟩
      exact .itself (hends _)
  · exact .fails (fun n => hrun (n + 1)) houtside

/-- What several parts show, if one after the other they show what the first one shows that shows
    anything. -/
theorem exposes_each {α : Type} {node : α → Node} {o : Option Stmt} {as : List α}
    (h : Each (fun o a => (node a).Exposes o) o as) :
    (∀ a ∈ as, (node a).Confined o.isSome) ∧ ∀ t ∈ o, ∃ a ∈ as, (node a).Stray t := by
  induction h with
  | nil => exact ⟨nofun, nofun⟩
  | @cons o o' a as ha _ ih =>
    obtain ⟨hconfined, hstray⟩ := ih
    refine ⟨List.forall_mem_cons.mpr ⟨ha.or_left, fun a' ha' => (hconfined a' ha').mono ?_⟩, ?_⟩
    · cases o <;> simp_all
    · intro t ht
      cases o with
      | none =>
        obtain ⟨a', ha', hstray⟩ := hstray t ht
        exact ⟨a', List.mem_cons_of_mem _ ha', hstray⟩
      | some u => exact ⟨a, List.mem_cons_self .., ha.stray t ht⟩

section

variable (hr : rules.Guarded)

include hr

theorem guards_block : (block rules).Guards fun o b => (Node.block b).Exposes o := by
  refine .ask (fun _ _ => rfl) fun start => .bind (hr.statement.indented _) fun o ss hss => ?_
  refine .bindBlind (blind_spanFrom start) fun span _ => .pure ?_
  rw [Option.or_none]
  obtain ⟨hconfined, hstray⟩ := exposes_each hss
  refine .of_children rfl (by simpa using hconfined) fun t ht => ?_
  obtain ⟨s, hs, hstray⟩ := hstray t ht
  exact ⟨(1, .stmt s), List.mem_map_of_mem hs, fun _ => rfl, hstray⟩

theorem guards_alternatePart :
    (alternatePart rules).Guards fun o a => (Node.alternate a).Exposes o := by
  refine .bindBlind blind_skipNewlines fun _ _ => .ask (fun _ _ => rfl) fun _ => ?_
  refine .ite (fun _ => ?_) fun _ => ?_
  · refine .bind hr.ifStatement fun o s hs => .pure ?_
    rw [Option.or_none]
    exact .of_children rfl (by simpa using hs.confined) (by simpa using hs.stray)
  refine .bindBlind (blind_accept _) fun _ _ => .ite (fun _ => ?_) fun _ => ?_
  · refine .bindBlind (blind_expect _ _) fun _ _ => .bind hr.block fun o b hb => .pure ?_
    rw [Option.or_none]
    exact .of_children rfl (by simpa using hb.confined) (by simpa using hb.stray)
  · exact .pure (.of_children rfl (by simp) (by simp))

theorem guards_ifStatement :
    (ifStatement rules).Guards fun o s => (Node.ifStmt s).Exposes o := by
  refine .bindBlind blind_advance fun start _ => .bindBlind hr.expression fun test htest => ?_
  refine .bindBlind (blind_expect _ _) fun _ _ => .bind hr.block fun o yes hyes => ?_
  refine .bind (guards_alternatePart hr) fun o' no hno => ?_
  refine .bindBlind (blind_spanFrom start) fun span _ => .pure ?_
  rw [Option.or_none]
  refine .of_children rfl ?_ fun t ht => ?_
  · simp only [Node.children, List.forall_mem_cons]
    exact ⟨htest.inside, hyes.or_left, hno.or_right, nofun⟩
  · cases o with
    | none => exact ⟨(0, .alternate no), by simp, fun _ => rfl, hno.stray t ht⟩
    | some u => exact ⟨(0, .block yes), by simp, fun _ => rfl, hyes.stray t ht⟩

theorem guards_matchCase :
    (matchCase rules).Guards fun o c => (Node.matchCase c).Exposes o := by
  refine .ask (fun _ _ => rfl) fun start => .bindBlind hr.pattern fun pattern hpattern => ?_
  refine .bindBlind (blind_optional _ hr.expression) fun guard hguard => ?_
  refine .bindBlind (blind_expect _ _) fun _ _ => .bind hr.block fun o body hbody => ?_
  refine .bindBlind (blind_spanFrom start) fun span _ => .pure ?_
  rw [Option.or_none]
  refine .of_children rfl ?_ fun t ht => ⟨(0, .block body), by simp, fun _ => rfl, hbody.stray t ht⟩
  have hguard' : ∀ e, guard = some e → (Node.expr e).Confined o.isSome :=
    fun e he => (hguard e he).inside
  simpa using ⟨hpattern.inside, hbody.confined, hguard'⟩

theorem guards_matchStatement :
    (matchStatement rules).Guards fun o s => (Node.stmt s).Exposes o := by
  refine .bindBlind (blind_expect _ _) fun start _ => .bindBlind hr.expression fun e he => ?_
  refine .bindBlind (blind_expect _ _) fun _ _ => ?_
  refine .bind ((guards_matchCase hr).indented _) fun o cases hcases => ?_
  refine .bindBlind (blind_spanFrom start) fun span _ => .pure ?_
  rw [Option.or_none]
  obtain ⟨hconfined, hstray⟩ := exposes_each hcases
  refine .of_children rfl (by simpa using ⟨he.inside, hconfined⟩) fun t ht => ?_
  obtain ⟨c, hc, hstray⟩ := hstray t ht
  exact ⟨(1, .matchCase c), by simpa using hc, fun _ => rfl, hstray⟩

theorem guards_statement : (statement rules).Guards fun o s => (Node.stmt s).Exposes o := by
  have hblind {p : Parse Stmt} (hp : p.Blind fun s => (Node.stmt s).Confined false) :
      p.Guards fun o s => (Node.stmt s).Exposes o :=
    .of_blind (hp.imp fun _ h => Node.Exposes.none_iff.mpr h)
  have himport {p : Parse Import} (hp : p.Blind fun _ => True) :
      (Stmt.importFile <$> p).Guards fun o s => (Node.stmt s).Exposes o :=
    hblind (.map (hp.imp fun _ _ => .of_children rfl (by simp)))
  refine .bindBlind blind_skipNewlines fun _ _ => .ask (fun _ _ => rfl) fun k => ?_
  split
  · exact hblind (blind_letStatement hr)
  · exact hblind (blind_setStatement hr)
  · refine hblind (.map ((blind_functionDeclaration hr).imp fun f hf => ?_))
    exact .of_children rfl (by simpa using hf)
  · refine .map ((guards_ifStatement hr).imp fun o s hs => ?_)
    exact .of_children rfl (by simpa using hs.confined) (by simpa using hs.stray)
  · exact hblind (blind_forStatement hr)
  · exact hblind (blind_whileStatement hr)
  · exact guards_matchStatement hr
  · exact hblind (blind_returnStatement hr)
  · exact guards_loopControl (fun _ => rfl) (fun _ => rfl) fun _ => rfl
  · exact guards_loopControl (fun _ => rfl) (fun _ => rfl) fun _ => rfl
  · exact hblind (blind_onStatement hr)
  · exact hblind (blind_emitStatement hr)
  · exact himport blind_importStatement
  · exact himport blind_fromStatement
  · exact hblind (blind_schemaStatement hr)
  · have hstarts : startsInstance.Blind fun _ => True :=
      .ask (fun _ _ => rfl) fun _ => .ask (fun _ _ => rfl) fun _ => .ask (fun _ _ => rfl) fun _ =>
        .pure trivial
    refine .bindBlind hstarts fun _ _ => .ite (fun _ => ?_) fun _ => ?_
    · exact hblind (blind_instanceStatement hr)
    · exact hblind (blind_expressionStatement hr)

end

/-! ## The whole grammar -/

/-- Every rule treats loops in this way, whatever number of levels is below it. -/
theorem guarded_rulesAt (levels : Nat) : (rulesAt levels).Guarded := by
  induction levels with
  | zero =>
    exact ⟨blind_expected _, blind_expected _, .expected _, .expected _, .expected _,
      blind_expected _, blind_expected _⟩
  | succ levels ih =>
    exact ⟨blind_expression ih, blind_unary ih, guards_statement ih, guards_ifStatement ih,
      guards_block ih, blind_pattern ih, blind_type ih⟩

theorem guards_program (hr : rules.Guarded) :
    (program rules).Guards fun o p =>
      (∀ s ∈ p.body, (Node.stmt s).Confined o.isSome) ∧
        ∀ t ∈ o, ∃ s ∈ p.body, (Node.stmt s).Stray t := by
  have hstatements (bound : Nat) :
      (statementsFrom rules bound).Guards (Each fun o s => (Node.stmt s).Exposes o) := by
    induction bound with
    | zero => exact .expected _
    | succ bound ih =>
      refine .bindBlind blind_skipNewlines fun _ _ => .ask (fun _ _ => rfl) fun _ => ?_
      refine .ite (fun _ => .pure .nil) fun _ => .bind hr.statement fun o s hs => ?_
      exact .bind ih fun o' ss hss => .pure (by simpa using .cons hs hss)
  refine .ask (fun _ _ => rfl) fun start => .ask (fun _ _ => rfl) fun bound => ?_
  refine .bind (hstatements bound) fun o ss hss => .bindBlind (blind_spanFrom start) ?_
  refine fun span _ => .pure ?_
  rw [Option.or_none]
  obtain ⟨hconfined, hstray⟩ := exposes_each hss
  refine ⟨fun s hs => hconfined s (List.mem_of_mem_filter hs), fun t ht => ?_⟩
  obtain ⟨s, hs, hstray⟩ := hstray t ht
  refine ⟨s, List.mem_filter.mpr ⟨hs, ?_⟩, hstray⟩
  -- an import has no parts
  cases s <;> first | rfl | cases hstray
  all_goals simp_all [Stmt.endsLoop]

/-- A block that is the body of a function, method, block lambda or handler is read as in a loop, if
    each `break` and `continue` in it has a loop around it there; else one that has none is
    refused. -/
theorem run_functionBody (levels : Nat) {c d : Cursor} {b : Block}
    (h : (rulesAt levels .block).run (c.within 1) = .ok (b, d)) :
    ((Node.block b).Confined false ∧
        (functionBody (rulesAt levels)).run c = .ok (b, d.within c.loops)) ∨
      ∃ t word, (Node.block b).Stray t ∧
        (functionBody (rulesAt levels)).run c = .error (.located (.outsideLoop word) t.span) := by
  have hrun : (functionBody (rulesAt levels)).run c = _ := Guards.run_outsideLoops _ c
  rw [hrun]
  refine ((guarded_rulesAt levels).block.outside h).imp ?_ ?_
  · rintro ⟨hb, hout⟩
    exact ⟨hb.confined, run_bind_of_ok (d := d.within 0) hout⟩
  · rintro ⟨t, word, hb, hout⟩
    exact ⟨t, word, hb.stray t rfl, run_bind_of_error hout⟩

end Grammar

namespace Program

open Grammar

/-- Every `break` and `continue` of a program has a loop around it in its own function. -/
def Confined (program : Program) : Prop := ∀ s ∈ program.body, (Node.stmt s).Confined false

/-- A program that compiles is confined. -/
theorem confined_of_compile {source : String} {file : Option String} {program : Program}
    (h : compile source file = .ok program) : program.Confined := by
  obtain ⟨tokens, d, -, hread⟩ := read_of_compile h
  unfold read at hread
  cases tokens with
  | nil => cases hread
  | cons t rest => exact ((guards_program (guarded_rulesAt _)).of_run rfl hread).1

/-- A source whose statements are read as in a loop compiles, if each `break` and `continue` in it
    has a loop around it; else one that has none is refused. -/
theorem compile_of_run {source : String} {file : Option String} {tokens : List Token}
    (hscan : Token.scan source (some (sourceName file)) = .ok tokens) {c d : Cursor}
    (hc : Cursor.ofTokens? tokens = some c) {p : Program}
    (hrun : (program (rulesAt (depthFor tokens.length))).run (c.within 1) = .ok (p, d)) :
    (p.Confined ∧ compile source file = .ok p) ∨
      ∃ s ∈ p.body, ∃ t word e, (Node.stmt s).Stray t ∧ compile source file = .error e ∧
        e.problem = .outsideLoop word ∧ e.span = some t.span := by
  have hread : read tokens = (program (rulesAt (depthFor tokens.length))).run (c.within 0) := by
    cases tokens with
    | nil => cases hc
    | cons t rest =>
      cases hc
      rfl
  refine ((guards_program (guarded_rulesAt _)).outside hrun).imp ?_ ?_
  · rintro ⟨hp, hout⟩
    exact ⟨hp.1, compile_of_read hscan (hread.trans hout)⟩
  · rintro ⟨t, word, ⟨-, hstray⟩, hout⟩
    obtain ⟨s, hs, hstray⟩ := hstray t rfl
    refine ⟨s, hs, t, word, quoting source (.located (.outsideLoop word) t.span), hstray, ?_, rfl,
      rfl⟩
    change (Token.scan source (some (sourceName file)) >>= _) = _
    rw [hscan]
    change (ofTokens tokens).mapError _ = _
    rw [ofTokens, hread, hout]
    rfl

end Program

end EventScript
