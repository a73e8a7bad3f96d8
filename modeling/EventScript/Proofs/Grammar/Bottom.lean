import EventScript.Proofs.Grammar.Settles

/-! # The grammar never comes to its lowest level

A rule with a number of tokens in front of it comes back to rules with fewer tokens in front of
them, and only a statement goes on to an expression at its own first token.  So twice as many levels
as there are tokens are enough: more levels, and any rules below them, give the same readings.

* `rulesAbove`            the rules with given ones at the bottom
* `Goal.need`             the levels that a rule needs for a number of tokens
* `settles_rulesAbove`    with so many levels the bottom is never reached
-/

namespace EventScript

/-- From a place on, two readings of every rule do the same. -/
def Rules.SettleFrom (tokens : List Token) (i : Nat) (rules rules' : Rules) : Prop :=
  ∀ g j, i ≤ j → Parse.Settles tokens j (rules g) (rules' g)

theorem Rules.SettleFrom.mono {tokens : List Token} {i j : Nat} {rules rules' : Rules}
    (h : rules.SettleFrom tokens i rules') (hij : i ≤ j) : rules.SettleFrom tokens j rules' :=
  fun g k hjk => h g k (Nat.le_trans hij hjk)

namespace Grammar

open Parse

variable {tokens : List Token} {i : Nat} {rules rules' : Rules}

/-! ## Rules that come back to no other rule -/

theorem settles_propertyName : Settles tokens i propertyName propertyName :=
  .ask fun _ _ => .ite (fun _ => .bind settles_advance fun _ _ _ => .pure _)
    fun _ => settles_expected _

theorem settles_pathFrom (bound : Nat) : Settles tokens i (pathFrom bound) (pathFrom bound) := by
  induction bound generalizing i with
  | zero => exact settles_expected _
  | succ bound ih =>
    refine .token? nofun ?_ (.pure _)
    exact .bind (settles_expect _ _) fun _ _ _ => .bind ih fun _ _ _ => .pure _

theorem settles_reactive : Settles tokens i reactive reactive :=
  .bind (settles_expect _ _) fun _ _ _ => .bind (settles_expect _ _) fun _ _ _ => .ask fun _ _ =>
    .bind (settles_pathFrom _) fun _ _ _ => settles_ofSpan

theorem settles_givenName? (what : String) :
    Settles tokens i (givenName? what) (givenName? what) :=
  .ask fun _ _ => .ite (fun _ => .bind settles_advance fun _ _ _ =>
    .bind (settles_expect _ _) fun _ _ _ => .pure _) fun _ => .pure _

/-! ## Expressions -/

section

variable (hr : rules.SettleFrom tokens i rules')

include hr

theorem settles_parameter : Settles tokens i (parameter rules) (parameter rules') := by
  refine .token nofun fun _ _ => ?_
  refine .bind (settles_optional nofun (hr .expression _ (by omega))) fun _ _ _ => ?_
  exact settles_ofSpan

theorem settles_parameters : Settles tokens i (parameters rules) (parameters rules') := by
  refine .token nofun fun _ _ => ?_
  refine .bind (settles_separated fun j hj => settles_parameter (hr.mono (by omega))) ?_
  exact fun _ _ _ => .bind (settles_expect _ _) fun _ _ _ => .pure _

theorem settles_lambdaBody : Settles tokens i (lambdaBody rules) (lambdaBody rules') := by
  refine .token? nofun (.bind (hr .expression _ (by omega)) fun _ _ _ => .pure _) ?_
  refine .token? nofun ?_ (settles_expected _)
  exact .bind (settles_outsideLoops fun j hj => hr .block j (by omega)) fun _ _ _ => .pure _

theorem settles_vectorRest (bound : Nat) :
    Settles tokens i (vectorRest rules bound) (vectorRest rules' bound) := by
  induction bound generalizing i with
  | zero => exact settles_expected _
  | succ bound ih =>
    refine .token? nofun (.bind (hr .expression _ (by omega)) fun e j hij => ?_) (.pure _)
    exact .bind (ih (hr.mono (by omega))) fun _ _ _ => .pure _

theorem settles_entryParts (start : Token) :
    Settles tokens i (entryParts rules start) (entryParts rules' start) := by
  -- a name with a value or by itself, a string, a key in brackets, or nothing that is a key
  refine .token? nofun (.token? nofun ?_ (.pure _)) (.token? nofun ?_ (.token? nofun ?_ ?_))
  · exact .bind (hr .expression _ (by omega)) fun _ _ _ => .pure _
  · refine .token nofun fun _ _ => ?_
    exact .bind (hr .expression _ (by omega)) fun _ _ _ => .pure _
  · refine .bind (hr .expression _ (by omega)) fun _ j hij => .token nofun fun _ _ => ?_
    refine .token nofun fun _ _ => .bind (hr .expression _ (by omega)) fun _ _ _ => .pure _
  · exact settles_expected _

theorem settles_mapEntry : Settles tokens i (mapEntry rules) (mapEntry rules') :=
  .ask fun _ _ => .bind (settles_entryParts hr _) fun _ _ _ =>
    settles_ofSpan

end

section

variable (hr : rules.SettleFrom tokens (i + 1) rules')

include hr

theorem settles_arguments : Settles tokens i (arguments rules) (arguments rules') := by
  refine .token nofun fun _ _ => .bind (settles_separated (hr .expression)) fun _ _ _ => ?_
  exact .bind (settles_expect _ _) fun _ _ _ => .pure _

theorem settles_lambda : Settles tokens i (lambda rules) (lambda rules') := by
  refine .token nofun fun _ _ => .bind (settles_parameters hr) fun _ j hij => ?_
  refine .bind (settles_lambdaBody (hr.mono hij)) fun _ _ _ => ?_
  exact settles_ofSpan

theorem settles_parenthesized : Settles tokens i (parenthesized rules) (parenthesized rules') := by
  refine .token nofun fun _ _ => .token? nofun ?_ ?_
  · exact settles_ofSpan
  -- a comma behind the first expression makes a vector
  refine .bind (hr .expression _ (Nat.le_refl _)) fun _ j hij => .ask fun _ _ => ?_
  refine .ite (fun _ => .ask fun _ _ => ?_) fun _ => ?_
  · refine .bind (settles_vectorRest (hr.mono hij) _) fun _ _ _ => ?_
    refine .bind (settles_expect _ _) fun _ _ _ => ?_
    exact settles_ofSpan
  · exact .bind (settles_expect _ _) fun _ _ _ => .pure _

theorem settles_listLiteral : Settles tokens i (listLiteral rules) (listLiteral rules') := by
  refine .token nofun fun _ _ => .bind (settles_separated (hr .expression)) fun _ _ _ => ?_
  refine .bind (settles_expect _ _) fun _ _ _ => ?_
  exact settles_ofSpan

theorem settles_mapLiteral : Settles tokens i (mapLiteral rules) (mapLiteral rules') := by
  refine .ask fun _ _ => ?_
  refine .bind (settles_braced fun j hij => settles_mapEntry (hr.mono hij)) fun _ _ _ => ?_
  exact settles_ofSpan

theorem settles_primary : Settles tokens i (primary rules) (primary rules') := by
  have hleaf : ∀ e : Expr, Settles tokens i (do let _ ← advance; return e)
      (do let _ ← advance; return e) := fun e => .bind settles_advance fun _ _ _ => .pure e
  refine .current fun t _ => ?_
  split
  · exact settles_reactive
  · exact settles_lambda hr
  · exact hleaf _
  · exact hleaf _
  · exact hleaf _
  · exact hleaf _
  · exact hleaf _
  · exact settles_parenthesized hr
  · exact settles_listLiteral hr
  · exact settles_mapLiteral hr
  · exact settles_expected _

theorem settles_postfixFrom (start : Token) (bound : Nat) (e : Expr) :
    Settles tokens i (postfixFrom rules start bound e) (postfixFrom rules' start bound e) := by
  induction bound generalizing i e with
  | zero => exact settles_expected _
  | succ bound ih =>
    -- a member, a key in brackets, arguments, or the end of what is applied
    refine .token? nofun ?_ (.token? nofun ?_ (.ask fun _ _ => .ite (fun _ => ?_) fun _ => .pure _))
    · refine .bind settles_propertyName fun _ j hij => .bind (settles_spanFrom _) fun _ k hjk => ?_
      exact ih (hr.mono (by omega)) _
    · refine .bind (hr .expression _ (Nat.le_refl _)) fun _ j hij => .token nofun fun _ _ => ?_
      exact .bind (settles_spanFrom _) fun _ k hjk => ih (hr.mono (by omega)) _
    · refine .bind (settles_arguments hr) fun _ j hij => ?_
      refine .bind (settles_spanFrom _) fun _ k hjk => ?_
      exact ih (hr.mono (by omega)) _

theorem settles_postfixed : Settles tokens i (postfixed rules) (postfixed rules') :=
  .ask fun _ _ => .bind (settles_primary hr) fun _ _ hij => .ask fun _ _ =>
    settles_postfixFrom (hr.mono (by omega)) _ _ _

theorem settles_unary : Settles tokens i (unary rules) (unary rules') := by
  refine .current fun t ht => ?_
  have hsigned : ∀ operator, t.kind ≠ .endOfFile → Settles tokens i
      (do let _ ← advance; let e ← rules .unary; return Expr.unary (← spanFrom t) operator e)
      (do let _ ← advance; let e ← rules' .unary; return Expr.unary (← spanFrom t) operator e) := by
    -- the sign is a token to be passed, so that the operand stands further on
    refine fun operator hkind => .advance fun u j hu _ hj => ?_
    cases ht.symm.trans hu
    obtain rfl := hj hkind
    refine .bind (hr .unary _ (Nat.le_refl _)) fun _ _ _ => ?_
    exact settles_ofSpan
  dsimp only
  split <;> rename_i hkind
  · exact hsigned _ (by simp [hkind])
  · exact hsigned _ (by simp [hkind])
  · exact settles_postfixed hr

omit hr in
theorem settles_chainFrom {level : List (TokenKind × BinaryOperator)}
    {operand operand' : Parse Expr}
    (hoperand : ∀ j, i ≤ j → Settles tokens j operand operand') (start : Token) (bound : Nat)
    (left : Expr) :
    Settles tokens i (chainFrom level operand start bound left)
      (chainFrom level operand' start bound left) := by
  induction bound generalizing i left with
  | zero => exact settles_expected _
  | succ bound ih =>
    refine .ask fun _ _ => ?_
    split
    · exact .pure _
    · refine .bind settles_advance fun _ j hij => .bind (hoperand j hij) fun _ k hjk => ?_
      exact .bind (settles_spanFrom _) fun _ m hkm => ih (fun n hn => hoperand n (by omega)) _

omit hr in
theorem settles_chain {level : List (TokenKind × BinaryOperator)} {operand operand' : Parse Expr}
    (hoperand : ∀ j, i ≤ j → Settles tokens j operand operand') (j : Nat) (hij : i ≤ j) :
    Settles tokens j (chain level operand) (chain level operand') :=
  .ask fun _ _ => .bind (hoperand j hij) fun _ _ hjk => .ask fun _ _ =>
    settles_chainFrom (fun m hm => hoperand m (by omega)) _ _ _

theorem settles_disjunction (j : Nat) (hij : i ≤ j) :
    Settles tokens j (disjunction rules) (disjunction rules') := by
  have hproduct : ∀ j, i ≤ j → Settles tokens j (product rules) (product rules') :=
    settles_chain fun j hij => settles_unary (hr.mono (by omega))
  exact settles_chain
    (settles_chain (settles_chain (settles_chain (settles_chain hproduct)))) j hij

theorem settles_expression : Settles tokens i (expression rules) (expression rules') := by
  refine .ask fun _ _ => .token? nofun ?_ (settles_disjunction hr i (Nat.le_refl i))
  refine .bind (settles_disjunction hr _ (by omega)) fun _ j hij => .token nofun fun _ _ => ?_
  refine .bind (settles_disjunction hr _ (by omega)) fun _ k hjk => .token nofun fun _ _ => ?_
  refine .bind (hr .expression _ (by omega)) fun _ _ _ => ?_
  exact settles_ofSpan

end

/-! ## Patterns and types -/

theorem settles_mapPatternEntry (hr : rules.SettleFrom tokens i rules') :
    Settles tokens i (mapPatternEntry rules) (mapPatternEntry rules') := by
  refine .ask fun _ _ => .ask fun _ _ => .ite (fun _ => ?_) fun _ => settles_expected _
  refine .bind settles_advance fun _ j hij => .token? nofun ?_ (.pure _)
  exact .bind (hr .pattern _ (by omega)) fun _ _ _ => .pure _

theorem settles_enumerationType (start : Token) :
    Settles tokens i (enumerationType start) (enumerationType start) := by
  have hvalue : ∀ j, Settles tokens j enumerationValue enumerationValue :=
    fun _ => .bind (settles_expect _ _) fun _ _ _ => .pure _
  refine .bind (settles_expect _ _) fun _ _ _ => ?_
  refine .bind (settles_separated fun j _ => hvalue j) fun _ _ _ => ?_
  refine .bind (settles_expect _ _) fun _ _ _ => ?_
  exact settles_ofSpan

section

variable (hr : rules.SettleFrom tokens (i + 1) rules')

include hr

theorem settles_pattern : Settles tokens i (pattern rules) (pattern rules') := by
  refine .ask fun _ _ => .ite (fun _ => .bind settles_advance fun _ _ _ => .pure _) fun _ => ?_
  refine .token? nofun ?_ (.ask fun _ _ => .ite (fun _ => ?_) fun _ => ?_)
  · refine .bind (settles_separated (hr .pattern)) fun _ _ _ => ?_
    refine .bind (settles_expect _ _) fun _ _ _ => ?_
    exact settles_ofSpan
  · refine .bind (settles_braced fun j hij => settles_mapPatternEntry (hr.mono hij)) fun _ _ _ => ?_
    exact settles_ofSpan
  · refine .bind (settles_primary hr) fun _ _ _ => ?_
    exact settles_ofSpan

theorem settles_listType (start : Token) :
    Settles tokens (i + 1) (listType rules start) (listType rules' start) := by
  refine .token nofun fun _ _ => .bind (hr .type _ (by omega)) fun _ _ _ => ?_
  refine .bind (settles_expect _ _) fun _ _ _ => ?_
  exact settles_ofSpan

theorem settles_mapType (start : Token) :
    Settles tokens (i + 1) (mapType rules start) (mapType rules' start) := by
  refine .token nofun fun _ _ => .bind (hr .type _ (by omega)) fun _ j hij => ?_
  refine .token nofun fun _ _ => .bind (hr .type _ (by omega)) fun _ _ _ => ?_
  refine .bind (settles_expect _ _) fun _ _ _ => ?_
  exact settles_ofSpan

theorem settles_type : Settles tokens i (type rules) (type rules') := by
  refine .token nofun fun start _ => .ask fun _ _ => ?_
  split
  · exact settles_listType hr _
  · exact settles_mapType hr _
  · exact settles_enumerationType _
  · exact .pure _

/-! ## Statements -/

theorem settles_block : Settles tokens i (block rules) (block rules') := by
  refine .ask fun _ _ => .bind (settles_indented fun j hij => hr .statement j hij) fun _ _ _ => ?_
  exact settles_ofSpan

end

section

variable (hr : rules.SettleFrom tokens i rules')

include hr

theorem settles_functionRest (start : Token) (name : String) :
    Settles tokens i (functionRest rules start name) (functionRest rules' start name) := by
  refine .bind (settles_parameters hr) fun _ j hij => .token nofun fun _ _ => ?_
  refine .bind (settles_outsideLoops fun k hk => hr .block k (by omega)) fun _ _ _ => ?_
  exact settles_ofSpan

theorem settles_alternatePart : Settles tokens i (alternatePart rules) (alternatePart rules') := by
  refine .bind settles_skipNewlines fun _ j hij => .ask fun _ _ => .ite (fun _ => ?_) fun _ => ?_
  · exact .bind (hr .ifStatement j hij) fun _ _ _ => .pure _
  refine .token? nofun (.token nofun fun _ _ => ?_) (.pure _)
  exact .bind (hr .block _ (by omega)) fun _ _ _ => .pure _

theorem settles_loopBody : Settles tokens i (loopBody rules) (loopBody rules') :=
  settles_insideLoop (hr .block)

theorem settles_functionBody : Settles tokens i (functionBody rules) (functionBody rules') :=
  settles_outsideLoops (hr .block)

theorem settles_matchCase : Settles tokens i (matchCase rules) (matchCase rules') := by
  refine .ask fun _ _ => .bind (hr .pattern i (Nat.le_refl i)) fun _ j hij => ?_
  refine .bind (settles_optional nofun (hr .expression _ (by omega))) fun _ k hjk => ?_
  refine .token nofun fun _ _ => .bind (hr .block _ (by omega)) fun _ _ _ => ?_
  exact settles_ofSpan

theorem settles_schemaField (required inSection : Bool) :
    Settles tokens i (schemaField rules required inSection)
      (schemaField rules' required inSection) := by
  refine .token nofun fun _ _ => .token nofun fun _ _ => ?_
  refine .bind (hr .type _ (by omega)) fun _ j hij => ?_
  refine .bind (settles_optional nofun (hr .expression _ (by omega))) fun _ _ _ => ?_
  exact .bind settles_endStatement fun _ _ _ => settles_ofSpan

theorem settles_instanceField : Settles tokens i (instanceField rules) (instanceField rules') := by
  refine .bind settles_propertyName fun _ j hij => .token nofun fun _ _ => ?_
  refine .bind (hr .expression _ (by omega)) fun _ _ _ => ?_
  exact .bind settles_endStatement fun _ _ _ => .pure _

omit hr in
theorem settles_functionDeclaration (hr : rules.SettleFrom tokens (i + 1) rules') :
    Settles tokens i (functionDeclaration rules) (functionDeclaration rules') :=
  .token nofun fun _ _ => .token nofun fun _ _ => settles_functionRest (hr.mono (by omega)) _ _

theorem settles_schemaPart : Settles tokens i (schemaPart rules) (schemaPart rules') := by
  refine .ask fun _ _ => .ask fun _ _ => .ask fun _ _ => .ite (fun _ => ?_) fun _ => ?_
  · -- a section of fields
    refine .bind settles_advance fun _ j hij => .token nofun fun _ _ => ?_
    refine .bind (settles_indented fun k hk => settles_schemaField (hr.mono (by omega)) _ _) ?_
    exact fun _ _ _ => .pure _
  refine .ask fun _ _ => .ite (fun _ => ?_) fun _ => .ask fun _ _ => ?_
  · exact .bind (settles_functionDeclaration (hr.mono (by omega))) fun _ _ _ => .pure _
  refine .ite (fun _ => .ask fun _ _ => .ite (fun _ => ?_) fun _ => ?_) fun _ => ?_
  · -- a method that is written like a field
    refine .bind settles_advance fun _ j hij => .token nofun fun _ _ => .token nofun fun _ _ => ?_
    exact .bind (settles_functionRest (hr.mono (by omega)) _ _) fun _ _ _ => .pure _
  · exact .bind (settles_schemaField hr _ _) fun _ _ _ => .pure _
  · -- what a schema body does not know is passed
    refine .bind (.ask fun _ _ => .bind (settles_note _) fun _ _ _ => settles_advance) ?_
    exact fun _ _ _ => .pure _

end

theorem settles_importStatement : Settles tokens i importStatement importStatement :=
  .bind (settles_expect _ _) fun _ _ _ => .bind (settles_expect _ _) fun _ _ _ =>
    .bind (settles_givenName? _) fun _ _ _ => .bind settles_endStatement fun _ _ _ =>
      settles_ofSpan

theorem settles_importSpecifier : Settles tokens i importSpecifier importSpecifier :=
  .ask fun _ _ => .bind (settles_expect _ _) fun _ _ _ => .bind (settles_givenName? _) fun _ _ _ =>
    settles_ofSpan

theorem settles_fromStatement : Settles tokens i fromStatement fromStatement := by
  refine .bind (settles_expect _ _) fun _ _ _ => .bind (settles_expect _ _) fun _ _ _ => ?_
  refine .bind (settles_expect _ _) fun _ j _ => .bind (.token? nofun ?_ ?_) fun _ _ _ => ?_
  · refine .bind (settles_separated fun _ _ => settles_importSpecifier) fun _ _ _ => ?_
    exact .bind (settles_expect _ _) fun _ _ _ => .pure _
  · exact .bind (settles_expect _ _) fun _ _ _ => .pure _
  · exact .bind settles_endStatement fun _ _ _ => settles_ofSpan

theorem settles_loopControl (build : Span → Stmt) :
    Settles tokens i (loopControl build) (loopControl build) := by
  refine .advance fun t j ht _ _ => .ask fun _ _ => ?_
  refine .ite (fun _ => .fail (atToken_located ht rfl)) fun _ => ?_
  exact .bind settles_endStatement fun _ _ _ => .pure _

theorem settles_startsInstance : Settles tokens i startsInstance startsInstance :=
  .ask fun _ _ => .ask fun _ _ => .ask fun _ _ => .pure _

section

variable (hr : rules.SettleFrom tokens (i + 1) rules')

include hr

theorem settles_letStatement : Settles tokens i (letStatement rules) (letStatement rules') := by
  refine .token nofun fun _ _ => .bind (settles_expect _ _) fun _ j hij => ?_
  refine .bind (settles_expect _ _) fun _ k hjk => ?_
  refine .bind (hr .expression k (by omega)) fun _ _ _ => ?_
  exact .bind settles_endStatement fun _ _ _ => settles_ofSpan

theorem settles_setStatement : Settles tokens i (setStatement rules) (setStatement rules') := by
  refine .token nofun fun _ _ => .current fun t ht => ?_
  refine .bind (hr .expression _ (by omega)) fun e j hij => ?_
  split
  · exact .ask fun _ _ => .fail (atToken_located ht rfl)
  · refine .bind (settles_expect _ _) fun _ k hjk => ?_
    refine .bind (hr .expression k (by omega)) fun _ _ _ => ?_
    exact .bind settles_endStatement fun _ _ _ => settles_ofSpan

theorem settles_forStatement : Settles tokens i (forStatement rules) (forStatement rules') := by
  refine .token nofun fun _ _ => .token nofun fun _ _ => .token nofun fun _ _ => ?_
  refine .bind (hr .expression _ (by omega)) fun _ j hij => .token nofun fun _ _ => ?_
  refine .bind (settles_loopBody (hr.mono (by omega))) fun _ _ _ => ?_
  exact settles_ofSpan

theorem settles_whileStatement :
    Settles tokens i (whileStatement rules) (whileStatement rules') := by
  refine .token nofun fun _ _ => .bind (hr .expression _ (by omega)) fun _ j hij => ?_
  refine .token nofun fun _ _ => .bind (settles_loopBody (hr.mono (by omega))) fun _ _ _ => ?_
  exact settles_ofSpan

theorem settles_matchStatement :
    Settles tokens i (matchStatement rules) (matchStatement rules') := by
  refine .token nofun fun _ _ => .bind (hr .expression _ (by omega)) fun _ j hij => ?_
  refine .token nofun fun _ _ => ?_
  refine .bind (settles_indented fun k hk => settles_matchCase (hr.mono (by omega))) fun _ _ _ => ?_
  exact settles_ofSpan

theorem settles_returnStatement :
    Settles tokens i (returnStatement rules) (returnStatement rules') := by
  refine .token nofun fun _ _ => ?_
  refine .bind (.ask fun _ _ => .ite (fun _ => .pure _) fun _ => ?_) fun _ _ _ => ?_
  · exact .map (hr .expression _ (Nat.le_refl _))
  · exact .bind settles_endStatement fun _ _ _ => settles_ofSpan

theorem settles_onStatement : Settles tokens i (onStatement rules) (onStatement rules') := by
  refine .token nofun fun _ _ => .bind (hr .expression _ (by omega)) fun _ j hij => ?_
  refine .bind (settles_optional nofun (hr .expression _ (by omega))) fun _ k hjk => ?_
  refine .token nofun fun _ _ => .bind (settles_functionBody (hr.mono (by omega))) fun _ _ _ => ?_
  exact settles_ofSpan

theorem settles_emitStatement : Settles tokens i (emitStatement rules) (emitStatement rules') := by
  refine .token nofun fun _ _ => .bind (hr .expression _ (by omega)) fun _ j hij => ?_
  refine .bind (.ask fun _ _ => .ite (fun _ => ?_) fun _ => .pure _) fun _ _ _ => ?_
  · exact .map (settles_mapLiteral (hr.mono (by omega)))
  · exact .bind settles_endStatement fun _ _ _ => settles_ofSpan

theorem settles_schemaStatement :
    Settles tokens i (schemaStatement rules) (schemaStatement rules') := by
  refine .token nofun fun _ _ => .token nofun fun _ _ => ?_
  refine .bind (settles_optional nofun (settles_expect _ _)) fun _ j hij => ?_
  refine .token nofun fun _ _ => ?_
  refine .bind (settles_indented fun k hk => settles_schemaPart (hr.mono (by omega))) ?_
  exact fun _ _ _ => settles_ofSpan

theorem settles_instanceStatement :
    Settles tokens i (instanceStatement rules) (instanceStatement rules') := by
  refine .token nofun fun _ _ => .token nofun fun _ _ => .token nofun fun _ _ => ?_
  refine .bind (settles_indented fun k hk => settles_instanceField (hr.mono (by omega))) ?_
  exact fun _ _ _ => settles_ofSpan

/-- A conditional statement may be looked for at the end of the file, where no token is passed
    before its test. -/
theorem settles_ifStatement
    (he : ∀ j, i ≤ j → Settles tokens j (rules .expression) (rules' .expression)) :
    Settles tokens i (ifStatement rules) (ifStatement rules') := by
  refine .advance fun _ j _ hij _ => .bind (he j hij) fun _ k hjk => .token nofun fun _ _ => ?_
  refine .bind (hr .block _ (by omega)) fun _ m hkm => ?_
  refine .bind (settles_alternatePart (hr.mono (by omega))) fun _ _ _ => ?_
  exact settles_ofSpan

omit hr in
theorem settles_expressionStatement
    (he : ∀ j, i ≤ j → Settles tokens j (rules .expression) (rules' .expression)) :
    Settles tokens i (expressionStatement rules) (expressionStatement rules') :=
  .ask fun _ _ => .bind (he i (Nat.le_refl i)) fun _ _ _ => .bind settles_endStatement fun _ _ _ =>
    settles_ofSpan

/-- A statement may be an expression, which starts where the statement does. -/
theorem settles_statement
    (he : ∀ j, i ≤ j → Settles tokens j (rules .expression) (rules' .expression)) :
    Settles tokens i (statement rules) (statement rules') := by
  refine .bind settles_skipNewlines fun _ j hij => .ask fun _ _ => ?_
  have hr' := hr.mono (Nat.succ_le_succ hij)
  have he' : ∀ k, j ≤ k → Settles tokens k (rules .expression) (rules' .expression) :=
    fun k hk => he k (Nat.le_trans hij hk)
  split
  · exact settles_letStatement hr'
  · exact settles_setStatement hr'
  · exact .map (settles_functionDeclaration hr')
  · exact .map (settles_ifStatement hr' he')
  · exact settles_forStatement hr'
  · exact settles_whileStatement hr'
  · exact settles_matchStatement hr'
  · exact settles_returnStatement hr'
  · exact settles_loopControl _
  · exact settles_loopControl _
  · exact settles_onStatement hr'
  · exact settles_emitStatement hr'
  · exact .map settles_importStatement
  · exact .map settles_fromStatement
  · exact settles_schemaStatement hr'
  · refine .bind settles_startsInstance fun _ k hk => .ite (fun _ => ?_) fun _ => ?_
    · exact settles_instanceStatement (hr'.mono (Nat.succ_le_succ hk))
    · exact settles_expressionStatement fun m hm => he' m (Nat.le_trans hk hm)

end

/-! ## Levels -/

/-- The rules with a number of levels above given ones. -/
def rulesAbove (bottom : Rules) : Nat → Rules
  | 0 => bottom
  | levels + 1 => step (rulesAbove bottom levels)

theorem rulesAt_eq_rulesAbove (levels : Nat) :
    rulesAt levels = rulesAbove (fun _ => expected "expression") levels := by
  induction levels with
  | zero => rfl
  | succ levels ih => rw [rulesAt, rulesAbove, ih]

end Grammar

/-- The levels that a rule needs for a number of tokens in front of it: a statement may go on to an
    expression where it stands itself. -/
def Goal.need (tokensLeft : Nat) : Goal → Nat
  | .statement | .ifStatement => 2 * tokensLeft
  | _ => 2 * tokensLeft - 1

theorem Goal.need_le (n : Nat) (g : Goal) : g.need n ≤ 2 * n := by
  cases g <;> simp only [need] <;> omega

theorem Goal.le_need (n : Nat) (g : Goal) : 2 * n - 1 ≤ g.need n := by
  cases g <;> simp only [need] <;> omega

namespace Grammar

open Parse

/-- From a place on, rules with enough levels above their bottoms do the same. -/
theorem settles_rulesAbove {tokens : List Token} {bottom bottom' : Rules}
    {levels levels' : Nat} {g : Goal} {i : Nat} (hlevels : g.need (tokens.length - i) ≤ levels)
    (hlevels' : g.need (tokens.length - i) ≤ levels') :
    Parse.Settles tokens i (rulesAbove bottom levels g) (rulesAbove bottom' levels' g) := by
  induction levels generalizing levels' g i with
  | zero =>
    -- no level is enough only for no token
    have := g.le_need (tokens.length - i)
    exact .of_length_le (by omega)
  | succ levels ih =>
    rcases Nat.lt_or_ge i tokens.length with hi | hi
    rotate_left
    · exact .of_length_le hi
    have hneed := g.le_need (tokens.length - i)
    obtain ⟨levels', rfl⟩ : ∃ n, levels' = n + 1 := ⟨levels' - 1, by omega⟩
    -- behind the next token there is one token less, which is worth two levels
    have hr : (rulesAbove bottom levels).SettleFrom tokens (i + 1)
        (rulesAbove bottom' levels') := by
      intro g' j hij
      have := g'.need_le (tokens.length - j)
      exact ih (by omega) (by omega)
    -- a statement needs one level more than the expression that it may be
    have he (hg : g.need (tokens.length - i) = 2 * (tokens.length - i)) (j : Nat) (hij : i ≤ j) :
        Settles tokens j (rulesAbove bottom levels .expression)
          (rulesAbove bottom' levels' .expression) := by
      have : Goal.expression.need (tokens.length - j) = 2 * (tokens.length - j) - 1 := rfl
      exact ih (by omega) (by omega)
    cases g with
    | expression => exact settles_expression hr
    | unary => exact settles_unary hr
    | statement => exact settles_statement hr (he rfl)
    | ifStatement => exact settles_ifStatement hr (he rfl)
    | block => exact settles_block hr
    | pattern => exact settles_pattern hr
    | type => exact settles_type hr

theorem settles_statementsFrom {tokens : List Token} {i : Nat} {rules rules' : Rules}
    (hs : ∀ j, i ≤ j → Settles tokens j (rules .statement) (rules' .statement)) (bound : Nat) :
    Settles tokens i (statementsFrom rules bound) (statementsFrom rules' bound) := by
  induction bound generalizing i with
  | zero => exact settles_expected _
  | succ bound ih =>
    refine .bind settles_skipNewlines fun _ j hij => .ask fun _ _ => ?_
    refine .ite (fun _ => .pure _) fun _ => .bind (hs j hij) fun _ k hjk => ?_
    exact .bind (ih fun m hm => hs m (by omega)) fun _ _ _ => .pure _

/-- Enough levels for every token list: what is below them does not matter. -/
theorem settles_program {tokens : List Token} {bottom bottom' : Rules} {levels levels' : Nat}
    (hlevels : 2 * tokens.length ≤ levels) (hlevels' : 2 * tokens.length ≤ levels') (i : Nat) :
    Settles tokens i (program (rulesAbove bottom levels))
      (program (rulesAbove bottom' levels')) := by
  have hs (j : Nat) (_ : i ≤ j) : Settles tokens j (rulesAbove bottom levels .statement)
      (rulesAbove bottom' levels' .statement) := by
    have := Goal.statement.need_le (tokens.length - j)
    exact settles_rulesAbove (by omega) (by omega)
  refine .ask fun _ _ => .ask fun _ _ => .bind (settles_statementsFrom hs _) fun _ _ _ => ?_
  exact settles_ofSpan

end Grammar

variable {tokens : List Token} {c : Cursor}

/-- The cursor at the start of a token list. -/
theorem Cursor.At.start (hended : ∃ body last, tokens = body ++ [last] ∧ last.kind = .endOfFile)
    (h : Cursor.ofTokens? tokens = some c) : c.At tokens 0 := by
  cases tokens with
  | nil => cases h
  | cons t rest =>
    cases h
    exact ⟨⟨hended, rfl⟩, rfl, fun h => absurd h (Nat.lt_irrefl 0)⟩

theorem Program.read_eq_run (h : Cursor.ofTokens? tokens = some c) :
    Program.read tokens =
      (Grammar.program (Grammar.rulesAt (Grammar.depthFor tokens.length))).run c := by
  rw [Program.read, h]

/-- With the levels that a reading has, or more, whatever is below them does not matter. -/
theorem Program.run_rulesAbove
    (hended : ∃ body last, tokens = body ++ [last] ∧ last.kind = .endOfFile)
    (h : Cursor.ofTokens? tokens = some c) (bottom : Rules) {levels : Nat}
    (hlevels : Grammar.depthFor tokens.length ≤ levels) :
    (Grammar.program (Grammar.rulesAbove bottom levels)).run c = Program.read tokens := by
  rw [Program.read_eq_run h, Grammar.rulesAt_eq_rulesAbove]
  have hdepth : 2 * tokens.length ≤ Grammar.depthFor tokens.length := Nat.le_add_right _ 2
  exact (Grammar.settles_program hdepth (Nat.le_trans hdepth hlevels) 0 (.start hended h)).1

/-- A token list that is no program has a problem at one of its tokens. -/
theorem Program.atToken_of_read
    (hended : ∃ body last, tokens = body ++ [last] ∧ last.kind = .endOfFile) {d : Diagnostic}
    (h : Program.read tokens = .error d) : d.AtToken tokens := by
  obtain ⟨c, hc⟩ : ∃ c, Cursor.ofTokens? tokens = some c := by
    obtain ⟨body, last, rfl, -⟩ := hended
    cases body <;> exact ⟨_, rfl⟩
  -- a reading settles with itself
  have hsettles : Parse.Settles tokens 0
      (Grammar.program (Grammar.rulesAt (Grammar.depthFor tokens.length)))
      (Grammar.program (Grammar.rulesAt (Grammar.depthFor tokens.length))) := by
    rw [Grammar.rulesAt_eq_rulesAbove]
    exact Grammar.settles_program (Nat.le_add_right _ 2) (Nat.le_add_right _ 2) 0
  exact (hsettles (.start hended hc)).2 d (by rw [← Program.read_eq_run hc, h])

end EventScript
