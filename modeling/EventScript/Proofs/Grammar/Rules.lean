import EventScript.Proofs.Grammar.Keeps

/-! # What the grammar keeps

One lemma per rule: a rule keeps the law of `Parse.Keeps` if the rules that it comes back to do.
By induction on the levels below a rule, all of them do (`keeps_rulesAt`), and so does the reading
of a whole file.
-/

namespace EventScript

/-- What is known of the result of a rule: the statements in it begin as deep as they stand. -/
def Goal.Placed (tokens : List Token) (depth : Int) : (g : Goal) → g.Result → Prop
  | .expression, e | .unary, e => (Node.expr e).Placed tokens depth
  | .statement, s => (Node.stmt s).Placed tokens depth
  | .ifStatement, s => (Node.ifStmt s).Placed tokens depth ∧ Begins tokens depth s.span.start
  | .block, b => (Node.block b).Placed tokens depth
  | .pattern, p => (Node.pattern p).Placed tokens depth
  | .type, _ => True

/-- Where a rule is come back to: a conditional statement only at its first word. -/
def Goal.Starts : Goal → Cursor → Prop
  | .ifStatement, c => c.current.kind.isContent = true
  | _, _ => True

/-- The law of the rules that a rule comes back to. -/
structure Rules.Keep (tokens : List Token) (rules : Rules) : Prop where
  goal (g : Goal) (depth : Int) :
    (rules g).Keeps tokens false depth g.Starts (g.Placed tokens depth)
  takes : (rules .expression).Takes fun _ => True

namespace Grammar

open Parse

variable {tokens : List Token} {rules : Rules} {depth : Int} {pre : Cursor → Prop}

section

variable (hr : rules.Keep tokens)

include hr

theorem keeps_toExpression :
    (rules .expression).Keeps tokens false depth pre fun e => (Node.expr e).Placed tokens depth :=
  (hr.goal .expression depth).weaken fun _ _ => trivial

theorem keeps_toBlock :
    (rules .block).Keeps tokens false depth pre fun b => (Node.block b).Placed tokens depth :=
  (hr.goal .block depth).weaken fun _ _ => trivial

theorem keeps_toPattern :
    (rules .pattern).Keeps tokens false depth pre fun p => (Node.pattern p).Placed tokens depth :=
  (hr.goal .pattern depth).weaken fun _ _ => trivial

theorem keeps_toType : (rules .type).Keeps tokens false depth pre fun _ => True :=
  (hr.goal .type depth).weaken fun _ _ => trivial

end

/-! ## Expressions -/

theorem keeps_chainFrom {level : List (TokenKind × BinaryOperator)} {operand : Parse Expr}
    {start : Token} (hlevel : ∀ e ∈ level, e.1.isContent = true)
    (hoperand : operand.Keeps tokens false depth (fun _ => True)
      fun e => (Node.expr e).Placed tokens depth)
    (bound : Nat) {left : Expr} {premise : Prop}
    (hleft : premise → (Node.expr left).Placed tokens depth) :
    (chainFrom level operand start bound left).Keeps tokens false depth pre
      fun e => premise → (Node.expr e).Placed tokens depth := by
  induction bound generalizing left pre premise with
  | zero => exact keeps_expected _
  | succ bound ih =>
    refine .ask fun found => ?_
    cases found with
    | none => exact .pure hleft
    | some operator =>
      refine .bind (keeps_advance ?_) fun _ => .bind hoperand fun right => ?_
      · rintro c ⟨-, hc⟩
        obtain ⟨before, after, hsplit, -⟩ := List.lookup_eq_some_iff.mp hc
        exact hlevel (c.current.kind, operator) (by simp [hsplit])
      · refine .bind (keeps_spanFrom start) fun span => ?_
        have hjoined : premise ∧ (Node.expr right).Placed tokens depth →
            (Node.expr (.binary span operator left right)).Placed tokens depth :=
          fun h => Node.placed_of_children nofun (by simp [hleft h.1, h.2])
        exact (ih hjoined).imp fun e he _ hright _ hpremise => he ⟨hpremise, hright⟩

theorem keeps_chain {level : List (TokenKind × BinaryOperator)} {operand : Parse Expr}
    (hlevel : ∀ e ∈ level, e.1.isContent = true)
    (hoperand : operand.Keeps tokens false depth (fun _ => True)
      fun e => (Node.expr e).Placed tokens depth) :
    (chain level operand).Keeps tokens false depth pre
      fun e => (Node.expr e).Placed tokens depth := by
  refine .ask fun start => .bind (hoperand.weaken fun _ _ => trivial) fun left => ?_
  exact .ask fun bound => keeps_chainFrom hlevel hoperand bound id

theorem keeps_propertyName : propertyName.Keeps tokens false depth pre fun _ => True := by
  refine .ask fun t => .ite (fun ht => ?_) fun _ => keeps_expected _
  refine .bind (keeps_advance ?_) fun _ => .pure fun _ => trivial
  rintro c ⟨-, rfl⟩
  revert ht
  cases c.current.kind <;> decide

theorem keeps_pathFrom (bound : Nat) :
    (pathFrom bound).Keeps tokens false depth pre fun _ => True := by
  induction bound generalizing pre with
  | zero => exact keeps_expected _
  | succ bound ih =>
    refine .bind (keeps_accept rfl) fun _ => .ite (fun _ => ?_) fun _ => .pure fun _ => trivial
    exact .bind (keeps_expect rfl _) fun name => .bind ih fun _ => .pure fun _ _ _ => trivial

theorem keeps_reactive :
    reactive.Keeps tokens false depth pre fun e => (Node.expr e).Placed tokens depth := by
  refine .bind (keeps_expect rfl _) fun start => .bind (keeps_expect rfl _) fun root => ?_
  refine .ask fun bound => .bind (keeps_pathFrom bound) fun path => ?_
  refine .bind (keeps_spanFrom start) fun span => .pure fun _ _ _ _ => ?_
  exact Node.placed_of_children nofun (by simp)

theorem keeps_loopControl {build : Span → Stmt} (hbuild : ∀ span, (build span).span = span)
    (hleaf : ∀ span, (Node.stmt (build span)).children = [])
    (hpre : ∀ c, pre c → c.current.kind.isContent = true) :
    (loopControl build).Keeps tokens false depth pre
      fun s => (Node.stmt s).Placed tokens depth := by
  refine .bind (keeps_advance hpre) fun t => .ask fun loops => ?_
  refine .ite (fun _ => .fail _) fun _ => .bind keeps_endStatement fun _ => .pure fun _ ht => ?_
  exact Node.placed_stmt (by rwa [hbuild]) (by rw [hleaf]; nofun)

theorem keeps_givenName? (what : String) :
    (givenName? what).Keeps tokens false depth pre fun _ => True := by
  refine .ask fun found => .ite (fun hfound => ?_) fun _ => .pure trivial
  refine .bind (keeps_advance ?_) fun _ => .bind (keeps_expect rfl _) fun _ => ?_
  · rintro c ⟨-, rfl⟩
    rw [Bool.and_eq_true, beq_iff_eq] at hfound
    rw [hfound.1]
    rfl
  · exact .pure fun _ _ => trivial

theorem keeps_importStatement :
    importStatement.Keeps tokens false depth pre fun i => Begins tokens depth i.span.start := by
  refine .bind (keeps_expect rfl _) fun start => .bind (keeps_expect rfl _) fun source => ?_
  refine .bind (keeps_givenName? _) fun name => .bind keeps_endStatement fun _ => ?_
  exact .bind (keeps_spanFrom start) fun span => .pure fun hspan _ _ _ hstart => hspan ▸ hstart

theorem keeps_importSpecifiers :
    importSpecifiers.Keeps tokens false depth pre fun _ => True := by
  have hspecifier :
      importSpecifier.Keeps tokens false depth (fun _ => True) fun _ => True := by
    refine .ask fun start => .bind (keeps_expect rfl _) fun imported => ?_
    refine .bind (keeps_givenName? _) fun name => .bind (keeps_spanFrom start) fun _ => ?_
    exact .pure fun _ _ _ => trivial
  refine .bind (keeps_accept rfl) fun _ => .ite (fun _ => ?_) fun _ => ?_
  · refine .bind (keeps_separated hspecifier) fun specifiers => ?_
    exact .bind (keeps_expect rfl _) fun _ => .pure fun _ _ _ => trivial
  · exact .bind (keeps_expect rfl _) fun _ => .pure fun _ _ => trivial

theorem keeps_fromStatement :
    fromStatement.Keeps tokens false depth pre fun i => Begins tokens depth i.span.start := by
  refine .bind (keeps_expect rfl _) fun start => .bind (keeps_expect rfl _) fun source => ?_
  refine .bind (keeps_expect rfl _) fun _ => .bind keeps_importSpecifiers fun specifiers => ?_
  refine .bind keeps_endStatement fun _ => .bind (keeps_spanFrom start) fun span => ?_
  exact .pure fun hspan _ _ _ _ hstart => hspan ▸ hstart

section

variable (hr : rules.Keep tokens)

include hr

theorem keeps_parameter :
    (parameter rules).Keeps tokens false depth pre fun p => (Node.param p).Placed tokens depth := by
  refine .bind (keeps_expect rfl _) fun start => ?_
  refine .bind (keeps_optional rfl (keeps_toExpression hr)) fun default => ?_
  refine .bind (keeps_spanFrom start) fun span => .pure fun _ hdefault _ => ?_
  exact Node.placed_of_children nofun (by simpa using hdefault)

theorem keeps_parameters :
    (parameters rules).Keeps tokens false depth pre
      fun ps => ∀ p ∈ ps, (Node.param p).Placed tokens depth := by
  refine .bind (keeps_expect rfl _) fun _ => ?_
  refine .bind (keeps_separated (keeps_parameter hr)) fun ps => ?_
  exact .bind (keeps_expect rfl _) fun _ => .pure fun _ hps _ => hps

theorem keeps_arguments :
    (arguments rules).Keeps tokens false depth pre
      fun es => ∀ e ∈ es, (Node.expr e).Placed tokens depth := by
  refine .bind (keeps_expect rfl _) fun _ => ?_
  refine .bind (keeps_separated (keeps_toExpression hr)) fun es => ?_
  exact .bind (keeps_expect rfl _) fun _ => .pure fun _ hes _ => hes

theorem keeps_lambdaBody :
    (lambdaBody rules).Keeps tokens false depth pre
      fun b => (Node.body b).Placed tokens depth := by
  refine .bind (keeps_accept rfl) fun _ => .ite (fun _ => ?_) fun _ => ?_
  · refine .bind (keeps_toExpression hr) fun e => .pure fun he _ => ?_
    exact Node.placed_of_children nofun (by simpa using he)
  · refine .bind (keeps_accept rfl) fun _ => .ite (fun _ => ?_) fun _ => keeps_expected _
    refine .bind (keeps_outsideLoops (keeps_toBlock hr)) fun b => .pure fun hb _ _ => ?_
    exact Node.placed_of_children nofun (by simpa using hb)

theorem keeps_lambda :
    (lambda rules).Keeps tokens false depth pre fun e => (Node.expr e).Placed tokens depth := by
  refine .bind (keeps_expect rfl _) fun start => .bind (keeps_parameters hr) fun ps => ?_
  refine .bind (keeps_lambdaBody hr) fun b => .bind (keeps_spanFrom start) fun span => ?_
  refine .pure fun _ hb hps _ => Node.placed_of_children nofun ?_
  simpa using ⟨hb, hps⟩

theorem keeps_vectorRest (bound : Nat) :
    (vectorRest rules bound).Keeps tokens false depth pre
      fun es => ∀ e ∈ es, (Node.expr e).Placed tokens depth := by
  induction bound generalizing pre with
  | zero => exact keeps_expected _
  | succ bound ih =>
    refine .bind (keeps_accept rfl) fun _ => .ite (fun _ => ?_) fun _ => .pure (by simp)
    refine .bind (keeps_toExpression hr) fun e => .bind ih fun es => ?_
    exact .pure fun hes he _ => List.forall_mem_cons.mpr ⟨he, hes⟩

theorem keeps_parenthesized :
    (parenthesized rules).Keeps tokens false depth pre
      fun e => (Node.expr e).Placed tokens depth := by
  refine .bind (keeps_expect rfl _) fun start => .bind (keeps_accept rfl) fun _ => ?_
  refine .ite (fun _ => ?_) fun _ => .bind (keeps_toExpression hr) fun first => ?_
  · refine .bind (keeps_spanFrom start) fun span => .pure fun _ _ _ => ?_
    exact Node.placed_of_children nofun (by simp)
  · refine .ask fun _ => .ite (fun _ => ?_) fun _ => ?_
    · refine .ask fun bound => .bind (keeps_vectorRest hr bound) fun es => ?_
      refine .bind (keeps_expect rfl _) fun _ => .bind (keeps_spanFrom start) fun span => ?_
      refine .pure fun _ _ hes hfirst _ _ => Node.placed_of_children nofun ?_
      simpa using ⟨hfirst, hes⟩
    · exact .bind (keeps_expect rfl _) fun _ => .pure fun _ hfirst _ _ => hfirst

theorem keeps_listLiteral :
    (listLiteral rules).Keeps tokens false depth pre
      fun e => (Node.expr e).Placed tokens depth := by
  refine .bind (keeps_expect rfl _) fun start => ?_
  refine .bind (keeps_separated (keeps_toExpression hr)) fun es => ?_
  refine .bind (keeps_expect rfl _) fun _ => .bind (keeps_spanFrom start) fun span => ?_
  exact .pure fun _ _ hes _ => Node.placed_of_children nofun (by simpa using hes)

theorem keeps_entryParts (start : Token) :
    (entryParts rules start).Keeps tokens false depth pre
      fun parts => ∀ span, (Node.entry ⟨span, parts.1, parts.2⟩).Placed tokens depth := by
  refine .bind (keeps_accept rfl) fun _ => .ite (fun _ => ?_) fun _ => ?_
  · refine .bind (keeps_accept rfl) fun _ => .ite (fun _ => ?_) fun _ => ?_
    · refine .bind (keeps_toExpression hr) fun e => .pure fun he _ _ span => ?_
      exact Node.placed_of_children nofun (by simpa using he)
    · have hname : (Node.expr (.name start.span start.word)).Placed tokens depth :=
        Node.placed_of_children nofun (by simp)
      exact .pure fun _ _ span => Node.placed_of_children nofun (by simpa using hname)
  refine .bind (keeps_accept rfl) fun _ => .ite (fun _ => ?_) fun _ => ?_
  · refine .bind (keeps_expect rfl _) fun _ => .bind (keeps_toExpression hr) fun e => ?_
    refine .pure fun he _ _ _ span => Node.placed_of_children nofun ?_
    simpa using he
  refine .bind (keeps_accept rfl) fun _ => .ite (fun _ => ?_) fun _ => keeps_expected _
  refine .bind (keeps_toExpression hr) fun key => .bind (keeps_expect rfl _) fun _ => ?_
  refine .bind (keeps_expect rfl _) fun _ => .bind (keeps_toExpression hr) fun e => ?_
  refine .pure fun he _ _ hkey _ _ _ span => Node.placed_of_children nofun ?_
  simpa using ⟨hkey, he⟩

theorem keeps_mapEntry :
    (mapEntry rules).Keeps tokens false depth pre
      fun e => (Node.entry e).Placed tokens depth := by
  refine .ask fun start => .bind (keeps_entryParts hr start) fun parts => ?_
  exact .bind (keeps_spanFrom start) fun span => .pure fun _ hparts => hparts span

theorem keeps_mapLiteral :
    (mapLiteral rules).Keeps tokens false depth pre
      fun e => (Node.expr e).Placed tokens depth := by
  refine .ask fun start => .bind (keeps_braced (keeps_mapEntry hr)) fun entries => ?_
  refine .bind (keeps_spanFrom start) fun span => .pure fun _ hentries => ?_
  exact Node.placed_of_children nofun (by simpa using hentries)

theorem keeps_primary :
    (primary rules).Keeps tokens false depth pre fun e => (Node.expr e).Placed tokens depth := by
  -- most expressions without operators are a single token
  have hleaf : ∀ (t : Token) (e : Expr), t.kind.isContent = true → (Node.expr e).children = [] →
      (do let _ ← advance; return e : Parse Expr).Keeps tokens false depth
        (fun c => pre c ∧ c.current = t) fun e => (Node.expr e).Placed tokens depth := by
    intro t e ht he
    refine .bind (keeps_advance ?_) fun _ => .pure fun _ => ?_
    · rintro c ⟨-, rfl⟩
      exact ht
    · exact Node.placed_of_children nofun (by rw [he]; nofun)
  refine .ask fun t => ?_
  split
  · exact keeps_reactive
  · exact keeps_lambda hr
  · exact hleaf t _ (by simp [*]; rfl) rfl
  · refine hleaf t _ (by simp [*]; rfl) ?_
    unfold stringExpr
    split <;> rfl
  · exact hleaf t _ (by simp [*]; rfl) rfl
  · exact hleaf t _ (by simp [*]; rfl) rfl
  · exact hleaf t _ (by simp [*]; rfl) rfl
  · exact keeps_parenthesized hr
  · exact keeps_listLiteral hr
  · exact keeps_mapLiteral hr
  · exact keeps_expected _

theorem keeps_postfixFrom (start : Token) (bound : Nat) {e : Expr} {premise : Prop}
    (he : premise → (Node.expr e).Placed tokens depth) :
    (postfixFrom rules start bound e).Keeps tokens false depth pre
      fun e => premise → (Node.expr e).Placed tokens depth := by
  induction bound generalizing e pre premise with
  | zero => exact keeps_expected _
  | succ bound ih =>
    refine .bind (keeps_accept rfl) fun _ => .ite (fun _ => ?_) fun _ => ?_
    · refine .bind keeps_propertyName fun property => .bind (keeps_spanFrom start) fun span => ?_
      have hmember : premise → (Node.expr (.member span e property)).Placed tokens depth :=
        fun h => Node.placed_of_children nofun (by simpa using he h)
      exact (ih hmember).imp fun _ h _ _ _ => h
    refine .bind (keeps_accept rfl) fun _ => .ite (fun _ => ?_) fun _ => ?_
    · refine .bind (keeps_toExpression hr) fun key => .bind (keeps_expect rfl _) fun _ => ?_
      refine .bind (keeps_spanFrom start) fun span => ?_
      have hindex : premise ∧ (Node.expr key).Placed tokens depth →
          (Node.expr (.index span e key)).Placed tokens depth :=
        fun h => Node.placed_of_children nofun (by simpa using ⟨he h.1, h.2⟩)
      exact (ih hindex).imp fun _ h _ _ hkey _ _ hpremise => h ⟨hpremise, hkey⟩
    refine .ask fun _ => .ite (fun _ => ?_) fun _ => .pure fun _ _ => he
    refine .bind (keeps_arguments hr) fun es => .bind (keeps_spanFrom start) fun span => ?_
    have hcall : (premise ∧ ∀ x ∈ es, (Node.expr x).Placed tokens depth) →
        (Node.expr (.call span e es)).Placed tokens depth :=
      fun h => Node.placed_of_children nofun (by simpa using ⟨he h.1, h.2⟩)
    exact (ih hcall).imp fun _ h _ hes _ _ hpremise => h ⟨hpremise, hes⟩

theorem keeps_postfixed :
    (postfixed rules).Keeps tokens false depth pre
      fun e => (Node.expr e).Placed tokens depth := by
  refine .ask fun start => .bind (keeps_primary hr) fun e => ?_
  exact .ask fun bound => keeps_postfixFrom hr start bound id

theorem keeps_unary :
    (unary rules).Keeps tokens false depth pre fun e => (Node.expr e).Placed tokens depth := by
  have hsigned : ∀ (t : Token) (operator : UnaryOperator), t.kind.isContent = true →
      (do
        let _ ← advance
        let operand ← rules .unary
        return .unary (← spanFrom t) operator operand : Parse Expr).Keeps tokens false depth
          (fun c => pre c ∧ c.current = t) fun e => (Node.expr e).Placed tokens depth := by
    intro t operator ht
    refine .bind (keeps_advance ?_) fun _ => ?_
    · rintro c ⟨-, rfl⟩
      exact ht
    refine .bind ((hr.goal .unary depth).weaken fun _ _ => trivial) fun operand => ?_
    refine .bind (keeps_spanFrom t) fun span => .pure fun _ hoperand _ => ?_
    exact Node.placed_of_children nofun (by simpa [Goal.Placed] using hoperand)
  refine .ask fun t => ?_
  dsimp only
  split
  · exact hsigned t .not (by simp [*]; rfl)
  · exact hsigned t .negate (by simp [*]; rfl)
  · exact keeps_postfixed hr

theorem keeps_disjunction :
    (disjunction rules).Keeps tokens false depth pre
      fun e => (Node.expr e).Placed tokens depth :=
  keeps_chain (by decide) (keeps_chain (by decide) (keeps_chain (by decide)
    (keeps_chain (by decide) (keeps_chain (by decide) (keeps_chain (by decide)
      (keeps_unary hr))))))

theorem keeps_expression :
    (expression rules).Keeps tokens false depth pre
      fun e => (Node.expr e).Placed tokens depth := by
  refine .ask fun start => .bind (keeps_accept rfl) fun _ => .ite (fun _ => ?_) fun _ => ?_
  · refine .bind (keeps_disjunction hr) fun test => .bind (keeps_expect rfl _) fun _ => ?_
    refine .bind (keeps_disjunction hr) fun yes => .bind (keeps_expect rfl _) fun _ => ?_
    refine .bind (keeps_toExpression hr) fun no => .bind (keeps_spanFrom start) fun span => ?_
    refine .pure fun _ hno _ hyes _ htest _ => Node.placed_of_children nofun ?_
    simpa using ⟨htest, hyes, hno⟩
  · exact (keeps_disjunction hr).imp fun _ h _ => h

/-! ## Patterns and types -/

theorem keeps_mapPatternEntry :
    (mapPatternEntry rules).Keeps tokens false depth pre
      fun e => (Node.pattern e.2).Placed tokens depth := by
  refine .ask fun t => .ask fun found => .ite (fun hfound => ?_) fun _ => keeps_expected _
  refine .bind (keeps_advance ?_) fun _ => ?_
  · rintro c ⟨-, rfl⟩
    revert hfound
    cases c.current.kind <;> decide
  refine .bind (keeps_accept rfl) fun _ => .ite (fun _ => ?_) fun _ => ?_
  · exact .bind (keeps_toPattern hr) fun _ => .pure fun h _ _ => h
  · exact .pure fun _ _ => Node.placed_of_children nofun (by simp)

theorem keeps_pattern :
    (pattern rules).Keeps tokens false depth pre
      fun p => (Node.pattern p).Placed tokens depth := by
  refine .ask fun start => .ite (fun hstart => ?_) fun _ => ?_
  · refine .bind (keeps_advance ?_) fun _ => .pure fun _ => ?_
    · rintro c ⟨-, rfl⟩
      rw [beq_iff_eq.mp hstart]
      rfl
    · split <;> exact Node.placed_of_children nofun (by simp)
  refine .bind (keeps_accept rfl) fun _ => .ite (fun _ => ?_) fun _ => ?_
  · refine .bind (keeps_separated (keeps_toPattern hr)) fun ps => ?_
    refine .bind (keeps_expect rfl _) fun _ => .bind (keeps_spanFrom start) fun span => ?_
    exact .pure fun _ _ hps _ => Node.placed_of_children nofun (by simpa using hps)
  refine .ask fun _ => .ite (fun _ => ?_) fun _ => ?_
  · refine .bind (keeps_braced (keeps_mapPatternEntry hr)) fun entries => ?_
    refine .bind (keeps_spanFrom start) fun span => .pure fun _ hentries _ => ?_
    refine Node.placed_of_children nofun (List.forall_mem_map.mpr fun e he => ?_)
    simpa using hentries e he
  · refine .bind (keeps_primary hr) fun value => .bind (keeps_spanFrom start) fun span => ?_
    exact .pure fun _ hvalue _ => Node.placed_of_children nofun (by simpa using hvalue)

theorem keeps_type : (type rules).Keeps tokens false depth pre fun _ => True := by
  refine .bind (keeps_expect rfl _) fun start => .ask fun k => ?_
  split
  · refine .bind (keeps_expect rfl _) fun _ => .bind (keeps_toType hr) fun _ => ?_
    exact .bind (keeps_expect rfl _) fun _ => .bind (keeps_spanFrom start) fun _ =>
      .pure fun _ _ _ _ _ => trivial
  · refine .bind (keeps_expect rfl _) fun _ => .bind (keeps_toType hr) fun _ => ?_
    refine .bind (keeps_expect rfl _) fun _ => .bind (keeps_toType hr) fun _ => ?_
    exact .bind (keeps_expect rfl _) fun _ => .bind (keeps_spanFrom start) fun _ =>
      .pure fun _ _ _ _ _ _ _ => trivial
  · have hvalue : enumerationValue.Keeps tokens false depth (fun _ => True) fun _ => True :=
      .bind (keeps_expect rfl _) fun _ => .pure fun _ => trivial
    refine .bind (keeps_expect rfl _) fun _ => .bind (keeps_separated hvalue) fun _ => ?_
    exact .bind (keeps_expect rfl _) fun _ => .bind (keeps_spanFrom start) fun _ =>
      .pure fun _ _ _ _ _ => trivial
  · exact .pure fun _ => trivial

/-! ## Statements -/

theorem keeps_block :
    (block rules).Keeps tokens false depth pre fun b => (Node.block b).Placed tokens depth := by
  have hstatement : (rules .statement).Keeps tokens false (depth + 1)
      (fun c => c.current.kind ≠ .dedent) fun s => (Node.stmt s).Placed tokens (depth + 1) :=
    (hr.goal .statement (depth + 1)).weaken fun _ _ => trivial
  refine .ask fun start => .bind (keeps_indented hstatement) fun statements => ?_
  refine .bind (keeps_spanFrom start) fun span => .pure fun _ hstatements => ?_
  exact Node.placed_of_children nofun (by simpa using hstatements)

theorem keeps_letStatement :
    (letStatement rules).Keeps tokens false depth pre
      fun s => (Node.stmt s).Placed tokens depth := by
  refine .bind (keeps_expect rfl _) fun start => .bind (keeps_expect rfl _) fun name => ?_
  refine .bind (keeps_expect rfl _) fun _ => .bind (keeps_toExpression hr) fun value => ?_
  refine .bind keeps_endStatement fun _ => .bind (keeps_spanFrom start) fun span => ?_
  exact .pure fun hspan _ hvalue _ _ hstart => Node.placed_stmt (hspan ▸ hstart) (by simpa using hvalue)

theorem keeps_setStatement :
    (setStatement rules).Keeps tokens false depth pre
      fun s => (Node.stmt s).Placed tokens depth := by
  refine .bind (keeps_expect rfl _) fun start => .ask fun targetStart => ?_
  refine .bind (keeps_toExpression hr) fun e => ?_
  split
  · exact .bind (keeps_spanFrom _) fun _ => .fail _
  · rename_i target htarget
    refine .bind (keeps_expect rfl _) fun _ => .bind (keeps_toExpression hr) fun value => ?_
    refine .bind keeps_endStatement fun _ => .bind (keeps_spanFrom start) fun span => ?_
    refine .pure fun hspan _ hvalue _ he hstart => Node.placed_stmt (hspan ▸ hstart) ?_
    simpa using ⟨Node.placed_target htarget he, hvalue⟩

theorem keeps_functionRest (start : Token) (name : String) :
    (functionRest rules start name).Keeps tokens false depth pre
      fun f => (Node.function f).Placed tokens depth ∧ f.span.start = start.span.start := by
  refine .bind (keeps_parameters hr) fun ps => .bind (keeps_expect rfl _) fun _ => ?_
  refine .bind (keeps_outsideLoops (keeps_toBlock hr)) fun b => ?_
  refine .bind (keeps_spanFrom start) fun span => .pure fun hspan hb _ hps => ⟨?_, hspan⟩
  exact Node.placed_of_children nofun (by simpa using ⟨hb, hps⟩)

theorem keeps_functionDeclaration :
    (functionDeclaration rules).Keeps tokens false depth pre
      fun f => (Node.function f).Placed tokens depth ∧ Begins tokens depth f.span.start := by
  refine .bind (keeps_expect rfl _) fun start => .bind (keeps_expect rfl _) fun name => ?_
  refine (keeps_functionRest hr start name.word).imp fun f hf _ hstart => ⟨hf.1, ?_⟩
  rw [hf.2]
  exact hstart

theorem keeps_alternatePart :
    (alternatePart rules).Keeps tokens false depth pre
      fun a => (Node.alternate a).Placed tokens depth := by
  refine .bind keeps_skipNewlines fun _ => .ask fun _ => .ite (fun hfound => ?_) fun _ => ?_
  · refine .bind ((hr.goal .ifStatement depth).weaken ?_) fun s => .pure fun hs _ => ?_
    · rintro c ⟨-, rfl⟩
      change c.current.kind.isContent = true
      rw [beq_iff_eq.mp hfound]
      rfl
    · exact Node.placed_of_children nofun (by simpa using hs.1)
  refine .bind (keeps_accept rfl) fun _ => .ite (fun _ => ?_) fun _ => ?_
  · refine .bind (keeps_expect rfl _) fun _ => .bind (keeps_toBlock hr) fun b => ?_
    exact .pure fun hb _ _ _ => Node.placed_of_children nofun (by simpa using hb)
  · exact .pure fun _ _ => Node.placed_of_children nofun (by simp)

theorem keeps_ifStatement (hpre : ∀ c, pre c → c.current.kind.isContent = true) :
    (ifStatement rules).Keeps tokens false depth pre
      fun s => (Node.ifStmt s).Placed tokens depth ∧ Begins tokens depth s.span.start := by
  refine .bind (keeps_advance hpre) fun start => .bind (keeps_toExpression hr) fun test => ?_
  refine .bind (keeps_expect rfl _) fun _ => .bind (keeps_toBlock hr) fun yes => ?_
  refine .bind (keeps_alternatePart hr) fun no => .bind (keeps_spanFrom start) fun span => ?_
  refine .pure fun hspan hno hyes _ htest hstart => ⟨?_, hspan ▸ hstart⟩
  exact Node.placed_of_children nofun (by simpa using ⟨htest, hyes, hno⟩)

theorem keeps_loopBody :
    (loopBody rules).Keeps tokens false depth pre fun b => (Node.block b).Placed tokens depth :=
  keeps_insideLoop (keeps_toBlock hr)

theorem keeps_forStatement :
    (forStatement rules).Keeps tokens false depth pre
      fun s => (Node.stmt s).Placed tokens depth := by
  refine .bind (keeps_expect rfl _) fun start => .bind (keeps_expect rfl _) fun item => ?_
  refine .bind (keeps_expect rfl _) fun _ => .bind (keeps_toExpression hr) fun iterable => ?_
  refine .bind (keeps_expect rfl _) fun _ => .bind (keeps_loopBody hr) fun body => ?_
  refine .bind (keeps_spanFrom start) fun span => ?_
  refine .pure fun hspan hbody _ hiterable _ _ hstart => Node.placed_stmt (hspan ▸ hstart) ?_
  simpa using ⟨hiterable, hbody⟩

theorem keeps_whileStatement :
    (whileStatement rules).Keeps tokens false depth pre
      fun s => (Node.stmt s).Placed tokens depth := by
  refine .bind (keeps_expect rfl _) fun start => .bind (keeps_toExpression hr) fun test => ?_
  refine .bind (keeps_expect rfl _) fun _ => .bind (keeps_loopBody hr) fun body => ?_
  refine .bind (keeps_spanFrom start) fun span => ?_
  refine .pure fun hspan hbody _ htest hstart => Node.placed_stmt (hspan ▸ hstart) ?_
  simpa using ⟨htest, hbody⟩

theorem keeps_matchCase :
    (matchCase rules).Keeps tokens false depth pre
      fun c => (Node.matchCase c).Placed tokens depth := by
  refine .ask fun start => .bind (keeps_toPattern hr) fun pattern => ?_
  refine .bind (keeps_optional rfl (keeps_toExpression hr)) fun guard => ?_
  refine .bind (keeps_expect rfl _) fun _ => .bind (keeps_toBlock hr) fun body => ?_
  refine .bind (keeps_spanFrom start) fun span => ?_
  refine .pure fun _ hbody _ hguard hpattern => Node.placed_of_children nofun ?_
  simpa using ⟨hpattern, hbody, by simpa using hguard⟩

theorem keeps_matchStatement :
    (matchStatement rules).Keeps tokens false depth pre
      fun s => (Node.stmt s).Placed tokens depth := by
  refine .bind (keeps_expect rfl _) fun start => .bind (keeps_toExpression hr) fun e => ?_
  refine .bind (keeps_expect rfl _) fun _ => ?_
  refine .bind (keeps_indented (keeps_matchCase hr)) fun cases => ?_
  refine .bind (keeps_spanFrom start) fun span => ?_
  refine .pure fun hspan hcases _ he hstart => Node.placed_stmt (hspan ▸ hstart) ?_
  simpa using ⟨he, hcases⟩

theorem keeps_returnStatement :
    (returnStatement rules).Keeps tokens false depth pre
      fun s => (Node.stmt s).Placed tokens depth := by
  have hvalue : (returnValue? rules).Keeps tokens false depth (fun _ => True)
      fun e => ∀ x ∈ e, (Node.expr x).Placed tokens depth := by
    refine .ask fun _ => .ite (fun _ => .pure (by simp)) fun _ => .map ?_
    exact (keeps_toExpression hr).imp fun e he x hx => by cases hx; exact he
  refine .bind (keeps_expect rfl _) fun start => .bind hvalue fun e => ?_
  refine .bind keeps_endStatement fun _ => .bind (keeps_spanFrom start) fun span => ?_
  exact .pure fun hspan _ he hstart => Node.placed_stmt (hspan ▸ hstart) (by simpa using he)

theorem keeps_onStatement :
    (onStatement rules).Keeps tokens false depth pre
      fun s => (Node.stmt s).Placed tokens depth := by
  refine .bind (keeps_expect rfl _) fun start => .bind (keeps_toExpression hr) fun event => ?_
  refine .bind (keeps_optional rfl (keeps_toExpression hr)) fun condition => ?_
  refine .bind (keeps_expect rfl _) fun _ => ?_
  refine .bind (keeps_outsideLoops (keeps_toBlock hr)) fun body => ?_
  refine .bind (keeps_spanFrom start) fun span => ?_
  refine .pure fun hspan hbody _ hcondition hevent hstart => ?_
  refine Node.placed_stmt (hspan ▸ hstart) ?_
  simpa using ⟨hevent, hbody, by simpa using hcondition⟩

theorem keeps_emitStatement :
    (emitStatement rules).Keeps tokens false depth pre
      fun s => (Node.stmt s).Placed tokens depth := by
  have hdata : (eventData? rules).Keeps tokens false depth (fun _ => True)
      fun e => ∀ x ∈ e, (Node.expr x).Placed tokens depth := by
    refine .ask fun _ => .ite (fun _ => .map ?_) fun _ => .pure (by simp)
    exact (keeps_mapLiteral hr).imp fun e he x hx => by cases hx; exact he
  refine .bind (keeps_expect rfl _) fun start => .bind (keeps_toExpression hr) fun event => ?_
  refine .bind hdata fun data => .bind keeps_endStatement fun _ => ?_
  refine .bind (keeps_spanFrom start) fun span => ?_
  refine .pure fun hspan _ hdata hevent hstart => Node.placed_stmt (hspan ▸ hstart) ?_
  simpa using ⟨hevent, by simpa using hdata⟩

theorem keeps_schemaField (required inSection : Bool) :
    (schemaField rules required inSection).Keeps tokens false depth pre
      fun f => (Node.field f).Placed tokens depth ∧ f.inSection = inSection := by
  refine .bind (keeps_expect rfl _) fun start => .bind (keeps_expect rfl _) fun _ => ?_
  refine .bind (keeps_toType hr) fun type => ?_
  refine .bind (keeps_optional rfl (keeps_toExpression hr)) fun default => ?_
  refine .bind keeps_endStatement fun _ => .bind (keeps_spanFrom start) fun span => ?_
  refine .pure fun _ _ hdefault _ _ _ => ⟨Node.placed_of_children nofun ?_, rfl⟩
  simpa using hdefault

/-- What the parts of a schema body declare stands as deep as it was written. -/
theorem keeps_schemaPart (hpre : ∀ c, pre c → c.current.kind ≠ .dedent) :
    (schemaPart rules).Keeps tokens false (depth + 1) pre fun part =>
      (∀ f ∈ part.1, (Node.field f).Placed tokens
        (depth + (if f.inSection then 2 else 1 : Nat))) ∧
        ∀ m ∈ part.2, (Node.function m).Placed tokens (depth + 1) := by
  have hword : ∀ (c : Cursor) (word : String),
      (c.current.kind == .identifier && c.current.word == word) = true →
        c.current.kind.isContent = true := by
    intro c word h
    rw [Bool.and_eq_true, beq_iff_eq] at h
    rw [h.1]
    rfl
  refine .ask fun start => .ask fun atRequired => .ask fun atOptional => ?_
  refine .ite (fun hsection => ?_) fun _ => ?_
  · refine .bind (keeps_advance ?_) fun _ => .bind (keeps_expect rfl _) fun _ => ?_
    · rintro c ⟨⟨-, rfl⟩, rfl⟩
      exact (Bool.or_eq_true _ _ ▸ hsection).elim (hword c _) (hword c _)
    have hfield : (schemaField rules (start.word == "required") true).Keeps tokens false
        (depth + 1 + 1) (fun c => c.current.kind ≠ .dedent) fun f =>
          (Node.field f).Placed tokens (depth + 1 + 1) ∧ f.inSection = true :=
      keeps_schemaField hr _ true
    refine .bind (keeps_indented hfield) fun fields => .pure fun hfields _ _ => ⟨?_, by simp⟩
    intro f hf
    rw [(hfields f hf).2]
    simpa [add_assoc] using (hfields f hf).1
  refine .ask fun _ => .ite (fun _ => ?_) fun _ => ?_
  · refine .bind (keeps_functionDeclaration hr) fun m => .pure fun hm => ⟨by simp, ?_⟩
    simpa using hm.1
  refine .ask fun _ => .ite (fun hstart => .ask fun _ => .ite (fun _ => ?_) fun _ => ?_) fun _ => ?_
  · refine .bind (keeps_advance ?_) fun _ => .bind (keeps_expect rfl _) fun _ => ?_
    · rintro c ⟨⟨⟨⟨⟨⟨-, rfl⟩, -⟩, -⟩, -⟩, -⟩, -⟩
      rw [Bool.and_eq_true, beq_iff_eq] at hstart
      rw [hstart.1]
      rfl
    refine .bind (keeps_expect rfl _) fun _ => .bind (keeps_functionRest hr start _) fun m => ?_
    refine .pure fun hm _ _ _ => ⟨by simp, ?_⟩
    simpa using hm.1
  · refine .bind (keeps_schemaField hr false false) fun f => .pure fun hf => ⟨?_, by simp⟩
    simpa [hf.2] using hf.1
  · refine .bind (keeps_passUnknown ?_) fun _ => .pure fun _ => by simp
    rintro c ⟨⟨⟨⟨⟨hc, -⟩, -⟩, -⟩, -⟩, -⟩
    exact hpre c hc

theorem keeps_schemaStatement :
    (schemaStatement rules).Keeps tokens false depth pre
      fun s => (Node.stmt s).Placed tokens depth := by
  refine .bind (keeps_expect rfl _) fun start => .bind (keeps_expect rfl _) fun name => ?_
  refine .bind (keeps_optional rfl ((keeps_expect rfl _).imp fun _ _ => trivial)) fun parent => ?_
  refine .bind (keeps_expect rfl _) fun _ => ?_
  refine .bind (keeps_indented (keeps_schemaPart hr fun _ hc => hc)) fun parts => ?_
  refine .bind (keeps_spanFrom start) fun span => ?_
  refine .pure fun hspan hparts _ _ _ hstart => Node.placed_stmt (hspan ▸ hstart) ?_
  refine List.forall_mem_append.mpr ⟨List.forall_mem_map.mpr ?_, List.forall_mem_map.mpr ?_⟩
  · intro f hf
    obtain ⟨part, hpart, hf⟩ := List.mem_flatMap.mp hf
    exact (hparts part hpart).1 f hf
  · intro m hm
    obtain ⟨part, hpart, hm⟩ := List.mem_flatMap.mp hm
    exact (hparts part hpart).2 m hm

theorem keeps_instanceField :
    (instanceField rules).Keeps tokens false depth pre
      fun f => (Node.expr f.2).Placed tokens depth := by
  refine .bind keeps_propertyName fun name => .bind (keeps_expect rfl _) fun _ => ?_
  refine .bind (keeps_toExpression hr) fun value => .bind keeps_endStatement fun _ => ?_
  exact .pure fun _ hvalue _ _ => hvalue

end

theorem keeps_startsInstance : startsInstance.Keeps tokens false depth pre fun _ => True :=
  .ask fun _ => .ask fun _ => .ask fun _ => .pure trivial

/-- The fields that an instance is given are among those that were read. -/
theorem mem_putField {fields : List (String × Expr)} {name : String} {value : Expr}
    {f : String × Expr} (hf : f ∈ putField fields name value) :
    f.2 = value ∨ f ∈ fields := by
  induction fields with
  | nil =>
    obtain rfl := List.mem_singleton.mp hf
    exact .inl rfl
  | cons g rest ih =>
    unfold putField at hf
    split at hf <;> rcases List.mem_cons.mp hf with rfl | hf
    · exact .inl rfl
    · exact .inr (List.mem_cons_of_mem _ hf)
    · exact .inr (List.mem_cons_self ..)
    · exact (ih hf).imp_right (List.mem_cons_of_mem _)

theorem mem_foldl_putField {read fields : List (String × Expr)} {f : String × Expr}
    (hf : f ∈ read.foldl (fun fs f => putField fs f.1 f.2) fields) :
    f ∈ fields ∨ ∃ g ∈ read, f.2 = g.2 := by
  induction read generalizing fields with
  | nil => exact .inl hf
  | cons g rest ih =>
    rcases ih hf with hf | ⟨g', hg', hf⟩
    · exact (mem_putField hf).symm.imp_right fun hf => ⟨g, List.mem_cons_self .., hf⟩
    · exact .inr ⟨g', List.mem_cons_of_mem _ hg', hf⟩

section

variable (hr : rules.Keep tokens)

include hr

theorem keeps_instanceStatement :
    (instanceStatement rules).Keeps tokens false depth pre
      fun s => (Node.stmt s).Placed tokens depth := by
  refine .bind (keeps_expect rfl _) fun start => .bind (keeps_expect rfl _) fun name => ?_
  refine .bind (keeps_expect rfl _) fun _ => ?_
  refine .bind (keeps_indented (keeps_instanceField hr)) fun fields => ?_
  refine .bind (keeps_spanFrom start) fun span => ?_
  refine .pure fun hspan hfields _ _ hstart => Node.placed_stmt (hspan ▸ hstart) ?_
  refine List.forall_mem_map.mpr fun f hf => ?_
  obtain ⟨g, hg, heq⟩ := (mem_foldl_putField hf).resolve_left (by simp)
  rw [heq]
  exact hfields g hg

theorem keeps_expressionStatement :
    (expressionStatement rules).Keeps tokens false depth pre
      fun s => (Node.stmt s).Placed tokens depth := by
  refine .ask fun start => .bind ((keeps_toExpression hr).begins hr.takes) fun e => ?_
  refine .bind keeps_endStatement fun _ => .bind (keeps_spanFrom start) fun span => ?_
  refine .pure fun hspan _ he => Node.placed_stmt (hspan ▸ he.2) ?_
  simpa using he.1

theorem keeps_statement :
    (statement rules).Keeps tokens false depth pre
      fun s => (Node.stmt s).Placed tokens depth := by
  have hword : ∀ {k k' : TokenKind}, k.isContent = true → k' = k →
      ∀ c : Cursor, True ∧ c.current.kind = k' → c.current.kind.isContent = true := by
    rintro k k' hk rfl c ⟨-, hc⟩
    rwa [hc]
  refine .bind keeps_skipNewlines fun _ => .imp (fun _ h _ => h) (.ask fun k => ?_)
  split
  · exact keeps_letStatement hr
  · exact keeps_setStatement hr
  · refine .map ((keeps_functionDeclaration hr).imp fun f hf => ?_)
    exact Node.placed_stmt hf.2 (by simpa using hf.1)
  · refine .map ((keeps_ifStatement hr (hword rfl rfl)).imp fun s hs => ?_)
    exact Node.placed_stmt hs.2 (by simpa using hs.1)
  · exact keeps_forStatement hr
  · exact keeps_whileStatement hr
  · exact keeps_matchStatement hr
  · exact keeps_returnStatement hr
  · exact keeps_loopControl (fun _ => rfl) (fun _ => rfl) (hword rfl rfl)
  · exact keeps_loopControl (fun _ => rfl) (fun _ => rfl) (hword rfl rfl)
  · exact keeps_onStatement hr
  · exact keeps_emitStatement hr
  · exact .map (keeps_importStatement.imp fun i hi => Node.placed_stmt hi (by simp))
  · exact .map (keeps_fromStatement.imp fun i hi => Node.placed_stmt hi (by simp))
  · exact keeps_schemaStatement hr
  · refine .bind keeps_startsInstance fun _ => .ite (fun _ => ?_) fun _ => ?_
    · exact (keeps_instanceStatement hr).imp fun _ h _ => h
    · exact (keeps_expressionStatement hr).imp fun _ h _ => h

end

/-! ## The whole grammar -/

/-- Every rule keeps the law, whatever number of levels is below it. -/
theorem keeps_rulesAt (levels : Nat) : (rulesAt levels).Keep tokens := by
  induction levels with
  | zero => exact ⟨fun _ _ => keeps_expected _, takes_toExpression 0⟩
  | succ levels ih =>
    refine ⟨fun g depth => ?_, takes_toExpression (levels + 1)⟩
    cases g with
    | expression => exact keeps_expression ih
    | unary => exact keeps_unary ih
    | statement => exact keeps_statement ih
    | ifStatement => exact keeps_ifStatement ih fun _ hc => hc
    | block => exact keeps_block ih
    | pattern => exact keeps_pattern ih
    | type => exact keeps_type ih

theorem keeps_statementsFrom (hr : rules.Keep tokens) (bound : Nat) :
    (statementsFrom rules bound).Keeps tokens false depth pre
      fun ss => ∀ s ∈ ss, (Node.stmt s).Placed tokens depth := by
  induction bound generalizing pre with
  | zero => exact keeps_expected _
  | succ bound ih =>
    refine .bind keeps_skipNewlines fun _ => .ask fun _ => .ite (fun _ => ?_) fun _ => ?_
    · exact .pure (by simp)
    · refine .bind ((hr.goal .statement depth).weaken fun _ _ => trivial) fun s => ?_
      exact .bind ih fun ss => .pure fun hss hs _ => List.forall_mem_cons.mpr ⟨hs, hss⟩

/-- The statements of a file stand outside of every construct. -/
theorem keeps_program (hr : rules.Keep tokens) :
    (program rules).Keeps tokens false depth pre
      fun p => ∀ (n : Nat) (s : Stmt), p.Contains n s → Begins tokens (depth + n) s.span.start := by
  refine .ask fun start => .ask fun bound => .bind (keeps_statementsFrom hr bound) fun ss => ?_
  refine .bind (keeps_spanFrom start) fun span => .pure fun _ hss n s hs => ?_
  rcases hs with ⟨t, ht, hs⟩ | ⟨rfl, i, hi, rfl⟩
  · exact hss t (List.mem_of_mem_filter ht) n s hs
  · obtain ⟨t, ht, hti⟩ := List.mem_filterMap.mp hi
    have : t = .importFile i := by
      cases t <;> cases hti
      rfl
    exact hss t ht 0 _ (this ▸ .itself _)

end Grammar

end EventScript
