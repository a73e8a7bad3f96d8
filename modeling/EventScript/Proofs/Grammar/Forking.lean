import EventScript.Proofs.Grammar.ForkLoops
import EventScript.Proofs.Grammar.Agreement

/-! # The grammar over token lists that part

One lemma per rule: it reads two token lists alike, or comes to where they part, if the rules do
that it comes back to.  By induction on the levels below a rule all of them do (`forks_rulesAt`).
-/

namespace EventScript

/-- Only statements come to the end of a line. -/
def Goal.mayEnd : Goal → Bool
  | .statement | .ifStatement => true
  | _ => false

/-- Where a rule is come back to: a conditional statement only at its first word. -/
def Goal.EntersAt : Goal → Cursor → Prop
  | .ifStatement => Parse.InLine
  | _ => Parse.Wherever

/-- The rules that a rule comes back to read two token lists alike, and no expression and no
    statement starts where a bracket closes in the second list. -/
structure Rules.Forks (f : Fork) (goal : Option f.Closing) (rules : Rules) : Prop where
  spans : rules.Over f.tokens
  spansOther : rules.Over f.other
  reads (g : Goal) : Parse.Forks f goal g.mayEnd g.EntersAt (rules g)
  takesExpression : (rules .expression).Takes Parse.Wherever
  takesPattern : (rules .pattern).Takes Parse.Wherever
  refusesExpression : ∀ k, goal = some k → ∀ d, d.At f.other f.place →
    (rules .expression).run d = .error k.problem
  refusesStatement : ∀ k, goal = some k → ∀ d, d.At f.other f.place →
    (rules .statement).run d = .error k.problem
  notAtDedent : ∀ c r, c.current.kind = .dedent → (rules .statement).run c ≠ .ok r

namespace Grammar

open Parse Fork

variable {f : Fork} {goal : Option f.Closing} {ended : Bool} {pre : Cursor → Prop} {rules : Rules}

section

variable (hr : rules.Forks f goal)

include hr

theorem forks_toExpression : Forks f goal ended pre (rules .expression) :=
  ((hr.reads .expression).weaken fun _ _ => trivial).free

theorem forks_toBlock : Forks f goal ended pre (rules .block) :=
  ((hr.reads .block).weaken fun _ _ => trivial).free

theorem forks_toPattern : Forks f goal ended pre (rules .pattern) :=
  ((hr.reads .pattern).weaken fun _ _ => trivial).free

theorem forks_toType : Forks f goal ended pre (rules .type) :=
  ((hr.reads .type).weaken fun _ _ => trivial).free

end

/-! ## Expressions -/

theorem forks_chainRound {level : List (TokenKind × BinaryOperator)} {operand : Parse Expr}
    (hlevel : ∀ k ∈ .newline :: TokenKind.closingBrackets, level.lookup k = none)
    (hoperand : Forks f goal false Wherever operand) (start : Token) (left : Expr) :
    Forks f goal ended pre (chainRound level operand start left) := by
  have hline := hlevel .newline (List.mem_cons_self ..)
  refine .onKind (x := (level.lookup ·)) (fun k hk => ?_) fun found => ?_
  · rw [hline, hlevel k (List.mem_cons_of_mem _ hk)]
  · cases found with
    | none => exact .pure
    | some operator =>
      refine .bind (forks_advance ?_) fun _ => .bind hoperand fun _ =>
        .bind (forks_spanFrom _) fun _ => .pure
      rintro c ⟨-, hfound⟩ hk
      rw [hk, hline] at hfound
      cases hfound

theorem forks_chain (hr : rules.Forks f goal) {level : List (TokenKind × BinaryOperator)}
    {operand : Parse Expr} (hmem : (level, operand) ∈ operatorLevels rules)
    (hlevel : ∀ k ∈ .newline :: TokenKind.closingBrackets, level.lookup k = none)
    (hoperand : Forks f goal false Wherever operand) (htakes : operand.Takes Wherever) :
    Forks f goal ended pre (chain level operand) := by
  refine .of_takes (takes_chain htakes) (.current (fun c h => h.2) fun start => ?_)
  refine .bind (hoperand.weaken fun _ _ => trivial) fun left => ?_
  exact forks_loop (.operators start hmem) hr.spans hr.spansOther
    (forks_chainRound hlevel hoperand start) left

theorem forks_propertyName : Forks f goal ended pre propertyName := by
  refine .of_takes (takes_propertyName.weaken fun _ _ => trivial)
    (.current (fun c h => h.2) fun t => ?_)
  exact .ite (fun _ => .bind (forks_advance fun c h => h.1.2) fun _ => .pure)
    fun _ => forks_expected _

theorem forks_pathRound (names : List String) : Forks f goal ended pre (pathRound names) := by
  refine .bind (forks_accept (by decide) (by decide)) fun _ => .ite (fun _ => ?_) fun _ => .pure
  exact .bind (forks_expect (by decide) _) fun _ => .pure

section

variable (hr : rules.Forks f goal)

include hr

theorem forks_reactive : Forks f goal ended pre reactive := by
  refine .bind (forks_expect (by decide) _) fun start => ?_
  refine .bind (forks_expect (by decide) _) fun root => ?_
  exact .bindLoop (forks_collect .path hr.spans hr.spansOther forks_pathRound) fun path =>
    .bind (forks_spanFrom _) fun _ => .pure

theorem forks_parameter : Forks f goal ended pre (parameter rules) := by
  refine .bind (forks_expect (by decide) _) fun start => ?_
  refine .bind (forks_optional (by decide) (by decide) (forks_toExpression hr)) fun _ => ?_
  exact .bind (forks_spanFrom _) fun _ => .pure

theorem forks_parameters : Forks f goal ended pre (parameters rules) := by
  refine .bind (forks_expect (by decide) _) fun _ => ?_
  refine .bind (forks_separated (by decide) .parameters hr.spans hr.spansOther (forks_parameter hr)
    (.bind (takes_expect rfl _))) fun _ => ?_
  exact .bind (forks_expect (by decide) _) fun _ => .pure

theorem forks_arguments : Forks f goal ended pre (arguments rules) := by
  refine .bind (forks_expect (by decide) _) fun _ => ?_
  refine .bind (forks_separated (by decide) .arguments hr.spans hr.spansOther (forks_toExpression hr)
    hr.takesExpression) fun _ => ?_
  exact .bind (forks_expect (by decide) _) fun _ => .pure

theorem forks_lambdaBody : Forks f goal ended pre (lambdaBody rules) := by
  refine .bind (forks_accept (by decide) (by decide)) fun _ => .ite (fun _ => ?_) fun _ => ?_
  · exact .bind (forks_toExpression hr) fun _ => .pure
  refine .bind (forks_accept (by decide) (by decide)) fun _ => .ite (fun _ => ?_) fun _ => ?_
  · exact .bind (forks_outsideLoops (forks_toBlock hr)) fun _ => .pure
  · exact forks_expected _

theorem forks_lambda : Forks f goal ended pre (lambda rules) := by
  refine .bind (forks_expect (by decide) _) fun start => .bind (forks_parameters hr) fun _ => ?_
  exact .bind (forks_lambdaBody hr) fun _ => .bind (forks_spanFrom _) fun _ => .pure

theorem forks_vectorRound (es : List Expr) : Forks f goal ended pre (vectorRound rules es) := by
  refine .bind (forks_accept (by decide) (by decide)) fun _ => .ite (fun _ => ?_) fun _ => .pure
  exact .bind (forks_toExpression hr) fun _ => .pure

/-- Behind the first parenthesis there is either the other one or an expression. -/
theorem forks_parenthesized : Forks f goal ended pre (parenthesized rules) := by
  refine .bind (forks_expect (by decide) _) fun start =>
    .of_takes (.accept rfl (.bind hr.takesExpression)) ?_
  refine .bind (forks_acceptInLine fun c h => h.2) fun _ => .ite (fun _ => ?_) fun _ => ?_
  · exact .bind (forks_spanFrom _) fun _ => .pure
  refine .bind (forks_toExpression hr) fun first => ?_
  refine .onKind (x := (· == .comma)) (by decide) fun _ => .ite (fun _ => ?_) fun _ => ?_
  · refine .bindLoop (forks_collect .vector hr.spans hr.spansOther (forks_vectorRound hr))
      fun rest => ?_
    refine .bind (forks_expect (by decide) _) fun _ => .bind (forks_spanFrom _) fun _ => .pure
  · exact .bind (forks_expect (by decide) _) fun _ => .pure

theorem forks_listLiteral : Forks f goal ended pre (listLiteral rules) := by
  refine .bind (forks_expect (by decide) _) fun _ => ?_
  refine .bind (forks_separated (by decide) .elements hr.spans hr.spansOther (forks_toExpression hr)
    hr.takesExpression) fun _ => ?_
  exact .bind (forks_expect (by decide) _) fun _ => .bind (forks_spanFrom _) fun _ => .pure

omit hr in
theorem takes_entryParts (start : Token) : (entryParts rules start).Takes pre :=
  .accept rfl (.accept rfl (.accept rfl (takes_expected _)))

theorem forks_entryParts (start : Token) : Forks f goal ended pre (entryParts rules start) := by
  refine .bind (forks_accept (by decide) (by decide)) fun _ => .ite (fun _ => ?_) fun _ => ?_
  · refine .bind (forks_accept (by decide) (by decide)) fun _ => .ite (fun _ => ?_) fun _ => .pure
    exact .bind (forks_toExpression hr) fun _ => .pure
  refine .bind (forks_accept (by decide) (by decide)) fun _ => .ite (fun _ => ?_) fun _ => ?_
  · refine .bind (forks_expect (by decide) _) fun _ => ?_
    exact .bind (forks_toExpression hr) fun _ => .pure
  refine .bind (forks_accept (by decide) (by decide)) fun _ => .ite (fun _ => ?_) fun _ => ?_
  · refine .bind (forks_toExpression hr) fun _ => .bind (forks_expect (by decide) _) fun _ => ?_
    refine .bind (forks_expect (by decide) _) fun _ => ?_
    exact .bind (forks_toExpression hr) fun _ => .pure
  · exact forks_expected _

omit hr in
theorem takes_mapEntry : (mapEntry rules).Takes pre :=
  .ask fun start => .bind (takes_entryParts start)

theorem forks_mapEntry : Forks f goal ended pre (mapEntry rules) := by
  refine .of_takes takes_mapEntry (.current (fun c h => h.2) fun start => ?_)
  exact .bind (forks_entryParts hr start) fun _ => .bind (forks_spanFrom _) fun _ => .pure

theorem forks_mapLiteral : Forks f goal ended pre (mapLiteral rules) := by
  refine .of_takes takes_mapLiteral (.current (fun c h => h.2) fun start => ?_)
  refine .bind (forks_braced .mapEntries hr.spans hr.spansOther (forks_mapEntry hr) takes_mapEntry)
    fun _ => ?_
  exact .bind (forks_spanFrom _) fun _ => .pure

theorem forks_primary : Forks f goal ended pre (primary rules) := by
  refine .of_takes takes_primary (.current (fun c h => h.2) fun t => ?_)
  have hleaf : ∀ e : Expr, Forks f goal ended (fun c => (pre c ∧ InLine c) ∧ c.current = t)
      (do let _ ← advance; return e) :=
    fun e => .bind (forks_advance fun c h => h.1.2) fun _ => .pure
  split
  · exact forks_reactive hr
  · exact forks_lambda hr
  · exact hleaf _
  · exact hleaf _
  · exact hleaf _
  · exact hleaf _
  · exact hleaf _
  · exact forks_parenthesized hr
  · exact forks_listLiteral hr
  · exact forks_mapLiteral hr
  · exact forks_expected _

theorem forks_postfixRound (start : Token) (e : Expr) :
    Forks f goal ended pre (postfixRound rules start e) := by
  refine .bind (forks_accept (by decide) (by decide)) fun _ => .ite (fun _ => ?_) fun _ => ?_
  · exact .bind forks_propertyName fun _ => .bind (forks_spanFrom _) fun _ => .pure
  refine .bind (forks_accept (by decide) (by decide)) fun _ => .ite (fun _ => ?_) fun _ => ?_
  · refine .bind (forks_toExpression hr) fun _ => .bind (forks_expect (by decide) _) fun _ => ?_
    exact .bind (forks_spanFrom _) fun _ => .pure
  refine .onKind (x := (· == .leftParen)) (by decide) fun _ => .ite (fun _ => ?_) fun _ => .pure
  exact .bind (forks_arguments hr) fun _ => .bind (forks_spanFrom _) fun _ => .pure

theorem forks_postfixed : Forks f goal ended pre (postfixed rules) := by
  refine .of_takes (.ask fun _ => .bind takes_primary) (.current (fun c h => h.2) fun start => ?_)
  refine .bind (forks_primary hr) fun e => ?_
  exact forks_loop (.postfixes start) hr.spans hr.spansOther
    (fun e => forks_postfixRound hr start e) e

theorem forks_unary : Forks f goal ended pre (unary rules) := by
  refine .of_takes takes_unary (.current (fun c h => h.2) fun t => ?_)
  have hsigned : ∀ operator : UnaryOperator, Forks f goal ended
      (fun c => (pre c ∧ InLine c) ∧ c.current = t) (do
        let _ ← advance
        let operand ← rules .unary
        return Expr.unary (← spanFrom t) operator operand) := by
    intro operator
    refine .bind (forks_advance fun c h => h.1.2) fun _ => ?_
    refine .bind ((hr.reads .unary).weaken fun _ _ => trivial) fun _ => ?_
    exact .bind (forks_spanFrom _) fun _ => .pure
  dsimp only
  split
  · exact hsigned .not
  · exact hsigned .negate
  · exact forks_postfixed hr

theorem forks_product : Forks f goal ended pre (product rules) :=
  forks_chain hr (by simp [operatorLevels]) (by decide) (forks_unary hr) takes_unary

theorem forks_sum : Forks f goal ended pre (sum rules) :=
  forks_chain hr (by simp [operatorLevels]) (by decide) (forks_product hr) (takes_chain takes_unary)

theorem forks_disjunction : Forks f goal ended pre (disjunction rules) := by
  have htakes : (comparison rules).Takes Wherever :=
    takes_chain (takes_chain (takes_chain takes_unary))
  have hcomparison : Forks f goal false Wherever (comparison rules) :=
    forks_chain hr (by simp [operatorLevels]) (by decide) (forks_sum hr)
      (takes_chain (takes_chain takes_unary))
  have hequality : Forks f goal false Wherever (equality rules) :=
    forks_chain hr (by simp [operatorLevels]) (by decide) hcomparison htakes
  have hconjunction : Forks f goal false Wherever (conjunction rules) :=
    forks_chain hr (by simp [operatorLevels]) (by decide) hequality (takes_chain htakes)
  exact forks_chain hr (by simp [operatorLevels]) (by decide) hconjunction
    (takes_chain (takes_chain htakes))

theorem forks_expression : Forks f goal ended pre (expression rules) := by
  refine .of_takes takes_expression (.current (fun c h => h.2) fun start => ?_)
  refine .bind (forks_accept (by decide) (by decide)) fun _ => .ite (fun _ => ?_) fun _ => ?_
  · refine .bind (forks_disjunction hr) fun _ => .bind (forks_expect (by decide) _) fun _ => ?_
    refine .bind (forks_disjunction hr) fun _ => .bind (forks_expect (by decide) _) fun _ => ?_
    exact .bind (forks_toExpression hr) fun _ => .bind (forks_spanFrom _) fun _ => .pure
  · exact forks_disjunction hr

end

/-! ## Patterns and types -/

theorem takes_mapPatternEntry : (mapPatternEntry rules).Takes pre := by
  refine .ask fun t => .ask fun found => .ite (fun hfound => .bind (takes_advance ?_)) fun _ =>
    takes_expected _
  rintro c ⟨-, rfl⟩
  revert hfound
  cases c.current.kind <;> decide

section

variable (hr : rules.Forks f goal)

include hr

theorem forks_mapPatternEntry : Forks f goal ended pre (mapPatternEntry rules) := by
  refine .of_takes takes_mapPatternEntry (.current (fun c h => h.2) fun t => ?_)
  refine .onKind (x := [TokenKind.identifier, .string].contains) (by decide) fun _ => ?_
  refine .ite (fun _ => ?_) fun _ => forks_expected _
  refine .bind (forks_advance fun c h => h.1.1.2) fun _ => ?_
  refine .bind (forks_accept (by decide) (by decide)) fun _ => .ite (fun _ => ?_) fun _ => .pure
  exact .bind (forks_toPattern hr) fun _ => .pure

theorem forks_pattern : Forks f goal ended pre (pattern rules) := by
  refine .of_takes (takes_pattern.weaken fun _ _ => trivial)
    (.current (fun c h => h.2) fun start => ?_)
  refine .ite (fun _ => ?_) fun _ => ?_
  · exact .bind (forks_advance fun c h => h.1.2) fun _ => .pure
  refine .bind (forks_accept (by decide) (by decide)) fun _ => .ite (fun _ => ?_) fun _ => ?_
  · refine .bind (forks_separated (by decide) .patterns hr.spans hr.spansOther (forks_toPattern hr)
      hr.takesPattern) fun _ => ?_
    exact .bind (forks_expect (by decide) _) fun _ => .bind (forks_spanFrom _) fun _ => .pure
  refine .onKind (x := (· == .leftBrace)) (by decide) fun _ => .ite (fun _ => ?_) fun _ => ?_
  · refine .bind (forks_braced .patternEntries hr.spans hr.spansOther (forks_mapPatternEntry hr)
      takes_mapPatternEntry) fun _ => ?_
    exact .bind (forks_spanFrom _) fun _ => .pure
  · exact .bind (forks_primary hr) fun _ => .bind (forks_spanFrom _) fun _ => .pure

theorem forks_listType (start : Token) : Forks f goal ended pre (listType rules start) := by
  refine .bind (forks_expect (by decide) _) fun _ => .bind (forks_toType hr) fun _ => ?_
  exact .bind (forks_expect (by decide) _) fun _ => .bind (forks_spanFrom _) fun _ => .pure

theorem forks_mapType (start : Token) : Forks f goal ended pre (mapType rules start) := by
  refine .bind (forks_expect (by decide) _) fun _ => .bind (forks_toType hr) fun _ => ?_
  refine .bind (forks_expect (by decide) _) fun _ => .bind (forks_toType hr) fun _ => ?_
  exact .bind (forks_expect (by decide) _) fun _ => .bind (forks_spanFrom _) fun _ => .pure

theorem forks_enumerationType (start : Token) : Forks f goal ended pre (enumerationType start) := by
  refine .bind (forks_expect (by decide) _) fun _ => ?_
  refine .bind (forks_separated (by decide) .enumValues hr.spans hr.spansOther
    (.bind (forks_expect (by decide) _) fun _ => .pure) (.bind (takes_expect rfl _))) fun _ => ?_
  exact .bind (forks_expect (by decide) _) fun _ => .bind (forks_spanFrom _) fun _ => .pure

theorem forks_type : Forks f goal ended pre (type rules) := by
  refine .bind (forks_expect (by decide) _) fun start => .onSameKind (fun k hk => ?_) fun k => ?_
  · simp only [TokenKind.closingBrackets, List.mem_cons, List.not_mem_nil, or_false] at hk
    rcases hk with rfl | rfl | rfl <;> split <;> simp_all
  split
  · exact forks_listType hr start
  · exact forks_mapType hr start
  · exact forks_enumerationType hr start
  · exact .pure

/-! ## Statements -/

/-- A block starts at the end of a line, but not of the one where the lists part. -/
theorem forks_block : Forks f goal ended pre (block rules) := by
  have hbody : ∀ start : Token, Forks f goal ended pre (do
      let statements ← indented .block (rules .statement)
      return (⟨← spanFrom start, statements⟩ : Block)) := fun start =>
    .bind (forks_indented .blockStatements hr.spans hr.spansOther
      ((hr.reads .statement).weaken fun _ _ => trivial) fun k hk _ => hr.refusesStatement k hk)
      fun _ => .bind (forks_spanFrom _) fun _ => .pure
  rintro c c' d b hc hpre hrun hlast
  rcases hc.lt_or_at_place with hlt | hplace
  · have hsame := hc.current hlt
    have := hbody c.current hc hpre hrun hlast
    rwa [← hsame] at this
  · obtain ⟨k, -, -, -⟩ := hc.at_place hplace
    obtain ⟨_, _, hindented, -⟩ := run_bind_eq_ok.mp
      (show (indented .block (rules .statement) >>= _).run c = .ok (b, c') from hrun)
    exact absurd hindented (not_run_indented k (hplace ▸ hc.stands) _)

theorem forks_loopBody : Forks f goal ended pre (loopBody rules) :=
  forks_insideLoop (forks_toBlock hr)

theorem forks_functionBody : Forks f goal ended pre (functionBody rules) :=
  forks_outsideLoops (forks_toBlock hr)

theorem forks_letStatement : Forks f goal true pre (letStatement rules) := by
  refine .bind (forks_expect (by decide) _) fun start => ?_
  refine .bind (forks_expect (by decide) _) fun name => ?_
  refine .bind (forks_expect (by decide) _) fun _ => .bind (forks_toExpression hr) fun value => ?_
  exact .bindStay forks_endStatement fun _ =>
    ⟨fun stop => .letName ⟨start.span.start, stop⟩ name.word value, fun _ => rfl⟩

theorem forks_setStatement : Forks f goal true pre (setStatement rules) := by
  refine .bind (forks_expect (by decide) _) fun start => ?_
  refine .of_takes (.ask fun _ => .bind (hr.takesExpression.weaken fun _ _ => trivial))
    (.current (fun c h => h.2) fun targetStart => ?_)
  refine .bind (forks_toExpression hr) fun target => ?_
  split
  · exact .bind (forks_spanFrom _) fun _ => .fail
  · rename_i target _
    refine .bind (forks_expect (by decide) _) fun _ => .bind (forks_toExpression hr) fun value => ?_
    exact .bindStay forks_endStatement fun _ =>
      ⟨fun stop => .assign ⟨start.span.start, stop⟩ target value, fun _ => rfl⟩

theorem forks_functionRest (start : Token) (name : String) :
    Forks f goal ended pre (functionRest rules start name) := by
  refine .bind (forks_parameters hr) fun _ => .bind (forks_expect (by decide) _) fun _ => ?_
  exact .bind (forks_functionBody hr) fun _ => .bind (forks_spanFrom _) fun _ => .pure

theorem forks_functionDeclaration : Forks f goal ended pre (functionDeclaration rules) :=
  .bind (forks_expect (by decide) _) fun start => .bind (forks_expect (by decide) _) fun name =>
    forks_functionRest hr start name.word

omit hr in
/-- A further part of a conditional statement, where there are no empty lines in front of it. -/
def alternateHere (rules : Rules) : Parse Alternate := do
  if ← atKind .elifWord then return .elseIf (← rules .ifStatement)
  if ← accept .elseWord then
    let _ ← expect .colon "':' after else"
    return .elseBlock (← rules .block)
  return .nothing

omit hr in
theorem run_alternateHere {c : Cursor} (hk : c.current.kind ≠ .elifWord)
    (hk' : c.current.kind ≠ .elseWord) : (alternateHere rules).run c = .ok (.nothing, c) := by
  rw [alternateHere, atKind, run_bind_of_ok (run_ask _ _), if_neg (by simpa using hk),
    run_bind_of_ok (run_accept_of_ne hk')]
  rfl

theorem forks_alternateHere : Forks f goal true pre (alternateHere rules) := by
  refine .onKind (x := (· == .elifWord)) (by decide) fun found =>
    .ite (fun hfound => ?_) fun _ => ?_
  · refine .bindStay ((hr.reads .ifStatement).weaken ?_) fun s => ⟨fun _ => .elseIf s, fun _ => rfl⟩
    rintro c ⟨-, rfl⟩ hk
    rw [hk] at hfound
    cases hfound
  refine .bind (forks_accept (by decide) (by decide)) fun _ => .ite (fun _ => ?_) fun _ => .pure
  refine .bind (forks_expect (by decide) _) fun _ => .bind (forks_toBlock hr) fun _ => .pure

/-- A further part of a conditional statement may be looked for behind the end of the line where the
    lists part, and it is not there. -/
theorem forks_alternatePart : Forks f goal true pre (alternatePart rules) := by
  rintro c c' d a hc - hrun hlast
  obtain ⟨_, c₁, hskip, hhere⟩ := run_bind_eq_ok.mp hrun
  have hleads := Parse.leads _ hhere
  have hlines : Forks f goal true Wherever skipNewlines := forks_skipNewlines
  rcases hlines hc trivial hskip (hlast.of_leads hleads) with
    ⟨d₁, hskip', hc₁⟩ | hparted | ⟨-, hended⟩
  · rw [show (alternatePart rules).run d = (alternateHere rules).run d₁ from run_bind_of_ok hskip']
    have hpart : Forks f goal true Wherever (alternateHere rules) := forks_alternateHere hr
    exact hpart hc₁ trivial hhere hlast
  · exact .inr (.inl (hparted.mono hleads fun _ he => run_bind_of_error he))
  · obtain ⟨k, rfl⟩ := Option.isSome_iff_exists.mp hended.known
    obtain ⟨_, d₁, hskip', hd₁⟩ := hended.other
    have hdedent : c₁.current.kind = .dedent := by
      rw [← (hc.stands.of_leads (Parse.leads _ hskip)).kindAt, hended.passed, k.dedent]
    have hcloses : d₁.current.kind ∈ TokenKind.closingBrackets := k.current hd₁ ▸ k.closes
    cases (run_alternateHere (by simp [hdedent]) (by simp [hdedent])).symm.trans hhere
    refine .inr (.inr ⟨rfl, hended.known, hended.passed, .nothing, d₁, ?_, hd₁⟩)
    refine (run_bind_of_ok hskip').trans (run_alternateHere ?_ ?_) <;>
      exact fun hk => absurd (hk ▸ hcloses) (by decide)

theorem forks_ifStatement : Forks f goal true InLine (ifStatement rules) := by
  refine .bind (forks_advance fun _ h => h) fun start => ?_
  refine .bind (forks_toExpression hr) fun test => ?_
  refine .bind (forks_expect (by decide) _) fun _ => .bind (forks_toBlock hr) fun consequent => ?_
  exact .bindStay (forks_alternatePart hr) fun alternate =>
    ⟨fun stop => ⟨⟨start.span.start, stop⟩, test, consequent, alternate⟩, fun _ => rfl⟩

theorem forks_forStatement : Forks f goal ended pre (forStatement rules) := by
  refine .bind (forks_expect (by decide) _) fun _ => .bind (forks_expect (by decide) _) fun _ => ?_
  refine .bind (forks_expect (by decide) _) fun _ => .bind (forks_toExpression hr) fun _ => ?_
  refine .bind (forks_expect (by decide) _) fun _ => .bind (forks_loopBody hr) fun _ => ?_
  exact .bind (forks_spanFrom _) fun _ => .pure

theorem forks_whileStatement : Forks f goal ended pre (whileStatement rules) := by
  refine .bind (forks_expect (by decide) _) fun _ => .bind (forks_toExpression hr) fun _ => ?_
  refine .bind (forks_expect (by decide) _) fun _ => .bind (forks_loopBody hr) fun _ => ?_
  exact .bind (forks_spanFrom _) fun _ => .pure

omit hr in
theorem forks_loopControl (build : Span → Stmt) : Forks f goal true InLine (loopControl build) := by
  refine .bind (forks_advance fun _ h => h) fun t => .ask (fun _ _ hc _ => hc.loops) fun loops => ?_
  refine .ite (fun _ => .fail) fun _ => ?_
  exact .bindStay forks_endStatement fun _ => ⟨fun _ => build t.span, fun _ => rfl⟩

theorem forks_matchCase : Forks f goal ended pre (matchCase rules) := by
  refine .of_takes (.ask fun _ => .bind (hr.takesPattern.weaken fun _ _ => trivial))
    (.current (fun c h => h.2) fun start => ?_)
  refine .bind (forks_toPattern hr) fun _ => ?_
  refine .bind (forks_optional (by decide) (by decide) (forks_toExpression hr)) fun _ => ?_
  refine .bind (forks_expect (by decide) _) fun _ => .bind (forks_toBlock hr) fun _ => ?_
  exact .bind (forks_spanFrom _) fun _ => .pure

theorem forks_matchStatement : Forks f goal ended pre (matchStatement rules) := by
  refine .bind (forks_expect (by decide) _) fun _ => .bind (forks_toExpression hr) fun _ => ?_
  refine .bind (forks_expect (by decide) _) fun _ => ?_
  refine .bind (forks_indented .cases hr.spans hr.spansOther (forks_matchCase hr)
    fun _ _ h => nomatch h) fun _ => ?_
  exact .bind (forks_spanFrom _) fun _ => .pure

/-- Where the lists part, a function ends without a value in the first one, while in the second one a
    value would have to start with the bracket. -/
theorem forks_returnValue? : Forks f goal ended pre (returnValue? rules) := by
  rintro c c' d v hc - hrun hlast
  rcases hc.lt_or_at_place with hlt | hplace
  · have hbefore : Forks f goal ended (fun c => c.passed < f.place) (returnValue? rules) :=
      .ask (fun c d hc hlt => by rw [hc.current hlt]) fun _ =>
        .ite (fun _ => .pure) fun _ => .map (forks_toExpression hr)
    exact hbefore hc hlt hrun hlast
  · obtain ⟨k, rfl, -, hbracket⟩ := hc.at_place hplace
    refine .inr (.inl ?_)
    have hcloses : d.current.kind ∈ TokenKind.closingBrackets := hbracket ▸ k.closes
    have hvalue : (returnValue? rules).run d = (some <$> rules .expression).run d := by
      rw [returnValue?, atAny, run_bind_of_ok (run_ask _ _), if_neg]
      revert hcloses
      cases d.current.kind <;> decide
    rw [hvalue]
    exact run_bind_of_error (hr.refusesExpression k rfl d (hplace ▸ hc.other))

theorem forks_returnStatement : Forks f goal true pre (returnStatement rules) := by
  refine .bind (forks_expect (by decide) _) fun start => ?_
  refine .bind (forks_returnValue? hr) fun value => ?_
  exact .bindStay forks_endStatement fun _ =>
    ⟨fun stop => .returnValue ⟨start.span.start, stop⟩ value, fun _ => rfl⟩

theorem forks_onStatement : Forks f goal ended pre (onStatement rules) := by
  refine .bind (forks_expect (by decide) _) fun _ => .bind (forks_toExpression hr) fun _ => ?_
  refine .bind (forks_optional (by decide) (by decide) (forks_toExpression hr)) fun _ => ?_
  refine .bind (forks_expect (by decide) _) fun _ => .bind (forks_functionBody hr) fun _ => ?_
  exact .bind (forks_spanFrom _) fun _ => .pure

theorem forks_eventData? : Forks f goal ended pre (eventData? rules) :=
  .onKind (x := (· == .leftBrace)) (by decide) fun _ =>
    .ite (fun _ => .map (forks_mapLiteral hr)) fun _ => .pure

theorem forks_emitStatement : Forks f goal true pre (emitStatement rules) := by
  refine .bind (forks_expect (by decide) _) fun start => ?_
  refine .bind (forks_toExpression hr) fun event => ?_
  refine .bind (forks_eventData? hr) fun data => ?_
  exact .bindStay forks_endStatement fun _ =>
    ⟨fun stop => .emit ⟨start.span.start, stop⟩ event data, fun _ => rfl⟩

omit hr in
theorem forks_givenName? (what : String) : Forks f goal ended pre (givenName? what) := by
  refine .ask (fun c d hc _ => ?_) fun found => .ite (fun hfound => ?_) fun _ => .pure
  · rcases hc.lt_or_at_place with hlt | hplace
    · rw [hc.current hlt]
    · -- neither the end of a line nor a bracket is a word
      obtain ⟨k, -, hnewline, hbracket⟩ := hc.at_place hplace
      have hword : k.bracket.kind ≠ .identifier := fun hk => absurd (hk ▸ k.closes) (by decide)
      rw [hnewline, hbracket, beq_false_of_ne hword]
      rfl
  · refine .bind (forks_advance ?_) fun _ => .bind (forks_expect (by decide) _) fun _ => .pure
    rintro c ⟨-, rfl⟩ hk
    rw [hk] at hfound
    cases hfound

omit hr in
theorem forks_importStatement : Forks f goal true pre importStatement := by
  refine .bind (forks_expect (by decide) _) fun start => ?_
  refine .bind (forks_expect (by decide) _) fun source => ?_
  refine .bind (forks_givenName? _) fun name => ?_
  exact .bindStay forks_endStatement fun _ =>
    ⟨fun stop => ⟨⟨start.span.start, stop⟩, source.word, none, name⟩, fun _ => rfl⟩

omit hr in
theorem forks_importSpecifier : Forks f goal ended pre importSpecifier := by
  refine .of_takes (.ask fun _ => .bind (takes_expect rfl _))
    (.current (fun c h => h.2) fun _ => ?_)
  refine .bind (forks_expect (by decide) _) fun _ => .bind (forks_givenName? _) fun _ => ?_
  exact .bind (forks_spanFrom _) fun _ => .pure

theorem forks_importSpecifiers : Forks f goal ended pre importSpecifiers := by
  refine .bind (forks_accept (by decide) (by decide)) fun _ => .ite (fun _ => ?_) fun _ => ?_
  · refine .bind (forks_separated (by decide) .specifiers hr.spans hr.spansOther
      forks_importSpecifier (.ask fun _ => .bind (takes_expect rfl _))) fun _ => ?_
    exact .bind (forks_expect (by decide) _) fun _ => .pure
  · exact .bind (forks_expect (by decide) _) fun _ => .pure

theorem forks_fromStatement : Forks f goal true pre fromStatement := by
  refine .bind (forks_expect (by decide) _) fun start => ?_
  refine .bind (forks_expect (by decide) _) fun source => ?_
  refine .bind (forks_expect (by decide) _) fun _ => ?_
  refine .bind (forks_importSpecifiers hr) fun specifiers => ?_
  exact .bindStay forks_endStatement fun _ =>
    ⟨fun stop => ⟨⟨start.span.start, stop⟩, source.word, some specifiers, none⟩, fun _ => rfl⟩

theorem forks_schemaField (required inSection : Bool) :
    Forks f goal true pre (schemaField rules required inSection) := by
  refine .bind (forks_expect (by decide) _) fun start => ?_
  refine .bind (forks_expect (by decide) _) fun _ => .bind (forks_toType hr) fun type => ?_
  refine .bind (forks_optional (by decide) (by decide) (forks_toExpression hr)) fun default => ?_
  exact .bindStay forks_endStatement fun _ =>
    ⟨fun stop => ⟨⟨start.span.start, stop⟩, start.word, type, required, inSection, default⟩,
      fun _ => rfl⟩

omit hr in
theorem forks_passUnknown : Forks f goal ended InLine passUnknown := by
  rintro c c' d t hc hline hrun -
  cases hrun
  have hlt := hc.lt_of_kind hline
  have hnoted := hc.of_records (.unknown c.passed :: c.readings) (.unknown d.passed :: d.readings)
    c.breaks d.breaks
  rcases hnoted.next hlt with hnext | ⟨rfl, hplace⟩
  · exact .inl ⟨_, by rw [← hc.current hlt]; rfl, hnext⟩
  · exact .inr (.inl hplace)

/-- What one part of a schema body declares. -/
theorem forks_schemaPart : Forks f goal true InLine (schemaPart rules) := by
  refine .current (fun _ h => h) fun start => ?_
  refine .atWord (fun c h => h.1) fun _ => .atWord (fun c h => h.1) fun _ =>
    .ite (fun _ => ?_) fun _ => ?_
  · refine .bind (forks_advance fun c h => h.1) fun _ => ?_
    refine .bind (forks_expect (by decide) _) fun _ => ?_
    exact .bind (forks_indented (.sectionFields _) hr.spans hr.spansOther (forks_schemaField hr _ _)
      fun _ _ h => nomatch h) fun _ => .pure
  refine .ask (fun c d hc h => by rw [hc.current (hc.lt_of_kind h.1)]) fun _ =>
    .ite (fun _ => ?_) fun _ => ?_
  · exact .bind (forks_functionDeclaration hr) fun _ => .pure
  refine .ask (fun c d hc h => ?_) fun colon => .ite (fun hfield => ?_) fun _ => ?_
  · exact hc.isAhead_eq (hc.lt_of_kind h.1.1) (by decide)
  · refine .ask (fun c d hc h => ?_) fun _ => .ite (fun _ => ?_) fun _ => ?_
    · have hcolon : (c.kindAhead? 1 == some .colon) = true :=
        h.2.trans (Bool.and_eq_true_iff.mp hfield).2
      exact hc.isAhead_eq (hc.lt_of_isAhead (hc.lt_of_kind h.1.1.1) (by decide) hcolon) (by decide)
    · refine .bind (forks_advance fun c h => ?_) fun _ =>
        .bind (forks_expect (by decide) _) fun _ => ?_
      · exact h.1.1.1.1
      refine .bind (forks_expect (by decide) _) fun _ => ?_
      exact .bind (forks_functionRest hr start start.word) fun _ => .pure
    · exact .bindStay (forks_schemaField hr false false) fun field =>
        ⟨fun _ => ([field], []), fun _ => rfl⟩
  · exact .bind (forks_passUnknown.weaken fun c h => h.1.1.1) fun _ => .pure

theorem forks_schemaStatement : Forks f goal ended pre (schemaStatement rules) := by
  refine .bind (forks_expect (by decide) _) fun _ => .bind (forks_expect (by decide) _) fun _ => ?_
  refine .bind (forks_optional (by decide) (by decide) (forks_expect (by decide) _)) fun _ => ?_
  refine .bind (forks_expect (by decide) _) fun _ => ?_
  refine .bind (forks_indented .schemaParts hr.spans hr.spansOther (forks_schemaPart hr)
    fun _ _ h => nomatch h) fun _ => ?_
  exact .bind (forks_spanFrom _) fun _ => .pure

theorem forks_instanceField : Forks f goal true pre (instanceField rules) := by
  refine .bind forks_propertyName fun name => .bind (forks_expect (by decide) _) fun _ => ?_
  refine .bind (forks_toExpression hr) fun value => ?_
  exact .bindStay forks_endStatement fun _ => ⟨fun _ => (name, value), fun _ => rfl⟩

theorem forks_instanceStatement : Forks f goal ended pre (instanceStatement rules) := by
  refine .bind (forks_expect (by decide) _) fun _ => .bind (forks_expect (by decide) _) fun _ => ?_
  refine .bind (forks_expect (by decide) _) fun _ => ?_
  refine .bind (forks_indented .instanceFields hr.spans hr.spansOther (forks_instanceField hr)
    fun _ _ h => nomatch h) fun _ => ?_
  exact .bind (forks_spanFrom _) fun _ => .pure

theorem forks_expressionStatement : Forks f goal true InLine (expressionStatement rules) := by
  refine .current (fun _ h => h) fun start => .bind (forks_toExpression hr) fun e => ?_
  exact .bindStay forks_endStatement fun _ =>
    ⟨fun stop => .expression ⟨start.span.start, stop⟩ e, fun _ => rfl⟩

omit hr in
theorem startsInstance_eq : startsInstance = Parse.ask fun c =>
    c.current.kind == .identifier && c.kindAhead? 1 == some .identifier &&
      c.kindAhead? 2 == some .colon := rfl

omit hr in
/-- No statement starts at the end of a block: what is no other one would be an expression. -/
theorem not_run_statement_of_dedent (htakes : (rules .expression).Takes Wherever) {c : Cursor}
    (hk : c.current.kind = .dedent) (r : Stmt × Cursor) : (statement rules).run c ≠ .ok r := by
  intro hrun
  rw [statement, run_bind_of_ok (run_skipNewlines_of_ne (by simp [hk])), kind,
    run_bind_of_ok (run_ask _ _)] at hrun
  simp only [hk] at hrun
  rw [startsInstance_eq, run_bind_of_ok (run_ask _ _), if_neg (by simp [hk])] at hrun
  obtain ⟨_, _, hask, hrun⟩ := run_bind_eq_ok.mp hrun
  cases hask
  obtain ⟨_, _, hexpression, -⟩ := run_bind_eq_ok.mp hrun
  have := (htakes trivial hexpression).1
  rw [hk] at this
  cases this

theorem forks_statement : Forks f goal true pre (statement rules) := by
  refine .bindEnd (q := InLine) forks_skipNewlines (fun c d _ tokens i hc => run_skipNewlines hc)
    (fun _ c r hk hrun => not_run_statement_of_dedent hr.takesExpression hk r
      ((run_bind_of_ok (run_skipNewlines_of_ne (by simp [hk]))).trans hrun)) fun _ => ?_
  refine .ask (fun c d hc h => by rw [hc.current (hc.lt_of_kind h)]) fun k => ?_
  split
  · exact forks_letStatement hr
  · exact forks_setStatement hr
  · exact .map (forks_functionDeclaration hr)
  · exact .bindStay ((forks_ifStatement hr).weaken fun c h => h.1) fun s =>
      ⟨fun _ => .ifThen s, fun _ => rfl⟩
  · exact forks_forStatement hr
  · exact forks_whileStatement hr
  · exact forks_matchStatement hr
  · exact forks_returnStatement hr
  · exact (forks_loopControl _).weaken fun c h => h.1
  · exact (forks_loopControl _).weaken fun c h => h.1
  · exact forks_onStatement hr
  · exact forks_emitStatement hr
  · exact .bindStay forks_importStatement fun i => ⟨fun _ => .importFile i, fun _ => rfl⟩
  · exact .bindStay (forks_fromStatement hr) fun i => ⟨fun _ => .importFile i, fun _ => rfl⟩
  · exact forks_schemaStatement hr
  · rw [startsInstance_eq]
    refine .ask (fun c d hc h => ?_) fun _ => .ite (fun _ => forks_instanceStatement hr) fun _ => ?_
    · have hlt := hc.lt_of_kind h.1
      rw [hc.current hlt, hc.isAhead_eq hlt (by decide)]
      -- only behind two names a colon is looked for
      cases hname : c.kindAhead? 1 == some .identifier with
      | false => rw [Bool.and_false, Bool.false_and, Bool.false_and]
      | true =>
        rw [hc.isAhead_eq (n := 2) (hc.lt_of_isAhead hlt (by decide) hname) (by decide)]
    · exact (forks_expressionStatement hr).weaken fun c h => h.1.1

end

/-! ## The whole grammar -/

theorem run_expected {α : Type} {what : String} {d : Cursor} (hk : d.current.kind ≠ .endOfFile) :
    (expected what : Parse α).run d =
      .error (.located (.unexpectedToken what d.current.kind) d.current.span) := by
  rw [expected, Parse.current, run_bind_of_ok (run_ask _ _), if_neg (by simpa using hk)]
  rfl

theorem run_chain_of_error {level : List (TokenKind × BinaryOperator)} {operand : Parse Expr}
    {d : Cursor} {e : Diagnostic} (h : operand.run d = .error e) :
    (chain level operand).run d = .error e := by
  rw [chain, Parse.current, run_bind_of_ok (run_ask _ _), run_bind_of_error h]

/-- No expression starts where a bracket closes. -/
theorem run_unary_of_closes {d : Cursor} (hk : d.current.kind ∈ TokenKind.closingBrackets) :
    (unary rules).run d =
      .error (.located (.unexpectedToken "expression" d.current.kind) d.current.span) := by
  have hend : d.current.kind ≠ .endOfFile := fun h => absurd (h ▸ hk) (by decide)
  rw [← run_expected hend, unary, Parse.current, run_bind_of_ok (run_ask _ _)]
  have hprimary : (primary rules).run d = (expected "expression").run d := by
    rw [primary, Parse.current, run_bind_of_ok (run_ask _ _)]
    simp only [TokenKind.closingBrackets, List.mem_cons, List.not_mem_nil, or_false] at hk
    rcases hk with hk | hk | hk <;> simp only [hk]
  have hpostfixed : (postfixed rules).run d = (expected "expression").run d := by
    rw [postfixed, Parse.current, run_bind_of_ok (run_ask _ _)]
    rw [run_expected hend] at hprimary ⊢
    exact run_bind_of_error hprimary
  rw [← hpostfixed]
  simp only [TokenKind.closingBrackets, List.mem_cons, List.not_mem_nil, or_false] at hk
  rcases hk with hk | hk | hk <;> simp only [hk]

theorem run_expression_of_closes {d : Cursor} (hk : d.current.kind ∈ TokenKind.closingBrackets) :
    (expression rules).run d =
      .error (.located (.unexpectedToken "expression" d.current.kind) d.current.span) := by
  have hword : d.current.kind ≠ .ifWord := fun h => absurd (h ▸ hk) (by decide)
  rw [expression, Parse.current, run_bind_of_ok (run_ask _ _),
    run_bind_of_ok (run_accept_of_ne hword), if_neg (by decide)]
  exact run_chain_of_error (run_chain_of_error (run_chain_of_error (run_chain_of_error
    (run_chain_of_error (run_chain_of_error (run_unary_of_closes hk))))))

/-- Where a bracket closes, a statement would be an expression. -/
theorem run_statement_of_closes {d : Cursor} (hk : d.current.kind ∈ TokenKind.closingBrackets)
    {e : Diagnostic}
    (h : (rules .expression).run d = .error e) : (statement rules).run d = .error e := by
  have hexpression : (expressionStatement rules).run d = .error e := by
    rw [expressionStatement, Parse.current, run_bind_of_ok (run_ask _ _), run_bind_of_error h]
  have hstarts : startsInstance.run d = .ok (false, d) := by
    rw [startsInstance_eq, run_ask, beq_false_of_ne fun hname => absurd (hname ▸ hk) (by decide)]
    rfl
  have hline : d.current.kind ≠ .newline := fun h => absurd (h ▸ hk) (by decide)
  rw [statement, run_bind_of_ok (run_skipNewlines_of_ne hline), kind, run_bind_of_ok (run_ask _ _)]
  simp only [TokenKind.closingBrackets, List.mem_cons, List.not_mem_nil, or_false] at hk
  rcases hk with hk | hk | hk <;> simp only [hk] <;>
    rw [run_bind_of_ok hstarts, if_neg (by decide), hexpression]

/-- Every rule reads two token lists alike, or comes to where they part, whatever number of levels
    is below it. -/
theorem forks_rulesAt (levels : Nat) : (rulesAt levels).Forks f goal := by
  have hproblem : ∀ (k : f.Closing) (d : Cursor), d.At f.other f.place →
      d.current.kind ∈ TokenKind.closingBrackets ∧ k.problem =
        .located (.unexpectedToken "expression" d.current.kind) d.current.span := by
    intro k d hd
    rw [k.current hd]
    exact ⟨k.closes, rfl⟩
  induction levels with
  | zero =>
    have hrefuses : ∀ {α : Type} (k : f.Closing) (d : Cursor), d.At f.other f.place →
        (expected "expression" : Parse α).run d = .error k.problem := by
      intro α k d hd
      obtain ⟨hk, heq⟩ := hproblem k d hd
      rw [heq, run_expected fun h => absurd (h ▸ hk) (by decide)]
    exact ⟨Rules.over_rulesAt _ 0, Rules.over_rulesAt _ 0, fun _ => forks_expected _,
      takes_expected _, takes_expected _, fun k _ => hrefuses k, fun k _ => hrefuses k,
      fun _ _ _ => not_run_expected _ _ _⟩
  | succ levels ih =>
    have hexpression : ∀ (k : f.Closing) (d : Cursor), d.At f.other f.place →
        (rulesAt (levels + 1) .expression).run d = .error k.problem := by
      intro k d hd
      obtain ⟨hk, heq⟩ := hproblem k d hd
      rw [heq]
      exact run_expression_of_closes hk
    refine ⟨Rules.over_rulesAt _ _, Rules.over_rulesAt _ _, fun g => ?_, takes_toExpression _,
      takes_pattern.weaken fun _ _ => trivial, fun k _ => hexpression k, fun k hk d hd => ?_,
      fun _ r hk => not_run_statement_of_dedent (takes_toExpression levels) hk r⟩
    · cases g with
      | expression => exact forks_expression ih
      | unary => exact forks_unary ih
      | statement => exact forks_statement ih
      | ifStatement => exact forks_ifStatement ih
      | block => exact forks_block ih
      | pattern => exact forks_pattern ih
      | type => exact forks_type ih
    · exact run_statement_of_closes (hproblem k d hd).1 (ih.refusesExpression k hk d hd)

end Grammar

end EventScript
