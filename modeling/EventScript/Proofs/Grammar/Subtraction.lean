import EventScript.Proofs.Grammar.Arriving
import EventScript.Proofs.Grammar.Levels

/-! # A number behind a postfix expression

In a file that is the definition of one name, with a postfix expression as its value, a minus and a
number behind the expression make a subtraction; a number without a minus is refused.

* `Cursor.BeforeLet`                 a definition of a name starts here
* `run_expression_of_minus`          the subtraction
* `run_program_let`, `not_let`       the file around it
-/

namespace EventScript

/-- A cursor in front of the definition of a name. -/
structure Cursor.BeforeLet (c : Cursor) (name : String) : Prop where
  letWord : c.current.kind = .letWord
  identifier : c.next.current.kind = .identifier
  word : c.next.current.word = name
  assign : c.next.next.current.kind = .assign

namespace Cursor

variable {c d : Cursor}

theorem BeforeLet.of_ofTokens? {t₀ t₁ t₂ : Token} {rest : List Token}
    (h : ofTokens? (t₀ :: t₁ :: t₂ :: rest) = some c) (hlet : t₀.kind = .letWord)
    (hname : t₁.kind = .identifier) (hassign : t₂.kind = .assign) : c.BeforeLet t₁.word := by
  cases h
  refine ⟨hlet, ?_, ?_, ?_⟩ <;> simp [next, atEnd, hlet, hname, hassign]

/-- In front of the value of a definition three tokens were passed. -/
theorem BeforeLet.stands {tokens : List Token} {name : String} (h : c.BeforeLet name)
    (hc : c.At tokens 0) :
    c.next.At tokens 1 ∧ c.next.next.At tokens 2 ∧ c.next.next.next.At tokens 3 := by
  have hnext : ∀ {c : Cursor} {i : Nat}, c.At tokens i → c.current.kind ≠ .endOfFile →
      c.next.At tokens (i + 1) := fun hc hkind => hc.next hkind ▸ hc.of_leads (.next _)
  have h₁ := hnext hc (by simp [h.letWord])
  have h₂ := hnext h₁ (by simp [h.identifier])
  exact ⟨h₁, h₂, hnext h₂ (by simp [h.assign])⟩

/-- They are the same in a list that parts from the first one further on. -/
theorem BeforeLet.abreast {f : Fork} {name : String} (h : c.BeforeLet name)
    (habreast : f.Abreast c d) (hc : c.At f.tokens 0) (hplace : 3 ≤ f.place) :
    d.BeforeLet name ∧ f.Abreast c.next.next.next d.next.next.next := by
  obtain ⟨hc₁, hc₂, -⟩ := h.stands hc
  have hpassed := hc.passed
  have hpassed₁ := hc₁.passed
  have hpassed₂ := hc₂.passed
  have h₁ := habreast.next (by omega)
  have h₂ := h₁.next (by omega)
  have hname := h₁.current (by omega)
  refine ⟨⟨?_, ?_, ?_, ?_⟩, h₂.next (by omega)⟩
  · rw [habreast.current (by omega), h.letWord]
  · rw [hname, h.identifier]
  · rw [hname, h.word]
  · rw [h₂.current (by omega), h.assign]

end Cursor

namespace Grammar

open Parse

variable {rules : Rules} {c d : Cursor} {e : Expr}

/-- A postfix expression is the same with more levels below it than there are tokens for. -/
theorem run_postfixed_rulesAt {tokens : List Token} {i levels levels' : Nat} (hc : c.At tokens i)
    (h : 2 * (tokens.length - (i + 1)) ≤ levels) (h' : 2 * (tokens.length - (i + 1)) ≤ levels') :
    (postfixed (rulesAt levels')).run c = (postfixed (rulesAt levels)).run c := by
  have hr : (rulesAt levels).SettleFrom tokens (i + 1) (rulesAt levels') := by
    intro g j hij
    have hneed := g.need_le (tokens.length - j)
    rw [rulesAt_eq_rulesAbove, rulesAt_eq_rulesAbove]
    exact settles_rulesAbove (by omega) (by omega)
  exact (settles_postfixed hr hc).1

/-! ## Expressions -/

/-- What a postfix expression starts with. -/
theorem opening_of_run_postfixed {r : Expr × Cursor} (h : (postfixed rules).run c = .ok r) :
    c.current.kind.opening = 9 := by
  obtain ⟨_, _, hstart, hrest⟩ := run_bind_eq_ok.mp h
  cases hstart
  obtain ⟨_, _, hprimary, -⟩ := run_bind_eq_ok.mp hrest
  obtain ⟨_, _, hcurrent, hform⟩ := run_bind_eq_ok.mp hprimary
  cases hcurrent
  revert hform
  split
  all_goals first
    | exact fun _ => by simp [*]; rfl
    | exact fun hform => absurd hform (not_run_expected _ _ _)

/-- A number to which nothing is applied. -/
theorem run_postfixed_number (hk : c.current.kind = .number)
    (hends : c.next.current.kind.grip < 8) :
    (postfixed rules).run c = .ok (.number c.current.span (numberOf c.current), c.next) := by
  have hprimary : (primary rules).run c =
      .ok (.number c.current.span (numberOf c.current), c.next) := by
    rw [primary, Parse.current, run_bind_of_ok (run_ask _ _)]
    simp only [hk]
    rfl
  exact run_bind_eq_ok.mpr ⟨_, c, rfl, (run_bind_of_ok hprimary).trans
    (run_bind_eq_ok.mpr ⟨_, _, rfl, run_postfixFrom_of_grip hends⟩)⟩

/-- A postfix expression and a number that is subtracted from it. -/
theorem run_expression_of_minus (h : (postfixed rules).run c = .ok (e, d))
    (hminus : d.current.kind = .minus) (hnumber : d.next.current.kind = .number)
    (hends : d.next.next.current.kind.grip = 0) :
    (expression rules).run c = .ok (.binary ⟨c.current.span.start, d.next.next.lastStop⟩ .minus e
      (.number d.next.current.span (numberOf d.next.current)), d.next.next) := by
  have hopens := opening_of_run_postfixed h
  have hleft : (reading rules 6).run c = .ok (e, d) :=
    run_downTo (m := 8) (by decide) (Nat.le_refl 8) h (by omega) (by rw [hminus]; decide)
  have hright : (reading rules 6).run d.next = .ok (_, d.next.next) :=
    run_downTo (m := 8) (by decide) (Nat.le_refl 8) (run_postfixed_number hnumber (by omega))
      (by rw [hnumber]; decide) (by rw [hends]; decide)
  obtain ⟨t, rest, hrest⟩ : ∃ t rest, d.rest = t :: rest := by
    cases hrest : d.rest with
    | nil =>
      have hnext : d.next = d := by simp [Cursor.next, hrest]
      rw [hnext, hminus] at hnumber
      cases hnumber
    | cons t rest => exact ⟨t, rest, rfl⟩
  have hsum : (reading rules 5).run c = .ok (.binary ⟨c.current.span.start, d.next.next.lastStop⟩
      .minus e (.number d.next.current.span (numberOf d.next.current)), d.next.next) := by
    rw [reading_eq_chain (by decide) (by decide)]
    refine run_bind_eq_ok.mpr ⟨_, c, rfl, (run_bind_of_ok hleft).trans ?_⟩
    refine run_bind_eq_ok.mpr ⟨_, d, rfl, ?_⟩
    rw [Cursor.tokensLeft, hrest, List.length_cons]
    refine run_bind_eq_ok.mpr ⟨some .minus, d, by rw [operatorOf?, run_ask, hminus]; rfl, ?_⟩
    refine run_bind_eq_ok.mpr ⟨_, d.next, rfl, (run_bind_of_ok hright).trans ?_⟩
    exact run_bind_eq_ok.mpr ⟨_, _, rfl, run_chainFrom_of_grip (by omega)⟩
  exact run_downTo (n := 0) (by decide) (by decide) hsum (by omega) (by omega)

/-- A postfix expression by itself. -/
theorem run_expression_of_postfixed (h : (postfixed rules).run c = .ok (e, d))
    (hends : d.current.kind.grip = 0) : (expression rules).run c = .ok (e, d) :=
  run_downTo (n := 0) (m := 8) (by decide) (Nat.le_refl 8) h
    (by rw [opening_of_run_postfixed h]; decide) (by omega)

/-! ## The file around an expression -/

section

variable {name : String} (hc : c.BeforeLet name)

include hc

/-- The definition of a name, up to its value. -/
theorem run_letStatement {value : Expr}
    (h : (rules .expression).run c.next.next.next = .ok (value, d)) :
    (letStatement rules).run c = (endStatement >>= fun _ => spanFrom c.current >>= fun span =>
      pure (.letName span name value)).run d := by
  rw [letStatement, run_bind_of_ok (run_expect_of_kind hc.letWord),
    run_bind_of_ok (run_expect_of_kind hc.identifier),
    run_bind_of_ok (run_expect_of_kind hc.assign), run_bind_of_ok h, hc.word]

theorem run_statement_let : (statement rules).run c = (letStatement rules).run c := by
  have hline : c.current.kind ≠ .newline := by simp [hc.letWord]
  rw [statement, run_bind_of_ok (run_skipNewlines_of_ne hline), Parse.kind,
    run_bind_of_ok (run_ask _ _), hc.letWord]

theorem run_statementsFrom_let (bound : Nat) :
    (statementsFrom rules (bound + 1)).run c =
      (rules .statement >>= fun s => statementsFrom rules bound >>= fun ss => pure (s :: ss)).run
        c := by
  have hline : c.current.kind ≠ .newline := by simp [hc.letWord]
  rw [statementsFrom, run_bind_of_ok (run_skipNewlines_of_ne hline), atKind,
    run_bind_of_ok (run_ask _ _), if_neg (by simp [hc.letWord])]

theorem exists_rest_of_beforeLet : ∃ t rest, c.rest = t :: rest := by
  cases hrest : c.rest with
  | nil =>
    have hnext : c.next = c := by simp [Cursor.next, hrest]
    have := hc.identifier
    rw [hnext, hc.letWord] at this
    cases this
  | cons t rest => exact ⟨t, rest, rfl⟩

/-- A file with the definition of a name in it, and nothing else. -/
theorem run_program_let {depth : Nat} {value : Expr}
    (h : (expression (rulesAt depth)).run c.next.next.next = .ok (value, d))
    (hends : d.current.kind = .endOfFile) :
    ∃ span, (program (rulesAt (depth + 2))).run c =
      .ok (⟨span, [], [.letName ⟨c.current.span.start, d.lastStop⟩ name value]⟩, d) := by
  have hline : d.current.kind ≠ .newline := by simp [hends]
  have hstatement : (rulesAt (depth + 2) .statement).run c =
      .ok (.letName ⟨c.current.span.start, d.lastStop⟩ name value, d) := by
    change (statement (rulesAt (depth + 1))).run c = _
    rw [run_statement_let hc]
    rw [run_letStatement hc h, endStatement, atAny, bind_assoc, run_bind_of_ok (run_ask _ _),
      if_pos (by rw [hends]; decide), run_bind_of_ok (run_skipNewlines_of_ne hline)]
    rfl
  obtain ⟨t, rest, hrest⟩ := exists_rest_of_beforeLet hc
  refine ⟨⟨c.current.span.start, d.lastStop⟩, ?_⟩
  rw [program, Parse.current, run_bind_of_ok (run_ask _ _), Parse.tokensLeft,
    run_bind_of_ok (run_ask _ _), Cursor.tokensLeft, hrest, List.length_cons]
  have hnone : (statementsFrom (rulesAt (depth + 2)) (rest.length + 1)).run d = .ok ([], d) := by
    rw [statementsFrom, run_bind_of_ok (run_skipNewlines_of_ne hline), atKind,
      run_bind_of_ok (run_ask _ _), if_pos (by simp [hends])]
    rfl
  have hstatements : (statementsFrom (rulesAt (depth + 2)) (rest.length + 1 + 1)).run c =
      .ok ([.letName ⟨c.current.span.start, d.lastStop⟩ name value], d) := by
    rw [run_statementsFrom_let hc, run_bind_of_ok hstatement, run_bind_of_ok hnone]
    rfl
  rw [run_bind_of_ok hstatements]
  rfl

/-- Behind the value of a name another number can not follow. -/
theorem run_program_let_number {depth : Nat} {value : Expr}
    (h : (expression (rulesAt depth)).run c.next.next.next = .ok (value, d))
    (hends : d.current.kind = .number) :
    (program (rulesAt (depth + 2))).run c =
      .error (.located (.unexpectedToken "newline or end of file" .number) d.current.span) := by
  have hstatement : (rulesAt (depth + 2) .statement).run c =
      .error (.located (.unexpectedToken "newline or end of file" .number) d.current.span) := by
    change (statement (rulesAt (depth + 1))).run c = _
    rw [run_statement_let hc]
    rw [run_letStatement hc h, endStatement, atAny, bind_assoc, run_bind_of_ok (run_ask _ _),
      if_neg (by rw [hends]; decide), run_bind_of_error (run_expected (by simp [hends])), hends]
  obtain ⟨t, rest, hrest⟩ := exists_rest_of_beforeLet hc
  have hstatements : (statementsFrom (rulesAt (depth + 2)) (rest.length + 1 + 1)).run c =
      .error (.located (.unexpectedToken "newline or end of file" .number) d.current.span) := by
    rw [run_statementsFrom_let hc, run_bind_of_error hstatement]
  rw [program, Parse.current, run_bind_of_ok (run_ask _ _), Parse.tokensLeft,
    run_bind_of_ok (run_ask _ _), Cursor.tokensLeft, hrest, List.length_cons,
    run_bind_of_error hstatements]

end

end Grammar

end EventScript
