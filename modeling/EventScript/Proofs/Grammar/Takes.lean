import EventScript.Proofs.Token.Layout
import EventScript.Grammar.Program

/-! # Rules that take the token they start on

Most rules pass the token that they start on, and it is one that is written out: `Parse.Takes`.
Whatever such a rule does afterwards happens behind that token.
-/

namespace EventScript

namespace Parse

variable {α β γ : Type}

@[simp] theorem run_pure (a : α) (c : Cursor) : (pure a : Parse α).run c = .ok (a, c) := rfl

@[simp] theorem run_ask (f : Cursor → α) (c : Cursor) : (ask f).run c = .ok (f c, c) := rfl

theorem run_bind_eq_ok {p : Parse α} {f : α → Parse β} {c c'' : Cursor} {b : β} :
    (p >>= f).run c = .ok (b, c'') ↔
      ∃ a c', p.run c = .ok (a, c') ∧ (f a).run c' = .ok (b, c'') := by
  change (Parse.bind p f).run c = _ ↔ _
  simp only [Parse.bind]
  constructor
  · intro h
    split at h
    · rename_i a c' hp
      exact ⟨a, c', hp, h⟩
    · cases h
  · rintro ⟨a, c', hp, h⟩
    rw [hp]
    exact h

theorem run_bind_of_ok {p : Parse α} {f : α → Parse β} {c d : Cursor} {a : α}
    (h : p.run c = .ok (a, d)) : (p >>= f).run c = (f a).run d := by
  change (Parse.bind p f).run c = _
  simp only [Parse.bind, h]

theorem run_bind_of_error {p : Parse α} {f : α → Parse β} {c : Cursor} {e : Diagnostic}
    (h : p.run c = .error e) : (p >>= f).run c = .error e := by
  change (Parse.bind p f).run c = _
  simp only [Parse.bind, h]

theorem not_run_expected (what : String) (c : Cursor) (r : α × Cursor) :
    (expected what).run c ≠ .ok r := by
  intro h
  obtain ⟨t, _, ht, hfail⟩ := run_bind_eq_ok.mp h
  cases hfail

/-- A token of a kind that must stand somewhere stood there, and was passed. -/
theorem run_expect {k : TokenKind} {what : String} {c c' : Cursor} {t : Token}
    (h : (expect k what).run c = .ok (t, c')) :
    c.current.kind = k ∧ t = c.current ∧ c' = c.next := by
  obtain ⟨found, _, hfound, hrun⟩ := run_bind_eq_ok.mp h
  cases hfound
  split at hrun
  · cases hrun
    exact ⟨beq_iff_eq.mp ‹_›, rfl, rfl⟩
  · exact absurd hrun (not_run_expected _ _ _)

/-- A token of a kind that may stand somewhere was passed, or there is another one. -/
theorem run_accept {k : TokenKind} {c c' : Cursor} {found : Bool}
    (h : (accept k).run c = .ok (found, c')) :
    found = true ∧ c.current.kind = k ∧ c' = c.next ∨
      found = false ∧ c.current.kind ≠ k ∧ c' = c := by
  obtain ⟨b, _, hb, hrun⟩ := run_bind_eq_ok.mp h
  cases hb
  split at hrun
  · obtain ⟨t, _, ht, hrun⟩ := run_bind_eq_ok.mp hrun
    cases ht
    cases hrun
    exact .inl ⟨rfl, beq_iff_eq.mp ‹_›, rfl⟩
  · rename_i hnot
    cases hrun
    exact .inr ⟨rfl, by simpa using hnot, rfl⟩

theorem run_expect_of_kind {k : TokenKind} {what : String} {c : Cursor} (hk : c.current.kind = k) :
    (expect k what).run c = .ok (c.current, c.next) := by
  refine run_bind_eq_ok.mpr ⟨_, c, rfl, ?_⟩
  rw [if_pos (by simpa using hk)]
  rfl

theorem run_accept_of_kind {k : TokenKind} {c : Cursor} (hk : c.current.kind = k) :
    (accept k).run c = .ok (true, c.next) := by
  refine run_bind_eq_ok.mpr ⟨_, c, rfl, ?_⟩
  rw [if_pos (by simpa using hk)]
  rfl

theorem run_accept_of_ne {k : TokenKind} {c : Cursor} (hk : c.current.kind ≠ k) :
    (accept k).run c = .ok (false, c) := by
  refine run_bind_eq_ok.mpr ⟨_, c, rfl, ?_⟩
  rw [if_neg (by simpa using hk)]
  rfl

/-- A computation passes the token that it starts on, which is written out. -/
def Takes (pre : Cursor → Prop) (p : Parse α) : Prop :=
  ∀ ⦃c c' : Cursor⦄ ⦃a : α⦄, pre c → p.run c = .ok (a, c') →
    c.current.kind.isContent = true ∧ c.next.Leads c'

variable {pre : Cursor → Prop} {p : Parse α}

namespace Takes

theorem bind {f : α → Parse β} (hp : Takes pre p) : Takes pre (p >>= f) := by
  rintro c c'' b hpre hrun
  obtain ⟨a, c', hpa, hfb⟩ := run_bind_eq_ok.mp hrun
  obtain ⟨hkind, hnext⟩ := hp hpre hpa
  exact ⟨hkind, hnext.trans ((f a).leads hfb)⟩

theorem ask {g : Cursor → α} {f : α → Parse β}
    (hf : ∀ a, Takes (fun c => pre c ∧ g c = a) (f a)) : Takes pre (ask g >>= f) := by
  rintro c c' b hpre hrun
  obtain ⟨a, _, hg, hfb⟩ := run_bind_eq_ok.mp hrun
  cases hg
  exact hf _ ⟨hpre, rfl⟩ hfb

/-- A token that may stand first: if it does not, something else is taken. -/
theorem accept {k : TokenKind} (hk : k.isContent = true) {f : Bool → Parse β}
    (hf : Takes pre (f false)) : Takes pre (accept k >>= f) := by
  rintro c c'' b hpre hrun
  obtain ⟨found, c', haccept, hfb⟩ := run_bind_eq_ok.mp hrun
  rcases run_accept haccept with ⟨rfl, hkind, rfl⟩ | ⟨rfl, -, rfl⟩
  · exact ⟨by rwa [hkind], (f true).leads hfb⟩
  · exact hf hpre hfb

theorem ite {t : Prop} [Decidable t] {q : Parse α} (hp : t → Takes pre p)
    (hq : ¬ t → Takes pre q) : Takes pre (if t then p else q) := by
  split
  · exact hp ‹_›
  · exact hq ‹_›

theorem weaken {pre' : Cursor → Prop} (h : ∀ c, pre' c → pre c) (hp : Takes pre p) :
    Takes pre' p :=
  fun _ _ _ hc => hp (h _ hc)

end Takes

theorem takes_expected (what : String) : Takes pre (expected what : Parse α) :=
  fun _ _ _ _ h => absurd h (not_run_expected _ _ _)

theorem takes_advance (h : ∀ c, pre c → c.current.kind.isContent = true) : Takes pre advance := by
  rintro c c' t hpre hrun
  cases hrun
  exact ⟨h c hpre, .refl _⟩

theorem takes_expect {k : TokenKind} (hk : k.isContent = true) (what : String) :
    Takes pre (expect k what) := by
  rintro c c' t - hrun
  obtain ⟨rfl, -, rfl⟩ := run_expect hrun
  exact ⟨hk, .refl _⟩

end Parse

namespace Grammar

open Parse

variable {rules : Rules} {pre : Cursor → Prop}

theorem takes_mapLiteral : (mapLiteral rules).Takes pre :=
  .ask fun _ => .bind (.ask fun _ => .bind (takes_expect rfl _))

theorem takes_primary : (primary rules).Takes pre := by
  -- an expression that is a single token is that token
  have hleaf : ∀ (t : Token) (e : Expr), t.kind.isContent = true →
      (do let _ ← advance; return e : Parse Expr).Takes fun c => pre c ∧ c.current = t := by
    intro t e ht
    refine .bind (takes_advance ?_)
    rintro c ⟨-, rfl⟩
    exact ht
  refine .ask fun t => ?_
  split
  · exact .bind (takes_expect rfl _)
  · exact .bind (takes_expect rfl _)
  · exact hleaf t _ (by simp [*]; rfl)
  · exact hleaf t _ (by simp [*]; rfl)
  · exact hleaf t _ (by simp [*]; rfl)
  · exact hleaf t _ (by simp [*]; rfl)
  · exact hleaf t _ (by simp [*]; rfl)
  · exact .bind (takes_expect rfl _)
  · exact .bind (takes_expect rfl _)
  · exact takes_mapLiteral
  · exact takes_expected _

theorem takes_unary : (unary rules).Takes pre := by
  have hsigned : ∀ (t : Token) (f : Token → Parse Expr), t.kind.isContent = true →
      (advance >>= f).Takes fun c => pre c ∧ c.current = t := by
    intro t f ht
    refine .bind (takes_advance ?_)
    rintro c ⟨-, rfl⟩
    exact ht
  refine .ask fun t => ?_
  dsimp only
  split
  · exact hsigned t _ (by simp [*]; rfl)
  · exact hsigned t _ (by simp [*]; rfl)
  · exact .ask fun _ => .bind takes_primary

theorem takes_chain {level : List (TokenKind × BinaryOperator)} {operand : Parse Expr}
    (hoperand : operand.Takes fun _ => True) : (chain level operand).Takes pre :=
  .ask fun _ => .bind (hoperand.weaken fun _ _ => trivial)

theorem takes_disjunction : (disjunction rules).Takes pre :=
  takes_chain (takes_chain (takes_chain (takes_chain (takes_chain (takes_chain takes_unary)))))

theorem takes_expression : (expression rules).Takes pre :=
  .ask fun _ => .accept rfl takes_disjunction

/-- Whatever the levels below it, an expression takes the token that it starts on. -/
theorem takes_toExpression (levels : Nat) : (rulesAt levels .expression).Takes pre := by
  cases levels with
  | zero => exact takes_expected _
  | succ levels => exact takes_expression

end Grammar

end EventScript
