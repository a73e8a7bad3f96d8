import EventScript.Proofs.Grammar.Printing
import EventScript.Proofs.Grammar.Reads

/-! # Reading the levels of precedence

A rule reads an expression of its own level or of a tighter one, as far as what stands behind it
does not go on with it; `TokenKind.grip` tells which kinds do.  The rules for operators and for what
is applied to an expression are loops that take the expression in front for granted, so they are
followed with whatever the loop does afterwards (`ChainsAt`, `Postfixes`): in that way the left
operands of one level, which are printed without parentheses, are read one by one.

* `run_downTo`, `reads_downTo`   a looser rule reads what a tighter one reads
* `Printed`                      what is known of the marks of an expression at a level
* `Printed.of_primary`, `Printed.of_postfixes`, `Printed.of_chains`   what is enough for it
* `Printed.within`               a part of an expression, in parentheses if it needs them
-/

namespace EventScript

/-! ## What may stand next to an expression -/

/-- The level of the expressions that a token of a kind goes on with behind an expression, if it
    goes on with one. -/
def TokenKind.grip : TokenKind → Nat
  | orWord => 1
  | andWord => 2
  | equal | notEqual => 3
  | less | greater | lessEqual | greaterEqual => 4
  | plus | minus => 5
  | star | slash | percent => 6
  | dot | leftBracket | leftParen => 8
  | _ => 0

/-- A level that is looser than no level at which an expression can start with a token of a kind:
    every expression that does so has a lower level. -/
def TokenKind.opening : TokenKind → Nat
  | ifWord => 1
  | notWord | minus => 8
  | dollarSign | fnWord | number | string | boolean | null | identifier | leftParen | leftBracket
  | leftBrace => 9
  | _ => 0

theorem TokenKind.isLayout_of_opening (k : TokenKind) (h : 0 < k.opening) : k.isLayout = false := by
  cases k <;> first | rfl | exact absurd h (by decide)

/-- Two expressions are the same, spans aside. -/
abbrev Expr.Same (e e' : Expr) : Prop := Node.Alike (fun _ _ => True) (.expr e) (.expr e')

namespace Mark

variable {m : Mark} {ms ms' : List Mark} {ts : List Token}

theorem spell_cons :
    Spell (m :: ms) ts ↔ ∃ t ts', m.Fits t ∧ Spell ms ts' ∧ ts = t :: ts' :=
  List.forall₂_cons_left_iff

theorem spell_append :
    Spell (ms ++ ms') ts ↔ ∃ ts₁ ts₂, Spell ms ts₁ ∧ Spell ms' ts₂ ∧ ts = ts₁ ++ ts₂ := by
  induction ms generalizing ts with
  | nil => simp [Spell]
  | cons m ms ih =>
    constructor
    · intro h
      obtain ⟨t, ts', ht, hts', rfl⟩ := spell_cons.mp h
      obtain ⟨ts₁, ts₂, h₁, h₂, rfl⟩ := ih.mp hts'
      exact ⟨t :: ts₁, ts₂, .cons ht h₁, h₂, rfl⟩
    · rintro ⟨_, ts₂, h₁, h₂, rfl⟩
      obtain ⟨t, ts', ht, hts', rfl⟩ := spell_cons.mp h₁
      exact .cons ht (ih.mpr ⟨ts', ts₂, hts', h₂, rfl⟩)

theorem spell_nil : Spell [] ts ↔ ts = [] := List.forall₂_nil_left_iff

/-- Marks between two signs. -/
theorem spell_enclosed {k k' : TokenKind} {s s' : String}
    (h : Spell (sign k s :: ms ++ [sign k' s']) ts) :
    ∃ t inner u, t.kind = k ∧ Spell ms inner ∧ u.kind = k' ∧ ts = t :: (inner ++ [u]) := by
  obtain ⟨t, all, ht, hall, rfl⟩ := spell_cons.mp h
  obtain ⟨inner, last, hinner, hlast, rfl⟩ := spell_append.mp hall
  obtain ⟨u, ends, hu, hends, rfl⟩ := spell_cons.mp hlast
  obtain rfl := spell_nil.mp hends
  exact ⟨t, inner, u, ht.1, hinner, hu.1, rfl⟩

end Mark

open Parse
open Mark (Spell sign grouped spell_cons spell_append spell_nil spell_enclosed)

namespace Grammar

/-! ## The rules by level -/

/-- The operators of a level. -/
def operatorsAt : Nat → List (TokenKind × BinaryOperator)
  | 1 => [(.orWord, .or)]
  | 2 => [(.andWord, .and)]
  | 3 => [(.equal, .equal), (.notEqual, .notEqual)]
  | 4 => [(.less, .less), (.greater, .greater), (.lessEqual, .lessEqual),
      (.greaterEqual, .greaterEqual)]
  | 5 => [(.plus, .plus), (.minus, .minus)]
  | 6 => [(.star, .times), (.slash, .divide), (.percent, .remainder)]
  | _ => []

/-- The rule that reads the expressions of a level and all tighter ones. -/
def reading (rules : Rules) : Nat → Parse Expr
  | 0 => expression rules
  | 1 => disjunction rules
  | 2 => conjunction rules
  | 3 => equality rules
  | 4 => comparison rules
  | 5 => sum rules
  | 6 => product rules
  | 7 => unary rules
  | _ => postfixed rules

variable {rules : Rules} {n : Nat}

theorem reading_eq_chain (h : 1 ≤ n) (h' : n ≤ 6) :
    reading rules n = chain (operatorsAt n) (reading rules (n + 1)) := by
  match n, h, h' with
  | 1, _, _ | 2, _, _ | 3, _, _ | 4, _, _ | 5, _, _ | 6, _, _ => rfl

theorem lookup_operatorsAt {k : TokenKind} (h : k.grip ≠ n) : (operatorsAt n).lookup k = none := by
  unfold operatorsAt
  split <;> cases k <;> first | rfl | exact absurd rfl h

theorem lookup_operator (operator : BinaryOperator) :
    (operatorsAt operator.level).lookup operator.kind = some operator := by
  cases operator <;> rfl

theorem grip_operator (operator : BinaryOperator) : operator.kind.grip = operator.level := by
  cases operator <;> rfl

theorem level_operator (operator : BinaryOperator) :
    1 ≤ operator.level ∧ operator.level ≤ 6 := by
  cases operator <;> decide

/-! ## From tighter rules to looser ones -/

section

variable {c d : Cursor} {e : Expr} {start : Token} {bound : Nat}

/-- Where there is no operator of a level, the operands of that level end. -/
theorem run_chainFrom_of_grip {operand : Parse Expr} (hk : c.current.kind.grip ≠ n) :
    (chainFrom (operatorsAt n) operand start (bound + 1) e).run c = .ok (e, c) := by
  refine run_bind_eq_ok.mpr ⟨none, c, ?_, rfl⟩
  rw [operatorOf?, run_ask, lookup_operatorsAt hk]

/-- Where nothing is applied to it, a postfix expression ends. -/
theorem run_postfixFrom_of_grip (hk : c.current.kind.grip < 8) :
    (postfixFrom rules start (bound + 1) e).run c = .ok (e, c) := by
  have hne : ∀ k : TokenKind, k.grip = 8 → c.current.kind ≠ k := by
    rintro _ hgrip rfl
    exact Nat.lt_irrefl _ (hgrip ▸ hk)
  rw [postfixFrom, run_bind_of_ok (run_accept_of_ne (hne _ rfl)), if_neg Bool.false_ne_true,
    run_bind_of_ok (run_accept_of_ne (hne _ rfl)), if_neg Bool.false_ne_true, atKind,
    run_bind_of_ok (run_ask _ _), if_neg (by simpa using hne _ rfl)]
  rfl

/-- A looser rule reads what the next tighter one reads, if the expression does not start like a
    looser one and what stands behind it does not go on with it. -/
theorem run_looser (h : (reading rules (n + 1)).run c = .ok (e, d)) (hn : n ≤ 7)
    (hopens : n + 1 < c.current.kind.opening) (hends : d.current.kind.grip < max n 1) :
    (reading rules n).run c = .ok (e, d) := by
  rcases Nat.eq_zero_or_pos n with rfl | hpos
  · have hif : c.current.kind ≠ .ifWord := fun hk => absurd (hk ▸ hopens) (by decide)
    exact run_bind_eq_ok.mpr ⟨_, c, rfl, (run_bind_of_ok (run_accept_of_ne hif)).trans h⟩
  rcases Nat.lt_or_eq_of_le hn with hlt | rfl
  · rw [reading_eq_chain hpos (Nat.le_of_lt_succ hlt)]
    refine run_bind_eq_ok.mpr ⟨_, c, rfl, (run_bind_of_ok h).trans ?_⟩
    refine run_chainFrom_of_grip (Nat.ne_of_lt ?_)
    rwa [max_eq_left hpos] at hends
  · refine run_bind_eq_ok.mpr ⟨c.current, c, rfl, ?_⟩
    dsimp only
    split
    · rename_i hnot
      exact absurd (hnot ▸ hopens) (by decide)
    · rename_i hminus
      exact absurd (hminus ▸ hopens) (by decide)
    · exact h

/-- A rule reads what any tighter one reads. -/
theorem run_downTo {m : Nat} (hnm : n ≤ m) (hm : m ≤ 8)
    (h : (reading rules m).run c = .ok (e, d)) (hopens : m < c.current.kind.opening)
    (hends : d.current.kind.grip < max n 1) : (reading rules n).run c = .ok (e, d) := by
  induction m, hnm using Nat.le_induction with
  | base => exact h
  | succ m hnm ih => exact ih (by omega) (run_looser h (by omega) hopens (by omega)) (by omega)

end

section

variable {ts rest : List Token} {post : Expr → Prop}

theorem reads_chainFrom {operand : Parse Expr} {start : Token} {bound : Nat} {left : Expr}
    (hbound : 1 ≤ bound) (hrest : Heads rest (·.grip ≠ n)) (h : post left) :
    (chainFrom (operatorsAt n) operand start bound left).Reads [] rest post := by
  obtain ⟨bound, rfl⟩ := Nat.exists_eq_add_of_le' hbound
  exact fun c hc _ => ⟨left, c, run_chainFrom_of_grip (hrest.current hc), hc, h⟩

theorem reads_postfixFrom {start : Token} {bound : Nat} {e : Expr} (hbound : 1 ≤ bound)
    (hrest : Heads rest (·.grip < 8)) (h : post e) :
    (postfixFrom rules start bound e).Reads [] rest post := by
  obtain ⟨bound, rfl⟩ := Nat.exists_eq_add_of_le' hbound
  exact fun c hc _ => ⟨e, c, run_postfixFrom_of_grip (hrest.current hc), hc, h⟩

theorem reads_downTo {m : Nat} (hnm : n ≤ m) (hm : m ≤ 8)
    (h : (reading rules m).Reads ts rest post) (hopens : Heads (ts ++ rest) (m < ·.opening))
    (hrest : Heads rest (·.grip < max n 1)) : (reading rules n).Reads ts rest post := by
  intro c hc hne
  obtain ⟨e, d, hrun, hd, he⟩ := h hc hne
  exact ⟨e, d, run_downTo hnm hm hrun (hopens.current hc) (hrest.current hd), hd, he⟩

end

end Grammar

/-! ## What is known of printed expressions -/

open Grammar

section

variable (n : Nat) (ms : List Mark) (e : Expr)

/-- The first one of some marks is a token that an expression of a level can start with. -/
def Opens : Prop := ∀ ⦃ts⦄, Spell ms ts → ∀ l, Heads (ts ++ l) (n < ·.opening)

/-- The rule of a level reads an expression back, if what stands behind does not go on with it. -/
def ReadAt : Prop :=
  ∀ ⦃d ts rest⦄, Spell ms ts → ts.length ≤ d → Heads rest (·.grip < max n 1) →
    (reading (rulesAt d) n).Reads ts rest e.Same

/-- The loop over the operands of a level comes to an expression, if what stands behind is no
    tighter operator; from there on it reads with the expression on its left. -/
def ChainsAt : Prop :=
  ∀ ⦃d ts us rest post⦄, Spell ms ts → ts.length ≤ d → Heads (us ++ rest) (·.grip ≤ n) →
    (∀ start bound e', e.Same e' → (us ++ rest).length ≤ bound →
      (chainFrom (operatorsAt n) (reading (rulesAt d) (n + 1)) start bound e').Reads us rest post) →
    (reading (rulesAt d) n).Reads (ts ++ us) rest post

/-- The loop over what is applied to an expression comes to an expression, with no dot behind it if
    that is a reactive reference; it goes on in the same way. -/
def Postfixes (reactive : Bool) : Prop :=
  ∀ ⦃d ts us rest post⦄, Spell ms ts → ts.length ≤ d →
    Heads (us ++ rest) (fun k => reactive = true → k ≠ .dot) →
    (∀ start bound e', e.Same e' → (us ++ rest).length ≤ bound →
      (postfixFrom (rulesAt d) start bound e').Reads us rest post) →
    (postfixed (rulesAt d)).Reads (ts ++ us) rest post

end

/-- An expression is read back from some marks wherever one of a level can stand, by all rules for
    that level and looser ones. -/
structure Printed (level : Nat) (reactive : Bool) (ms : List Mark) (e : Expr) : Prop where
  opens : Opens level ms
  reads : ∀ n ≤ level, ReadAt n ms e
  chains : ∀ n, 1 ≤ n → n ≤ 6 → n ≤ level → ChainsAt n ms e
  postfixes : 8 ≤ level → Postfixes ms e reactive

/-- An expression is read back from its own marks. -/
def Expr.Prints (e : Expr) : Prop := Printed e.level e.isReactive e.marks e

namespace Printed

variable {level n : Nat} {reactive : Bool} {ms : List Mark} {e : Expr}

/-- It is enough to know what the rules of the very level do. -/
theorem of_level (hlevel : level ≤ 8) (hopens : Opens level ms) (hread : ReadAt level ms e)
    (hchains : 1 ≤ level → level ≤ 6 → ChainsAt level ms e)
    (hpostfixes : 8 ≤ level → Postfixes ms e reactive) : Printed level reactive ms e := by
  have hreads : ∀ n ≤ level, ReadAt n ms e := by
    intro n hn d ts rest hts hd hrest
    refine reads_downTo hn hlevel (hread hts hd (hrest.imp fun k hk => ?_)) (hopens hts _) hrest
    omega
  refine ⟨hopens, hreads, fun n hn hn' hnl => ?_, hpostfixes⟩
  rcases Nat.lt_or_eq_of_le hnl with hlt | rfl
  · intro d ts us rest post hts hd hrest hchain
    rw [reading_eq_chain hn hn']
    refine .askAny fun start => .bind (hreads (n + 1) hlt hts hd ?_) fun e' he' => ?_
    · exact hrest.imp fun k hk => by omega
    · exact .tokensLeft (hchain start _ e' he' (Nat.le_refl _))
  · exact hchains hn hn'

/-- An expression to which something is applied, or that is tight enough for that. -/
theorem of_postfixes (hopens : Opens 8 ms) (h : Postfixes ms e reactive) :
    Printed 8 reactive ms e := by
  refine of_level (Nat.le_refl 8) hopens (fun d ts rest hts hd hrest => ?_)
    (fun _ h => absurd h (by decide)) fun _ => h
  have hgrip : Heads rest (·.grip < 8) := hrest
  rw [← List.append_nil ts]
  refine .of_rest fun hne => h hts hd (hgrip.imp fun k hk _ hdot => ?_)
    fun start bound e' he' hbound => ?_
  · rw [hdot] at hk
    exact absurd hk (by decide)
  · refine reads_postfixFrom (Nat.le_trans ?_ hbound) hgrip he'
    exact List.length_pos_iff.mpr (by simpa using hne)

/-- An expression without operators. -/
theorem of_primary (hopens : Opens 8 ms)
    (h : ∀ ⦃d ts rest⦄, Spell ms ts → ts.length ≤ d →
      Heads rest (fun k => reactive = true → k ≠ .dot) →
        (primary (rulesAt d)).Reads ts rest e.Same) : Printed 8 reactive ms e := by
  refine of_postfixes hopens fun d ts us rest post hts hd hrest hpostfixes => ?_
  refine .askAny fun start => .bind (h hts hd hrest) fun e' he' => ?_
  exact .tokensLeft (hpostfixes start _ e' he' (Nat.le_refl _))

/-- An expression that is joined by an operator. -/
theorem of_chains (hlevel : 1 ≤ level) (hlevel' : level ≤ 6) (hopens : Opens level ms)
    (h : ChainsAt level ms e) : Printed level reactive ms e := by
  refine of_level (by omega) hopens (fun d ts rest hts hd hrest => ?_) (fun _ _ => h)
    fun h8 => absurd h8 (by omega)
  rw [← List.append_nil ts]
  refine .of_rest fun hne => h hts hd (hrest.imp fun k hk => by omega)
    fun start bound e' he' hbound => ?_
  refine reads_chainFrom (Nat.le_trans ?_ hbound) (hrest.imp fun k hk => by omega) he'
  exact List.length_pos_iff.mpr (by simpa using hne)

/-- An expression can stand wherever a looser one can. -/
theorem weaken (h : Printed level reactive ms e) (hn : n ≤ level) {reactive' : Bool}
    (hreactive : reactive = true → reactive' = true) : Printed n reactive' ms e where
  opens _ hts l := (h.opens hts l).imp fun _ hk => Nat.lt_of_le_of_lt hn hk
  reads m hm := h.reads m (Nat.le_trans hm hn)
  chains m hm hm' hmn := h.chains m hm hm' (Nat.le_trans hmn hn)
  postfixes h8 _ _ _ _ _ hts hd hrest :=
    h.postfixes (Nat.le_trans h8 hn) hts hd (hrest.imp fun _ hk hr => hk (hreactive hr))

/-- An expression as a part of another one. -/
theorem expression (h : Printed level reactive ms e) {d : Nat} {ts rest : List Token}
    (hts : Spell ms ts) (hd : ts.length < d) (hrest : Heads rest (·.grip = 0)) :
    (rulesAt d .expression).Reads ts rest e.Same := by
  cases d with
  | zero => exact absurd hd (Nat.not_lt_zero _)
  | succ d =>
    exact h.reads 0 (Nat.zero_le _) hts (Nat.le_of_lt_succ hd)
      (hrest.imp fun k hk => by simp [hk])

/-- An expression in parentheses. -/
theorem parens (h : Printed level reactive ms e) :
    Printed 8 false (sign .leftParen "(" :: ms ++ [sign .rightParen ")"]) e := by
  refine of_primary (fun all hall l => ?_) fun d all rest hall hd _ => ?_
  · obtain ⟨t, ts, ⟨ht, -⟩, -, rfl⟩ := spell_cons.mp hall
    simp [ht, TokenKind.opening]
  · obtain ⟨t, ts, u, ht, hts, hu, rfl⟩ := spell_enclosed hall
    refine .current ?_
    simp only [ht]
    refine .expect ht nofun (.notAccept ?_ (.bind (h.expression hts ?_ ?_) fun e' he' => ?_))
    · rw [List.append_assoc]
      refine (h.opens hts _).imp ?_
      rintro _ hk rfl
      exact absurd hk (Nat.not_lt_zero _)
    · simp only [List.length_cons, List.length_append] at hd
      omega
    · simp [hu, TokenKind.grip]
    · refine .notKind (by simp [hu]) (.expect hu nofun (.pure he'))

/-- An expression where one of a level can stand, in parentheses if it needs them. -/
theorem within (h : Printed level reactive ms e) {needed reactive' : Bool} (hn : n ≤ 8)
    (hneeded : needed = false → n ≤ level ∧ (reactive = true → reactive' = true)) :
    Printed n reactive' (grouped needed ms) e := by
  cases needed with
  | true => exact h.parens.weaken hn nofun
  | false => exact h.weaken (hneeded rfl).1 (hneeded rfl).2

end Printed

namespace Opens

variable {n m : Nat} {ms ms' : List Mark} {ts : List Token}

theorem weaken (h : Opens m ms) (hn : n ≤ m) : Opens n ms :=
  fun _ hts l => (h hts l).imp fun _ hk => Nat.lt_of_le_of_lt hn hk

theorem append (h : Opens n ms) (ms' : List Mark) : Opens n (ms ++ ms') := by
  intro all hall l
  obtain ⟨ts, us, hts, -, rfl⟩ := spell_append.mp hall
  rw [List.append_assoc]
  exact h hts _

/-- Marks of which the first one is known. -/
theorem of_cons {m : Mark} (h : ∀ t, m.Fits t → n < t.kind.opening) : Opens n (m :: ms) := by
  intro ts hts l
  obtain ⟨t, ts, ht, -, rfl⟩ := spell_cons.mp hts
  exact heads_cons.mpr (h t ht)

theorem length_pos (h : Opens n ms) (hts : Spell ms ts) : 0 < ts.length := by
  cases ts with
  | nil => simpa [TokenKind.opening] using h hts [⟨.endOfFile, .null, "", default⟩]
  | cons t ts => exact Nat.succ_pos _

/-- What an expression starts with closes nothing. -/
theorem heads_ne (h : Opens n ms) (hts : Spell ms ts) (l : List Token) {k : TokenKind}
    (hk : k.opening = 0) : Heads (ts ++ l) (· ≠ k) :=
  (h hts l).imp fun _ hlt heq => Nat.not_lt_zero _ (hk ▸ heq ▸ hlt)

end Opens

end EventScript
