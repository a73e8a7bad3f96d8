import EventScript.Proofs.Grammar.Agree
import EventScript.Proofs.Grammar.Spread

/-! # Further layout does not change what is read

One lemma per rule: two readings agree in a rule if they do in the rules that it comes back to.  By
induction on the levels below a rule they agree in all of them (`agrees_rulesAt`).
-/

namespace EventScript

/-- Two parts of trees that two readings have led to: they have the same shape, and all map literals
    in the first one are on record. -/
abbrev Walk.Alike {α : Type} (w : Walk) (node : α → Node) (a a' : α) : Prop :=
  Node.Alike w.OnRecord (node a) (node a')

/-- What is known of the two results of a rule. -/
def Goal.Alike (w : Walk) : (g : Goal) → g.Result → g.Result → Prop
  | .expression, e, e' | .unary, e, e' => w.Alike .expr e e'
  | .statement, s, s' => w.Alike .stmt s s'
  | .ifStatement, s, s' => w.Alike .ifStmt s s'
  | .block, b, b' => w.Alike .block b b'
  | .pattern, p, p' => w.Alike .pattern p p'
  | .type, t, t' => (Outline.ofType t).withoutSpans = (Outline.ofType t').withoutSpans

/-- Where a rule is come back to: a conditional statement only at its first word. -/
def Goal.Faces : Goal → Cursor → Cursor → Prop
  | .ifStatement, c, c' => Walk.Facing c c'
  | _, _, _ => True

/-- Only at the end of a statement the reading may be blocked. -/
def Goal.Exit (w : Walk) : Goal → Cursor → Prop
  | .statement => w.Blocked
  | _ => Parse.Never

/-- Two readings agree in the rules that a rule comes back to. -/
structure Rules.Agree (w : Walk) (rules rules' : Rules) : Prop where
  goal (g : Goal) : Parse.Agrees w (g.Exit w) g.Faces (g.Alike w) (rules g) (rules' g)
  takes (g : Goal) : (rules g).Takes fun c => c.current.kind.isContent = true

namespace Grammar

open Parse Walk

variable {w : Walk} {exit : Cursor → Prop} {pre : Cursor → Cursor → Prop} {rules rules' : Rules}

section

variable (hr : rules.Agree w rules')

include hr

theorem agrees_toExpression :
    Agrees w exit pre (w.Alike .expr) (rules .expression) (rules' .expression) :=
  ((hr.goal .expression).weaken fun _ _ _ => trivial).free

theorem agrees_toBlock : Agrees w exit pre (w.Alike .block) (rules .block) (rules' .block) :=
  ((hr.goal .block).weaken fun _ _ _ => trivial).free

theorem agrees_toPattern :
    Agrees w exit pre (w.Alike .pattern) (rules .pattern) (rules' .pattern) :=
  ((hr.goal .pattern).weaken fun _ _ _ => trivial).free

theorem agrees_toType :
    Agrees w exit pre (Goal.Alike w .type) (rules .type) (rules' .type) :=
  ((hr.goal .type).weaken fun _ _ _ => trivial).free

end

/-! ## Expressions -/

theorem agrees_chainFrom {level : List (TokenKind × BinaryOperator)} {operand operand' : Parse Expr}
    {start start' : Token} (hlevel : ∀ e ∈ level, e.1.isContent = true)
    (hoperand : Agrees w Never Anywhere (w.Alike .expr) operand operand') {bound bound' : Nat}
    (hbound : bound ≤ bound') {left left' : Expr} (hleft : w.Alike .expr left left') :
    Agrees w exit pre (w.Alike .expr) (chainFrom level operand start bound left)
      (chainFrom level operand' start' bound' left') := by
  induction bound generalizing bound' left left' pre with
  | zero => exact agrees_expected _
  | succ bound ih =>
    cases bound' with
    | zero => exact absurd hbound (Nat.not_succ_le_zero _)
    | succ bound' =>
    have hnone : ∀ k, k.isContent = false → level.lookup k = none := by
      intro k hk
      refine List.lookup_eq_none_iff.mpr fun e he => ?_
      rw [bne_iff_ne]
      rintro rfl
      rw [hlevel e he] at hk
      cases hk
    refine .onKind (g := (level.lookup ·)) (fun k => ?_) fun k k' hk hk' => ?_
    · cases level.lookup k with
      | none => exact .pure hleft
      | some operator =>
        refine .bind (agrees_advance fun c c' h => h.1) fun _ _ _ => .bind hoperand fun r r' hright => ?_
        refine .bind (agrees_spanFrom _ _) fun _ _ _ => ?_
        exact ih (Nat.le_of_succ_le_succ hbound) (.binary hleft hright)
    · rw [hnone k' (by cases k' <;> first | rfl | cases hk')]
      cases level.lookup k with
      | none => exact .inr (.pure hleft)
      | some operator =>
        refine .inl (.bind (takes_advance ?_))
        rintro c rfl
        exact hk

theorem agrees_chain {level : List (TokenKind × BinaryOperator)} {operand operand' : Parse Expr}
    (hlevel : ∀ e ∈ level, e.1.isContent = true)
    (hoperand : Agrees w Never Anywhere (w.Alike .expr) operand operand') :
    Agrees w exit pre (w.Alike .expr) (chain level operand) (chain level operand') := by
  refine .ask fun start start' => .bind (hoperand.weaken fun _ _ _ => trivial) fun e e' he => ?_
  exact .tokensLeft fun _ _ hbound => agrees_chainFrom hlevel hoperand hbound he

theorem takes_propertyName : propertyName.Takes fun _ => True := by
  refine .ask fun t => .ite (fun ht => .bind (takes_advance ?_)) fun _ => takes_expected _
  rintro c ⟨-, rfl⟩
  revert ht
  cases c.current.kind <;> decide

theorem agrees_propertyName : Agrees w exit pre Eq propertyName propertyName := by
  refine .facing (takes_propertyName.weaken fun _ _ => trivial) ?_
  refine .current (fun c c' h => h.2) fun t t' hsame => ?_
  rw [hsame.kind, hsame.lexeme]
  refine .ite (fun _ => ?_) fun _ => agrees_expected _
  exact .bind (agrees_advance fun c c' h => h.1.2) fun _ _ _ => .pure rfl

theorem agrees_pathFrom {bound bound' : Nat} (hbound : bound ≤ bound') :
    Agrees w exit pre Eq (pathFrom bound) (pathFrom bound') := by
  induction bound generalizing bound' exit pre with
  | zero => exact agrees_expected _
  | succ bound ih =>
    cases bound' with
    | zero => exact absurd hbound (Nat.not_succ_le_zero _)
    | succ bound' =>
    refine .ifAccept rfl (.bind (agrees_expect _ _) fun name name' hname => ?_) (.pure rfl)
    refine .bind (ih (Nat.le_of_succ_le_succ hbound)) ?_
    rintro path _ rfl
    exact .pure (by rw [hname.word])

theorem agrees_reactive : Agrees w exit pre (w.Alike .expr) reactive reactive := by
  refine .bind (agrees_expect _ _) fun start start' _ => ?_
  refine .bind (agrees_expect _ _) fun root root' hroot => .tokensLeft fun _ _ hbound => ?_
  refine .bind (agrees_pathFrom hbound) ?_
  rintro path _ rfl
  refine .bind (agrees_spanFrom _ _) fun _ _ _ => .pure (.leaf ?_ rfl nofun)
  simp [hroot.word]

/-- What stands behind a token that is there is read behind that token. -/
theorem takes_accepted {α : Type} {k : TokenKind} (hk : k.isContent = true) {f : Bool → Parse α} :
    (accept k >>= f).Takes fun c => c.current.kind = k := by
  rintro c d a rfl hrun
  obtain ⟨found, c₁, haccept, hrun⟩ := run_bind_eq_ok.mp hrun
  rcases run_accept haccept with ⟨rfl, -, rfl⟩ | ⟨-, hne, -⟩
  · exact ⟨hk, (f _).leads hrun⟩
  · exact absurd rfl hne

theorem takes_vectorRest (bound : Nat) :
    (vectorRest rules bound).Takes fun c => c.current.kind = .comma := by
  cases bound with
  | zero => exact takes_expected _
  | succ bound => exact takes_accepted rfl

theorem agrees_loopControl (hpre : ∀ c c', pre c c' → Facing c c') {build : Span → Stmt}
    (hshape : ∀ span span', (Node.stmt (build span)).shape = (Node.stmt (build span')).shape)
    (hleaf : ∀ span, (Node.stmt (build span)).children = []) :
    Agrees w w.Blocked pre (w.Alike .stmt) (loopControl build) (loopControl build) := by
  refine .bind (agrees_advance hpre) fun t t' _ => .loops fun n => .ite (fun _ => .fail) fun _ => ?_
  refine .bindStay agrees_endStatement (fun _ _ _ _ h => by cases h; rfl) fun _ _ _ => ?_
  exact .pure (.leafStmt (hshape _ _) (hleaf _))

theorem agrees_passUnknown (hpre : ∀ c c', pre c c' → Facing c c') :
    Agrees w exit pre (fun _ _ => True) passUnknown passUnknown := by
  rintro c c' d t hc hp hrun -
  cases hrun
  exact .inr ⟨_, _, rfl, trivial, (hc.of_readings _ _).next (hpre c c' hp)⟩

section

variable (hr : rules.Agree w rules')

include hr

theorem agrees_parameter :
    Agrees w exit pre (w.Alike .param) (parameter rules) (parameter rules') := by
  refine .bind (agrees_expect _ _) fun start start' hstart => ?_
  refine .bind (agrees_optional rfl (agrees_toExpression hr)) fun default default' hdefault => ?_
  refine .bind (agrees_spanFrom _ _) fun _ _ _ => ?_
  rw [hstart.word]
  exact .pure (.param hdefault)

theorem agrees_parameters :
    Agrees w exit pre (List.Forall₂ (w.Alike .param)) (parameters rules) (parameters rules') := by
  refine .bind (agrees_expect _ _) fun _ _ _ => ?_
  exact agrees_closed rfl (agrees_parameter hr) fun ps ps' hps => .pure hps

theorem agrees_arguments :
    Agrees w exit pre (List.Forall₂ (w.Alike .expr)) (arguments rules) (arguments rules') := by
  refine .bind (agrees_expect _ _) fun _ _ _ => ?_
  exact agrees_closed rfl (agrees_toExpression hr) fun es es' hes => .pure hes

theorem agrees_lambdaBody :
    Agrees w exit pre (w.Alike .body) (lambdaBody rules) (lambdaBody rules') := by
  refine .ifAccept rfl ?_ (.ifAccept rfl ?_ (agrees_expected _))
  · exact .bind (agrees_toExpression hr) fun e e' he => .pure (.exprBody he)
  · exact .bind (agrees_outsideLoops (agrees_toBlock hr)) fun b b' hb => .pure (.blockBody hb)

theorem agrees_lambda : Agrees w exit pre (w.Alike .expr) (lambda rules) (lambda rules') := by
  refine .bind (agrees_expect _ _) fun start start' _ => ?_
  refine .bind (agrees_parameters hr) fun ps ps' hps => ?_
  refine .bind (agrees_lambdaBody hr) fun b b' hb => ?_
  exact .bind (agrees_spanFrom _ _) fun _ _ _ => .pure (.lambda hps hb)

theorem agrees_vectorRest {bound bound' : Nat} (hbound : bound ≤ bound') :
    Agrees w exit pre (List.Forall₂ (w.Alike .expr)) (vectorRest rules bound)
      (vectorRest rules' bound') := by
  induction bound generalizing bound' exit pre with
  | zero => exact agrees_expected _
  | succ bound ih =>
    cases bound' with
    | zero => exact absurd hbound (Nat.not_succ_le_zero _)
    | succ bound' =>
    refine .ifAccept rfl (.bind (agrees_toExpression hr) fun e e' he => ?_) (.pure .nil)
    exact .bind (ih (Nat.le_of_succ_le_succ hbound)) fun es es' hes => .pure (.cons he hes)

theorem agrees_parenthesized :
    Agrees w exit pre (w.Alike .expr) (parenthesized rules) (parenthesized rules') := by
  refine .bind (agrees_expect _ _) fun start start' _ => .ifAccept rfl ?_ ?_
  · exact .bind (agrees_spanFrom _ _) fun _ _ _ => .pure (.vector .nil)
  refine .bind (agrees_toExpression hr) fun first first' hfirst => ?_
  refine .ifToken (·.kind == .comma) (fun t ht => ?_) (fun t t' h => by rw [h.kind]) ?_ ?_ ?_
  · cases hk : t.kind <;> first | rfl | (rw [hk] at ht; cases ht)
  · refine .ask fun bound => .bind ?_
    rintro c d es ⟨hk, -⟩ hrun
    exact takes_vectorRest bound (beq_iff_eq.mp hk) hrun
  · refine .tokensLeft fun _ _ hbound => .bind (agrees_vectorRest hr hbound) fun es es' hes => ?_
    refine .bind (agrees_expect _ _) fun _ _ _ => .bind (agrees_spanFrom _ _) fun _ _ _ => ?_
    exact .pure (.vector (.cons hfirst hes))
  · exact .bind (agrees_expect _ _) fun _ _ _ => .pure hfirst

theorem agrees_listLiteral :
    Agrees w exit pre (w.Alike .expr) (listLiteral rules) (listLiteral rules') := by
  refine .bind (agrees_expect _ _) fun start start' _ => ?_
  refine agrees_closed rfl (agrees_toExpression hr) fun es es' hes => ?_
  exact .bind (agrees_spanFrom _ _) fun _ _ _ => .pure (.list hes)

theorem agrees_mapEntry :
    Agrees w exit Facing (w.Alike .entry) (mapEntry rules) (mapEntry rules') := by
  refine .current (fun c c' h => h) fun start start' hstart => ?_
  have hparts : Agrees w Never (fun c c' => Facing c c' ∧ c.current = start)
      (fun parts parts' => ∀ span span',
        w.Alike .entry ⟨span, parts.1, parts.2⟩ ⟨span', parts'.1, parts'.2⟩)
      (entryParts rules start) (entryParts rules' start') := by
    refine .ifAccept rfl (.ifAccept rfl ?_ ?_) (.ifAccept rfl ?_ (.ifAccept rfl ?_ ?_))
    · refine .bind (agrees_toExpression hr) fun e e' he => .pure fun span span' => ?_
      rw [hstart.word]
      exact .written he
    · refine .pure fun span span' => ?_
      rw [hstart.word]
      exact .written (.leaf (by simp) rfl nofun)
    · refine .bind (agrees_expect _ _) fun _ _ _ => ?_
      refine .bind (agrees_toExpression hr) fun e e' he => .pure fun span span' => ?_
      rw [hstart.word]
      exact .written he
    · refine .bind (agrees_toExpression hr) fun key key' hkey => ?_
      refine .bind (agrees_expect _ _) fun _ _ _ => .bind (agrees_expect _ _) fun _ _ _ => ?_
      refine .bind (agrees_toExpression hr) fun e e' he => .pure fun span span' => ?_
      exact .computed hkey he
    · exact agrees_expected _
  exact .bind hparts fun parts parts' h => .bind (agrees_spanFrom _ _) fun _ _ _ => .pure (h _ _)

/-- A map literal: the first reading puts it on record. -/
theorem agrees_mapLiteral :
    Agrees w exit pre (w.Alike .expr) (mapLiteral rules) (mapLiteral rules') := by
  have hmaps : Agrees w exit pre (fun e e' => ∃ span entries span' entries',
      e = .map span entries ∧ e' = .map span' entries' ∧
        List.Forall₂ (w.Alike .entry) entries entries') (mapLiteral rules) (mapLiteral rules') := by
    refine .ask fun start start' => .bind (agrees_braced (agrees_mapEntry hr)) ?_
    refine fun entries entries' hentries => .bind (agrees_spanFrom _ _) fun span span' _ => ?_
    exact .pure ⟨span, entries, span', entries', rfl, rfl, hentries⟩
  refine .imp (fun e e' h => ?_) (hmaps.and_run fun c d e => run_mapLiteral)
  obtain ⟨⟨span, entries, span', entries', rfl, rfl, hentries⟩, _, _, heq, hmap⟩ := h
  cases heq
  exact .map hentries hmap

theorem agrees_primary : Agrees w exit pre (w.Alike .expr) (primary rules) (primary rules') := by
  refine .facing takes_primary (.current (fun c c' h => h.2) fun t t' hsame => ?_)
  -- most expressions without operators are a single token
  have hleaf : ∀ (e e' : Expr), (Node.expr e).shape = (Node.expr e').shape →
      (Node.expr e).children = [] → (∀ span entries, e ≠ .map span entries) →
        Agrees w exit (fun c c' => (pre c c' ∧ Facing c c') ∧ c.current = t) (w.Alike .expr)
          (do let _ ← advance; return e) (do let _ ← advance; return e') :=
    fun e e' hshape hleaf hmap =>
      .bind (agrees_advance fun c c' h => h.1.2) fun _ _ _ => .pure (.leaf hshape hleaf hmap)
  rw [hsame.kind]
  split
  · exact agrees_reactive
  · exact agrees_lambda hr
  · exact hleaf _ _ (by simp [numberOf, hsame.value]) rfl nofun
  · unfold stringExpr
    rw [hsame.lexeme, hsame.word]
    by_cases hcolor : t.lexeme.startsWith "#" = true
    · simp only [if_pos hcolor]
      exact hleaf _ _ (by simp) rfl nofun
    · simp only [if_neg hcolor]
      exact hleaf _ _ (by simp) rfl nofun
  · exact hleaf _ _ (by simp [hsame.lexeme]) rfl nofun
  · exact hleaf _ _ (by simp) rfl nofun
  · exact hleaf _ _ (by simp [hsame.word]) rfl nofun
  · exact agrees_parenthesized hr
  · exact agrees_listLiteral hr
  · exact agrees_mapLiteral hr
  · exact agrees_expected _

theorem agrees_postfixFrom {start start' : Token} {bound bound' : Nat} (hbound : bound ≤ bound')
    {e e' : Expr} (he : w.Alike .expr e e') :
    Agrees w exit pre (w.Alike .expr) (postfixFrom rules start bound e)
      (postfixFrom rules' start' bound' e') := by
  induction bound generalizing bound' e e' pre with
  | zero => exact agrees_expected _
  | succ bound ih =>
    cases bound' with
    | zero => exact absurd hbound (Nat.not_succ_le_zero _)
    | succ bound' =>
    have hrest := Nat.le_of_succ_le_succ hbound
    refine .ifAccept rfl ?_ (.ifAccept rfl ?_ (.ifToken (·.kind == .leftParen)
      (fun t ht => ?_) (fun t t' h => by rw [h.kind]) (.bind (.bind (takes_expect rfl _))) ?_
      (.pure he)))
    · refine .bind agrees_propertyName ?_
      rintro property _ rfl
      exact .bind (agrees_spanFrom _ _) fun _ _ _ => ih hrest (.member he)
    · refine .bind (agrees_toExpression hr) fun key key' hkey => ?_
      refine .bind (agrees_expect _ _) fun _ _ _ => .bind (agrees_spanFrom _ _) fun _ _ _ => ?_
      exact ih hrest (.index he hkey)
    · cases hk : t.kind <;> first | rfl | (rw [hk] at ht; cases ht)
    · refine .bind (agrees_arguments hr) fun es es' hes => ?_
      exact .bind (agrees_spanFrom _ _) fun _ _ _ => ih hrest (.call he hes)

theorem agrees_postfixed :
    Agrees w exit pre (w.Alike .expr) (postfixed rules) (postfixed rules') := by
  refine .ask fun start start' => .bind (agrees_primary hr) fun e e' he => ?_
  exact .tokensLeft fun _ _ hbound => agrees_postfixFrom hr hbound he

theorem agrees_unary : Agrees w exit pre (w.Alike .expr) (unary rules) (unary rules') := by
  refine .facing takes_unary (.current (fun c c' h => h.2) fun t t' hsame => ?_)
  have hsigned : ∀ operator : UnaryOperator,
      Agrees w exit (fun c c' => (pre c c' ∧ Facing c c') ∧ c.current = t) (w.Alike .expr)
        (do
          let _ ← advance
          let operand ← rules .unary
          return .unary (← spanFrom t) operator operand)
        (do
          let _ ← advance
          let operand ← rules' .unary
          return .unary (← spanFrom t') operator operand) := by
    intro operator
    refine .bind (agrees_advance fun c c' h => h.1.2) fun _ _ _ => ?_
    refine .bind ((hr.goal .unary).weaken fun _ _ _ => trivial) fun e e' he => ?_
    exact .bind (agrees_spanFrom _ _) fun _ _ _ => .pure (.unary he)
  dsimp only
  rw [hsame.kind]
  split
  · exact hsigned .not
  · exact hsigned .negate
  · exact agrees_postfixed hr

theorem agrees_disjunction :
    Agrees w exit pre (w.Alike .expr) (disjunction rules) (disjunction rules') :=
  agrees_chain (by decide) (agrees_chain (by decide) (agrees_chain (by decide)
    (agrees_chain (by decide) (agrees_chain (by decide) (agrees_chain (by decide)
      (agrees_unary hr))))))

theorem agrees_expression :
    Agrees w exit pre (w.Alike .expr) (expression rules) (expression rules') := by
  refine .ask fun start start' => .ifAccept rfl ?_ (agrees_disjunction hr)
  refine .bind (agrees_disjunction hr) fun test test' htest => .bind (agrees_expect _ _) fun _ _ _ => ?_
  refine .bind (agrees_disjunction hr) fun yes yes' hyes => .bind (agrees_expect _ _) fun _ _ _ => ?_
  refine .bind (agrees_toExpression hr) fun no no' hno => ?_
  exact .bind (agrees_spanFrom _ _) fun _ _ _ => .pure (.conditional htest hyes hno)

end

/-! ## Patterns and types -/

theorem takes_pattern : (pattern rules).Takes fun _ => True := by
  refine .ask fun start => .ite (fun hstart => ?_) fun _ => .accept rfl ?_
  · refine .bind (takes_advance ?_)
    rintro c ⟨-, rfl⟩
    rw [beq_iff_eq.mp hstart]
    rfl
  · refine .ask fun _ => .ite (fun _ => ?_) fun _ => .bind takes_primary
    exact .bind (.ask fun _ => .bind (takes_expect rfl _))

/-- Fields that are alike are put in place alike. -/
theorem alikeUnder_putField {onRecord : Span → List MapEntry → Prop}
    {fields fields' : List (String × Expr)} {name : String} {value value' : Expr}
    (h : Node.AlikeUnder onRecord .expr fields fields')
    (hvalue : Node.Alike onRecord (.expr value) (.expr value')) :
    Node.AlikeUnder onRecord .expr (putField fields name value) (putField fields' name value') := by
  induction h with
  | nil => exact .cons ⟨rfl, hvalue⟩ .nil
  | @cons f f' rest rest' hf hrest ih =>
    obtain ⟨n, e⟩ := f
    obtain ⟨n', e'⟩ := f'
    obtain ⟨rfl, he⟩ := hf
    unfold putField
    split
    · exact .cons ⟨rfl, hvalue⟩ hrest
    · exact .cons ⟨rfl, he⟩ ih

theorem alikeUnder_foldl_putField {onRecord : Span → List MapEntry → Prop}
    {read read' fields fields' : List (String × Expr)}
    (hread : Node.AlikeUnder onRecord .expr read read')
    (h : Node.AlikeUnder onRecord .expr fields fields') :
    Node.AlikeUnder onRecord .expr (read.foldl (fun fs f => putField fs f.1 f.2) fields)
      (read'.foldl (fun fs f => putField fs f.1 f.2) fields') := by
  induction hread generalizing fields fields' with
  | nil => exact h
  | @cons f f' rest rest' hf _ ih =>
    refine ih ?_
    dsimp only
    rw [← hf.1]
    exact alikeUnder_putField h hf.2

/-! ## What the rules take -/

theorem takes_passUnknown : passUnknown.Takes fun c => c.current.kind.isContent = true := by
  rintro c d t hk hrun
  cases hrun
  refine ⟨hk, ?_⟩
  -- what is put on record before the token is passed could be put there behind it
  have hsame : ∀ rs, { c with readings := rs ++ c.readings }.next =
      { c.next with readings := rs ++ c.next.readings } := by
    intro rs
    obtain ⟨current, rest, lastStop, loops, passed, readings, breaks⟩ := c
    have hend : (current.kind == .endOfFile) = false := by
      simpa using TokenKind.ne_endOfFile_of_isContent hk
    simp only [Cursor.next, Cursor.atEnd, hend]
    cases rest <;> rfl
  exact hsame [.unknown c.passed] ▸ (note (.unknown c.passed)).leads rfl

theorem takes_schemaPart :
    (schemaPart rules).Takes fun c => c.current.kind.isContent = true := by
  have hadvance : ∀ {α : Type} {f : Token → Parse α} {pre : Cursor → Prop},
      (∀ c, pre c → c.current.kind.isContent = true) → (advance >>= f).Takes pre :=
    fun hpre => .bind (takes_advance hpre)
  refine .ask fun start => .ask fun _ => .ask fun _ => .ite (fun _ => ?_) fun _ => ?_
  · exact hadvance fun c hc => hc.1.1.1
  refine .ask fun _ => .ite (fun _ => .bind (.bind (takes_expect rfl _))) fun _ => ?_
  refine .ask fun _ => .ite (fun _ => ?_) fun _ => ?_
  · refine .ask fun _ => .ite (fun _ => hadvance fun c hc => ?_) fun _ => ?_
    · exact hc.1.1.1.1.1.1
    · exact .bind (.bind (takes_expect rfl _))
  · exact .bind (takes_passUnknown.weaken fun c hc => hc.1.1.1.1.1)

theorem takes_statement (hexpression : (rules .expression).Takes fun c =>
    c.current.kind.isContent = true) :
    (statement rules).Takes fun c => c.current.kind.isContent = true := by
  refine takes_afterNewlines (.ask fun k => ?_)
  split
  · exact .bind (takes_expect rfl _)
  · exact .bind (takes_expect rfl _)
  · exact .bind (.bind (takes_expect rfl _))
  · exact .bind (.bind (takes_advance fun _ hc => hc.1))
  · exact .bind (takes_expect rfl _)
  · exact .bind (takes_expect rfl _)
  · exact .bind (takes_expect rfl _)
  · exact .bind (takes_expect rfl _)
  · exact .bind (takes_advance fun _ hc => hc.1)
  · exact .bind (takes_advance fun _ hc => hc.1)
  · exact .bind (takes_expect rfl _)
  · exact .bind (takes_expect rfl _)
  · exact .bind (.bind (takes_expect rfl _))
  · exact .bind (.bind (takes_expect rfl _))
  · exact .bind (takes_expect rfl _)
  · refine .ask fun _ => .ask fun _ => .ask fun _ => .ite (fun _ => .bind (takes_expect rfl _)) fun _ => ?_
    exact .ask fun _ => .bind (hexpression.weaken fun _ hc => hc.1.1.1.1.1)

theorem takes_rulesAt (levels : Nat) (g : Goal) :
    (rulesAt levels g).Takes fun c => c.current.kind.isContent = true := by
  cases levels with
  | zero => exact takes_expected _
  | succ levels =>
    cases g with
    | expression => exact takes_expression
    | unary => exact takes_unary
    | statement => exact takes_statement ((takes_toExpression levels).weaken fun _ hc => hc)
    | ifStatement => exact .bind (takes_advance fun _ hc => hc)
    | block => exact .ask fun _ => .bind (takes_indented.weaken fun _ hc => hc.1)
    | pattern => exact takes_pattern.weaken fun _ _ => trivial
    | type => exact .bind (takes_expect rfl _)

theorem agrees_givenName? (what : String) :
    Agrees w exit pre Eq (givenName? what) (givenName? what) := by
  refine .ifToken (fun t => t.kind == .identifier && t.word == "as") (fun t ht => ?_)
    (fun t t' h => by rw [h.kind, h.word]) (.bind (takes_advance fun c hk => ?_)) ?_ (.pure rfl)
  · rw [beq_false_of_ne (by rintro hk; rw [hk] at ht; cases ht), Bool.false_and]
  · rw [Bool.and_eq_true, beq_iff_eq] at hk
    rw [hk.1]
    rfl
  · refine .bind (agrees_advance fun c c' h => h.2) fun _ _ _ => ?_
    exact .bind (agrees_expect _ _) fun t t' ht => .pure (by rw [ht.word])

theorem agrees_importStatement :
    Agrees w w.Blocked pre (fun i i' => (Outline.ofImport i).withoutSpans =
      (Outline.ofImport i').withoutSpans) importStatement importStatement := by
  refine .bind (agrees_expect _ _) fun _ _ _ => .bind (agrees_expect _ _) fun t t' ht => ?_
  refine .bind (agrees_givenName? _) ?_
  rintro name _ rfl
  refine .bindStay agrees_endStatement (fun _ _ _ _ h => by cases h; rfl) fun _ _ _ => ?_
  exact .bind (agrees_spanFrom _ _) fun _ _ _ => .pure (by simp [Outline.ofImport, ht.word])

theorem agrees_importSpecifier :
    Agrees w exit pre (fun s s' => s.imported = s'.imported ∧ s.localName = s'.localName)
      importSpecifier importSpecifier := by
  refine .ask fun _ _ => .bind (agrees_expect _ _) fun t t' ht => ?_
  refine .bind (agrees_givenName? _) ?_
  rintro name _ rfl
  exact .bind (agrees_spanFrom _ _) fun _ _ _ => .pure ⟨ht.word.symm, by rw [ht.word]⟩

theorem agrees_importSpecifiers :
    Agrees w exit pre
      (List.Forall₂ fun s s' => s.imported = s'.imported ∧ s.localName = s'.localName)
      importSpecifiers importSpecifiers := by
  refine .ifAccept rfl ?_ ?_
  · exact agrees_closed rfl agrees_importSpecifier fun ss ss' hss => .pure hss
  · refine .bind (agrees_expect _ _) fun t t' ht => ?_
    exact .pure (.cons ⟨ht.word.symm, ht.word.symm⟩ .nil)

theorem agrees_fromStatement :
    Agrees w w.Blocked pre (fun i i' => (Outline.ofImport i).withoutSpans =
      (Outline.ofImport i').withoutSpans) fromStatement fromStatement := by
  refine .bind (agrees_expect _ _) fun _ _ _ => .bind (agrees_expect _ _) fun t t' ht => ?_
  refine .bind (agrees_expect _ _) fun _ _ _ => .bind agrees_importSpecifiers fun ss ss' hss => ?_
  refine .bindStay agrees_endStatement (fun _ _ _ _ h => by cases h; rfl) fun _ _ _ => ?_
  refine .bind (agrees_spanFrom _ _) fun _ _ _ => .pure ?_
  have hspecifiers := Outline.itemsWithoutSpans_eq hss (List.map fun s =>
    .node "ImportSpecifier" s.span [("imported", .text s.imported), ("local", .text s.localName)])
    (fun _ _ => rfl) fun s s' h => by simp [h.1, h.2]
  simpa [Outline.ofImport, ht.word] using hspecifiers

section

variable (hr : rules.Agree w rules')

include hr

theorem agrees_mapPatternEntry :
    Agrees w exit Facing (fun p p' => p.1 = p'.1 ∧ w.Alike .pattern p.2 p'.2)
      (mapPatternEntry rules) (mapPatternEntry rules') := by
  refine .current (fun c c' h => h) fun t t' hsame => ?_
  rw [hsame.word]
  refine .askSame (fun c c' h => by rw [h.1.kind]) fun _ => .ite (fun _ => ?_) fun _ =>
    agrees_expected _
  refine .bind (agrees_advance fun c c' h => h.1.1) fun _ _ _ => .ifAccept rfl ?_ ?_
  · exact .bind (agrees_toPattern hr) fun p p' hp => .pure ⟨rfl, hp⟩
  · exact .pure ⟨rfl, .patternName⟩

theorem agrees_pattern :
    Agrees w exit pre (w.Alike .pattern) (pattern rules) (pattern rules') := by
  refine .facing (takes_pattern.weaken fun _ _ => trivial) ?_
  refine .current (fun c c' h => h.2) fun start start' hsame => ?_
  rw [hsame.kind, hsame.word]
  refine .ite (fun _ => ?_) fun _ => ?_
  · refine .bind (agrees_advance fun c c' h => h.1.2) fun _ _ _ => .pure ?_
    split
    · exact .wildcard
    · exact .patternName
  refine .ifAccept rfl ?_ (.ifToken (·.kind == .leftBrace) (fun t ht => ?_)
    (fun t t' h => by rw [h.kind]) (.bind (.ask fun _ => .bind (takes_expect rfl _))) ?_ ?_)
  · refine agrees_closed rfl (agrees_toPattern hr) fun ps ps' hps => ?_
    exact .bind (agrees_spanFrom _ _) fun _ _ _ => .pure (.patternList hps)
  · cases hk : t.kind <;> first | rfl | (rw [hk] at ht; cases ht)
  · refine .bind (agrees_braced (agrees_mapPatternEntry hr)) fun ps ps' hps => ?_
    exact .bind (agrees_spanFrom _ _) fun _ _ _ => .pure (.patternMap hps)
  · refine .bind (agrees_primary hr) fun e e' he => ?_
    exact .bind (agrees_spanFrom _ _) fun _ _ _ => .pure (.literal he)

theorem agrees_type :
    Agrees w exit pre (Goal.Alike w .type) (type rules) (type rules') := by
  have hnamed : ∀ {pre : Cursor → Cursor → Prop} {start start' : Token}, start.Same start' →
      Agrees w exit pre (Goal.Alike w .type) (Pure.pure (namedType start))
        (Pure.pure (namedType start')) := by
    intro pre start start' hstart
    refine .pure ?_
    unfold namedType
    rw [hstart.word]
    by_cases hvec : start.word.startsWith "vec" = true
    · simp only [if_pos hvec]
      simp [Goal.Alike, Outline.ofType]
    · simp only [if_neg hvec]
      simp [Goal.Alike, Outline.ofType]
  refine .bind (agrees_expect _ _) fun start start' hstart => .onKind (g := (·)) (fun k => ?_)
    fun k k' hk hk' => ?_
  · rw [hstart.word]
    split
    · refine .bind (agrees_expect _ _) fun _ _ _ => .bind (agrees_toType hr) fun t t' ht => ?_
      refine .bind (agrees_expect _ _) fun _ _ _ => .bind (agrees_spanFrom _ _) fun _ _ _ => ?_
      exact .pure (by simpa [Goal.Alike, Outline.ofType] using ht)
    · refine .bind (agrees_expect _ _) fun _ _ _ => .bind (agrees_toType hr) fun t t' ht => ?_
      refine .bind (agrees_expect _ _) fun _ _ _ => .bind (agrees_toType hr) fun u u' hu => ?_
      refine .bind (agrees_expect _ _) fun _ _ _ => .bind (agrees_spanFrom _ _) fun _ _ _ => ?_
      exact .pure (by simpa [Goal.Alike, Outline.ofType] using ⟨ht, hu⟩)
    · refine .bind (agrees_expect _ _) fun _ _ _ => ?_
      refine agrees_closed (R := Eq) rfl (.bind (agrees_expect _ _) fun t t' ht => ?_) ?_
      · exact .pure ht.word.symm
      · intro values values' hvalues
        obtain rfl := List.forall₂_eq_eq_eq ▸ hvalues
        exact .bind (agrees_spanFrom _ _) fun _ _ _ => .pure (by simp [Goal.Alike, Outline.ofType])
    · exact hnamed hstart
  · -- behind the name of a type with parts they are read, unless layout stands there
    rw [hstart.word]
    have hless : k' ≠ .less := by rintro rfl; cases hk'
    have hparen : k' ≠ .leftParen := by rintro rfl; cases hk'
    split
    · exact .inl (.bind (takes_expect rfl _))
    · exact .inl (.bind (takes_expect rfl _))
    · exact .inl (.bind (takes_expect rfl _))
    · refine .inr ?_
      split
      · exact absurd rfl hless
      · exact absurd rfl hless
      · exact absurd rfl hparen
      · exact hnamed hstart

/-! ## Statements -/

theorem agrees_block : Agrees w exit pre (w.Alike .block) (block rules) (block rules') := by
  refine .ask fun start start' => ?_
  refine .bind (agrees_indented ((hr.goal .statement).weaken fun _ _ _ => trivial)
    (hr.takes .statement)) ?_
  exact fun ss ss' hss => .bind (agrees_spanFrom _ _) fun _ _ _ => .pure (.block hss)

theorem agrees_loopBody : Agrees w exit pre (w.Alike .block) (loopBody rules) (loopBody rules') :=
  agrees_insideLoop (agrees_toBlock hr)

theorem agrees_functionBody :
    Agrees w exit pre (w.Alike .block) (functionBody rules) (functionBody rules') :=
  agrees_outsideLoops (agrees_toBlock hr)

theorem agrees_letStatement :
    Agrees w w.Blocked pre (w.Alike .stmt) (letStatement rules) (letStatement rules') := by
  refine .bind (agrees_expect _ _) fun _ _ _ => .bind (agrees_expect _ _) fun name name' hname => ?_
  refine .bind (agrees_expect _ _) fun _ _ _ => .bind (agrees_toExpression hr) fun e e' he => ?_
  refine .bindStay agrees_endStatement (fun _ _ _ _ h => by cases h; rfl) fun _ _ _ => ?_
  refine .bind (agrees_spanFrom _ _) fun _ _ _ => ?_
  rw [hname.word]
  exact .pure (.letName he)

theorem agrees_setStatement :
    Agrees w w.Blocked pre (w.Alike .stmt) (setStatement rules) (setStatement rules') := by
  refine .bind (agrees_expect _ _) fun _ _ _ => .ask fun _ _ => ?_
  refine .bind (agrees_toExpression hr) fun e e' he => ?_
  have htarget := he.target
  revert htarget
  generalize e.target? = found
  generalize e'.target? = found'
  rintro (htarget | _)
  · refine .bind (agrees_expect _ _) fun _ _ _ => ?_
    refine .bind (agrees_toExpression hr) fun value value' hvalue => ?_
    refine .bindStay agrees_endStatement (fun _ _ _ _ h => by cases h; rfl) fun _ _ _ => ?_
    exact .bind (agrees_spanFrom _ _) fun _ _ _ => .pure (.assign htarget hvalue)
  · exact .bind (agrees_spanFrom _ _) fun _ _ _ => .fail

theorem agrees_functionRest {start start' : Token} (name : String) :
    Agrees w exit pre (w.Alike .function) (functionRest rules start name)
      (functionRest rules' start' name) := by
  refine .bind (agrees_parameters hr) fun ps ps' hps => .bind (agrees_expect _ _) fun _ _ _ => ?_
  refine .bind (agrees_functionBody hr) fun b b' hb => ?_
  exact .bind (agrees_spanFrom _ _) fun _ _ _ => .pure (.function hps hb)

theorem agrees_functionDeclaration :
    Agrees w exit pre (w.Alike .function) (functionDeclaration rules)
      (functionDeclaration rules') := by
  refine .bind (agrees_expect _ _) fun _ _ _ => .bind (agrees_expect _ _) fun name name' hname => ?_
  rw [hname.word]
  exact agrees_functionRest hr _

theorem agrees_alternatePart :
    Agrees w exit pre (w.Alike .alternate) (alternatePart rules) (alternatePart rules') := by
  refine .bind agrees_skipNewlines fun _ _ _ => .ifToken (·.kind == .elifWord) (fun t ht => ?_)
    (fun t t' h => by rw [h.kind]) (.bind ((hr.takes .ifStatement).weaken ?_)) ?_
    (.ifAccept rfl ?_ (.pure .nothing))
  · cases hk : t.kind <;> first | rfl | (rw [hk] at ht; cases ht)
  · intro c hk
    rw [beq_iff_eq.mp hk]
    rfl
  · refine .bind ((hr.goal .ifStatement).weaken fun c c' h => h.2) fun s s' hs => ?_
    exact .pure (.elseIf hs)
  · refine .bind (agrees_expect _ _) fun _ _ _ => .bind (agrees_toBlock hr) fun b b' hb => ?_
    exact .pure (.elseBlock hb)

theorem agrees_ifStatement (hpre : ∀ c c', pre c c' → Facing c c') :
    Agrees w exit pre (w.Alike .ifStmt) (ifStatement rules) (ifStatement rules') := by
  refine .bind (agrees_advance hpre) fun _ _ _ => .bind (agrees_toExpression hr) fun e e' he => ?_
  refine .bind (agrees_expect _ _) fun _ _ _ => .bind (agrees_toBlock hr) fun b b' hb => ?_
  refine .bind (agrees_alternatePart hr) fun a a' ha => ?_
  exact .bind (agrees_spanFrom _ _) fun _ _ _ => .pure (.ifStmt he hb ha)

theorem agrees_forStatement :
    Agrees w exit pre (w.Alike .stmt) (forStatement rules) (forStatement rules') := by
  refine .bind (agrees_expect _ _) fun _ _ _ => .bind (agrees_expect _ _) fun item item' hitem => ?_
  refine .bind (agrees_expect _ _) fun _ _ _ => .bind (agrees_toExpression hr) fun e e' he => ?_
  refine .bind (agrees_expect _ _) fun _ _ _ => .bind (agrees_loopBody hr) fun b b' hb => ?_
  refine .bind (agrees_spanFrom _ _) fun _ _ _ => ?_
  rw [hitem.word]
  exact .pure (.forIn he hb)

theorem agrees_whileStatement :
    Agrees w exit pre (w.Alike .stmt) (whileStatement rules) (whileStatement rules') := by
  refine .bind (agrees_expect _ _) fun _ _ _ => .bind (agrees_toExpression hr) fun e e' he => ?_
  refine .bind (agrees_expect _ _) fun _ _ _ => .bind (agrees_loopBody hr) fun b b' hb => ?_
  exact .bind (agrees_spanFrom _ _) fun _ _ _ => .pure (.whileLoop he hb)

theorem agrees_matchCase :
    Agrees w exit pre (w.Alike .matchCase) (matchCase rules) (matchCase rules') := by
  refine .ask fun _ _ => .bind (agrees_toPattern hr) fun p p' hp => ?_
  refine .bind (agrees_optional rfl (agrees_toExpression hr)) fun guard guard' hguard => ?_
  refine .bind (agrees_expect _ _) fun _ _ _ => .bind (agrees_toBlock hr) fun b b' hb => ?_
  exact .bind (agrees_spanFrom _ _) fun _ _ _ => .pure (.matchCase hp hguard hb)

theorem agrees_matchStatement :
    Agrees w exit pre (w.Alike .stmt) (matchStatement rules) (matchStatement rules') := by
  refine .bind (agrees_expect _ _) fun _ _ _ => .bind (agrees_toExpression hr) fun e e' he => ?_
  refine .bind (agrees_expect _ _) fun _ _ _ => ?_
  refine .bind (agrees_indented (agrees_matchCase hr) (.ask fun _ => .bind ?_)) fun cs cs' hcs => ?_
  · exact (hr.takes .pattern).weaken fun c h => h.1
  · exact .bind (agrees_spanFrom _ _) fun _ _ _ => .pure (.matchOn he hcs)

theorem agrees_returnStatement :
    Agrees w w.Blocked pre (w.Alike .stmt) (returnStatement rules) (returnStatement rules') := by
  have hvalue : Agrees w Never Anywhere (Node.Alike? w.OnRecord) (returnValue? rules)
      (returnValue? rules') := by
    refine .facing ?_ (.askSame (fun c c' h => by rw [h.2.kind]) fun _ => .ite (fun _ => ?_) fun _ => ?_)
    · refine takes_unless statementEnds.contains (fun k hk => ?_) (.bind (hr.takes .expression))
      cases k <;> first | rfl | cases hk
    · exact .pure .none
    · exact .map ((agrees_toExpression hr).imp fun e e' he => .some he)
  refine .bind (agrees_expect _ _) fun _ _ _ => .bind (hvalue.weaken fun _ _ _ => trivial) ?_
  refine fun e e' he => .bindStay agrees_endStatement (fun _ _ _ _ h => by cases h; rfl) ?_
  exact fun _ _ _ => .bind (agrees_spanFrom _ _) fun _ _ _ => .pure (.returnValue he)

theorem agrees_onStatement :
    Agrees w exit pre (w.Alike .stmt) (onStatement rules) (onStatement rules') := by
  refine .bind (agrees_expect _ _) fun _ _ _ => .bind (agrees_toExpression hr) fun e e' he => ?_
  refine .bind (agrees_optional rfl (agrees_toExpression hr)) fun test test' htest => ?_
  refine .bind (agrees_expect _ _) fun _ _ _ => .bind (agrees_functionBody hr) fun b b' hb => ?_
  exact .bind (agrees_spanFrom _ _) fun _ _ _ => .pure (.on he htest hb)

theorem agrees_eventData? :
    Agrees w exit pre (Node.Alike? w.OnRecord) (eventData? rules) (eventData? rules') := by
  refine .ifToken (·.kind == .leftBrace) (fun t ht => ?_) (fun t t' h => by rw [h.kind]) ?_ ?_
    (.pure .none)
  · cases hk : t.kind <;> first | rfl | (rw [hk] at ht; cases ht)
  · exact .bind takes_mapLiteral
  · exact .map ((agrees_mapLiteral hr).imp fun e e' he => .some he)

theorem agrees_emitStatement :
    Agrees w w.Blocked pre (w.Alike .stmt) (emitStatement rules) (emitStatement rules') := by
  refine .bind (agrees_expect _ _) fun _ _ _ => .bind (agrees_toExpression hr) fun e e' he => ?_
  refine .bind (agrees_eventData? hr) fun data data' hdata => ?_
  refine .bindStay agrees_endStatement (fun _ _ _ _ h => by cases h; rfl) fun _ _ _ => ?_
  exact .bind (agrees_spanFrom _ _) fun _ _ _ => .pure (.emit he hdata)

theorem agrees_schemaField (required inSection : Bool) :
    Agrees w w.Blocked pre (w.Alike .field) (schemaField rules required inSection)
      (schemaField rules' required inSection) := by
  refine .bind (agrees_expect _ _) fun start start' hstart => .bind (agrees_expect _ _) fun _ _ _ => ?_
  refine .bind (agrees_toType hr) fun type type' htype => ?_
  refine .bind (agrees_optional rfl (agrees_toExpression hr)) fun default default' hdefault => ?_
  refine .bindStay agrees_endStatement (fun _ _ _ _ h => by cases h; rfl) fun _ _ _ => ?_
  refine .bind (agrees_spanFrom _ _) fun _ _ _ => ?_
  rw [hstart.word]
  exact .pure (.field htype hdefault)

/-- What one part of a schema body declares in two readings. -/
theorem agrees_schemaPart :
    Agrees w w.Blocked pre (fun part part' => List.Forall₂ (w.Alike .field) part.1 part'.1 ∧
      List.Forall₂ (w.Alike .function) part.2 part'.2) (schemaPart rules) (schemaPart rules') := by
  refine .facing takes_schemaPart (.current (fun c c' h => h.2) fun start start' hstart => ?_)
  rw [hstart.kind, hstart.word]
  refine .askSame (fun c c' h => by rw [h.1.2.kind, h.1.2.word]) fun _ => ?_
  refine .askSame (fun c c' h => by rw [h.1.1.2.kind, h.1.1.2.word]) fun _ => .ite (fun _ => ?_) fun _ => ?_
  · refine .bind (agrees_advance fun c c' h => h.1.1.1.2) fun _ _ _ => ?_
    refine .bind (agrees_expect _ _) fun _ _ _ => ?_
    refine .bind (agrees_indented (agrees_schemaField hr _ true) (.bind (takes_expect rfl _))) ?_
    exact fun fields fields' hfields => .pure ⟨hfields, .nil⟩
  refine .askSame (fun c c' h => by rw [h.1.1.1.2.kind]) fun _ => .ite (fun _ => ?_) fun _ => ?_
  · exact .bind (agrees_functionDeclaration hr) fun f f' hf => .pure ⟨.nil, .cons hf .nil⟩
  refine .weaken (fun c c' h => (⟨h.1.1.1.1.2, h.1.1.1.2⟩ : Facing c c' ∧ c.current = start)) ?_
  have hpass : Agrees w w.Blocked (fun c c' => Facing c c' ∧ c.current = start)
      (fun part part' => List.Forall₂ (w.Alike .field) part.1 part'.1 ∧
        List.Forall₂ (w.Alike .function) part.2 part'.2)
      (do let _ ← passUnknown; return ([], [])) (do let _ ← passUnknown; return ([], [])) :=
    .bind (agrees_passUnknown fun c c' h => h.1) fun _ _ _ => .pure ⟨.nil, .nil⟩
  by_cases hname : start.kind = .identifier
  swap
  · rw [beq_false_of_ne hname]
    simp only [Bool.false_and, Bool.false_eq_true, if_false]
    exact .ask fun _ _ => hpass.weaken fun c c' h => h.1
  have hend : ∀ {c : Cursor}, c.current = start → c.current.kind ≠ .endOfFile := by
    rintro c rfl
    rw [hname]
    decide
  rw [hname, beq_self_eq_true]
  simp only [Bool.true_and]
  refine .ifSeen (f := fun c => c.kindAhead? 1 == some .colon) (fun _ => rfl) ?_ ?_ ?_ hpass
  · -- whatever follows, the name and the colon are passed
    intro c c' hc ⟨hf, hc₀⟩ d a hahead hrun hlast
    have hpassed : c.next.next.Leads d := by
      obtain ⟨found, _, hfound, h₁⟩ := run_bind_eq_ok.mp hrun
      cases hfound
      split at h₁
      · obtain ⟨_, c₁, hpass, h₂⟩ := run_bind_eq_ok.mp h₁
        cases hpass
        obtain ⟨_, c₂, hcolon, h₃⟩ := run_bind_eq_ok.mp h₂
        obtain ⟨-, -, rfl⟩ := run_expect hcolon
        exact Parse.leads _ h₃
      · obtain ⟨_, c₁, hfield, h₂⟩ := run_bind_eq_ok.mp h₁
        obtain ⟨_, c₂, hname, h₃⟩ := run_bind_eq_ok.mp hfield
        obtain ⟨-, -, rfl⟩ := run_expect hname
        obtain ⟨_, c₃, hcolon, h₄⟩ := run_bind_eq_ok.mp h₃
        obtain ⟨-, -, rfl⟩ := run_expect hcolon
        exact (Parse.leads _ h₄).trans (Parse.leads _ h₂)
    have hnext := (hc.next hf).facing_of_next (hpassed.trans hlast)
    rwa [hc.kindAhead?_one hf (hend hc₀) hnext]
  · intro c c' hc ⟨hf, hc₀⟩ hahead
    obtain ⟨hnext, -⟩ := hc.facing_next hf (hend hc₀) (beq_iff_eq.mp hahead) rfl
    rwa [← hc.kindAhead?_one hf (hend hc₀) hnext]
  refine .ifSeen (f := fun c => c.kindAhead? 2 == some .fnWord) (fun _ => rfl) ?_ ?_ ?_ ?_
  · rintro c c' hc ⟨⟨hf, hc₀⟩, -, hcolon⟩ d a hahead hrun hlast
    obtain ⟨_, c₁, hpass, h₁⟩ := run_bind_eq_ok.mp hrun
    cases hpass
    obtain ⟨_, c₂, hexpect, h₂⟩ := run_bind_eq_ok.mp h₁
    obtain ⟨hk, -, rfl⟩ := run_expect hexpect
    obtain ⟨_, c₃, hexpect', h₃⟩ := run_bind_eq_ok.mp h₂
    obtain ⟨-, -, rfl⟩ := run_expect hexpect'
    obtain ⟨hnext, -⟩ := hc.facing_next hf (hend hc₀) (beq_iff_eq.mp hcolon) rfl
    have hnext₂ := ((hc.next hf).next hnext).facing_of_next ((Parse.leads _ h₃).trans hlast)
    rwa [hc.kindAhead?_two hf (hend hc₀) hnext (by rw [hk]; decide) hnext₂]
  · rintro c c' hc ⟨⟨hf, hc₀⟩, -, hcolon⟩ hahead
    obtain ⟨hnext, hk⟩ := hc.facing_next hf (hend hc₀) (beq_iff_eq.mp hcolon) rfl
    have hnext₂ := hc.facing_next_next hf (hend hc₀) (beq_iff_eq.mp hcolon) rfl
      (beq_iff_eq.mp hahead) rfl
    rwa [← hc.kindAhead?_two hf (hend hc₀) hnext (by rw [hk]; decide) hnext₂]
  · refine .bind (agrees_advance fun c c' h => h.1.1.1) fun _ _ _ => ?_
    refine .bind (agrees_expect _ _) fun _ _ _ => .bind (agrees_expect _ _) fun _ _ _ => ?_
    exact .bind (agrees_functionRest hr _) fun f f' hf => .pure ⟨.nil, .cons hf .nil⟩
  · refine .bindStay (agrees_schemaField hr false false) (fun _ _ _ _ h => by cases h; rfl) ?_
    exact fun f f' hf => .pure ⟨.cons hf .nil, .nil⟩

theorem agrees_schemaStatement :
    Agrees w exit pre (w.Alike .stmt) (schemaStatement rules) (schemaStatement rules') := by
  refine .bind (agrees_expect _ _) fun _ _ _ => .bind (agrees_expect _ _) fun name name' hname => ?_
  refine .bind (agrees_optional rfl (agrees_expect _ _)) fun parent parent' hparent => ?_
  refine .bind (agrees_expect _ _) fun _ _ _ => ?_
  refine .bind (agrees_indented (agrees_schemaPart hr) takes_schemaPart) fun parts parts' hparts => ?_
  refine .bind (agrees_spanFrom _ _) fun _ _ _ => ?_
  have hsame : parent'.map Token.word = parent.map Token.word := by
    cases hparent with
    | none => rfl
    | some h => simp [h.word]
  rw [hname.word, hsame]
  exact .pure (.schema (List.rel_flatMap hparts fun _ _ h => h.1)
    (List.rel_flatMap hparts fun _ _ h => h.2))

theorem agrees_instanceField :
    Agrees w w.Blocked pre (fun f f' => f.1 = f'.1 ∧ w.Alike .expr f.2 f'.2)
      (instanceField rules) (instanceField rules') := by
  refine .bind agrees_propertyName ?_
  rintro name _ rfl
  refine .bind (agrees_expect _ _) fun _ _ _ => .bind (agrees_toExpression hr) fun e e' he => ?_
  refine .bindStay agrees_endStatement (fun _ _ _ _ h => by cases h; rfl) fun _ _ _ => ?_
  exact .pure ⟨rfl, he⟩

theorem agrees_instanceStatement :
    Agrees w exit pre (w.Alike .stmt) (instanceStatement rules) (instanceStatement rules') := by
  refine .bind (agrees_expect _ _) fun schema schema' hschema => ?_
  refine .bind (agrees_expect _ _) fun name name' hname => .bind (agrees_expect _ _) fun _ _ _ => ?_
  refine .bind (agrees_indented (agrees_instanceField hr)
    (.bind (takes_propertyName.weaken fun _ _ => trivial))) fun fields fields' hfields => ?_
  refine .bind (agrees_spanFrom _ _) fun _ _ _ => ?_
  rw [hschema.word, hname.word]
  exact .pure (.instanceOf (alikeUnder_foldl_putField hfields .nil))

theorem agrees_expressionStatement :
    Agrees w w.Blocked pre (w.Alike .stmt) (expressionStatement rules)
      (expressionStatement rules') := by
  refine .ask fun _ _ => .bind (agrees_toExpression hr) fun e e' he => ?_
  refine .bindStay agrees_endStatement (fun _ _ _ _ h => by cases h; rfl) fun _ _ _ => ?_
  exact .bind (agrees_spanFrom _ _) fun _ _ _ => .pure (.expression he)

theorem agrees_statement :
    Agrees w w.Blocked pre (w.Alike .stmt) (statement rules) (statement rules') := by
  refine .bind agrees_skipNewlines fun _ _ _ => ?_
  refine .facing (takes_of_afterNewlines (takes_statement (hr.takes .expression))) ?_
  refine .askSame (fun c c' h => h.2.kind) fun k => ?_
  split
  · exact agrees_letStatement hr
  · exact agrees_setStatement hr
  · exact .map ((agrees_functionDeclaration hr).imp fun f f' hf => .functionStmt hf)
  · exact .map ((agrees_ifStatement hr fun c c' h => h.1.2).imp fun s s' hs => .ifThen hs)
  · exact agrees_forStatement hr
  · exact agrees_whileStatement hr
  · exact agrees_matchStatement hr
  · exact agrees_returnStatement hr
  · exact agrees_loopControl (fun c c' h => h.1.2) (by simp) fun _ => rfl
  · exact agrees_loopControl (fun c c' h => h.1.2) (by simp) fun _ => rfl
  · exact agrees_onStatement hr
  · exact agrees_emitStatement hr
  · exact .map (agrees_importStatement.imp fun i i' hi => .importFile hi)
  · exact .map (agrees_fromStatement.imp fun i i' hi => .importFile hi)
  · exact agrees_schemaStatement hr
  · refine .ifSeen (f := fun c => c.current.kind == .identifier &&
      c.kindAhead? 1 == some .identifier && c.kindAhead? 2 == some .colon) (fun _ => rfl) ?_ ?_
      (agrees_instanceStatement hr) (agrees_expressionStatement hr)
    · -- the three tokens are passed
      rintro c c' hc - d a hstarts hrun hlast
      obtain ⟨_, c₁, hschema, h₁⟩ := run_bind_eq_ok.mp hrun
      obtain ⟨hk, -, rfl⟩ := run_expect hschema
      obtain ⟨_, c₂, hname, h₂⟩ := run_bind_eq_ok.mp h₁
      obtain ⟨hk₁, -, rfl⟩ := run_expect hname
      obtain ⟨_, c₃, hcolon, h₃⟩ := run_bind_eq_ok.mp h₂
      obtain ⟨-, -, rfl⟩ := run_expect hcolon
      have hlast₂ := (Parse.leads _ h₃).trans hlast
      have hlast₁ := (Cursor.Leads.next _).trans hlast₂
      have hf := hc.facing_of_next ((Cursor.Leads.next _).trans hlast₁)
      have hf₁ := (hc.next hf).facing_of_next hlast₁
      have hf₂ := ((hc.next hf).next hf₁).facing_of_next hlast₂
      rwa [hf.kind, hc.kindAhead?_one hf (by rw [hk]; decide) hf₁,
        hc.kindAhead?_two hf (by rw [hk]; decide) hf₁ (by rw [hk₁]; decide) hf₂]
    · intro c c' hc h hstarts
      have hf := h.1.2
      simp only [Bool.and_eq_true, beq_iff_eq] at hstarts
      obtain ⟨⟨hk, hname⟩, hcolon⟩ := hstarts
      have hend : c.current.kind ≠ .endOfFile := by
        rw [← hf.kind, hk]
        decide
      obtain ⟨hf₁, hk₁⟩ := hc.facing_next hf hend hname rfl
      have hf₂ := hc.facing_next_next hf hend hname rfl hcolon rfl
      rw [hc.kindAhead?_one hf hend hf₁] at hname
      rw [hc.kindAhead?_two hf hend hf₁ (by rw [hk₁]; decide) hf₂] at hcolon
      rw [← hf.kind, hk, hname, hcolon]
      rfl

end

/-! ## The whole grammar -/

/-- Two readings agree in every rule, whatever number of levels is below it in the first one. -/
theorem agrees_rulesAt {levels levels' : Nat} (h : levels ≤ levels') :
    Rules.Agree w (rulesAt levels) (rulesAt levels') := by
  induction levels generalizing levels' with
  | zero => exact ⟨fun _ => agrees_expected _, takes_rulesAt 0⟩
  | succ levels ih =>
    cases levels' with
    | zero => exact absurd h (Nat.not_succ_le_zero _)
    | succ levels' =>
    have hr := ih (Nat.le_of_succ_le_succ h)
    refine ⟨fun g => ?_, takes_rulesAt (levels + 1)⟩
    cases g with
    | expression => exact agrees_expression hr
    | unary => exact agrees_unary hr
    | statement => exact agrees_statement hr
    | ifStatement => exact agrees_ifStatement hr fun _ _ hf => hf
    | block => exact agrees_block hr
    | pattern => exact agrees_pattern hr
    | type => exact agrees_type hr

theorem takes_statementsFrom (hr : (rules .statement).Takes fun c =>
    c.current.kind.isContent = true) (bound : Nat) :
    (statementsFrom rules bound).Takes fun c => c.current.kind.isContent = true := by
  cases bound with
  | zero => exact takes_expected _
  | succ bound =>
    refine takes_afterNewlines (takes_unless (· == .endOfFile) (fun k hk => ?_) (.bind hr))
    simpa using TokenKind.ne_endOfFile_of_isContent hk

theorem agrees_statementsFrom (hr : rules.Agree w rules') {bound bound' : Nat}
    (hbound : bound ≤ bound') :
    Agrees w exit pre (List.Forall₂ (w.Alike .stmt)) (statementsFrom rules bound)
      (statementsFrom rules' bound') := by
  induction bound generalizing bound' exit pre with
  | zero => exact agrees_expected _
  | succ bound ih =>
    cases bound' with
    | zero => exact absurd hbound (Nat.not_succ_le_zero _)
    | succ bound' =>
    refine .bind agrees_skipNewlines fun _ _ _ => .facing ?_ (.askSame (fun c c' h => by rw [h.2.kind])
      fun _ => .ite (fun _ => .pure .nil) fun _ => ?_)
    · refine takes_unless (· == .endOfFile) (fun k hk => ?_) (.bind (hr.takes .statement))
      simpa using TokenKind.ne_endOfFile_of_isContent hk
    refine .bindTaking ((hr.goal .statement).weaken fun _ _ _ => trivial)
      (fun s => .bind (takes_statementsFrom (hr.takes .statement) _)) fun s s' hs => ?_
    exact .bind (ih (Nat.le_of_succ_le_succ hbound)) fun ss ss' hss => .pure (.cons hs hss)

end Grammar

end EventScript
