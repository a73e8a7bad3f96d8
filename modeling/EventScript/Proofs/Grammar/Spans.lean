import EventScript.Proofs.Grammar.Indentation
import EventScript.Proofs.Grammar.Within

/-! # The spans of a syntax tree nest

Every rule of the grammar reads a tree that stands over tokens of its own, between the place where
the rule started and the one that it came to.  With the order of the tokens in the source it follows
that the spans of a program nest.

* `Rules.Over`             the law
* `Rules.over_rulesAt`     the rules obey the law on every level
* `Program.spans_nest`     the spans of a program that compiles nest
-/

namespace EventScript

/-- The outline of what a rule reads. -/
def Goal.outline : (g : Goal) → g.Result → Outline
  | .expression, e => .ofExpr e
  | .unary, e => .ofExpr e
  | .statement, s => .ofStmt s
  | .ifStatement, s => .ofIf s
  | .block, b => .ofBlock b
  | .pattern, p => .ofPattern p
  | .type, t => .ofType t

/-- Every rule reads a tree that stands over tokens of its own. -/
def Rules.Over (tokens : List Token) (rules : Rules) : Prop :=
  ∀ g i, (rules g).From tokens i fun j a => (g.outline a).Over tokens i j

namespace Outline

variable {tokens : List Token} {i j : Nat}

/-! ## Parts that come in lists -/

theorem within_ofExpr? {e? : Option Expr} (h : ∀ e ∈ e?, (ofExpr e).Over tokens i j) :
    (ofExpr? e?).Within tokens i j := by
  cases e? with
  | none => trivial
  | some e => exact (h e rfl).2

theorem within_ofExprs {es : List Expr}
    (h : Successive (fun i j e => (ofExpr e).Over tokens i j) i j es) :
    (list (ofExprs es)).Within tokens i j :=
  ItemsInOrder.of_successive h rfl (fun _ _ => rfl) fun _ _ _ he => .singleton he

theorem within_ofParams {ps : List Param}
    (h : Successive (fun i j p => (list (ofParams [p])).Over tokens i j) i j ps) :
    (list (ofParams ps)).Within tokens i j :=
  ItemsInOrder.of_successive h rfl (fun ⟨_, _, _⟩ _ => rfl) fun _ _ _ hp => hp.2

/-- A pattern under its key. -/
theorem Over.entry {key : String} {p : Pattern} (h : (ofPattern p).Over tokens i j) :
    (list (ofPatternEntries [(key, p)])).Over tokens i j :=
  ⟨h.1, i, j, Nat.le_refl i, Nat.le_of_lt h.1, h.2, Nat.le_refl j⟩

theorem within_ofStmts {ss : List Stmt}
    (h : Successive (fun i j s => (ofStmt s).Over tokens i j) i j ss) :
    (list (ofStmts ss)).Within tokens i j :=
  ItemsInOrder.of_successive h rfl (fun _ _ => rfl) fun _ _ _ hs => .singleton hs

theorem within_ofFunctions {fs : List FunctionDecl}
    (h : Successive (fun i j f => (ofFunction f).Over tokens i j) i j fs) :
    (list (ofFunctions fs)).Within tokens i j :=
  ItemsInOrder.of_successive h rfl (fun _ _ => rfl) fun _ _ _ hf => .singleton hf

theorem within_ofSchemaFields {fs : List SchemaField}
    (h : Successive (fun i j f => (list (ofSchemaFields [f])).Over tokens i j) i j fs) :
    (list (ofSchemaFields fs)).Within tokens i j :=
  ItemsInOrder.of_successive h rfl (fun ⟨_, _, _, _, _, _⟩ _ => rfl) fun _ _ _ hf => hf.2

/-- A name that is taken from a file. -/
def ofSpecifier (s : ImportSpecifier) : Outline :=
  node "ImportSpecifier" s.span [("imported", text s.imported), ("local", text s.localName)]

theorem within_ofSpecifiers {ss : List ImportSpecifier}
    (h : Successive (fun i j s => (ofSpecifier s).Over tokens i j) i j ss) :
    (list (ss.map ofSpecifier)).Within tokens i j :=
  ItemsInOrder.of_successive h rfl (fun _ _ => rfl) fun _ _ _ hs => .singleton hs

theorem fieldsWithin_ofFields : ∀ {fields : List (String × Expr)},
    (∀ f ∈ fields, (ofExpr f.2).Within tokens i j) → FieldsWithin tokens (ofFields fields) i j
  | [], _ => trivial
  | (_, _) :: _, h =>
    ⟨h _ (List.mem_cons_self ..),
      fieldsWithin_ofFields fun f hf => h f (List.mem_cons_of_mem _ hf)⟩

theorem ofTarget_eq {e : Expr} {t : Target} (h : e.target? = some t) : ofTarget t = ofExpr e := by
  unfold Expr.target? at h
  split at h <;> cases h <;> simp only [ofTarget, ofExpr]

end Outline

namespace Grammar

open Parse Outline

variable {tokens : List Token} {i j : Nat} {rules : Rules}

/-! ## Expressions -/

theorem from_reactive : reactive.From tokens i fun j e => (ofExpr e).Over tokens i j := by
  refine .token nofun fun start hstart => .token nofun fun root _ => .ask fun _ _ => ?_
  refine .bind (from_any _) fun path j hij _ => ?_
  have hij' : i < j := by omega
  refine .span hstart hij' fun span hspan => .pure ?_
  have hpath : (list ((root.word :: path).map text)).Within tokens i j := .texts _ (by omega)
  rw [ofExpr]
  exact .ofFields rfl hspan hij' (.part hpath (Nat.le_refl i) (by omega) (.nil (Nat.le_refl j)))

section

variable (hr : rules.Over tokens)

include hr

theorem from_expressions (k : Nat) (_ : i ≤ k) :
    (rules .expression).From tokens k fun j e => (ofExpr e).Over tokens k j :=
  hr .expression k

/-- An expression behind a word that announces it. -/
theorem from_announced {k : TokenKind} (hk : k ≠ .endOfFile) :
    (optional k (rules .expression)).From tokens i fun j e? => (ofExpr? e?).Within tokens i j :=
  (from_optional hk (hr .expression _)).imp fun j _ _ h =>
    within_ofExpr? fun e he => (h e he).mono (Nat.le_succ i) (Nat.le_refl j)

theorem from_parameter :
    (parameter rules).From tokens i fun j p => (list (ofParams [p])).Over tokens i j := by
  refine .token nofun fun start hstart => ?_
  refine .bind (from_announced hr nofun) fun default j hij hdefault => ?_
  refine .span hstart (by omega) fun span hspan => .pure ⟨by omega, .singleton ?_⟩
  exact .ofFields rfl hspan (by omega)
    (.leaf (.part hdefault (by omega) hij (.nil (Nat.le_refl j))))

theorem from_parameters :
    (parameters rules).From tokens i fun j ps => (list (ofParams ps)).Over tokens i j := by
  refine .token nofun fun _ _ => ?_
  refine .bind (from_separated fun _ _ => from_parameter hr) fun ps j hij hps => ?_
  refine .token nofun fun _ _ => .pure ⟨by omega, ?_⟩
  exact (within_ofParams hps).mono (by omega) (by omega)

theorem from_arguments :
    (arguments rules).From tokens i fun j es => (list (ofExprs es)).Over tokens i j := by
  refine .token nofun fun _ _ => .bind (from_separated (from_expressions hr)) fun es j hij hes => ?_
  refine .token nofun fun _ _ => .pure ⟨by omega, ?_⟩
  exact (within_ofExprs hes).mono (by omega) (by omega)

theorem from_lambdaBody :
    (lambdaBody rules).From tokens i fun j b => (ofBody b).Over tokens i j := by
  refine .token? nofun ?_ ?_
  · exact .bind (hr .expression _) fun e j _ he => .pure (he.mono (by omega) (Nat.le_refl j))
  refine .token? nofun ?_ (from_expected _)
  refine .bind (from_outsideLoops (hr .block _)) fun b j _ hb => .pure ?_
  exact Over.mono hb (by omega) (Nat.le_refl j)

theorem from_lambda : (lambda rules).From tokens i fun j e => (ofExpr e).Over tokens i j := by
  refine .token nofun fun start hstart => .bind (from_parameters hr) fun ps j hij hps => ?_
  refine .bind (from_lambdaBody hr) fun b k hjk hb => ?_
  refine .span hstart (by omega) fun span hspan => .pure ?_
  rw [ofExpr]
  exact .ofFields rfl hspan (by omega)
    (.over hps (by omega) (.over hb (Nat.le_refl j) (.nil (Nat.le_refl k))))

theorem from_vectorRest (bound : Nat) :
    (vectorRest rules bound).From tokens i
      fun j es => Successive (fun i j e => (ofExpr e).Over tokens i j) i j es := by
  induction bound generalizing i with
  | zero => exact from_expected _
  | succ bound ih =>
    refine .token? nofun ?_ (.pure (Nat.le_refl i))
    refine .bind (hr .expression _) fun e j hij he => .bind ih fun es k _ hes => .pure ?_
    exact ⟨i + 1, j, by omega, hij, he, hes⟩

theorem from_parenthesized :
    (parenthesized rules).From tokens i fun j e => (ofExpr e).Over tokens i j := by
  refine .token nofun fun start hstart => .token? nofun ?_ ?_
  · -- a vector without elements
    refine .span hstart (by omega) fun span hspan => .pure ?_
    rw [ofExpr]
    exact .ofFields rfl hspan (by omega)
      (.part (within_ofExprs (Nat.le_refl i)) (Nat.le_refl i) (Nat.le_refl i) (.nil (by omega)))
  refine .bind (hr .expression _) fun first j hij hfirst => .ask fun _ _ => ?_
  refine .ite (fun _ => ?_) fun _ => ?_
  · refine .ask fun _ _ => .bind (from_vectorRest hr _) fun rest k hjk hrest => ?_
    refine .token nofun fun _ _ => .span hstart (by omega) fun span hspan => .pure ?_
    have helements : (list (ofExprs (first :: rest))).Within tokens i k :=
      within_ofExprs ⟨i + 1, j, Nat.le_succ i, hij, hfirst, hrest⟩
    rw [ofExpr]
    exact .ofFields rfl hspan (by omega)
      (.part helements (Nat.le_refl i) (by omega) (.nil (by omega)))
  · -- an expression in parentheses is no node of its own
    exact .token nofun fun _ _ => .pure (hfirst.mono (by omega) (by omega))

theorem from_listLiteral :
    (listLiteral rules).From tokens i fun j e => (ofExpr e).Over tokens i j := by
  refine .token nofun fun start hstart => ?_
  refine .bind (from_separated (from_expressions hr)) fun es j hij hes => ?_
  refine .token nofun fun _ _ => .span hstart (by omega) fun span hspan => .pure ?_
  rw [ofExpr]
  exact .ofFields rfl hspan (by omega) (.part (within_ofExprs hes) (by omega) hij (.nil (by omega)))

theorem from_entryParts {start : Token} (hstart : tokens[i]? = some start) :
    (entryParts rules start).From tokens i fun j parts => i < j ∧
      FieldsInOrder tokens [("key", ofKey parts.1), ("value", ofExpr parts.2)] i j := by
  -- a key that is written out is a text, so that the value alone stands over tokens
  have hwritten : ∀ {key : String} {value : Expr} {j k : Nat}, i ≤ j →
      (ofExpr value).Over tokens j k → i < k ∧
        FieldsInOrder tokens [("key", ofKey (.written key)), ("value", ofExpr value)] i k :=
    fun hij hvalue => ⟨Nat.lt_of_le_of_lt hij hvalue.1, by
      rw [ofKey]
      exact .leaf (.over hvalue hij (.nil (Nat.le_refl _)))⟩
  refine .token? nofun ?_ ?_
  · refine .token? nofun ?_ (.pure ?_)
    · exact .bind (hr .expression _) fun e j _ he => .pure (hwritten (by omega) he)
    · -- a name by itself is the value as well
      refine hwritten (Nat.le_refl i) ?_
      rw [ofExpr]
      exact .ofToken rfl hstart (.leaf (.nil (Nat.le_succ i)))
  refine .token? nofun ?_ ?_
  · refine .token nofun fun _ _ => .bind (hr .expression _) fun e j _ he => ?_
    exact .pure (hwritten (by omega) he)
  refine .token? nofun ?_ (from_expected _)
  -- a computed key stands over tokens in front of its value
  refine .bind (hr .expression _) fun key j hij hkey => .token nofun fun _ _ => ?_
  refine .token nofun fun _ _ => .bind (hr .expression _) fun e k hjk he => .pure ⟨by omega, ?_⟩
  rw [ofKey]
  exact .over hkey (by omega) (.over he (by omega) (.nil (Nat.le_refl k)))

theorem from_mapEntry :
    (mapEntry rules).From tokens i fun j e => (list (ofEntries [e])).Over tokens i j := by
  refine .current fun start hstart => .bind (from_entryParts hr hstart) fun parts j _ hparts => ?_
  refine .span hstart hparts.1 fun span hspan => .pure ⟨hparts.1, .singleton ?_⟩
  exact .ofFields rfl hspan hparts.1 hparts.2

theorem from_mapLiteral :
    (mapLiteral rules).From tokens i fun j e => (ofExpr e).Over tokens i j := by
  refine .current fun start hstart => ?_
  refine .bind (from_braced fun _ _ => from_mapEntry hr) fun entries j _ hentries => ?_
  refine .span hstart hentries.1 fun span hspan => .pure ?_
  have hwithin : (list (ofEntries entries)).Within tokens i j :=
    ItemsInOrder.of_successive hentries.2 rfl (fun ⟨_, _, _⟩ _ => rfl) fun _ _ _ he => he.2
  rw [ofExpr]
  exact .ofFields rfl hspan hentries.1
    (.part hwithin (Nat.le_refl i) (Nat.le_of_lt hentries.1) (.nil (Nat.le_refl j)))

theorem from_primary : (primary rules).From tokens i fun j e => (ofExpr e).Over tokens i j := by
  -- most expressions without operators are a single token
  have hleaf : ∀ {t : Token} (e : Expr), tokens[i]? = some t → t.kind ≠ .endOfFile →
      (ofExpr e).Over tokens i (i + 1) →
      (do let _ ← advance; return e : Parse Expr).From tokens i
        fun j e => (ofExpr e).Over tokens i j :=
    fun e ht hkind he => .advance ht hkind (.pure he)
  have hword : ∀ {t : Token} {name key : String} {value : Literal}, tokens[i]? = some t →
      sortsParts name = false → (node name t.span [(key, .leaf value)]).Over tokens i (i + 1) :=
    fun ht hname => .ofToken hname ht (.leaf (.nil (Nat.le_succ i)))
  refine .current fun t ht => ?_
  split <;> rename_i hkind
  · exact from_reactive
  · exact from_lambda hr
  · exact hleaf _ ht (by simp [hkind]) (by rw [ofExpr]; exact hword ht rfl)
  · refine hleaf _ ht (by simp [hkind]) ?_
    unfold stringExpr
    split <;> rw [ofExpr] <;> exact hword ht rfl
  · exact hleaf _ ht (by simp [hkind]) (by rw [ofExpr]; exact hword ht rfl)
  · refine hleaf _ ht (by simp [hkind]) ?_
    rw [ofExpr]
    exact .ofToken rfl ht (.nil (Nat.le_succ i))
  · exact hleaf _ ht (by simp [hkind]) (by rw [ofExpr]; exact hword ht rfl)
  · exact from_parenthesized hr
  · exact from_listLiteral hr
  · exact from_mapLiteral hr
  · exact from_expected _

theorem from_postfixFrom {start : Token} (hstart : tokens[i]? = some start) (bound : Nat) {e : Expr}
    (he : (ofExpr e).Over tokens i j) :
    (postfixFrom rules start bound e).From tokens j fun k e => (ofExpr e).Over tokens i k := by
  have hij : i < j := he.1
  induction bound generalizing j e with
  | zero => exact from_expected _
  | succ bound ih =>
    -- the expression so far becomes the first part of a node that starts where it does
    refine .token? nofun ?_ ?_
    · refine .bind (from_any _) fun property k hjk _ => .span hstart (by omega) fun span hspan => ?_
      refine ih ?_ (by omega)
      rw [ofExpr]
      exact .ofFields rfl hspan (by omega)
        (.over he (Nat.le_refl i) (.leaf (.leaf (.nil (by omega)))))
    refine .token? nofun ?_ ?_
    · refine .bind (hr .expression _) fun key k hjk hkey => .token nofun fun _ _ => ?_
      refine .span hstart (by omega) fun span hspan => ?_
      refine ih ?_ (by omega)
      rw [ofExpr]
      exact .ofFields rfl hspan (by omega)
        (.over he (Nat.le_refl i) (.over hkey (by omega) (.leaf (.nil (by omega)))))
    refine .ask fun _ _ => .ite (fun _ => ?_) fun _ => .pure he
    refine .bind (from_arguments hr) fun es k hjk hes => ?_
    refine .span hstart (by omega) fun span hspan => ih ?_ (by omega)
    rw [ofExpr]
    exact .ofFields rfl hspan (by omega)
      (.over he (Nat.le_refl i) (.over hes (Nat.le_refl j) (.nil (Nat.le_refl k))))

theorem from_postfixed : (postfixed rules).From tokens i fun j e => (ofExpr e).Over tokens i j :=
  .current fun _ hstart => .bind (from_primary hr) fun _ _ _ he =>
    .ask fun _ _ => from_postfixFrom hr hstart _ he

theorem from_unary : (unary rules).From tokens i fun j e => (ofExpr e).Over tokens i j := by
  refine .current fun t ht => ?_
  have hsigned : ∀ operator, From tokens i (fun j e => (ofExpr e).Over tokens i j) (do
      let _ ← advance
      let operand ← rules .unary
      return .unary (← spanFrom t) operator operand) := by
    intro operator
    refine .bind (from_any _) fun _ j hij _ => .bind (hr .unary _) fun e k _ he => ?_
    refine .span ht (Nat.lt_of_le_of_lt hij he.1) fun span hspan => .pure ?_
    rw [ofExpr]
    exact .ofFields rfl hspan (Nat.lt_of_le_of_lt hij he.1)
      (.leaf (.over he hij (.nil (Nat.le_refl k))))
  dsimp only
  split
  · exact hsigned _
  · exact hsigned _
  · exact from_postfixed hr

omit hr in
theorem from_chainFrom {level : List (TokenKind × BinaryOperator)} {operand : Parse Expr}
    (hoperand : ∀ i, operand.From tokens i fun j e => (ofExpr e).Over tokens i j)
    {start : Token} (hstart : tokens[i]? = some start) (bound : Nat) {left : Expr}
    (hleft : (ofExpr left).Over tokens i j) :
    (chainFrom level operand start bound left).From tokens j
      fun k e => (ofExpr e).Over tokens i k := by
  induction bound generalizing j left with
  | zero => exact from_expected _
  | succ bound ih =>
    refine .ask fun c _ => ?_
    split
    · exact .pure hleft
    · refine .bind (from_any _) fun _ k hjk _ => .bind (hoperand k) fun right m _ hright => ?_
      have him : i < m := Nat.lt_trans hleft.1 (Nat.lt_of_le_of_lt hjk hright.1)
      refine .span hstart him fun span hspan => ih ?_
      rw [ofExpr]
      exact .ofFields rfl hspan him
        (.leaf (.over hleft (Nat.le_refl i) (.over hright hjk (.nil (Nat.le_refl m)))))

omit hr in
theorem from_chain {level : List (TokenKind × BinaryOperator)} {operand : Parse Expr}
    (hoperand : ∀ i, operand.From tokens i fun j e => (ofExpr e).Over tokens i j) (i : Nat) :
    (chain level operand).From tokens i fun j e => (ofExpr e).Over tokens i j :=
  .current fun _ hstart => .bind (hoperand i) fun _ _ _ hleft =>
    .ask fun _ _ => from_chainFrom hoperand hstart _ hleft

theorem from_product : (product rules).From tokens i fun j e => (ofExpr e).Over tokens i j :=
  from_chain (fun _ => from_unary hr) i

theorem from_disjunction (i : Nat) :
    (disjunction rules).From tokens i fun j e => (ofExpr e).Over tokens i j :=
  from_chain (from_chain (from_chain (from_chain (from_chain fun _ => from_product hr)))) i

theorem from_expression :
    (expression rules).From tokens i fun j e => (ofExpr e).Over tokens i j := by
  refine .current fun start hstart => ?_
  refine .token? nofun ?_ (from_disjunction hr i)
  refine .bind (from_disjunction hr _) fun test j _ htest => .token nofun fun _ _ => ?_
  refine .bind (from_disjunction hr _) fun yes k _ hyes => .token nofun fun _ _ => ?_
  refine .bind (hr .expression _) fun no m _ hno => ?_
  have hlt : i < m := by
    have := htest.1
    have := hyes.1
    have := hno.1
    omega
  refine .span hstart hlt fun span hspan => .pure ?_
  rw [ofExpr]
  exact .ofFields rfl hspan hlt
    (.over htest (by omega) (.over hyes (by omega) (.over hno (by omega) (.nil (Nat.le_refl m)))))

/-! ## Patterns and types -/

theorem from_mapPatternEntry :
    (mapPatternEntry rules).From tokens i
      fun j e => (list (ofPatternEntries [e])).Over tokens i j := by
  refine .current fun t ht => .ask fun c hc => .ite (fun hkind => ?_) fun _ => from_expected _
  have hnext : c.current.kind ≠ .endOfFile := by
    intro hend
    simp [hend] at hkind
  refine .advance hc.getElem? hnext (.token? nofun ?_ (.pure ?_))
  · refine .bind (hr .pattern _) fun p j _ hp => .pure ?_
    exact Over.mono (Over.entry hp) (by omega) (Nat.le_refl j)
  · refine .entry ?_
    rw [ofPattern]
    exact .ofToken rfl ht (.leaf (.nil (Nat.le_succ i)))

theorem from_pattern : (pattern rules).From tokens i fun j p => (ofPattern p).Over tokens i j := by
  refine .current fun start hstart => .ite (fun hkind => ?_) fun _ => ?_
  · refine .advance hstart (by simp [beq_iff_eq.mp hkind]) (.pure ?_)
    split <;> rw [ofPattern]
    · exact .ofToken rfl hstart (.nil (Nat.le_succ i))
    · exact .ofToken rfl hstart (.leaf (.nil (Nat.le_succ i)))
  refine .token? nofun ?_ (.ask fun _ _ => .ite (fun _ => ?_) fun _ => ?_)
  · refine .bind (from_separated fun k _ => hr .pattern k) fun ps j hij hps => ?_
    refine .token nofun fun _ _ => .span hstart (by omega) fun span hspan => .pure ?_
    have hwithin : (list (ofPatterns ps)).Within tokens (i + 1) j :=
      ItemsInOrder.of_successive hps rfl (fun _ _ => rfl) fun _ _ _ hp => .singleton hp
    rw [ofPattern]
    exact .ofFields rfl hspan (by omega) (.part hwithin (by omega) hij (.nil (by omega)))
  · refine .bind (from_braced fun _ _ => from_mapPatternEntry hr) fun entries j _ hentries => ?_
    refine .span hstart hentries.1 fun span hspan => .pure ?_
    have hwithin : (list (ofPatternEntries entries)).Within tokens i j :=
      ItemsInOrder.of_successive hentries.2 rfl (fun _ _ => rfl) fun _ _ _ he => he.2
    rw [ofPattern]
    exact .ofFields rfl hspan hentries.1
      (.part hwithin (Nat.le_refl i) (Nat.le_of_lt hentries.1) (.nil (Nat.le_refl j)))
  · refine .bind (from_primary hr) fun e j _ he => .span hstart he.1 fun span hspan => .pure ?_
    rw [ofPattern]
    exact .ofFields rfl hspan he.1 (.over he (Nat.le_refl i) (.nil (Nat.le_refl j)))

theorem from_listType {start : Token} (hstart : tokens[i]? = some start) :
    (listType rules start).From tokens (i + 1) fun j t => (ofType t).Over tokens i j := by
  refine .token nofun fun _ _ => .bind (hr .type _) fun element j _ helement => ?_
  have hij := helement.1
  refine .token nofun fun _ _ => .span hstart (by omega) fun span hspan => .pure ?_
  exact .ofFields rfl hspan (by omega) (.over helement (by omega) (.nil (by omega)))

theorem from_mapType {start : Token} (hstart : tokens[i]? = some start) :
    (mapType rules start).From tokens (i + 1) fun j t => (ofType t).Over tokens i j := by
  refine .token nofun fun _ _ => .bind (hr .type _) fun key j _ hkey => .token nofun fun _ _ => ?_
  refine .bind (hr .type _) fun value k _ hvalue => .token nofun fun _ _ => ?_
  have hij := hkey.1
  have hjk := hvalue.1
  refine .span hstart (by omega) fun span hspan => .pure ?_
  exact .ofFields rfl hspan (by omega)
    (.over hkey (by omega) (.over hvalue (by omega) (.nil (by omega))))

omit hr in
theorem from_enumerationType {start : Token} (hstart : tokens[i]? = some start) :
    (enumerationType start).From tokens (i + 1) fun j t => (ofType t).Over tokens i j := by
  refine .token nofun fun _ _ => .bind (from_any _) fun values j _ _ => .token nofun fun _ _ => ?_
  refine .span hstart (by omega) fun span hspan => .pure ?_
  exact .ofFields rfl hspan (by omega)
    (.part (.texts values (by omega)) (Nat.le_refl i) (Nat.le_refl i) (.nil (by omega)))

omit hr in
theorem over_namedType {start : Token} (hstart : tokens[i]? = some start) :
    (ofType (namedType start)).Over tokens i (i + 1) := by
  unfold namedType
  split
  · rw [ofType]
    cases vectorSize? start.word <;> exact .ofToken rfl hstart (.leaf (.nil (Nat.le_succ i)))
  · exact .ofToken rfl hstart (.leaf (.nil (Nat.le_succ i)))

theorem from_type : (type rules).From tokens i fun j t => (ofType t).Over tokens i j := by
  refine .token nofun fun start hstart => .ask fun _ _ => ?_
  split
  · exact from_listType hr hstart
  · exact from_mapType hr hstart
  · exact from_enumerationType hstart
  · exact .pure (over_namedType hstart)

/-! ## Statements -/

theorem from_block : (block rules).From tokens i fun j b => (ofBlock b).Over tokens i j := by
  refine .current fun start hstart => ?_
  refine .bind (from_indented fun k _ _ => hr .statement k) fun ss j _ hss => ?_
  refine .span hstart hss.1 fun span hspan => .pure ?_
  rw [ofBlock]
  exact .ofFields rfl hspan hss.1
    (.part (within_ofStmts hss.2) (Nat.le_refl i) (Nat.le_of_lt hss.1) (.nil (Nat.le_refl j)))

theorem from_loopBody : (loopBody rules).From tokens i fun j b => (ofBlock b).Over tokens i j :=
  from_insideLoop (hr .block i)

theorem from_functionBody :
    (functionBody rules).From tokens i fun j b => (ofBlock b).Over tokens i j :=
  from_outsideLoops (hr .block i)

theorem from_letStatement :
    (letStatement rules).From tokens i fun j s => (ofStmt s).Over tokens i j := by
  refine .token nofun fun start hstart => .token nofun fun name _ => .token nofun fun _ _ => ?_
  refine .bind (hr .expression _) fun value j _ hvalue => .bind (from_any _) fun _ k _ _ => ?_
  have hlt := hvalue.1
  refine .span hstart (by omega) fun span hspan => .pure ?_
  rw [ofStmt]
  exact .ofFields rfl hspan (by omega) (.leaf (.over hvalue (by omega) (.nil (by omega))))

theorem from_setStatement :
    (setStatement rules).From tokens i fun j s => (ofStmt s).Over tokens i j := by
  refine .token nofun fun start hstart => .current fun _ _ => ?_
  refine .bind (hr .expression _) fun e j _ he => ?_
  split
  · exact .bind (from_any _) fun _ _ _ _ => .fail _
  · rename_i target htarget
    refine .token nofun fun _ _ => .bind (hr .expression _) fun value k _ hvalue => ?_
    refine .bind (from_any _) fun _ m _ _ => ?_
    have hij := he.1
    have hjk := hvalue.1
    refine .span hstart (by omega) fun span hspan => .pure ?_
    rw [ofStmt, ofTarget_eq htarget]
    exact .ofFields rfl hspan (by omega)
      (.over he (by omega) (.over hvalue (by omega) (.nil (by omega))))

theorem from_functionRest {start : Token} (hstart : tokens[i]? = some start) (hij : i < j)
    (name : String) :
    (functionRest rules start name).From tokens j fun k f => (ofFunction f).Over tokens i k := by
  refine .bind (from_parameters hr) fun ps k _ hps => .token nofun fun _ _ => ?_
  refine .bind (from_functionBody hr) fun b m _ hb => ?_
  have hjk := hps.1
  have hkm := hb.1
  refine .span hstart (by omega) fun span hspan => .pure ?_
  rw [ofFunction]
  exact .ofFields rfl hspan (by omega)
    (.leaf (.over hps (by omega) (.over hb (by omega) (.nil (Nat.le_refl m)))))

theorem from_functionDeclaration :
    (functionDeclaration rules).From tokens i fun j f => (ofFunction f).Over tokens i j :=
  .token nofun fun _ hstart => .token nofun fun _ _ =>
    from_functionRest hr hstart (by omega) _

theorem from_alternatePart :
    (alternatePart rules).From tokens i fun j a => (ofAlternate a).Within tokens i j := by
  refine .bind (from_any _) fun _ j hij _ => .ask fun _ _ => .ite (fun _ => ?_) fun _ => ?_
  · refine .bind (hr .ifStatement _) fun s k _ hs => .pure ?_
    rw [ofAlternate]
    exact (Over.mono hs hij (Nat.le_refl k)).2
  refine .token? nofun ?_ (.pure ?_)
  · refine .token nofun fun _ _ => .bind (hr .block _) fun b k _ hb => .pure ?_
    rw [ofAlternate]
    exact (Over.mono hb (by omega) (Nat.le_refl k)).2
  · rw [ofAlternate]
    trivial

theorem from_ifStatement :
    (ifStatement rules).From tokens i fun j s => (ofIf s).Over tokens i j := by
  refine .bind from_advance fun start _ _ hstart => ?_
  refine .bind (hr .expression _) fun test j _ htest => .token nofun fun _ _ => ?_
  refine .bind (hr .block _) fun yes k _ hyes => ?_
  refine .bind (from_alternatePart hr) fun no m hkm hno => ?_
  have hij := htest.1
  have hjk := hyes.1
  refine .span hstart.1 (by omega) fun span hspan => .pure ?_
  rw [ofIf]
  exact .ofFields rfl hspan (by omega) (.over htest (by omega) (.over hyes (by omega)
    (.part hno (Nat.le_refl k) hkm (.nil (Nat.le_refl m)))))

theorem from_forStatement :
    (forStatement rules).From tokens i fun j s => (ofStmt s).Over tokens i j := by
  refine .token nofun fun start hstart => .token nofun fun item _ => .token nofun fun _ _ => ?_
  refine .bind (hr .expression _) fun iterable j _ hiterable => .token nofun fun _ _ => ?_
  refine .bind (from_loopBody hr) fun b k _ hb => ?_
  have hij := hiterable.1
  have hjk := hb.1
  refine .span hstart (by omega) fun span hspan => .pure ?_
  rw [ofStmt]
  exact .ofFields rfl hspan (by omega)
    (.leaf (.over hiterable (by omega) (.over hb (by omega) (.nil (Nat.le_refl k)))))

theorem from_whileStatement :
    (whileStatement rules).From tokens i fun j s => (ofStmt s).Over tokens i j := by
  refine .token nofun fun start hstart => .bind (hr .expression _) fun test j _ htest => ?_
  refine .token nofun fun _ _ => .bind (from_loopBody hr) fun b k _ hb => ?_
  have hij := htest.1
  have hjk := hb.1
  refine .span hstart (by omega) fun span hspan => .pure ?_
  rw [ofStmt]
  exact .ofFields rfl hspan (by omega)
    (.over htest (by omega) (.over hb (by omega) (.nil (Nat.le_refl k))))

omit hr in
/-- The word that ends a loop or a round of it is a node by itself. -/
theorem from_loopControl {build : Span → Stmt} {name : String} (hname : sortsParts name = false)
    (hbuild : ∀ span, ofStmt (build span) = node name span [])
    (hkind : kindAt tokens i ≠ .endOfFile) :
    (loopControl build).From tokens i fun j s => (ofStmt s).Over tokens i j := by
  refine .bind from_advance fun t j _ ht => .ask fun _ _ => .ite (fun _ => .fail _) fun _ => ?_
  refine .bind (from_any _) fun _ k hjk _ => .pure ?_
  have hnext : j = i + 1 := ht.2 (by rwa [kindAt, ht.1] at hkind)
  rw [hbuild]
  exact Over.mono (.ofToken hname ht.1 (.nil (Nat.le_succ i))) (Nat.le_refl i) (by omega)

theorem from_matchCase :
    (matchCase rules).From tokens i fun j c => (list (ofCases [c])).Over tokens i j := by
  refine .current fun start hstart => .bind (hr .pattern _) fun p j _ hp => ?_
  refine .bind (from_announced hr nofun) fun guard k hjk hguard => .token nofun fun _ _ => ?_
  refine .bind (hr .block _) fun b m _ hb => ?_
  have hij := hp.1
  have hkm := hb.1
  refine .span hstart (by omega) fun span hspan => .pure ⟨by omega, .singleton ?_⟩
  exact .ofFields rfl hspan (by omega) (.over hp (by omega)
    (.part hguard (Nat.le_refl j) hjk (.over hb (by omega) (.nil (Nat.le_refl m)))))

theorem from_matchStatement :
    (matchStatement rules).From tokens i fun j s => (ofStmt s).Over tokens i j := by
  refine .token nofun fun start hstart => .bind (hr .expression _) fun e j _ he => ?_
  refine .token nofun fun _ _ => ?_
  refine .bind (from_indented fun _ _ _ => from_matchCase hr) fun cs k hjk hcs => ?_
  have hij := he.1
  have hwithin : (list (ofCases cs)).Within tokens (j + 1) k :=
    ItemsInOrder.of_successive hcs.2 rfl (fun ⟨_, _, _, _⟩ _ => rfl) fun _ _ _ hc => hc.2
  refine .span hstart (by omega) fun span hspan => .pure ?_
  rw [ofStmt]
  exact .ofFields rfl hspan (by omega)
    (.over he (by omega) (.part hwithin (by omega) hjk (.nil (Nat.le_refl k))))

theorem from_returnValue? :
    (returnValue? rules).From tokens i fun j e? => (ofExpr? e?).Within tokens i j := by
  refine .ask fun _ _ => .ite (fun _ => .pure (within_ofExpr? nofun)) fun _ => ?_
  exact .map ((hr .expression i).imp fun j e _ he => he.2)

theorem from_returnStatement :
    (returnStatement rules).From tokens i fun j s => (ofStmt s).Over tokens i j := by
  refine .token nofun fun start hstart => .bind (from_returnValue? hr) fun e? j hij he => ?_
  refine .bind (from_any _) fun _ k _ _ => .span hstart (by omega) fun span hspan => .pure ?_
  rw [ofStmt]
  exact .ofFields rfl hspan (by omega) (.part he (by omega) hij (.nil (by omega)))

theorem from_onStatement :
    (onStatement rules).From tokens i fun j s => (ofStmt s).Over tokens i j := by
  refine .token nofun fun start hstart => .bind (hr .expression _) fun event j _ hevent => ?_
  refine .bind (from_announced hr nofun) fun condition k hjk hcondition => ?_
  refine .token nofun fun _ _ => .bind (from_functionBody hr) fun b m _ hb => ?_
  have hij := hevent.1
  have hkm := hb.1
  refine .span hstart (by omega) fun span hspan => .pure ?_
  rw [ofStmt]
  exact .ofFields rfl hspan (by omega) (.over hevent (by omega)
    (.part hcondition (Nat.le_refl j) hjk (.over hb (by omega) (.nil (Nat.le_refl m)))))

theorem from_eventData? :
    (eventData? rules).From tokens i fun j e? => (ofExpr? e?).Within tokens i j := by
  refine .ask fun _ _ => .ite (fun _ => ?_) fun _ => .pure (within_ofExpr? nofun)
  exact .map ((from_mapLiteral hr).imp fun j e _ he => he.2)

theorem from_emitStatement :
    (emitStatement rules).From tokens i fun j s => (ofStmt s).Over tokens i j := by
  refine .token nofun fun start hstart => .bind (hr .expression _) fun event j _ hevent => ?_
  refine .bind (from_eventData? hr) fun data k hjk hdata => .bind (from_any _) fun _ m _ _ => ?_
  have hij := hevent.1
  refine .span hstart (by omega) fun span hspan => .pure ?_
  rw [ofStmt]
  exact .ofFields rfl hspan (by omega)
    (.over hevent (by omega) (.part hdata (Nat.le_refl j) hjk (.nil (by omega))))

omit hr in
theorem from_importStatement :
    importStatement.From tokens i fun j d => (ofImport d).Over tokens i j := by
  refine .token nofun fun start hstart => .token nofun fun source _ => ?_
  refine .bind (from_any _) fun name j _ _ => .bind (from_any _) fun _ k _ _ => ?_
  refine .span hstart (by omega) fun span hspan => .pure ?_
  have hname : (text? name).Within tokens (i + 1) (i + 1) := by
    cases name <;> trivial
  exact .ofFields rfl hspan (by omega)
    (.leaf (.leaf (.part hname (by omega) (Nat.le_refl _) (.nil (by omega)))))

omit hr in
theorem from_importSpecifier :
    importSpecifier.From tokens i fun j s => (ofSpecifier s).Over tokens i j := by
  refine .current fun start hstart => .token nofun fun _ _ => .bind (from_any _) fun _ j _ _ => ?_
  refine .span hstart (by omega) fun span hspan => .pure ?_
  exact .ofFields rfl hspan (by omega) (.leaf (.leaf (.nil (by omega))))

omit hr in
theorem from_importSpecifiers :
    importSpecifiers.From tokens i fun j ss => (list (ss.map ofSpecifier)).Within tokens i j := by
  refine .token? nofun ?_ (.token nofun fun t ht => .pure ?_)
  · refine .bind (from_separated fun _ _ => from_importSpecifier) fun ss j hij hss => ?_
    exact .token nofun fun _ _ => .pure ((within_ofSpecifiers hss).mono (by omega) (by omega))
  · refine within_ofSpecifiers (.singleton (Nat.le_succ i) ?_)
    exact .ofToken rfl ht (.leaf (.leaf (.nil (Nat.le_succ i))))

omit hr in
theorem from_fromStatement :
    fromStatement.From tokens i fun j d => (ofImport d).Over tokens i j := by
  refine .token nofun fun start hstart => .token nofun fun source _ => .token nofun fun _ _ => ?_
  refine .bind from_importSpecifiers fun ss j hij hss => .bind (from_any _) fun _ k _ _ => ?_
  refine .span hstart (by omega) fun span hspan => .pure ?_
  exact .ofFields rfl hspan (by omega) (.leaf (.part hss (by omega) hij (.leaf (.nil (by omega)))))

theorem from_schemaField (required inSection : Bool) :
    (schemaField rules required inSection).From tokens i
      fun j f => (list (ofSchemaFields [f])).Over tokens i j := by
  refine .token nofun fun start hstart => .token nofun fun _ _ => ?_
  refine .bind (hr .type _) fun t j _ ht => ?_
  refine .bind (from_announced hr nofun) fun default k hjk hdefault => ?_
  refine .bind (from_any _) fun _ m _ _ => ?_
  have hij := ht.1
  refine .span hstart (by omega) fun span hspan => .pure ⟨by omega, .singleton ?_⟩
  exact .ofFields rfl hspan (by omega)
    (.leaf (.over ht (by omega) (.leaf (.part hdefault (Nat.le_refl j) hjk (.nil (by omega))))))

/-- A part of a schema body passes a token, wherever the file does not end there. -/
theorem from_schemaPart :
    (schemaPart rules).From tokens i fun j part => (kindAt tokens i ≠ .endOfFile → i < j) ∧
      Successive (fun i j f => (list (ofSchemaFields [f])).Over tokens i j) i j part.1 ∧
        Successive (fun i j m => (ofFunction m).Over tokens i j) i j part.2 := by
  refine .current fun start hstart => .ask fun _ _ => .ask fun _ _ => .ite (fun _ => ?_) fun _ => ?_
  · refine .bind (from_any _) fun _ j _ _ => .token nofun fun _ _ => ?_
    refine .bind (from_indented fun _ _ _ => from_schemaField hr _ _) fun fields k _ hfields => ?_
    have hjk := hfields.1
    have hik : i ≤ k := by omega
    exact .pure ⟨fun _ => by omega, hfields.2.mono (by omega) (Nat.le_refl k), hik⟩
  refine .ask fun _ _ => .ite (fun _ => ?_) fun _ => ?_
  · refine .bind (from_functionDeclaration hr) fun m j hij hm => .pure ⟨fun _ => hm.1, hij, ?_⟩
    exact .singleton hij hm
  refine .ask fun _ _ => ?_
  refine .ite (fun hname => .ask fun _ _ => .ite (fun _ => ?_) fun _ => ?_) fun _ => ?_
  · have hkind : start.kind = .identifier := by
      rw [Bool.and_eq_true, beq_iff_eq] at hname
      exact hname.1
    refine .advance hstart (by simp [hkind]) (.token nofun fun _ _ => .token nofun fun _ _ => ?_)
    refine .bind (from_functionRest hr hstart (by omega) _) fun m j hij hm => ?_
    exact .pure ⟨fun _ => by omega, Nat.le_of_lt hm.1, .singleton (Nat.le_of_lt hm.1) hm⟩
  · refine .bind (from_schemaField hr _ _) fun f j hij hf => .pure ⟨fun _ => hf.1, ?_, hij⟩
    exact .singleton hij hf
  · -- what a schema body does not know is passed, and declares nothing
    have hpass : passUnknown.From tokens i fun j _ => kindAt tokens i ≠ .endOfFile → i < j := by
      refine .ask fun _ _ => .bind (from_note _) fun _ _ _ h => ?_
      cases h
      refine from_advance.imp fun j t _ ht hend => ?_
      have := ht.2 (by rwa [kindAt, ht.1] at hend)
      omega
    exact .bind hpass fun _ j hij hpassed => .pure ⟨hpassed, hij, hij⟩

theorem from_schemaStatement :
    (schemaStatement rules).From tokens i fun j s => (ofStmt s).Over tokens i j := by
  refine .token nofun fun start hstart => .token nofun fun name _ => ?_
  refine .bind (from_any _) fun parent j _ _ => .token nofun fun _ _ => ?_
  refine .bind (from_indented fun _ _ _ => from_schemaPart hr) fun parts k _ hparts => ?_
  have hjk := hparts.1
  refine .span hstart (by omega) fun span hspan => .pure ?_
  have hfields : (list (ofSchemaFields (parts.flatMap (·.1)))).Within tokens (j + 1) k :=
    within_ofSchemaFields (hparts.2.flatMap fun _ _ _ h => h.2.1)
  have hmethods : (list (ofFunctions (parts.flatMap (·.2)))).Within tokens (j + 1) k :=
    within_ofFunctions (hparts.2.flatMap fun _ _ _ h => h.2.2)
  rw [ofStmt]
  refine .ofSorted rfl hspan (by omega) ⟨trivial, ?_, ?_, ?_, trivial⟩
  · cases parent <;> trivial
  · exact hfields.mono (by omega) (Nat.le_refl k)
  · exact hmethods.mono (by omega) (Nat.le_refl k)

theorem from_instanceField :
    (instanceField rules).From tokens i fun j f => (ofExpr f.2).Over tokens i j := by
  refine .bind (from_any _) fun _ j _ _ => .token nofun fun _ _ => ?_
  refine .bind (hr .expression _) fun value k _ hvalue => ?_
  refine .bind (from_any _) fun _ m hkm _ => .pure ?_
  exact Over.mono hvalue (by omega) hkm

theorem from_instanceStatement :
    (instanceStatement rules).From tokens i fun j s => (ofStmt s).Over tokens i j := by
  refine .token nofun fun start hstart => .token nofun fun name _ => .token nofun fun _ _ => ?_
  refine .bind (from_indented fun _ _ _ => from_instanceField hr) fun fields j _ hfields => ?_
  have hij := hfields.1
  refine .span hstart (by omega) fun span hspan => .pure ?_
  -- a field that is given twice keeps its place and takes the later value
  have hwithin : (keyed (ofFields (fields.foldl (fun fs f => putField fs f.1 f.2) []))).Within
      tokens i j := by
    refine fieldsWithin_ofFields fun f hf => ?_
    obtain ⟨g, hg, hf⟩ := (mem_foldl_putField hf).resolve_left List.not_mem_nil
    obtain ⟨k, m, hk, hm, hg⟩ := hfields.2.of_mem hg
    rw [hf]
    exact hg.2.mono (by omega) hm
  rw [ofStmt]
  exact .ofFields rfl hspan (by omega)
    (.leaf (.leaf (.part hwithin (Nat.le_refl i) (by omega) (.nil (Nat.le_refl j)))))

theorem from_expressionStatement :
    (expressionStatement rules).From tokens i fun j s => (ofStmt s).Over tokens i j := by
  refine .current fun start hstart => .bind (hr .expression _) fun e j _ he => ?_
  refine .bind (from_any _) fun _ k hjk _ => ?_
  have hij := he.1
  refine .span hstart (by omega) fun span hspan => .pure ?_
  rw [ofStmt]
  exact .ofFields rfl hspan (by omega) (.over he (Nat.le_refl i) (.nil hjk))

theorem from_statement :
    (statement rules).From tokens i fun j s => (ofStmt s).Over tokens i j := by
  refine .bind (from_any _) fun _ i' hi _ => ?_
  have hmono : ∀ {p : Parse Stmt}, p.From tokens i' (fun j s => (ofStmt s).Over tokens i' j) →
      p.From tokens i' fun j s => (ofStmt s).Over tokens i j :=
    fun hp => hp.imp fun j _ _ hs => hs.mono hi (Nat.le_refl j)
  refine .ask fun c hc => hmono ?_
  have hloop : ∀ {k}, c.current.kind = k → k ≠ .endOfFile → kindAt tokens i' ≠ .endOfFile := by
    rintro k rfl hk
    rwa [hc.kindAt]
  split <;> rename_i hkind
  · exact from_letStatement hr
  · exact from_setStatement hr
  · exact .map ((from_functionDeclaration hr).imp fun j f _ hf => by rwa [ofStmt])
  · exact .map ((from_ifStatement hr).imp fun j s _ hs => by rwa [ofStmt])
  · exact from_forStatement hr
  · exact from_whileStatement hr
  · exact from_matchStatement hr
  · exact from_returnStatement hr
  · exact from_loopControl rfl (fun _ => by rw [ofStmt]) (hloop hkind nofun)
  · exact from_loopControl rfl (fun _ => by rw [ofStmt]) (hloop hkind nofun)
  · exact from_onStatement hr
  · exact from_emitStatement hr
  · exact .map (from_importStatement.imp fun j d _ hd => by rwa [ofStmt])
  · exact .map (from_fromStatement.imp fun j d _ hd => by rwa [ofStmt])
  · exact from_schemaStatement hr
  · refine .bind (from_any _) fun _ k hk _ => .ite (fun _ => ?_) fun _ => ?_
    · exact (from_instanceStatement hr).imp fun j _ _ hs => hs.mono hk (Nat.le_refl j)
    · exact (from_expressionStatement hr).imp fun j _ _ hs => hs.mono hk (Nat.le_refl j)

/-! ## The whole grammar -/

theorem from_statementsFrom (bound : Nat) :
    (statementsFrom rules bound).From tokens i
      fun j ss => Successive (fun i j s => (ofStmt s).Over tokens i j) i j ss := by
  induction bound generalizing i with
  | zero => exact from_expected _
  | succ bound ih =>
    refine .bind (from_any _) fun _ j hij _ => .ask fun _ _ => .ite (fun _ => .pure hij) fun _ => ?_
    refine .bind (hr .statement j) fun s k hjk hs => .bind ih fun ss m _ hss => .pure ?_
    exact ⟨j, k, hij, hjk, hs, hss⟩

end

end Grammar

/-- Every rule reads a tree that stands over tokens of its own, whatever number of levels is below
    it. -/
theorem Rules.over_rulesAt (tokens : List Token) (levels : Nat) :
    (Grammar.rulesAt levels).Over tokens := by
  induction levels with
  | zero => exact fun _ _ => Parse.from_expected _
  | succ levels ih =>
    intro g i
    cases g with
    | expression => exact Grammar.from_expression ih
    | unary => exact Grammar.from_unary ih
    | statement => exact Grammar.from_statement ih
    | ifStatement => exact Grammar.from_ifStatement ih
    | block => exact Grammar.from_block ih
    | pattern => exact Grammar.from_pattern ih
    | type => exact Grammar.from_type ih

/-- The imports of a file stand over tokens one behind the other, as its statements do. -/
theorem Grammar.within_importsOf {tokens : List Token} {i j : Nat} {ss : List Stmt}
    (h : Successive (fun i j s => (Outline.ofStmt s).Over tokens i j) i j ss) :
    (Outline.list ((importsOf ss).map Outline.ofImport)).Within tokens i j := by
  have himports : Successive (fun i j d => (Outline.ofImport d).Over tokens i j) i j
      (importsOf ss) := by
    refine h.filterMap fun k m s d hd hs => ?_
    cases s <;> cases hd
    rwa [Outline.ofStmt] at hs
  exact Outline.ItemsInOrder.of_successive himports rfl (fun _ _ => rfl)
    fun _ _ _ hd => .singleton hd

theorem Grammar.within_bodyOf {tokens : List Token} {i j : Nat} {ss : List Stmt}
    (h : Successive (fun i j s => (Outline.ofStmt s).Over tokens i j) i j ss) :
    (Outline.list (Outline.ofStmts (bodyOf ss))).Within tokens i j := by
  refine Outline.within_ofStmts ?_
  rw [bodyOf, ← List.filterMap_eq_filter]
  refine h.filterMap fun k m s s' hs' hs => ?_
  obtain ⟨rfl, -⟩ := Option.guard_eq_some_iff.mp hs'
  exact hs

/-- A program that was read stands over the tokens up to the end of the file. -/
theorem Grammar.within_of_run_program {rules : Rules} {tokens : List Token} (hr : rules.Over tokens)
    {c c' : Cursor} {p : Program} (hc : c.StandsIn tokens) (hpassed : c.passed = 0)
    (hstop : c.lastStop = c.current.span.stop) (h : (Grammar.program rules).run c = .ok (p, c')) :
    (Outline.ofProgram p).Within tokens 0 (c'.passed - 1 + 1) := by
  obtain ⟨start, _, hstart, h⟩ := Parse.run_bind_eq_ok.mp h
  cases hstart
  obtain ⟨bound, _, hbound, h⟩ := Parse.run_bind_eq_ok.mp h
  cases hbound
  obtain ⟨ss, _, hss, h⟩ := Parse.run_bind_eq_ok.mp h
  cases h
  have hat : c.At tokens 0 := ⟨hc, hpassed, fun h => absurd h (Nat.lt_irrefl 0)⟩
  have hleads := Parse.leads _ hss
  -- where no token was passed, the span ends with the first one
  have hcovers : Covers tokens 0 (c'.passed - 1) ⟨c.current.span.start, c'.lastStop⟩ := by
    refine ⟨Nat.zero_le _, by rw [hat.getElem?]; rfl, ?_⟩
    by_cases hzero : c'.passed = 0
    · have hlast : c'.lastStop = c.current.span.stop := by
        rcases hleads.stop with ⟨-, hlast⟩ | ⟨n, _, hn, -⟩
        · exact hlast.trans hstop
        · omega
      rw [hzero, hlast, hat.getElem?]
      rfl
    · exact (hat.of_leads hleads).lastStop (Nat.pos_of_ne_zero hzero)
  have hstatements := Grammar.from_statementsFrom hr _ hat hss
  refine ⟨0, c'.passed - 1, Nat.le_refl 0, Nat.lt_succ_self _, hcovers, ?_, ?_, trivial⟩
  · exact (within_importsOf hstatements).mono (Nat.le_refl 0) (by omega)
  · exact (within_bodyOf hstatements).mono (Nat.le_refl 0) (by omega)

/-- A program that was read from the tokens of a source stands over them. -/
theorem Program.within_of_read {tokens : List Token}
    (hended : ∃ body last, tokens = body ++ [last] ∧ last.kind = .endOfFile) {p : Program}
    {c : Cursor} (h : Program.read tokens = .ok (p, c)) :
    (Outline.ofProgram p).Within tokens 0 (c.passed - 1 + 1) := by
  unfold Program.read at h
  cases tokens with
  | nil => cases h
  | cons t rest =>
    exact Grammar.within_of_run_program (Rules.over_rulesAt (t :: rest) _) ⟨hended, rfl⟩ rfl rfl h

/-- The spans of a program nest: every node of its tree is a part of the source and of the node
    around it, and what comes from one list stands in the order of the source and does not
    overlap. -/
theorem Program.spans_nest {source : String} {file : Option String} {program : Program}
    (h : Program.compile source file = .ok program) {name : String} {span : Span}
    {fields : List (String × Outline)}
    (hnode : (Outline.ofProgram program).Has (.node name span fields)) :
    Outline.SpansNest source.length name span fields := by
  obtain ⟨tokens, c, hscan, hread⟩ := Program.read_of_compile h
  have hfaithful := Token.faithful_of_scan hscan
  obtain ⟨body, last, hbody, hlast, -⟩ := (tokens_laidOut hscan).eq_append
  have hwithin := Program.within_of_read ⟨body, last, hbody, hlast⟩ hread
  rw [← String.length_toList]
  exact hwithin.spansNest hfaithful hnode rfl

theorem Program.spans_nest_nestedSource :
    ∃ program, Program.compile nestedSource none = .ok program ∧ program.body.length = 3 ∧
      Outline.SpansNest nestedSource.length "Program" program.span
        [("imports", .list (program.imports.map Outline.ofImport)),
         ("body", .list (Outline.ofStmts program.body))] := by
  have hchecks : (match Program.compile nestedSource none with
      | .ok program => program.body.length == 3
      | .error _ => false) = true := by decide +kernel
  cases hcompile : Program.compile nestedSource none with
  | error d => simp [hcompile] at hchecks
  | ok program =>
    simp only [hcompile, beq_iff_eq] at hchecks
    exact ⟨program, rfl, hchecks, Program.spans_nest hcompile (.itself _)⟩

end EventScript
