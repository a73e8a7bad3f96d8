import EventScript.Proofs.Grammar.Levels

/-! # Printed expressions are read back

Whatever `Expr.marks` prints, the grammar reads back to the same expression, spans aside, by
induction over the parts of the expression.

* `reads_separatedFrom`, `reads_vectorRest`, `reads_braced`   several items
* `Printed.number` and so on                                  one form of expression each
* `Expr.read_marks`                                           every printable expression
-/

namespace EventScript

open Parse Grammar
open Mark (Spell sign separated afterCommas grouped spell_cons spell_append spell_nil
  spell_enclosed)

/-! ## Several items -/

section

variable {α β : Type} {m bound : Nat} {as : List α} {marks : α → List Mark} {item : Parse β}
  {R : α → β → Prop} {close : TokenKind} {what : String} {ts rest : List Token}

/-- A rule reads each of several items, behind which there is a comma or what closes the list. -/
def ReadsEach (m : Nat) (close : TokenKind) (as : List α) (marks : α → List Mark) (item : Parse β)
    (R : α → β → Prop) : Prop :=
  ∀ a ∈ as, Opens 0 (marks a) ∧ ∀ ⦃ts rest⦄, Spell (marks a) ts → ts.length ≤ m →
    Heads rest (fun k => k = .comma ∨ k = close) → item.Reads ts rest (R a)

/-- Behind an item there is a comma, or what stands behind all of them. -/
theorem heads_afterCommas (hts : Spell (afterCommas (as.map marks)) ts)
    (hrest : Heads rest (· = close)) : Heads (ts ++ rest) fun k => k = .comma ∨ k = close := by
  cases as with
  | nil =>
    obtain rfl := spell_nil.mp hts
    exact hrest.imp fun _ => .inr
  | cons a as =>
    obtain ⟨t, ts, ⟨ht, -⟩, -, rfl⟩ := spell_cons.mp hts
    exact heads_cons.mpr (.inl ht)

theorem reads_separatedFrom (h : ReadsEach m close as marks item R)
    (hts : Spell (separated (as.map marks)) ts) (hm : ts.length ≤ m)
    (hrest : Heads rest (· = close)) (hopening : close.opening = 0) (hcomma : close ≠ .comma)
    (hbound : (ts ++ rest).length ≤ bound) :
    (separatedFrom close what item bound).Reads ts rest (List.Forall₂ R as) := by
  refine .of_rest fun hne => ?_
  have hpos : 0 < rest.length := List.length_pos_iff.mpr hne
  have hend : ∀ {bound}, 1 ≤ bound →
      (separatedFrom close what item bound).Reads [] rest (List.Forall₂ R []) := by
    intro bound hbound
    cases bound with
    | zero => exact absurd hbound (Nat.not_succ_le_zero 0)
    | succ bound => exact .atKind hrest (.pure .nil)
  induction as generalizing ts bound with
  | nil =>
    obtain rfl := spell_nil.mp hts
    exact hend (Nat.le_trans hpos hbound)
  | cons a as ih =>
    obtain ⟨⟨hopens, hitem⟩, has⟩ := List.forall_mem_cons.mp h
    obtain ⟨first, us, hfirst, hus, rfl⟩ := spell_append.mp hts
    have hfirstpos := hopens.length_pos hfirst
    simp only [List.length_append] at hm hbound
    cases bound with
    | zero => omega
    | succ bound =>
    refine .notKind ?_ (.bind (hitem hfirst (by omega) ?_) fun b hb => ?_)
    · rw [List.append_assoc]
      exact hopens.heads_ne hfirst _ hopening
    · exact heads_afterCommas hus hrest
    -- the comma behind an item is read with it
    cases as with
    | nil =>
      obtain rfl := spell_nil.mp hus
      refine .bindStay (.atKind hrest (.pure trivial)) fun _ (_ : True) => ?_
      exact .bindLast (hend (by omega)) fun bs hbs => .pure (.cons hb hbs)
    | cons a' as =>
      obtain ⟨t, next, ⟨ht, -⟩, hnext, rfl⟩ := spell_cons.mp hus
      simp only [List.length_cons] at hm hbound
      have hseparator : (separator close what).Reads [t] (next ++ rest) fun _ => True :=
        .notKind (by simpa [ht] using hcomma.symm) (.expect ht nofun (.pure trivial))
      refine .bind hseparator fun _ _ => .bindLast (ih has hnext ?_ ?_) fun bs hbs =>
        .pure (.cons hb hbs)
      · omega
      · rw [List.length_append]
        omega

/-- The elements of a vector behind its first one. -/
theorem reads_vectorRest {rules : Rules} {es : List Expr} {R : Expr → Expr → Prop}
    {marks : Expr → List Mark} (h : ReadsEach m .rightParen es marks (rules .expression) R)
    (hts : Spell (afterCommas (es.map marks)) ts) (hm : ts.length ≤ m)
    (hrest : Heads rest (· = .rightParen)) (hbound : (ts ++ rest).length ≤ bound) :
    (vectorRest rules bound).Reads ts rest (List.Forall₂ R es) := by
  refine .of_rest fun hne => ?_
  have hpos : 0 < rest.length := List.length_pos_iff.mpr hne
  induction es generalizing ts bound with
  | nil =>
    obtain rfl := spell_nil.mp hts
    cases bound with
    | zero => exact absurd hbound (Nat.not_le_of_lt hpos)
    | succ bound => exact .notAccept (hrest.imp fun _ hk => by simp [hk]) (.pure .nil)
  | cons e es ih =>
    obtain ⟨t, all, ⟨ht, -⟩, hall, rfl⟩ := spell_cons.mp hts
    obtain ⟨first, us, hfirst, hus, rfl⟩ := spell_append.mp hall
    obtain ⟨⟨-, hitem⟩, hes⟩ := List.forall_mem_cons.mp h
    simp only [List.length_cons, List.length_append] at hm hbound
    cases bound with
    | zero => omega
    | succ bound =>
    refine .accept ht nofun (.bind (hitem hfirst (by omega) ?_) fun e' he' => ?_)
    · exact heads_afterCommas hus hrest
    · refine .bindLast (ih hes hus (by omega) ?_) fun es' hes' => .pure (.cons he' hes')
      rw [List.length_append]
      omega

theorem reads_bracedFrom (h : ReadsEach m .rightBrace as marks item R)
    (hts : Spell (separated (as.map marks)) ts) (hm : ts.length ≤ m)
    (hrest : Heads rest (· = .rightBrace)) (hbound : (ts ++ rest).length ≤ bound) :
    (bracedFrom item bound).Reads ts rest (List.Forall₂ R as) := by
  refine .of_rest fun hne => ?_
  have hpos : 0 < rest.length := List.length_pos_iff.mpr hne
  have hend : ∀ {bound}, 1 ≤ bound → (bracedFrom item bound).Reads [] rest (List.Forall₂ R []) := by
    intro bound hbound
    cases bound with
    | zero => exact absurd hbound (Nat.not_succ_le_zero 0)
    | succ bound => exact .atKind hrest (.pure .nil)
  induction as generalizing ts bound with
  | nil =>
    obtain rfl := spell_nil.mp hts
    exact hend (Nat.le_trans hpos hbound)
  | cons a as ih =>
    obtain ⟨⟨hopens, hitem⟩, has⟩ := List.forall_mem_cons.mp h
    obtain ⟨first, us, hfirst, hus, rfl⟩ := spell_append.mp hts
    have hfirstpos := hopens.length_pos hfirst
    simp only [List.length_append] at hm hbound
    cases bound with
    | zero => omega
    | succ bound =>
    refine .notKind ?_ (.bind (hitem hfirst (by omega) ?_) fun b hb => ?_)
    · rw [List.append_assoc]
      exact hopens.heads_ne hfirst _ rfl
    · exact heads_afterCommas hus hrest
    cases as with
    | nil =>
      obtain rfl := spell_nil.mp hus
      have hseparator : bracedSeparator.Reads [] rest fun _ => True :=
        .bindStay (.skipLayout (hrest.imp fun _ hk => by simp [hk, TokenKind.isLayout])) fun _ _ =>
          .notAccept (hrest.imp fun _ hk => by simp [hk]) (.pure trivial)
      refine .bindStay hseparator fun _ _ => ?_
      exact .bindLast (hend (by omega)) fun bs hbs => .pure (.cons hb hbs)
    | cons a' as =>
      obtain ⟨t, next, ⟨ht, -⟩, hnext, rfl⟩ := spell_cons.mp hus
      simp only [List.length_cons] at hm hbound
      have hlayout : Heads (next ++ rest) (·.isLayout = false) :=
        ((List.forall_mem_cons.mp has).1.1.append _ hnext rest).imp TokenKind.isLayout_of_opening
      have hseparator : bracedSeparator.Reads [t] (next ++ rest) fun _ => True :=
        .bindStay (.skipLayout (by simp [ht, TokenKind.isLayout])) fun _ _ =>
          .accept ht nofun (.skipLayout hlayout)
      refine .bind hseparator fun _ _ => .bindLast (ih has hnext (by omega) ?_) fun bs hbs =>
        .pure (.cons hb hbs)
      rw [List.length_append]
      omega

/-- Items between braces on one line. -/
theorem reads_braced {t u : Token} (h : ReadsEach m .rightBrace as marks item R)
    (ht : t.kind = .leftBrace) (hts : Spell (separated (as.map marks)) ts) (hm : ts.length ≤ m)
    (hu : u.kind = .rightBrace) :
    (braced item).Reads (t :: (ts ++ [u])) rest (List.Forall₂ R as) := by
  have hlayout : Heads (ts ++ ([u] ++ rest)) (·.isLayout = false) := by
    cases as with
    | nil =>
      obtain rfl := spell_nil.mp hts
      simp [hu, TokenKind.isLayout]
    | cons a as =>
      exact ((List.forall_mem_cons.mp h).1.1.append _ hts _).imp TokenKind.isLayout_of_opening
  refine .askAny fun first => .expect ht nofun (.bindStay (.skipLayout ?_) fun _ _ => ?_)
  · rwa [List.append_assoc]
  refine .tokensLeft (.bind (reads_bracedFrom h hts hm (by simp [hu]) ?_) fun bs hbs => ?_)
  · rw [List.append_assoc]
  · exact .askAny fun last => .expect hu nofun (.spanFrom fun span => .note (.pure hbs))

end

/-! ## Single forms -/

namespace Printed

variable {span : Span} {e e₁ e₂ e₃ : Expr} {es : List Expr} {ms₁ ms₂ ms₃ : List Mark}

/-- Expressions that are read back can stand between commas. -/
theorem readsEach {m d : Nat} {close : TokenKind} (hd : m < d) (hclose : close.grip = 0)
    (h : ∀ e ∈ es, e.Prints) :
    ReadsEach m close es Expr.marks (rulesAt d .expression) Expr.Same := by
  refine fun e he => ⟨(h e he).opens.weaken (Nat.zero_le _), fun ts rest hts hm hrest => ?_⟩
  refine (h e he).expression hts (Nat.lt_of_le_of_lt hm hd) (hrest.imp fun k hk => ?_)
  rcases hk with rfl | rfl
  · rfl
  · exact hclose

/-- An expression that is a single token. -/
theorem of_token {m : Mark} {k : TokenKind} (hk : ∀ t, m.Fits t → t.kind = k)
    (hopening : 8 < k.opening)
    (h : ∀ t, m.Fits t → ∀ rules rest, (primary rules).Reads [t] rest e.Same) :
    Printed 8 false [m] e := by
  refine of_primary (Opens.of_cons fun t ht => hk t ht ▸ hopening) fun d ts rest hts _ _ => ?_
  obtain ⟨t, ends, ht, hends, rfl⟩ := spell_cons.mp hts
  obtain rfl := spell_nil.mp hends
  exact h t ht _ rest

theorem number {n : Number} : Printed 8 false [.number n] (.number span n) := by
  refine of_token (fun t ht => ht.1) (by decide) fun t ⟨ht, hvalue⟩ rules rest => .current ?_
  simp only [ht]
  exact .advance (by simp [ht]) (.pure (.leaf (by simp [numberOf, hvalue]) rfl nofun))

theorem string {s : String} : Printed 8 false [.string s] (.string span s) := by
  refine of_token (fun t ht => ht.1) (by decide) fun t ⟨ht, hvalue, hlexeme⟩ rules rest => ?_
  refine .current ?_
  simp only [ht, stringExpr, hlexeme, Token.word, hvalue]
  exact .advance (by simp [ht]) (.pure (.leaf (by simp) rfl nofun))

theorem color {s : String} : Printed 8 false [.color s] (.color span s) := by
  refine of_token (fun t ht => ht.1) (by decide) fun t ⟨ht, hvalue, hlexeme⟩ rules rest => ?_
  refine .current ?_
  simp only [ht, stringExpr, hlexeme, Token.word, hvalue]
  exact .advance (by simp [ht]) (.pure (.leaf (by simp) rfl nofun))

theorem boolean {b : Bool} : Printed 8 false [.boolean b] (.boolean span b) := by
  refine of_token (fun t ht => ht.1) (by decide) fun t ⟨ht, _, hlexeme⟩ rules rest => .current ?_
  simp only [ht]
  refine .advance (by simp [ht]) (.pure (.leaf ?_ rfl nofun))
  cases b <;> simp [hlexeme]

theorem null : Printed 8 false [.null] (.null span) := by
  refine of_token (fun t ht => ht) (by decide) fun t ht rules rest => .current ?_
  simp only [show t.kind = .null from ht]
  exact .advance (by simp [show t.kind = .null from ht]) (.pure (.leaf (by simp) rfl nofun))

theorem name {s : String} : Printed 8 false [.identifier s] (.name span s) := by
  refine of_token (fun t ht => ht.1) (by decide) fun t ⟨ht, hvalue⟩ rules rest => .current ?_
  simp only [ht, Token.word, hvalue]
  exact .advance (by simp [ht]) (.pure (.leaf (by simp) rfl nofun))

theorem list (h : ∀ e ∈ es, e.Prints) :
    Printed 8 false (sign .leftBracket "[" :: separated (es.map Expr.marks) ++
      [sign .rightBracket "]"]) (.list span es) := by
  refine of_primary (.of_cons fun t ht => by rw [ht.1]; decide) fun d all rest hall hd _ => ?_
  obtain ⟨t, ts, u, ht, hts, hu, rfl⟩ := spell_enclosed hall
  simp only [List.length_cons, List.length_append] at hd
  refine .current ?_
  simp only [ht]
  refine .expect ht nofun (.bind (.tokensLeft (reads_separatedFrom (readsEach (by omega) rfl h) hts
    (Nat.le_refl _) (heads_cons.mpr hu) rfl nofun (Nat.le_refl _))) fun es' hes' => ?_)
  exact .expect hu nofun (.spanFrom fun span => .pure (.list hes'))

theorem vector (h : ∀ e ∈ es, e.Prints)
    (hes : ∀ e, es ≠ [e]) :
    Printed 8 false (sign .leftParen "(" :: separated (es.map Expr.marks) ++
      [sign .rightParen ")"]) (.vector span es) := by
  refine of_primary (.of_cons fun t ht => by rw [ht.1]; decide) fun d all rest hall hd _ => ?_
  obtain ⟨t, ts, u, ht, hts, hu, rfl⟩ := spell_enclosed hall
  simp only [List.length_cons, List.length_append] at hd
  refine .current ?_
  simp only [ht]
  cases es with
  | nil =>
    obtain rfl := spell_nil.mp hts
    exact .expect ht nofun (.accept hu nofun (.spanFrom fun span => .pure (.vector .nil)))
  | cons e es =>
    obtain ⟨he, hes'⟩ := List.forall_mem_cons.mp h
    obtain ⟨first, us, hfirst, hus, rfl⟩ := spell_append.mp hts
    simp only [List.length_append] at hd
    have hbehind : Heads ((us ++ [u]) ++ rest) (·.grip = 0) := by
      rw [List.append_assoc]
      refine (heads_afterCommas hus (heads_cons.mpr hu)).imp ?_
      rintro _ (rfl | rfl) <;> rfl
    have hcomma : Heads ((us ++ [u]) ++ rest) (· = .comma) := by
      cases es with
      | nil => exact absurd rfl (hes e)
      | cons e' es =>
        obtain ⟨v, us, ⟨hv, -⟩, -, rfl⟩ := spell_cons.mp hus
        simp [hv]
    rw [List.append_assoc]
    refine .expect ht nofun (.notAccept ?_ (.bind (he.expression hfirst (by omega) hbehind)
      fun e' he' => .atKind hcomma (.tokensLeft (.bind (reads_vectorRest (readsEach (by omega) rfl
        hes') hus (Nat.le_refl _) (heads_cons.mpr hu) ?_) fun es' hes' => ?_))))
    · rw [List.append_assoc]
      exact he.opens.heads_ne hfirst _ rfl
    · rw [List.append_assoc]
    · exact .expect hu nofun (.spanFrom fun span => .pure (.vector (.cons he' hes')))

/-! ### Map literals -/

/-- The parts of a map entry are read back. -/
theorem reads_mapEntry {x : MapEntry} (hkey : ∀ e, x.key = .computed e → e.Prints)
    (hvalue : x.value.Prints) {d : Nat} {all rest : List Token} (hall : Spell x.marks all)
    (hd : all.length < d) (hrest : Heads rest (·.grip = 0)) :
    (mapEntry (rulesAt d)).Reads all rest
      fun x' => Node.Alike (fun _ _ => True) (.entry x) (.entry x') := by
  obtain ⟨span, key, value⟩ := x
  obtain ⟨ts, behind, hts, hbehind, rfl⟩ := spell_append.mp hall
  obtain ⟨colon, us, ⟨hcolon, -⟩, hus, rfl⟩ := spell_cons.mp hbehind
  simp only [List.length_append, List.length_cons] at hd
  have hread := hvalue.expression hus (d := d) (by omega) hrest
  -- whatever the spans, the entry is the same if key and value are
  suffices hparts : ∀ start : Token, start ∈ ts.head? →
      (entryParts (rulesAt d) start).Reads (ts ++ colon :: us) rest fun parts => ∀ span',
        Node.Alike (fun _ _ => True) (.entry ⟨span, key, value⟩)
          (.entry ⟨span', parts.1, parts.2⟩) by
    cases ts with
    | nil => cases key <;> cases hts
    | cons t ts =>
      exact .current (.bindLast (hparts t rfl) fun parts h => .spanFrom fun span' =>
        .pure (h span'))
  intro start hstart
  cases key with
  | written s =>
    obtain ⟨t, ends, ⟨ht, hword⟩, hends, rfl⟩ := spell_cons.mp hts
    obtain rfl := spell_nil.mp hends
    obtain rfl : t = start := Option.some.inj hstart
    have hkey : t.word = s := by simp [Token.word, hword]
    have hpair : ∀ value', value.Same value' → (pure (.written t.word, value') :
        Parse (EntryKey × Expr)).Reads [] rest fun parts => ∀ span', Node.Alike (fun _ _ => True)
          (.entry ⟨span, .written s, value⟩) (.entry ⟨span', parts.1, parts.2⟩) :=
      fun value' h => .pure fun span' => hkey ▸ .written h
    rcases ht with ht | ht
    · exact .accept ht (by decide) (.accept hcolon (by decide) (.bindLast hread hpair))
    · refine .notAccept (by simp [ht]) (.accept ht (by decide) ?_)
      exact .expect hcolon (by decide) (.bindLast hread hpair)
  | computed e =>
    obtain ⟨t, inner, u, ht, hinner, hu, rfl⟩ := spell_enclosed hts
    simp only [List.length_cons, List.length_append] at hd
    rw [List.cons_append, List.append_assoc]
    refine .notAccept (by simp [ht]) (.notAccept (by simp [ht]) (.accept ht (by decide) ?_))
    refine .bind ((hkey e rfl).expression hinner (by omega) (by simp [hu, TokenKind.grip])) ?_
    intro e' he'
    exact .expect hu (by decide) (.expect hcolon (by decide) (.bindLast hread fun value' hvalue' =>
      .pure fun span' => .computed he' hvalue'))

theorem map {entries : List MapEntry}
    (hkeys : ∀ x ∈ entries, ∀ e, x.key = .computed e → e.Prints)
    (hvalues : ∀ x ∈ entries, x.value.Prints) :
    Printed 8 false (sign .leftBrace "\x7b" :: separated (entries.map MapEntry.marks) ++
      [sign .rightBrace "\x7d"]) (.map span entries) := by
  refine of_primary (.of_cons fun t ht => by rw [ht.1]; decide) fun d all rest hall hd _ => ?_
  obtain ⟨t, ts, u, ht, hts, hu, rfl⟩ := spell_enclosed hall
  simp only [List.length_cons, List.length_append] at hd
  have heach : ReadsEach ts.length .rightBrace entries MapEntry.marks (mapEntry (rulesAt d))
      fun x x' => Node.Alike (fun _ _ => True) (.entry x) (.entry x') := by
    refine fun x hx => ⟨?_, fun us rest hus hm hrest => ?_⟩
    · obtain ⟨_, key, _⟩ := x
      cases key with
      | written s => exact .of_cons fun t ht => by rcases ht.1 with h | h <;> rw [h] <;> decide
      | computed e => exact .of_cons fun t ht => by rw [ht.1]; decide
    · refine reads_mapEntry (hkeys x hx) (hvalues x hx) hus (by omega) (hrest.imp ?_)
      rintro _ (rfl | rfl) <;> rfl
  refine .current ?_
  simp only [ht]
  refine .current (.bindLast (reads_braced heach ht hts (Nat.le_refl _) hu) fun entries' h => ?_)
  exact .spanFrom fun span => .pure (.map h trivial)

/-! ### Lambdas -/

theorem reads_parameter {x : Param} (hdefault : ∀ e ∈ x.default, e.Prints) {d : Nat}
    {all rest : List Token} (hall : Spell x.marks all) (hd : all.length < d)
    (hrest : Heads rest fun k => k = .comma ∨ k = .rightParen) :
    (parameter (rulesAt d)).Reads all rest
      fun x' => Node.Alike (fun _ _ => True) (.param x) (.param x') := by
  obtain ⟨span, name, default⟩ := x
  obtain ⟨t, ts, ⟨ht, hvalue⟩, hts, rfl⟩ := spell_cons.mp hall
  have hname : t.word = name := by simp [Token.word, hvalue]
  refine .expect ht nofun ?_
  cases default with
  | none =>
    obtain rfl := spell_nil.mp hts
    have hnone : (optional .assign (rulesAt d .expression)).Reads [] rest (· = none) :=
      .notAccept (hrest.imp (by rintro _ (rfl | rfl) <;> nofun)) (.pure rfl)
    refine .bindLast hnone fun default' h => .spanFrom fun span' => .pure ?_
    rw [h, hname]
    exact .param .none
  | some e =>
    obtain ⟨assign, us, ⟨hassign, -⟩, hus, rfl⟩ := spell_cons.mp hts
    simp only [List.length_cons] at hd
    have hsome : (optional .assign (rulesAt d .expression)).Reads (assign :: us) rest
        fun default' => ∃ e', default' = some e' ∧ e.Same e' := by
      refine .accept hassign nofun (.map (((hdefault e rfl).expression hus (by omega) ?_).imp ?_))
      · refine hrest.imp ?_
        rintro _ (rfl | rfl) <;> rfl
      · exact fun e' he' => ⟨e', rfl, he'⟩
    refine .bindLast hsome fun default' h => .spanFrom fun span' => .pure ?_
    obtain ⟨e', rfl, he'⟩ := h
    rw [hname]
    exact .param (.some he')

theorem reads_parameters {params : List Param} (h : ∀ x ∈ params, ∀ e ∈ x.default, e.Prints)
    {d : Nat} {ts rest : List Token} {t u : Token} (ht : t.kind = .leftParen)
    (hu : u.kind = .rightParen)
    (hts : Spell (separated (params.map Param.marks)) ts) (hd : ts.length < d) :
    (parameters (rulesAt d)).Reads (t :: (ts ++ [u])) rest
      (Node.AlikeAll (fun _ _ => True) .param params) := by
  have heach : ReadsEach ts.length .rightParen params Param.marks (parameter (rulesAt d))
      fun x x' => Node.Alike (fun _ _ => True) (.param x) (.param x') :=
    fun x hx => ⟨.of_cons fun t ht => by rw [ht.1]; decide, fun us rest hus hm hrest =>
      reads_parameter (h x hx) hus (by omega) hrest⟩
  refine .expect ht nofun (.bind (.tokensLeft (reads_separatedFrom heach hts (Nat.le_refl _)
    (heads_cons.mpr hu) rfl nofun (Nat.le_refl _))) fun params' h' => ?_)
  exact .expect hu nofun (.pure h')

/-- A lambda is read by the rule for what has no operators, and reaches as far as it can. -/
theorem lambda {params : List Param} {body : Expr}
    (hparams : ∀ x ∈ params, ∀ e ∈ x.default, e.Prints) (hbody : body.Prints) :
    Printed 0 false
      (sign .fnWord "fn" :: sign .leftParen "(" :: separated (params.map Param.marks) ++
        sign .rightParen ")" :: sign .arrow "->" :: body.marks)
      (.lambda span params (.expr body)) := by
  have hopens : Opens 8 (sign .fnWord "fn" :: (sign .leftParen "(" ::
      separated (params.map Param.marks) ++
        sign .rightParen ")" :: sign .arrow "->" :: body.marks)) :=
    .of_cons fun t ht => by rw [ht.1]; decide
  refine of_level (Nat.zero_le 8) (hopens.weaken (Nat.zero_le 8))
    (fun d all rest hall hd hrest => ?_) nofun nofun
  refine reads_downTo (Nat.zero_le 8) (Nat.le_refl 8) ?_ (hopens hall rest) hrest
  obtain ⟨t, l₁, ⟨ht, -⟩, h₁, rfl⟩ := spell_cons.mp hall
  obtain ⟨lp, l₂, ⟨hlp, -⟩, h₂, rfl⟩ := spell_cons.mp h₁
  obtain ⟨ts, l₃, hts, h₃, rfl⟩ := spell_append.mp h₂
  obtain ⟨rp, l₄, ⟨hrp, -⟩, h₄, rfl⟩ := spell_cons.mp h₃
  obtain ⟨arrow, us, ⟨harrow, -⟩, hus, rfl⟩ := spell_cons.mp h₄
  simp only [List.length_cons, List.length_append] at hd
  have hgrip : Heads rest (·.grip = 0) := hrest.imp fun k hk => by omega
  have hlambda : (Grammar.lambda (rulesAt d)).Reads
      (t :: ((lp :: (ts ++ [rp])) ++ arrow :: us)) rest
      (Expr.lambda span params (.expr body)).Same := by
    refine .expect ht nofun (.bind (reads_parameters hparams hlp hrp hts (by omega))
      fun params' hparams' => ?_)
    have hbody' : (lambdaBody (rulesAt d)).Reads (arrow :: us) rest
        fun b => Node.Alike (fun _ _ => True) (.body (.expr body)) (.body b) :=
      .accept harrow nofun (.bindLast (hbody.expression hus (by omega) hgrip)
        fun body' h => .pure (.exprBody h))
    exact .bindLast hbody' fun b hb => .spanFrom fun span' => .pure (.lambda hparams' hb)
  rw [List.cons_append, List.append_assoc] at hlambda
  have hprimary : (primary (rulesAt d)).Reads (t :: lp :: (ts ++ rp :: arrow :: us)) rest
      (Expr.lambda span params (.expr body)).Same := by
    refine .current ?_
    simp only [ht]
    exact hlambda
  refine .of_rest fun hne => .current (.bindLast hprimary fun e' he' => .tokensLeft ?_)
  refine reads_postfixFrom ?_ (hgrip.imp fun k hk => by omega) he'
  exact List.length_pos_iff.mpr (by simpa using hne)

/-! ### Reactive references -/

theorem reads_pathFrom {path : List String} {bound : Nat} {ts rest : List Token}
    (hts : Spell (path.flatMap fun s => [sign .dot ".", .identifier s]) ts)
    (hrest : Heads rest (· ≠ .dot)) (hbound : (ts ++ rest).length ≤ bound) :
    (pathFrom bound).Reads ts rest (· = path) := by
  refine .of_rest fun hne => ?_
  have hpos : 0 < rest.length := List.length_pos_iff.mpr hne
  induction path generalizing ts bound with
  | nil =>
    obtain rfl := spell_nil.mp hts
    cases bound with
    | zero => exact absurd hbound (Nat.not_le_of_lt hpos)
    | succ bound => exact .notAccept hrest (.pure rfl)
  | cons s path ih =>
    obtain ⟨dot, l, ⟨hdot, -⟩, hl, rfl⟩ := spell_cons.mp hts
    obtain ⟨t, us, ⟨ht, hvalue⟩, hus, rfl⟩ := spell_cons.mp hl
    simp only [List.length_cons, List.length_append] at hbound
    cases bound with
    | zero => omega
    | succ bound =>
    refine .accept hdot nofun (.expect ht nofun (.bindLast (ih hus ?_) fun names h => .pure ?_))
    · rw [List.length_append]
      omega
    · simp [h, Token.word, hvalue]

theorem reactive {root : String} {path : List String} :
    Printed 8 true (sign .dollarSign "$" :: .identifier root ::
      path.flatMap fun s => [sign .dot ".", .identifier s]) (.reactive span root path) := by
  refine of_primary (.of_cons fun t ht => by rw [ht.1]; decide) fun d all rest hall hd hrest => ?_
  obtain ⟨t, l, ⟨ht, -⟩, hl, rfl⟩ := spell_cons.mp hall
  obtain ⟨name, us, ⟨hname, hvalue⟩, hus, rfl⟩ := spell_cons.mp hl
  refine .current ?_
  simp only [ht]
  refine .expect ht nofun (.expect hname nofun (.tokensLeft (.bindLast (reads_pathFrom hus
    (hrest.imp fun _ hk => hk rfl) (Nat.le_refl _)) fun names h => .spanFrom fun span' => ?_)))
  refine .pure ?_
  rw [h]
  exact .leaf (by simp [Token.word, hvalue]) rfl nofun

/-! ### What is applied to an expression -/

variable {r : Bool}

theorem isKeyword_ofWord (s : String) :
    TokenKind.ofWord s = .identifier ∨ (TokenKind.ofWord s).isKeyword = true := by
  unfold TokenKind.ofWord
  cases h : TokenKind.keywords.lookup s with
  | none => exact .inl rfl
  | some k =>
    refine .inr (List.any_eq_true.mpr ?_)
    obtain ⟨l₁, l₂, hl, -⟩ := List.lookup_eq_some_iff.mp h
    exact ⟨(s, k), by rw [hl]; simp, by simp⟩

theorem reads_propertyName {s : String} {t : Token} {rest : List Token} (ht : t.kind = .ofWord s)
    (hlexeme : t.lexeme = s) : propertyName.Reads [t] rest (· = s) := by
  have hname : (t.kind == .identifier || t.kind.isKeyword) = true := by
    rw [ht]
    simpa using isKeyword_ofWord s
  have hend : t.kind ≠ .endOfFile := by
    intro h
    rw [h] at hname
    exact absurd hname (by decide)
  refine .current ?_
  rw [if_pos hname]
  exact .advance hend (.pure hlexeme)

theorem member {s : String} (h : Printed 8 false ms₁ e₁) :
    Printed 8 false (ms₁ ++ [sign .dot ".", .property s]) (.member span e₁ s) := by
  refine of_postfixes (h.opens.append _) fun d all us rest post hall hd _ hnext => ?_
  obtain ⟨ts, behind, hts, hbehind, rfl⟩ := spell_append.mp hall
  obtain ⟨dot, l, ⟨hdot, -⟩, hl, rfl⟩ := spell_cons.mp hbehind
  obtain ⟨name, ends, ⟨hname, hlexeme⟩, hends, rfl⟩ := spell_cons.mp hl
  obtain rfl := spell_nil.mp hends
  simp only [List.length_cons, List.length_append] at hd
  rw [List.append_assoc]
  refine h.postfixes (Nat.le_refl 8) hts (by omega) (fun _ _ => nofun)
    fun start bound e' he' hbound => ?_
  simp only [List.length_cons, List.length_append] at hbound
  cases bound with
  | zero => omega
  | succ bound =>
  refine .accept hdot nofun (.bind (reads_propertyName hname hlexeme) fun s' hs' => .spanFrom
    fun span' => hnext start bound _ (hs' ▸ .member he') ?_)
  rw [List.length_append]
  omega

theorem index (h : Printed 8 r ms₁ e₁) (hkey : e₂.Prints) :
    Printed 8 false (ms₁ ++ sign .leftBracket "[" :: e₂.marks ++ [sign .rightBracket "]"])
      (.index span e₁ e₂) := by
  rw [List.append_assoc]
  refine of_postfixes (h.opens.append _) fun d all us rest post hall hd _ hnext => ?_
  obtain ⟨ts, behind, hts, hbehind, rfl⟩ := spell_append.mp hall
  obtain ⟨lb, inner, rb, hlb, hinner, hrb, rfl⟩ := spell_enclosed hbehind
  simp only [List.length_cons, List.length_append] at hd
  rw [List.append_assoc]
  refine h.postfixes (Nat.le_refl 8) hts (by omega) (heads_cons.mpr (by simp [hlb]))
    fun start bound e' he' hbound => ?_
  simp only [List.length_cons, List.length_append] at hbound
  cases bound with
  | zero => omega
  | succ bound =>
  rw [List.cons_append, List.append_assoc]
  refine .notAccept (by simp [hlb]) (.accept hlb nofun (.bind (hkey.expression hinner (by omega)
    (by simp [hrb, TokenKind.grip])) fun key' hkey' => .expect hrb nofun (.spanFrom fun span' =>
      hnext start bound _ (.index he' hkey') ?_)))
  rw [List.length_append]
  omega

theorem call (h : Printed 8 r ms₁ e₁) (hes : ∀ e ∈ es, e.Prints) :
    Printed 8 false (ms₁ ++ sign .leftParen "(" :: separated (es.map Expr.marks) ++
      [sign .rightParen ")"]) (.call span e₁ es) := by
  rw [List.append_assoc]
  refine of_postfixes (h.opens.append _) fun d all us rest post hall hd _ hnext => ?_
  obtain ⟨ts, behind, hts, hbehind, rfl⟩ := spell_append.mp hall
  obtain ⟨lp, inner, rp, hlp, hinner, hrp, rfl⟩ := spell_enclosed hbehind
  simp only [List.length_cons, List.length_append] at hd
  rw [List.append_assoc]
  refine h.postfixes (Nat.le_refl 8) hts (by omega) (heads_cons.mpr (by simp [hlp]))
    fun start bound e' he' hbound => ?_
  simp only [List.length_cons, List.length_append] at hbound
  cases bound with
  | zero => omega
  | succ bound =>
  have harguments : (arguments (rulesAt d)).Reads (lp :: (inner ++ [rp])) (us ++ rest)
      (List.Forall₂ Expr.Same es) := by
    refine .expect hlp nofun (.bind (.tokensLeft (reads_separatedFrom (readsEach (by omega) rfl hes)
      hinner (Nat.le_refl _) (heads_cons.mpr hrp) rfl nofun (Nat.le_refl _))) fun es' hes' => ?_)
    exact .expect hrp nofun (.pure hes')
  refine .notAccept (by simp [hlp]) (.notAccept (by simp [hlp]) (.atKind (by simp [hlp])
    (.bind harguments fun es' hes' => .spanFrom fun span' =>
      hnext start bound _ (.call he' hes') ?_)))
  rw [List.length_append]
  omega

/-! ### Operators -/

/-- The left operand of an operator may be joined by one of the same level. -/
theorem binary {operator : BinaryOperator} (h₁ : Printed operator.level r ms₁ e₁) {r' : Bool}
    (h₂ : Printed (operator.level + 1) r' ms₂ e₂) :
    Printed operator.level false (ms₁ ++ sign operator.kind operator.symbol :: ms₂)
      (.binary span operator e₁ e₂) := by
  obtain ⟨hlevel, hlevel'⟩ := level_operator operator
  refine of_chains hlevel hlevel' (h₁.opens.append _)
    fun d all us rest post hall hd hrest hnext => ?_
  obtain ⟨ts, behind, hts, hbehind, rfl⟩ := spell_append.mp hall
  obtain ⟨t, vs, ⟨ht, -⟩, hvs, rfl⟩ := spell_cons.mp hbehind
  simp only [List.length_cons, List.length_append] at hd
  rw [List.append_assoc]
  refine h₁.chains _ hlevel hlevel' (Nat.le_refl _) hts (by omega) ?_
    fun start bound e' he' hbound => ?_
  · exact heads_cons.mpr (by rw [ht, grip_operator])
  simp only [List.length_cons, List.length_append] at hbound
  cases bound with
  | zero => omega
  | succ bound =>
  have hoperator : ∀ c : Cursor, c.left = t :: vs ++ us ++ rest →
      (operatorsAt operator.level).lookup c.current.kind = some operator := by
    intro c hc
    rw [(current_of_left hc).1, ht, lookup_operator]
  refine .ask hoperator (.advance ?_ (.bind (h₂.reads _ (Nat.le_refl _) hvs (by omega) ?_)
    fun right' hright' => .spanFrom fun span' => hnext start bound _ (.binary he' hright') ?_))
  · rw [ht]
    cases operator <;> nofun
  · exact hrest.imp fun k hk => by omega
  · rw [List.length_append]
    omega

theorem unary {operator : UnaryOperator} (h : Printed 7 r ms₁ e₁) :
    Printed 7 false (sign operator.kind operator.symbol :: ms₁) (.unary span operator e₁) := by
  refine of_level (by decide) (.of_cons fun t ht => ?_) (fun d all rest hall hd hrest => ?_)
    (fun _ h => absurd h (by decide)) fun h => absurd h (by decide)
  · rw [ht.1]
    cases operator <;> decide
  obtain ⟨t, ts, ⟨ht, -⟩, hts, rfl⟩ := spell_cons.mp hall
  rw [List.length_cons] at hd
  have hoperand : (rulesAt d .unary).Reads ts rest e₁.Same := by
    cases d with
    | zero => exact absurd hd (Nat.not_succ_le_zero _)
    | succ d => exact h.reads 7 (Nat.le_refl 7) hts (Nat.le_of_succ_le_succ hd) hrest
  refine .current ?_
  dsimp only
  cases operator with
  | not =>
    have hkind : t.kind = .notWord := ht
    simp only [hkind]
    exact .advance (by simp [hkind]) (.bindLast hoperand fun e' he' => .spanFrom fun span' =>
      .pure (.unary he'))
  | negate =>
    have hkind : t.kind = .minus := ht
    simp only [hkind]
    exact .advance (by simp [hkind]) (.bindLast hoperand fun e' he' => .spanFrom fun span' =>
      .pure (.unary he'))

/-- Only the last part of a conditional may be one itself. -/
theorem conditional {r₁ r₂ : Bool} (h₁ : Printed 1 r₁ ms₁ e₁) (h₂ : Printed 1 r₂ ms₂ e₂)
    (h₃ : e₃.Prints) :
    Printed 0 false (sign .ifWord "if" :: ms₁ ++ sign .thenWord "then" :: ms₂ ++
      sign .elseWord "else" :: e₃.marks) (.conditional span e₁ e₂ e₃) := by
  refine of_level (Nat.zero_le 8) (.of_cons fun t ht => by rw [ht.1]; decide)
    (fun d all rest hall hd hrest => ?_) nofun nofun
  obtain ⟨l₁, l₂, hl₁, hl₂, rfl⟩ := spell_append.mp hall
  obtain ⟨l₃, l₄, hl₃, hl₄, rfl⟩ := spell_append.mp hl₁
  obtain ⟨t, ts, ⟨ht, -⟩, hts, rfl⟩ := spell_cons.mp hl₃
  obtain ⟨thenT, us, ⟨hthen, -⟩, hus, rfl⟩ := spell_cons.mp hl₄
  obtain ⟨elseT, vs, ⟨helse, -⟩, hvs, rfl⟩ := spell_cons.mp hl₂
  simp only [List.length_cons, List.length_append] at hd
  rw [List.append_assoc, List.cons_append, List.cons_append]
  refine .current (.accept ht nofun (.bind (h₁.reads 1 (Nat.le_refl 1) hts (by omega) ?_)
    fun e₁' he₁ => .expect hthen nofun (.bind (h₂.reads 1 (Nat.le_refl 1) hus (by omega) ?_)
      fun e₂' he₂ => .expect helse nofun (.bindLast (h₃.expression hvs (by omega) ?_) fun e₃' he₃ =>
        .spanFrom fun span' => .pure (.conditional he₁ he₂ he₃)))))
  · simp [hthen, TokenKind.grip]
  · simp [helse, TokenKind.grip]
  · exact hrest.imp fun k hk => by omega

end Printed

/-! ## All expressions -/

/-- An expression as an operand of a level; what stands behind it is no dot. -/
theorem Expr.Prints.operand {e : Expr} (h : e.Prints) {n : Nat} (hn : n ≤ 8) :
    Printed n true (grouped (e.level < n) e.marks) e :=
  h.within hn fun hneeded => ⟨by simpa using hneeded, fun _ => rfl⟩

/-- The object of a member access, behind which there is a dot. -/
theorem Expr.Prints.object {e : Expr} (h : e.Prints) :
    Printed 8 false (grouped (e.level < 8 || e.isReactive) e.marks) e :=
  h.within (Nat.le_refl 8) (by simp +contextual)

/-- The expressions at the top of a part of a tree are read back from their marks. -/
def Node.Prints : Node → Prop
  | expr e => e.Prints
  | entry e => (∀ key, e.key = .computed key → key.Prints) ∧ e.value.Prints
  | param p => ∀ e ∈ p.default, e.Prints
  | body (.expr e) => e.Prints
  | _ => True

/-- Every printable expression is read back from its marks, if the expressions below it are. -/
theorem Expr.prints_of_children {e : Expr} (h : (Node.expr e).Printable)
    (ih : ∀ child ∈ (Node.expr e).children, child.2.Prints) : e.Prints := by
  have hexprs : ∀ {es : List Expr}, (∀ child ∈ es.map fun e => (0, Node.expr e), child.2.Prints) →
      ∀ e ∈ es, e.Prints :=
    fun h e he => h (0, .expr e) (List.mem_map_of_mem he)
  cases e with
  | number => exact .number
  | string => exact .string
  | boolean => exact .boolean
  | null => exact .null
  | color => exact .color
  | name => exact .name
  | reactive => exact .reactive
  | vector span es =>
    unfold Prints marks
    rw [marksOfExprs_eq]
    exact .vector (hexprs ih) fun e hes => (h _ (.itself _)).2 span e (hes ▸ rfl)
  | list span es =>
    unfold Prints marks
    rw [marksOfExprs_eq]
    exact .list (hexprs ih)
  | map span entries =>
    have hentries := List.forall_mem_map.mp ih
    unfold Prints marks
    rw [marksOfEntries_eq]
    exact .map (fun x hx => (hentries x hx).1) fun x hx => (hentries x hx).2
  | member span object =>
    have hobject : object.Prints := ih (0, .expr object) (by simp)
    exact .member hobject.object
  | index span object key =>
    have hobject : object.Prints := ih (0, .expr object) (by simp)
    exact .index (hobject.operand (Nat.le_refl 8)) (ih (0, .expr key) (by simp))
  | call span callee es =>
    obtain ⟨hcallee, hes⟩ := List.forall_mem_cons.mp ih
    unfold Prints marks
    rw [marksOfExprs_eq]
    exact .call (Expr.Prints.operand hcallee (Nat.le_refl 8)) (hexprs hes)
  | binary span operator left right =>
    have hleft : left.Prints := ih (0, .expr left) (by simp)
    have hright : right.Prints := ih (0, .expr right) (by simp)
    have hlevel := level_operator operator
    exact .binary (hleft.operand (by omega)) (hright.operand (by omega))
  | unary span operator operand =>
    have hoperand : operand.Prints := ih (0, .expr operand) (by simp)
    exact .unary (hoperand.operand (by decide))
  | conditional span test yes no =>
    have htest : test.Prints := ih (0, .expr test) (by simp)
    have hyes : yes.Prints := ih (0, .expr yes) (by simp)
    exact .conditional (htest.operand (by decide)) (hyes.operand (by decide))
      (ih (0, .expr no) (by simp))
  | lambda span params body =>
    obtain ⟨hbody, hparams⟩ := List.forall_mem_cons.mp ih
    unfold Prints marks
    rw [marksOfParams_eq]
    cases body with
    | expr e => exact .lambda (List.forall_mem_map.mp hparams) hbody
    | block b =>
      have hblock : (Node.expr (.lambda span params (.block b))).HasPart (.block b) :=
        .deeper (List.mem_cons_self ..) (.deeper (List.mem_cons_self ..) (.itself _))
      exact absurd rfl ((h _ hblock).1 b)

theorem Node.prints (x : Node) (h : x.Printable) : x.Prints := by
  induction x using Node.inductionOnChildren with
  | step x ih =>
    replace ih : ∀ child ∈ x.children, child.2.Prints :=
      fun child hchild => ih child hchild (h.child hchild)
    cases x with
    | expr e => exact Expr.prints_of_children h ih
    | entry e =>
      obtain ⟨span, key, value⟩ := e
      cases key with
      | written s => exact ⟨nofun, ih (0, .expr value) (by simp)⟩
      | computed e =>
        refine ⟨?_, ih (0, .expr value) (by simp)⟩
        rintro _ ⟨⟩
        exact ih (0, .expr e) (by simp)
    | param p => exact fun e he => ih (0, .expr e) (by simpa using he)
    | body b =>
      cases b with
      | expr e => exact ih (0, .expr e) (by simp)
      | block b => exact trivial
    | _ => exact trivial

/-- A printed expression, with the end of its line and of the file behind it, is read to the same
    expression, spans aside, and all of it is read. -/
theorem Expr.read_marks {e : Expr} (he : (Node.expr e).Printable) {ts : List Token}
    (hts : Spell e.marks ts) {newline ending : Token} (hnewline : newline.kind = .newline)
    {levels : Nat} (hlevels : ts.length < levels) {c : Cursor}
    (hc : c.left = ts ++ [newline, ending]) :
    ∃ e' d, (rulesAt levels .expression).run c = .ok (e', d) ∧ d.left = [newline, ending] ∧
      (Node.expr e').shape = (Node.expr e).shape := by
  have hprints : e.Prints := Node.prints (.expr e) he
  have hrest : Heads [newline, ending] (·.grip = 0) := by simp [hnewline, TokenKind.grip]
  obtain ⟨e', d, hrun, hd, hsame⟩ := hprints.expression hts hlevels hrest hc (by simp)
  exact ⟨e', d, hrun, hd, hsame.shape.symm⟩

/-- An expression with every kind of parentheses in it: a lambda with a default, whose body is a
    conditional with the test `not ($a.b).set[0]`, then `(x - (2 - x)) * (fn() -> x)()`, and else a
    map with a written and a computed key. -/
def nestedExpr : Expr :=
  .lambda default [⟨default, "x", some (.number default (.int 1))⟩] (.expr
    (.conditional default
      (.unary default .not (.index default
        (.member default (.reactive default "a" ["b"]) "set") (.number default (.int 0))))
      (.binary default .times
        (.binary default .minus (.name default "x")
          (.binary default .minus (.number default (.int 2)) (.name default "x")))
        (.call default (.lambda default [] (.expr (.name default "x"))) []))
      (.map default
        [⟨default, .written "k", .vector default []⟩,
         ⟨default, .computed (.string default "s"), .list default [.null default]⟩])))

example : (nestedExpr.marks.map Mark.token).map Token.kind =
    [.fnWord, .leftParen, .identifier, .assign, .number, .rightParen, .arrow,
      .ifWord, .notWord, .leftParen, .dollarSign, .identifier, .dot, .identifier, .rightParen, .dot,
      .setWord, .leftBracket, .number, .rightBracket,
      .thenWord, .leftParen, .identifier, .minus, .leftParen, .number, .minus, .identifier,
      .rightParen, .rightParen, .star,
      .leftParen, .fnWord, .leftParen, .rightParen, .arrow, .identifier, .rightParen,
      .leftParen, .rightParen,
      .elseWord, .leftBrace, .string, .colon, .leftParen, .rightParen, .comma,
      .leftBracket, .string, .rightBracket, .colon, .leftBracket, .null, .rightBracket,
      .rightBrace] := by decide

theorem read_marks_nestedExpr :
    ∃ newline ending c e' d, newline.kind = .newline ∧ ending.kind = .endOfFile ∧
      Cursor.ofTokens? (nestedExpr.marks.map Mark.token ++ [newline, ending]) = some c ∧
      (rulesAt (depthFor c.tokensLeft) .expression).run c = .ok (e', d) ∧
      d.left = [newline, ending] ∧ (Node.expr e').shape = (Node.expr nestedExpr).shape := by
  have hprintable : (Node.expr nestedExpr).Printable := by
    unfold nestedExpr
    repeat' first
      | exact List.forall_mem_nil _
      | refine List.forall_mem_cons.mpr ⟨?_, ?_⟩
      | refine Node.Printable.of_children (by simp) (by simp) ?_
  let newline : Token := ⟨.newline, .null, "\\n", default⟩
  let ending : Token := ⟨.endOfFile, .null, "", default⟩
  obtain ⟨c, hc⟩ : ∃ c, Cursor.ofTokens? (nestedExpr.marks.map Mark.token ++ [newline, ending]) =
      some c := ⟨_, rfl⟩
  have hleft : c.left = nestedExpr.marks.map Mark.token ++ [newline, ending] := by
    cases hc
    rfl
  have hlevels : (nestedExpr.marks.map Mark.token).length < depthFor c.tokensLeft := by
    have hlength := congrArg List.length hleft
    simp only [Cursor.left, List.length_cons, List.length_append] at hlength
    unfold depthFor Cursor.tokensLeft
    omega
  obtain ⟨e', d, hrun, hd, hshape⟩ :=
    Expr.read_marks hprintable (Mark.spell_token _) rfl hlevels hleft
  exact ⟨newline, ending, c, e', d, rfl, rfl, hc, hrun, hd, hshape⟩

end EventScript
