import EventScript.Proofs.Grammar.Forking

/-! # Postfix expressions and what stands behind them

A postfix expression that is no lambda ends with a token of its own.  In two token lists that part
behind it, where the first one has nothing further and the second one a minus or a number, it is
therefore the same expression: what it is made of lies before that place, and nothing is applied to
it there.

* `Parse.Arrives`       a rule that does not go beyond the place where the lists part
* `arrives_postfixed`   postfix expressions are such a rule
-/

namespace EventScript

/-- Where two lists part, no token is written out in the first one, and the second one goes on with
    a minus or a number. -/
structure Fork.Ending (f : Fork) : Prop where
  nothing : (kindAt f.tokens f.place).isContent = false
  operand : kindAt f.other f.place ∈ [TokenKind.minus, .number]

namespace Parse

open Fork

variable {α β γ : Type} {f : Fork} {pre : Cursor → Prop} {p : Parse α}

/-- A rule that comes at most to where two lists part in the first one reads the second one alike. -/
def Arrives (f : Fork) (pre : Cursor → Prop) (p : Parse α) : Prop :=
  ∀ ⦃c c' d : Cursor⦄ ⦃a : α⦄, f.Abreast c d → pre c → p.run c = .ok (a, c') →
    c'.passed ≤ f.place → ∃ d', p.run d = .ok (a, d') ∧ f.Abreast c' d'

/-- A cursor that stands on a token that is written out. -/
def OnContent (c : Cursor) : Prop := c.current.kind.isContent = true

namespace Arrives

theorem pure {a : α} : Arrives f pre (Pure.pure a) := by
  rintro c c' d _ hc - hrun -
  cases hrun
  exact ⟨d, rfl, hc⟩

theorem bind {g : α → Parse β} (hp : Arrives f pre p) (hg : ∀ a, Arrives f Wherever (g a)) :
    Arrives f pre (p >>= g) := by
  rintro c c'' d b hc hpre hrun hle
  obtain ⟨a, c', hpa, hgb⟩ := run_bind_eq_ok.mp hrun
  obtain ⟨d', hd, hc'⟩ := hp hc hpre hpa
    (Nat.le_trans (Cursor.StandsIn.passed_le ((g a).leads hgb)) hle)
  rw [run_bind_of_ok hd]
  exact hg a hc' trivial hgb hle

/-- A part that another token follows: it ends before the place where the lists part. -/
theorem bindForks {g : α → Parse β} (hp : Forks f none false Wherever p)
    (hg : ∀ a, Arrives f Wherever (g a))
    (hpasses : ∀ a i, (g a).From f.tokens i fun j _ => i < j) : Arrives f pre (p >>= g) := by
  rintro c c'' d b hc - hrun hle
  obtain ⟨a, c', hpa, hgb⟩ := run_bind_eq_ok.mp hrun
  have hleads := p.leads hpa
  have hlt : c'.passed < f.place :=
    Nat.lt_of_lt_of_le (hpasses a _ (hc.stands.of_leads hleads) hgb) hle
  have hbefore : c.passed < f.place := Nat.lt_of_le_of_lt (Cursor.StandsIn.passed_le hleads) hlt
  rcases hp ⟨hc, fun h => absurd h (Nat.ne_of_lt hbefore)⟩ trivial hpa trivial with
    ⟨d', hd, hc'⟩ | hparted | ⟨hfalse, -⟩
  · rw [run_bind_of_ok hd]
    exact hg a hc'.toAbreast trivial hgb hle
  · exact absurd hparted (Nat.not_le_of_lt hlt)
  · cases hfalse

theorem bindLoop {q : Nat → Parse α} {g : α → Parse β}
    (hp : Forks f none false Wherever (tokensLeft >>= q)) (hg : ∀ a, Arrives f Wherever (g a))
    (hpasses : ∀ a i, (g a).From f.tokens i fun j _ => i < j) :
    Arrives f pre (tokensLeft >>= fun n => q n >>= g) := by
  rw [← bind_assoc]
  exact .bindForks hp hg hpasses

theorem weaken {pre' : Cursor → Prop} (h : ∀ c, pre' c → pre c) (hp : Arrives f pre p) :
    Arrives f pre' p :=
  fun _ _ _ _ hc hpre => hp hc (h _ hpre)

theorem ite {t : Prop} [Decidable t] {q : Parse α} (hp : t → Arrives f pre p)
    (hq : ¬ t → Arrives f pre q) : Arrives f pre (if t then p else q) := by
  split
  · exact hp ‹_›
  · exact hq ‹_›

/-- Looking at something that is the same for both cursors. -/
theorem ask {x : Cursor → γ} {g : γ → Parse α} (hx : ∀ c d, f.Abreast c d → pre c → x d = x c)
    (hg : ∀ a, Arrives f (fun c => pre c ∧ x c = a) (g a)) :
    Arrives f pre (Parse.ask x >>= g) := by
  rintro c c' d b hc hpre hrun hle
  obtain ⟨a, _, hxa, hgb⟩ := run_bind_eq_ok.mp hrun
  cases hxa
  have hd : (Parse.ask x >>= g).run d = (g (x c)).run d := by rw [← hx c d hc hpre]; rfl
  rw [hd]
  exact hg _ hc ⟨hpre, rfl⟩ hgb hle

/-- A rule that takes the token it starts on. -/
theorem of_takes (h : p.Takes pre) (hp : Arrives f (fun c => pre c ∧ OnContent c) p) :
    Arrives f pre p :=
  fun _ _ _ _ hc hpre hrun => hp hc ⟨hpre, (h hpre hrun).1⟩ hrun

end Arrives

section

variable (hf : f.Ending)

include hf

theorem lt_of_onContent {c d : Cursor} (hc : f.Abreast c d) (hk : OnContent c) :
    c.passed < f.place := by
  refine Nat.lt_of_le_of_ne hc.le fun heq => ?_
  have hnothing := hf.nothing
  rw [← heq, hc.stands.kindAt, hk] at hnothing
  cases hnothing

theorem Arrives.current {g : Token → Parse α} (hpre : ∀ c, pre c → OnContent c)
    (hg : ∀ t, Arrives f (fun c => pre c ∧ c.current = t) (g t)) :
    Arrives f pre (Parse.current >>= g) :=
  .ask (fun _ _ hc h => hc.current (lt_of_onContent hf hc (hpre _ h))) hg

/-! ## Single tokens -/

/-- Where the lists part, neither of them has a token of a kind other than those of operands. -/
theorem beq_kind_eq {k : TokenKind} (hk : k.isContent = true) (hne : k ∉ [TokenKind.minus, .number])
    {c d : Cursor} (hc : f.Abreast c d) : (d.current.kind == k) = (c.current.kind == k) := by
  rcases Nat.lt_or_eq_of_le hc.le with hlt | heq
  · rw [hc.current hlt]
  · have hnothing := hf.nothing
    have hoperand := hf.operand
    rw [← heq, hc.stands.kindAt] at hnothing
    rw [← heq, hc.other.kindAt] at hoperand
    rw [beq_false_of_ne, beq_false_of_ne]
    · rintro rfl
      rw [hnothing] at hk
      cases hk
    · rintro rfl
      exact hne hoperand

theorem arrives_advance (hpre : ∀ c, pre c → OnContent c) : Arrives f pre advance := by
  rintro c c' d t hc h hrun -
  cases hrun
  have hlt := lt_of_onContent hf hc (hpre c h)
  exact ⟨d.next, by rw [← hc.current hlt]; rfl, hc.next hlt⟩

theorem arrives_expect {k : TokenKind} (hk : k.isContent = true) (what : String) :
    Arrives f pre (expect k what) := by
  rintro c c' d t hc - hrun -
  obtain ⟨rfl, rfl, rfl⟩ := run_expect hrun
  have hlt := lt_of_onContent hf hc hk
  have hsame := hc.current hlt
  exact ⟨d.next, by rw [← hsame]; exact run_expect_of_kind (by rw [hsame]), hc.next hlt⟩

theorem Arrives.atKind {k : TokenKind} {g : Bool → Parse α} (hk : k.isContent = true)
    (hne : k ∉ [TokenKind.minus, .number])
    (hg : ∀ found, Arrives f (fun c => pre c ∧ (c.current.kind == k) = found) (g found)) :
    Arrives f pre (Parse.atKind k >>= g) :=
  .ask (fun _ _ hc _ => beq_kind_eq hf hk hne hc) hg

theorem arrives_accept {k : TokenKind} (hk : k.isContent = true)
    (hne : k ∉ [TokenKind.minus, .number]) : Arrives f pre (accept k) := by
  refine .atKind hf hk hne fun found => .ite (fun hfound => ?_) fun _ => .pure
  refine .bind (arrives_advance hf ?_) fun _ => .pure
  rintro c ⟨-, rfl⟩
  rw [OnContent, beq_iff_eq.mp hfound, hk]

end

theorem arrives_spanFrom (start : Token) : Arrives f pre (spanFrom start) :=
  .ask (fun _ _ hc _ => hc.lastStop) fun _ => .pure

theorem arrives_note (r : Reading) : Arrives f pre (note r) := by
  rintro c c' d a hc - hrun -
  cases hrun
  exact ⟨_, rfl, hc.of_records _ _ _ _⟩

theorem Arrives.place {g : Nat → Parse α} (hg : ∀ n, Arrives f Wherever (g n)) :
    Arrives f pre (place >>= g) :=
  .ask (fun _ _ hc _ => hc.other.passed) fun n => (hg n).weaken fun _ _ => trivial

/-! ## Loops -/

section

variable {σ : Type} {round : σ → Parse (Round σ β)} {s : σ} {b : β} {c c' d : Cursor}
  {r : Except Diagnostic (β × Cursor)}

/-- A loop comes at most to where the lists part if its rounds do. -/
theorem Repeats.arrives (hround : ∀ s, Arrives f Wherever (round s))
    (h : Repeats round s c (.ok (b, c'))) (h' : Repeats round s d r) (hc : f.Abreast c d)
    (hle : c'.passed ≤ f.place) : ∃ d', r = .ok (b, d') ∧ f.Abreast c' d' := by
  generalize hr : Except.ok (b, c') = r₁ at h
  induction h generalizing d with
  | raise => cases hr
  | leave h =>
    cases hr
    obtain ⟨d', hd, hc'⟩ := hround _ hc trivial h hle
    exact ⟨d', h'.eq_of_leave hd, hc'⟩
  | again h _ rest ih =>
    have hleads := (hr ▸ rest : Repeats round _ _ (.ok (b, c'))).leads
    obtain ⟨d', hd, hc'⟩ := hround _ hc trivial h
      (Nat.le_trans (Cursor.StandsIn.passed_le hleads) hle)
    exact ih (h'.of_again hd) hc' hr

theorem arrives_loop {run : Nat → σ → Parse β} {rules : Rules}
    (hloop : Grammar.Loop rules round run) (hr : rules.Over f.tokens) (hr' : rules.Over f.other)
    (hround : ∀ s, Arrives f Wherever (round s)) (s : σ) :
    Arrives f pre (tokensLeft >>= fun n => run n s) := by
  rintro c c' d b hc - hrun hle
  obtain ⟨hunrolls, hpasses⟩ := hloop.unrolls_and_passes hr
  obtain ⟨-, hpasses'⟩ := hloop.unrolls_and_passes hr'
  have h := repeats_of_unrolls hunrolls hpasses hc.stands (Nat.le_refl _) s
  rw [show (run c.tokensLeft s).run c = .ok (b, c') from hrun] at h
  exact h.arrives hround (repeats_of_unrolls hunrolls hpasses' hc.other (Nat.le_refl _) s) hc hle

end

end Parse

namespace Grammar

open Parse Fork

variable {f : Fork} {pre : Cursor → Prop} {rules : Rules}

/-! ## The forms of an expression without operators -/

theorem from_close {α : Type} {tokens : List Token} {i : Nat} {k : TokenKind} {what : String}
    {g : Token → Parse α} (hk : k ≠ .endOfFile) :
    (expect k what >>= g).From tokens i fun j _ => i < j :=
  .token hk fun t _ => fun _ _ _ hc hrun => hc.le_of_leads ((g t).leads hrun)

section

variable (hf : f.Ending)

include hf

theorem arrives_propertyName : Arrives f pre propertyName := by
  refine .of_takes (takes_propertyName.weaken fun _ _ => trivial)
    (.current hf (fun c h => h.2) fun t => ?_)
  refine .ite (fun _ => .bind (arrives_advance hf fun c h => h.1.2) fun _ => .pure) fun _ => ?_
  exact fun _ _ _ _ _ _ hrun => absurd hrun (not_run_expected _ _ _)

theorem arrives_pathRound (names : List String) : Arrives f pre (pathRound names) := by
  refine .bind (arrives_accept hf rfl (by decide)) fun _ => .ite (fun _ => ?_) fun _ => .pure
  exact .bind (arrives_expect hf rfl _) fun _ => .pure

variable (hr : rules.Forks f none)

include hr

theorem arrives_reactive : Arrives f pre reactive := by
  have hpath : Arrives f Wherever (tokensLeft >>= pathFrom) := by
    have h : Arrives f Wherever _ :=
      arrives_loop .path hr.spans hr.spansOther (arrives_pathRound hf) []
    simp only [List.nil_append, id_map'] at h
    exact h
  refine .bind (arrives_expect hf rfl _) fun start => .bind (arrives_expect hf rfl _) fun root => ?_
  change Arrives f Wherever (tokensLeft >>= fun n => pathFrom n >>= _)
  rw [← bind_assoc]
  exact .bind hpath fun path => .bind (arrives_spanFrom _) fun _ => .pure

theorem arrives_arguments : Arrives f pre (arguments rules) := by
  refine .bind (arrives_expect hf rfl _) fun _ => ?_
  refine .bindForks (forks_separated (by decide) .arguments hr.spans hr.spansOther
    (forks_toExpression hr) hr.takesExpression) (fun _ => ?_) fun _ _ => from_close nofun
  exact .bind (arrives_expect hf rfl _) fun _ => .pure

theorem arrives_parenthesized : Arrives f pre (parenthesized rules) := by
  refine .bind (arrives_expect hf rfl _) fun start => ?_
  refine .bind (arrives_accept hf rfl (by decide)) fun _ => .ite (fun _ => ?_) fun _ => ?_
  · exact .bind (arrives_spanFrom _) fun _ => .pure
  refine .bindForks (forks_toExpression hr) (fun first => ?_) fun first i => ?_
  · refine .atKind hf rfl (by decide) fun _ => .ite (fun _ => ?_) fun _ => ?_
    · refine .bindLoop (forks_collect .vector hr.spans hr.spansOther (forks_vectorRound hr))
        (fun rest => ?_) fun _ _ => from_close nofun
      exact .bind (arrives_expect hf rfl _) fun _ => .bind (arrives_spanFrom _) fun _ => .pure
    · exact .bind (arrives_expect hf rfl _) fun _ => .pure
  · refine .ask fun _ _ => .ite (fun _ => .ask fun _ _ => ?_) fun _ => from_close nofun
    exact .bind (from_any _) fun _ j hij _ _ _ _ hc hrun =>
      Nat.lt_of_le_of_lt hij (from_close (k := .rightParen) nofun hc hrun)

theorem arrives_listLiteral : Arrives f pre (listLiteral rules) := by
  refine .bind (arrives_expect hf rfl _) fun _ => ?_
  refine .bindForks (forks_separated (by decide) .elements hr.spans hr.spansOther
    (forks_toExpression hr) hr.takesExpression) (fun _ => ?_) fun _ _ => from_close nofun
  exact .bind (arrives_expect hf rfl _) fun _ => .bind (arrives_spanFrom _) fun _ => .pure

/-- The braces of a map literal end behind its closing one. -/
theorem arrives_bracedEntries : Arrives f pre (braced (mapEntry rules)) := by
  have hclose : ∀ (start : Token) (first : Nat) (items : List MapEntry) (i : Nat),
      (do
        let last ← place
        let _ ← expect .rightBrace "'\x7d'"
        note (.braced first last (← spanFrom start))
        return items : Parse (List MapEntry)).From f.tokens i fun j _ => i < j :=
    fun _ _ _ _ => .ask fun _ _ => from_close nofun
  have hitems : Forks f none false Wherever (tokensLeft >>= bracedFrom (mapEntry rules)) :=
    forks_collect .mapEntries hr.spans hr.spansOther
      (forks_roundUntil .rightBrace (by decide) forks_bracedSeparator (forks_mapEntry hr)
        takes_mapEntry)
  refine .place fun first => .bind (arrives_expect hf rfl _) fun start => ?_
  refine .bindForks forks_skipLayout (fun _ => ?_) fun _ i => .ask fun _ _ =>
    .bind (from_any _) fun items j hij _ =>
      (hclose start first items j).imp fun _ _ _ hlt => by omega
  refine .bindLoop hitems (fun items => .place fun last => ?_) fun items => hclose start first items
  refine .bind (arrives_expect hf rfl _) fun _ => .bind (arrives_spanFrom _) fun span => ?_
  exact .bind (arrives_note _) fun _ => .pure

theorem arrives_mapLiteral : Arrives f pre (mapLiteral rules) := by
  refine .of_takes takes_mapLiteral (.current hf (fun c h => h.2) fun start => ?_)
  exact .bind (arrives_bracedEntries hf hr) fun _ => .bind (arrives_spanFrom _) fun _ => .pure

theorem arrives_primary (hpre : ∀ c, pre c → c.current.kind ≠ .fnWord) :
    Arrives f pre (primary rules) := by
  refine .of_takes takes_primary (.current hf (fun c h => h.2) fun t => ?_)
  have hleaf : ∀ e : Expr, Arrives f (fun c => (pre c ∧ OnContent c) ∧ c.current = t)
      (do let _ ← advance; return e) :=
    fun e => .bind (arrives_advance hf fun c h => h.1.2) fun _ => .pure
  split
  · exact arrives_reactive hf hr
  · rename_i hlambda
    rintro c c' d a - ⟨⟨hc, -⟩, rfl⟩
    exact absurd hlambda (hpre c hc)
  · exact hleaf _
  · exact hleaf _
  · exact hleaf _
  · exact hleaf _
  · exact hleaf _
  · exact arrives_parenthesized hf hr
  · exact arrives_listLiteral hf hr
  · exact arrives_mapLiteral hf hr
  · exact fun _ _ _ _ _ _ hrun => absurd hrun (not_run_expected _ _ _)

theorem arrives_postfixRound (start : Token) (e : Expr) :
    Arrives f pre (postfixRound rules start e) := by
  refine .bind (arrives_accept hf rfl (by decide)) fun _ => .ite (fun _ => ?_) fun _ => ?_
  · exact .bind (arrives_propertyName hf) fun _ => .bind (arrives_spanFrom _) fun _ => .pure
  refine .bind (arrives_accept hf rfl (by decide)) fun _ => .ite (fun _ => ?_) fun _ => ?_
  · refine .bindForks (forks_toExpression hr) (fun _ => ?_) fun _ _ => from_close nofun
    exact .bind (arrives_expect hf rfl _) fun _ => .bind (arrives_spanFrom _) fun _ => .pure
  refine .atKind hf rfl (by decide) fun _ => .ite (fun _ => ?_) fun _ => .pure
  exact .bind (arrives_arguments hf hr) fun _ => .bind (arrives_spanFrom _) fun _ => .pure

/-- A postfix expression that does not start like a lambda. -/
theorem arrives_postfixed (hpre : ∀ c, pre c → c.current.kind ≠ .fnWord) :
    Arrives f pre (postfixed rules) := by
  refine .of_takes (.ask fun _ => .bind takes_primary)
    (.current hf (fun c h => h.2) fun start => ?_)
  refine .bind (arrives_primary hf hr fun c h => hpre c h.1.1) fun e => ?_
  exact arrives_loop (.postfixes start) hr.spans hr.spansOther
    (fun e => arrives_postfixRound hf hr start e) e

end

/-! ## The last token -/

/-- The last token that was passed is one at which the scanner takes an operand to end, or a reserved
    word. -/
def EndsPostfix (tokens : List Token) (i : Nat) : Prop :=
  (kindAt tokens (i - 1)).endsOperand = true ∨ (kindAt tokens (i - 1)).isKeyword = true

section

variable {tokens : List Token} {i : Nat}

theorem endsPostfix_succ {t : Token} (ht : tokens[i]? = some t)
    (hk : t.kind.endsOperand = true ∨ t.kind.isKeyword = true) : EndsPostfix tokens (i + 1) := by
  rw [EndsPostfix, Nat.add_sub_cancel, kindAt, ht]
  exact hk

/-- A token that ends an operand. -/
theorem ends_expect {α : Type} {post : Nat → α → Prop} {k : TokenKind} {what : String}
    {g : Token → Parse α} (hk : k.endsOperand = true)
    (hg : ∀ t j, EndsPostfix tokens j → From tokens j post (g t)) :
    (expect k what >>= g).From tokens i post := by
  rintro c c'' b hc hrun
  obtain ⟨t, c', hexpect, hgb⟩ := run_bind_eq_ok.mp hrun
  obtain ⟨rfl, rfl, rfl⟩ := run_expect hexpect
  have hnext := hc.of_leads (.next c)
  rw [hc.next (by rintro heq; rw [heq] at hk; cases hk)] at hnext
  exact hg _ _ (endsPostfix_succ hc.getElem? (.inl hk)) hnext hgb

theorem from_spanFrom (start : Token) : (spanFrom start).From tokens i fun j _ => j = i :=
  .ask fun _ _ => .pure rfl

/-- What is made of a span where a part ends. -/
theorem ends_ofSpan {α : Type} {start : Token} {g : Span → α} (h : EndsPostfix tokens i) :
    (spanFrom start >>= fun span => pure (g span)).From tokens i fun j _ =>
      EndsPostfix tokens j := by
  refine .bind (from_spanFrom start) fun _ _ _ hj => ?_
  cases hj
  exact .pure h

/-- A token that ends an operand, where it may stand. -/
theorem ends_accept {α : Type} {post : Nat → α → Prop} {k : TokenKind} {p q : Parse α}
    (hk : k.endsOperand = true) (hp : ∀ j, EndsPostfix tokens j → From tokens j post p)
    (hq : From tokens i post q) :
    From tokens i post (accept k >>= fun found => if found then p else q) := by
  rintro c c'' b hc hrun
  obtain ⟨found, c', haccept, hfb⟩ := run_bind_eq_ok.mp hrun
  rcases run_accept haccept with ⟨rfl, rfl, rfl⟩ | ⟨rfl, -, rfl⟩
  · have hnext := hc.of_leads (.next c)
    rw [hc.next (by rintro heq; rw [heq] at hk; cases hk)] at hnext
    exact hp _ (endsPostfix_succ hc.getElem? (.inl hk)) hnext hfb
  · exact hq hc hfb

theorem ends_propertyName : propertyName.From tokens i fun j _ => EndsPostfix tokens j := by
  refine .current fun t ht => .ite (fun hk => ?_) fun _ => from_expected _
  have hends : t.kind.endsOperand = true ∨ t.kind.isKeyword = true := by
    rcases Bool.or_eq_true_iff.mp hk with hk | hk
    · rw [beq_iff_eq.mp hk]
      exact .inl rfl
    · exact .inr hk
  refine .advance ht (fun hend => ?_) (.pure (endsPostfix_succ ht hends))
  rw [hend] at hends
  exact absurd hends (by decide)

theorem ends_pathFrom (bound : Nat) (h : EndsPostfix tokens i) :
    (pathFrom bound).From tokens i fun j _ => EndsPostfix tokens j := by
  induction bound generalizing i with
  | zero => exact from_expected _
  | succ bound ih =>
    refine .token? nofun (ends_expect rfl fun _ _ hj => ?_) (.pure h)
    exact .bind (ih hj) fun _ _ _ hk => .pure hk

theorem ends_reactive : reactive.From tokens i fun j _ => EndsPostfix tokens j := by
  refine .token nofun fun _ _ => ends_expect rfl fun _ _ h => .ask fun _ _ => ?_
  exact .bind (ends_pathFrom _ h) fun _ _ _ hj => ends_ofSpan hj

theorem ends_arguments : (arguments rules).From tokens i fun j _ => EndsPostfix tokens j := by
  refine .token nofun fun _ _ => .bind (from_any _) fun _ _ _ _ => ?_
  exact ends_expect rfl fun _ _ h => .pure h

theorem ends_parenthesized :
    (parenthesized rules).From tokens i fun j _ => EndsPostfix tokens j := by
  refine .token nofun fun start _ => ends_accept rfl (fun _ h => ends_ofSpan h) ?_
  refine .bind (from_any _) fun _ _ _ _ => .ask fun _ _ => ?_
  refine .ite (fun _ => .ask fun _ _ => ?_) fun _ => ?_
  · refine .bind (from_any _) fun _ _ _ _ => ends_expect rfl fun _ _ h => ends_ofSpan h
  · exact ends_expect rfl fun _ _ h => .pure h

theorem ends_listLiteral : (listLiteral rules).From tokens i fun j _ => EndsPostfix tokens j := by
  refine .token nofun fun _ _ => .bind (from_any _) fun _ _ _ _ => ?_
  exact ends_expect rfl fun _ _ h => ends_ofSpan h

theorem ends_mapLiteral : (mapLiteral rules).From tokens i fun j _ => EndsPostfix tokens j := by
  have hbraced : (braced (mapEntry rules)).From tokens i fun j _ => EndsPostfix tokens j := by
    refine .ask fun _ _ => .token nofun fun _ _ => .bind (from_any _) fun _ _ _ _ => ?_
    refine .ask fun _ _ => .bind (from_any _) fun _ _ _ _ => .ask fun _ _ => ?_
    refine ends_expect rfl fun _ _ h => .bind (from_spanFrom _) fun _ _ _ hj => ?_
    cases hj
    refine .bind (from_note _) fun _ _ _ hk => ?_
    cases hk
    exact .pure h
  exact .ask fun _ _ => .bind hbraced fun _ _ _ hj => ends_ofSpan hj

theorem ends_primary (hlambda : kindAt tokens i ≠ .fnWord) :
    (primary rules).From tokens i fun j _ => EndsPostfix tokens j := by
  refine .current fun t ht => ?_
  have hleaf : ∀ e : Expr, t.kind.endsOperand = true →
      (do let _ ← advance; return e : Parse Expr).From tokens i fun j _ => EndsPostfix tokens j :=
    fun e hk => .advance ht (by rintro hend; rw [hend] at hk; cases hk)
      (.pure (endsPostfix_succ ht (.inl hk)))
  split
  · exact ends_reactive
  · rename_i hk
    rw [kindAt, ht] at hlambda
    exact absurd hk hlambda
  · exact hleaf _ (by simp [*, TokenKind.endsOperand])
  · exact hleaf _ (by simp [*, TokenKind.endsOperand])
  · exact hleaf _ (by simp [*, TokenKind.endsOperand])
  · exact hleaf _ (by simp [*, TokenKind.endsOperand])
  · exact hleaf _ (by simp [*, TokenKind.endsOperand])
  · exact ends_parenthesized
  · exact ends_listLiteral
  · exact ends_mapLiteral
  · exact from_expected _

theorem ends_postfixFrom (start : Token) (bound : Nat) (e : Expr) (h : EndsPostfix tokens i) :
    (postfixFrom rules start bound e).From tokens i fun j _ => EndsPostfix tokens j := by
  induction bound generalizing i e with
  | zero => exact from_expected _
  | succ bound ih =>
    have hmore : ∀ {j : Nat} {g : Span → Expr}, EndsPostfix tokens j →
        (spanFrom start >>= fun span => postfixFrom rules start bound (g span)).From tokens j
          fun k _ => EndsPostfix tokens k := by
      intro j g hj
      refine .bind (from_spanFrom start) fun _ _ _ hk => ?_
      cases hk
      exact ih _ hj
    refine .token? nofun (.bind ends_propertyName fun _ _ _ hj => hmore hj) ?_
    refine .token? nofun ?_ (.ask fun _ _ => .ite (fun _ => ?_) fun _ => .pure h)
    · exact .bind (from_any _) fun _ _ _ _ => ends_expect rfl fun _ _ hj => hmore hj
    · exact .bind ends_arguments fun _ _ _ hj => hmore hj

/-- A postfix expression that is no lambda ends with a token at which the scanner takes an operand to
    end, or with a reserved word. -/
theorem ends_postfixed (hlambda : kindAt tokens i ≠ .fnWord) :
    (postfixed rules).From tokens i fun j _ => EndsPostfix tokens j :=
  .ask fun _ _ => .bind (ends_primary hlambda) fun _ _ _ h => .ask fun _ _ =>
    ends_postfixFrom _ _ _ h

end

end Grammar

end EventScript
