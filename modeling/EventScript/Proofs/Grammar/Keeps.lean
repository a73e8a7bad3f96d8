import EventScript.Proofs.Grammar.Parts
import EventScript.Proofs.Grammar.Takes

/-! # What a rule keeps

`Parse.Keeps` is the law that every rule of the grammar obeys on a token list: what it passes and
puts on record nests, and where no layout is passed over, its result satisfies a condition.  As the
result of a rule is only known to satisfy it in hindsight, the condition of a part becomes a premise
of the condition of the whole (`Keeps.bind`), and the law is followed along a rule without it.

* `Cursor.StandsIn`         a cursor stands in a token list that ends with the end of the file
* `Parse.Keeps`             the law
* `Keeps.bind`, `Keeps.ask` one step of a rule
* `keeps_indented`, `keeps_braced`, `keeps_separated`   the ways to read several items
-/

namespace EventScript

/-! ## Places in a token list -/

/-- A cursor stands in a token list, which ends with the end of the file. -/
structure Cursor.StandsIn (tokens : List Token) (c : Cursor) : Prop where
  ended : ∃ body last, tokens = body ++ [last] ∧ last.kind = .endOfFile
  left : c.left = tokens.drop c.passed

namespace Cursor.StandsIn

variable {tokens : List Token} {c c' : Cursor}

theorem of_leads (h : c.StandsIn tokens) (hc : c.Leads c') : c'.StandsIn tokens := by
  obtain ⟨n, hn, hleft⟩ := hc.tokens
  refine ⟨h.ended, ?_⟩
  rw [hleft, h.left, List.drop_drop, hn]

theorem getElem? (h : c.StandsIn tokens) : tokens[c.passed]? = some c.current := by
  have := congrArg (·[0]?) h.left
  simpa [Cursor.left] using this.symm

theorem kindAt (h : c.StandsIn tokens) : kindAt tokens c.passed = c.current.kind := by
  rw [EventScript.kindAt, h.getElem?]
  rfl

/-- Every token but the end of the file has one behind it. -/
theorem rest_ne_nil (h : c.StandsIn tokens) (hc : c.current.kind ≠ .endOfFile) : c.rest ≠ [] := by
  intro hrest
  obtain ⟨body, last, rfl, hlast⟩ := h.ended
  have hget := congrArg List.getLast? h.left
  rw [Cursor.left, hrest, List.getLast?_drop] at hget
  split at hget
  · cases hget
  · rw [List.getLast?_append, List.getLast?_singleton] at hget
    cases hget
    exact hc hlast

/-- Passing any token but the end of the file. -/
theorem next (h : c.StandsIn tokens) (hc : c.current.kind ≠ .endOfFile) :
    c.next.passed = c.passed + 1 ∧ c.next.lastStop = c.current.span.stop ∧
      c.next.readings = c.readings := by
  have hrest := h.rest_ne_nil hc
  unfold Cursor.next Cursor.atEnd
  rw [if_neg (by simpa using hc)]
  cases hr : c.rest with
  | nil => exact absurd hr hrest
  | cons t rest => exact ⟨rfl, rfl, rfl⟩

end Cursor.StandsIn

/-! ## The law -/

namespace Parse

variable {α β γ : Type}

/-- The law of the rules: what is passed and put on record nests, and where no layout is passed over
    in a part of a token list that starts as deep as it should, the result satisfies a condition. -/
def Keeps (tokens : List Token) (braces : Bool) (depth : Int) (pre : Cursor → Prop)
    (post : α → Prop) (p : Parse α) : Prop :=
  ∀ ⦃c c' : Cursor⦄ ⦃a : α⦄, c.StandsIn tokens → pre c → p.run c = .ok (a, c') →
    ∃ rs, c'.readings = rs ++ c.readings ∧ Nests tokens braces c.passed c'.passed rs ∧
      ((∀ r ∈ rs, r.Sound tokens) → depthAt tokens c.passed = depth → post a)

variable {tokens : List Token} {braces : Bool} {depth : Int} {pre : Cursor → Prop}
  {post : α → Prop} {p : Parse α}

namespace Keeps

theorem pure {a : α} (h : post a) : Keeps tokens braces depth pre post (pure a) := by
  rintro c c' _ - - hrun
  cases hrun
  exact ⟨[], rfl, .stay braces c.passed, fun _ _ => h⟩

theorem fail (d : Diagnostic) : Keeps tokens braces depth pre post (fail d) := by
  rintro c c' a - - hrun
  cases hrun

/-- One computation after another. -/
theorem bind {mid : α → Prop} {post : β → Prop} {f : α → Parse β}
    (hp : Keeps tokens braces depth pre mid p)
    (hf : ∀ a, Keeps tokens braces depth (fun _ => True) (fun b => mid a → post b) (f a)) :
    Keeps tokens braces depth pre post (p >>= f) := by
  rintro c c'' b hc hpre hrun
  obtain ⟨a, c', hpa, hfb⟩ := run_bind_eq_ok.mp hrun
  obtain ⟨rs, hrs, hnests, hmid⟩ := hp hc hpre hpa
  obtain ⟨rs', hrs', hnests', hpost⟩ := hf a (hc.of_leads (p.leads hpa)) trivial hfb
  refine ⟨rs' ++ rs, by rw [hrs', hrs, List.append_assoc], hnests.trans hnests', ?_⟩
  intro hsound hdepth
  simp only [List.mem_append, or_imp, forall_and] at hsound
  have hsame := hnests.depthAt_eq_of_sound hsound.2
  exact hpost hsound.1 (hsame.trans hdepth) (hmid hsound.2 hdepth)

/-- Looking at the cursor: what was seen is known of where the rule goes on. -/
theorem ask {post : β → Prop} {g : Cursor → α} {f : α → Parse β}
    (hf : ∀ a, Keeps tokens braces depth (fun c => pre c ∧ g c = a) post (f a)) :
    Keeps tokens braces depth pre post (ask g >>= f) := by
  rintro c c' b hc hpre hrun
  obtain ⟨a, c₁, hg, hfb⟩ := run_bind_eq_ok.mp hrun
  cases hg
  exact hf _ hc ⟨hpre, rfl⟩ hfb

theorem ite {t : Prop} [Decidable t] {q : Parse α}
    (hp : t → Keeps tokens braces depth pre post p)
    (hq : ¬ t → Keeps tokens braces depth pre post q) :
    Keeps tokens braces depth pre post (if t then p else q) := by
  split
  · exact hp ‹_›
  · exact hq ‹_›

theorem imp {post' : α → Prop} (h : ∀ a, post a → post' a)
    (hp : Keeps tokens braces depth pre post p) : Keeps tokens braces depth pre post' p := by
  rintro c c' a hc hpre hrun
  obtain ⟨rs, hrs, hnests, hpost⟩ := hp hc hpre hrun
  exact ⟨rs, hrs, hnests, fun hsound hdepth => h a (hpost hsound hdepth)⟩

theorem weaken {pre' : Cursor → Prop} (h : ∀ c, pre' c → pre c)
    (hp : Keeps tokens braces depth pre post p) : Keeps tokens braces depth pre' post p :=
  fun _ _ _ hc hpre => hp hc (h _ hpre)

/-- What is kept outside of braces is kept between them as well. -/
theorem inBraces (hp : Keeps tokens false depth pre post p) :
    Keeps tokens braces depth pre post p := by
  rintro c c' a hc hpre hrun
  obtain ⟨rs, hrs, hnests, hpost⟩ := hp hc hpre hrun
  exact ⟨rs, hrs, hnests.inBraces braces, hpost⟩

theorem map {post : β → Prop} {f : α → β} (hp : Keeps tokens braces depth pre (post ∘ f) p) :
    Keeps tokens braces depth pre post (f <$> p) :=
  bind hp fun _ => pure id

end Keeps

/-! ## Single tokens -/

/-- The token that a cursor stands on, if it is written out. -/
theorem begins_current {c : Cursor} (hc : c.StandsIn tokens)
    (hkind : c.current.kind.isContent = true) (hdepth : depthAt tokens c.passed = depth) :
    Begins tokens depth c.current.span.start :=
  ⟨c.passed, c.current, hc.getElem?, hkind, rfl, hdepth⟩

theorem keeps_expected (what : String) :
    Keeps tokens braces depth pre post (expected what : Parse α) :=
  .ask fun _ => .fail _

/-- Passing a token that is no part of the layout. -/
theorem nests_next (braces : Bool) {c : Cursor} (hc : c.StandsIn tokens) (hkind : c.current.kind.weight = 0) :
    c.next.readings = c.readings ∧ Nests tokens braces c.passed c.next.passed [] := by
  by_cases hend : c.current.kind = .endOfFile
  · have hsame : c.next = c := by simp [Cursor.next, Cursor.atEnd, hend]
    rw [hsame]
    exact ⟨rfl, .stay braces c.passed⟩
  · obtain ⟨hpassed, -, hreadings⟩ := hc.next hend
    rw [hpassed]
    exact ⟨hreadings, .pass braces (by rw [hc.kindAt, hkind])⟩

/-- Passing a token of a kind that is written out. -/
theorem keeps_advance (h : ∀ c, pre c → c.current.kind.isContent = true) :
    Keeps tokens braces depth pre (fun t => Begins tokens depth t.span.start) advance := by
  rintro c c' t hc hpre hrun
  cases hrun
  obtain ⟨hreadings, hnests⟩ := nests_next braces hc
    (TokenKind.weight_of_isContent (h c hpre))
  exact ⟨[], hreadings, hnests, fun _ hdepth => begins_current hc (h c hpre) hdepth⟩

/-- What takes the token that it starts on begins there. -/
theorem Keeps.begins {t : Token}
    (hp : Keeps tokens braces depth (fun c => pre c ∧ c.current = t) post p)
    (ht : p.Takes fun _ => True) :
    Keeps tokens braces depth (fun c => pre c ∧ c.current = t)
      (fun a => post a ∧ Begins tokens depth t.span.start) p := by
  rintro c c' a hc ⟨hpre, rfl⟩ hrun
  obtain ⟨rs, hrs, hnests, hpost⟩ := hp hc ⟨hpre, rfl⟩ hrun
  exact ⟨rs, hrs, hnests, fun hsound hdepth =>
    ⟨hpost hsound hdepth, begins_current hc (ht trivial hrun).1 hdepth⟩⟩

theorem keeps_expect {k : TokenKind} (hk : k.isContent = true) (what : String) :
    Keeps tokens braces depth pre (fun t => Begins tokens depth t.span.start) (expect k what) := by
  refine .ask fun found => .ite (fun hfound => keeps_advance ?_) fun _ => keeps_expected what
  rintro c ⟨-, rfl⟩
  rwa [beq_iff_eq.mp hfound]

theorem keeps_accept {k : TokenKind} (hk : k.isContent = true) :
    Keeps tokens braces depth pre (fun _ => True) (accept k) := by
  refine .ask fun found => .ite (fun hfound => .bind (keeps_advance ?_) fun _ => ?_) fun _ => ?_
  · rintro c ⟨-, rfl⟩
    rwa [beq_iff_eq.mp hfound]
  · exact .pure fun _ => trivial
  · exact .pure trivial

theorem keeps_optional {k : TokenKind} (hk : k.isContent = true)
    (hp : Keeps tokens braces depth (fun _ => True) post p) :
    Keeps tokens braces depth pre (fun a => ∀ x ∈ a, post x) (optional k p) := by
  refine .bind (keeps_accept hk) fun _ => .ite (fun _ => ?_) fun _ => ?_
  · exact .map (hp.imp fun a ha _ x hx => by cases hx; exact ha)
  · exact .pure fun _ x hx => by cases hx

theorem keeps_spanFrom (start : Token) :
    Keeps tokens braces depth pre (fun s => s.start = start.span.start) (spanFrom start) :=
  .ask fun _ => .pure rfl

/-- Going on without passing a token. -/
theorem keeps_of_same {f : Cursor → α × Cursor} (hp : ∀ c, p.run c = .ok (f c))
    (hf : ∀ c, (f c).2.passed = c.passed ∧ (f c).2.readings = c.readings) :
    Keeps tokens braces depth pre (fun _ => True) p := by
  rintro c c' a - - hrun
  obtain ⟨hpassed, hreadings⟩ := hf c
  rw [hp] at hrun
  have heq : f c = (a, c') := Except.ok.inj hrun
  rw [heq] at hpassed hreadings
  dsimp only at hpassed hreadings
  rw [hpassed]
  exact ⟨[], hreadings, .stay braces c.passed, fun _ _ => trivial⟩

theorem keeps_setLoops (f : Nat → Nat) :
    Keeps tokens braces depth pre (fun _ => True) (setLoops f) :=
  keeps_of_same (fun _ => rfl) fun _ => ⟨rfl, rfl⟩

theorem keeps_insideLoop (hp : Keeps tokens braces depth (fun _ => True) post p) :
    Keeps tokens braces depth pre post (insideLoop p) := by
  refine .bind (keeps_setLoops _) fun _ => .bind hp fun a => .bind (keeps_setLoops _) fun _ => ?_
  exact .pure fun _ ha _ => ha

theorem keeps_outsideLoops (hp : Keeps tokens braces depth (fun _ => True) post p) :
    Keeps tokens braces depth pre post (outsideLoops p) := by
  refine .ask fun _ => .bind (keeps_setLoops _) fun _ => .bind hp fun a =>
    .bind (keeps_setLoops _) fun _ => ?_
  exact .pure fun _ ha _ => ha

/-! ## Layout -/

theorem keeps_skipFrom {test : TokenKind → Bool} {pass : Parse Token}
    (hpass : Keeps tokens braces depth (fun c => test c.current.kind = true) (fun _ => True) pass)
    (bound : Nat) : Keeps tokens braces depth pre (fun _ => True) (skipFrom test pass bound) := by
  induction bound generalizing pre with
  | zero => exact keeps_expected _
  | succ bound ih =>
    refine .ask fun k => .ite (fun hk => .bind (hpass.weaken ?_) fun _ => ?_) fun _ => .pure trivial
    · rintro c ⟨-, rfl⟩
      exact hk
    · exact ih.imp fun _ h _ => h

theorem keeps_skipNewlines : Keeps tokens braces depth pre (fun _ => True) skipNewlines := by
  refine .ask fun bound => keeps_skipFrom ?_ bound
  rintro c c' t hc hkind hrun
  cases hrun
  have hnewline : c.current.kind = .newline := by simpa using hkind
  obtain ⟨hreadings, hnests⟩ := nests_next braces hc (by rw [hnewline]; rfl)
  exact ⟨[], hreadings, hnests, fun _ _ => trivial⟩

/-- Only between braces layout may be skipped. -/
theorem keeps_skipLayout : Keeps tokens true depth pre (fun _ => True) skipLayout := by
  refine .ask fun bound => .bind (keeps_skipFrom ?_ bound) fun _ => ?_
  · rintro c c' t hc hkind hrun
    have hend : c.current.kind ≠ .endOfFile := by
      intro h
      rw [h] at hkind
      cases hkind
    cases hrun
    obtain ⟨hpassed, -, hreadings⟩ := Cursor.StandsIn.next (c := { c with
      readings := .skipped c.passed :: c.readings }) ⟨hc.ended, hc.left⟩ hend
    refine ⟨[.skipped c.passed], hreadings, ?_, fun _ _ => trivial⟩
    rw [hpassed]
    exact .skipped c.passed
  · exact .imp (fun _ h _ => h) (keeps_of_same
      (f := fun c => ((), { c with breaks := c.passed :: c.breaks })) (fun _ => rfl)
      fun _ => ⟨rfl, rfl⟩)

/-- What a schema body does not know may be any token but the end of a block. -/
theorem keeps_passUnknown (hpre : ∀ c, pre c → c.current.kind ≠ .dedent) :
    Keeps tokens braces depth pre (fun _ => True) passUnknown := by
  rintro c c' t hc hc' hrun
  cases hrun
  have hkind := hc.kindAt
  by_cases hend : c.current.kind = .endOfFile
  · refine ⟨[.unknown c.passed], ?_, ?_, fun _ _ => trivial⟩
    · simp [Cursor.next, Cursor.atEnd, hend]
    · rw [hend] at hkind
      simpa [Cursor.next, Cursor.atEnd, hend] using .atEnd braces hkind
  · obtain ⟨hpassed, -, hreadings⟩ := Cursor.StandsIn.next (c := { c with
      readings := .unknown c.passed :: c.readings }) ⟨hc.ended, hc.left⟩ hend
    refine ⟨[.unknown c.passed], hreadings, ?_, fun _ _ => trivial⟩
    rw [hpassed]
    exact .unknown braces (hkind ▸ hpre c hc')

theorem keeps_endStatement : Keeps tokens braces depth pre (fun _ => True) endStatement :=
  .ask fun _ => .ite (fun _ => keeps_skipNewlines) fun _ => keeps_expected _

/-! ## Several items -/

theorem keeps_separator {close : TokenKind} {what : String} :
    Keeps tokens braces depth pre (fun _ => True) (separator close what) :=
  .ask fun _ => .ite
    (fun _ => .bind (keeps_expect rfl what) fun _ => .pure fun _ => trivial) fun _ => .pure trivial

theorem keeps_separatedFrom {close : TokenKind} {what : String}
    (hp : Keeps tokens braces depth (fun _ => True) post p) (bound : Nat) :
    Keeps tokens braces depth pre (fun as => ∀ a ∈ as, post a)
      (separatedFrom close what p bound) := by
  induction bound generalizing pre with
  | zero => exact keeps_expected _
  | succ bound ih =>
    refine .ask fun _ => .ite (fun _ => .pure (by simp)) fun _ => ?_
    refine .bind (hp.weaken fun _ _ => trivial) fun a => ?_
    refine .bind keeps_separator fun _ => .bind ih fun as => ?_
    exact .pure fun has _ ha => List.forall_mem_cons.mpr ⟨ha, has⟩

theorem keeps_separated {close : TokenKind} {what : String}
    (hp : Keeps tokens braces depth (fun _ => True) post p) :
    Keeps tokens braces depth pre (fun as => ∀ a ∈ as, post a) (separated close what p) :=
  .ask fun bound => keeps_separatedFrom hp bound

theorem keeps_bracedSeparator :
    Keeps tokens true depth pre (fun _ => True) Grammar.bracedSeparator := by
  refine .bind keeps_skipLayout fun _ => .bind (keeps_accept rfl) fun _ => ?_
  exact .ite (fun _ => keeps_skipLayout.imp fun _ _ _ _ => trivial) fun _ =>
    .pure fun _ _ => trivial

theorem keeps_bracedFrom (hp : Keeps tokens false depth (fun _ => True) post p) (bound : Nat) :
    Keeps tokens true depth pre (fun as => ∀ a ∈ as, post a) (Grammar.bracedFrom p bound) := by
  induction bound generalizing pre with
  | zero => exact keeps_expected _
  | succ bound ih =>
    refine .ask fun _ => .ite (fun _ => .pure (by simp)) fun _ => ?_
    refine .bind (hp.inBraces.weaken fun _ _ => trivial) fun a => ?_
    refine .bind keeps_bracedSeparator fun _ => .bind ih fun as => ?_
    exact .pure fun has _ ha => List.forall_mem_cons.mpr ⟨ha, has⟩

/-- What stands between two braces is put on record with their places. -/
theorem keeps_braced (hp : Keeps tokens false depth (fun _ => True) post p) :
    Keeps tokens braces depth pre (fun as => ∀ a ∈ as, post a) (Grammar.braced p) := by
  rintro c c' as hc - hrun
  obtain ⟨first, _, hfirst, hrun⟩ := run_bind_eq_ok.mp hrun
  cases hfirst
  obtain ⟨start, _, hopen, hrun⟩ := run_bind_eq_ok.mp hrun
  obtain ⟨hkind, rfl, rfl⟩ := run_expect hopen
  obtain ⟨_, c₁, hskip, hrun⟩ := run_bind_eq_ok.mp hrun
  obtain ⟨bound, _, hbound, hrun⟩ := run_bind_eq_ok.mp hrun
  cases hbound
  obtain ⟨_, c₂, hitems, hrun⟩ := run_bind_eq_ok.mp hrun
  obtain ⟨last, _, hlast, hrun⟩ := run_bind_eq_ok.mp hrun
  cases hlast
  obtain ⟨close, _, hclose, hrun⟩ := run_bind_eq_ok.mp hrun
  obtain ⟨hkind', rfl, rfl⟩ := run_expect hclose
  cases hrun
  -- the two braces are passed, and what is between them is read between braces
  have hc₀ := hc.of_leads (.next c)
  have hc₁ := hc₀.of_leads (skipLayout.leads hskip)
  have hc₂ := hc₁.of_leads ((Grammar.bracedFrom p _).leads hitems)
  obtain ⟨hpassed, -, hreadings⟩ := hc.next (by rw [hkind]; decide)
  obtain ⟨hpassed', hstop, hreadings'⟩ := hc₂.next (by rw [hkind']; decide)
  have hlayout : Keeps tokens true depth (fun _ => True) (fun _ => True) skipLayout :=
    keeps_skipLayout
  have hinside : Keeps tokens true depth (fun _ => True) (fun as => ∀ a ∈ as, post a)
      (Grammar.bracedFrom p c₁.tokensLeft) := keeps_bracedFrom hp _
  obtain ⟨rs, hrs, hnests, -⟩ := hlayout hc₀ trivial hskip
  obtain ⟨rs', hrs', hnests', hpost⟩ := hinside hc₁ trivial hitems
  rw [hpassed] at hnests
  have hopens : kindAt tokens c.passed = .leftBrace := hc.kindAt.trans hkind
  have hcloses : kindAt tokens c₂.passed = .rightBrace := hc₂.kindAt.trans hkind'
  refine ⟨.braced c.passed c₂.passed ⟨c.current.span.start, c₂.next.lastStop⟩ :: (rs' ++ rs),
    ?_, ?_, ?_⟩
  · rw [List.cons_append, List.append_assoc, ← hreadings, ← hrs, ← hrs', ← hreadings']
  · change Nests tokens braces c.passed c₂.next.passed _
    rw [hpassed']
    refine .braced braces hopens (hnests.trans hnests') hcloses ?_ ?_
    · rw [hc.getElem?]
      rfl
    · rw [hc₂.getElem?, hstop]
      rfl
  · intro hsound hdepth
    simp only [List.mem_cons, List.mem_append, or_imp, forall_and] at hsound
    refine hpost hsound.2.1 ?_
    rw [hnests.depthAt_eq_of_sound hsound.2.2, depthAt_succ, hopens, hdepth]
    exact add_zero depth

theorem keeps_itemsFrom
    (hp : Keeps tokens false depth (fun c => c.current.kind ≠ .dedent) post p) (bound : Nat) :
    Keeps tokens false depth pre (fun as => ∀ a ∈ as, post a) (itemsFrom p bound) := by
  induction bound generalizing pre with
  | zero => exact keeps_expected _
  | succ bound ih =>
    refine .ask fun _ => .ite (fun _ => .pure (by simp)) fun _ => ?_
    refine .bind keeps_skipNewlines fun _ => ?_
    refine .ask fun atDedent => .ite (fun _ => .pure (by simp)) fun hnot => ?_
    refine .bind (hp.weaken ?_) fun a => .bind ih fun as => ?_
    · rintro c ⟨-, rfl⟩
      simpa using hnot
    · exact .pure fun has ha _ => List.forall_mem_cons.mpr ⟨ha, has⟩

/-- The tokens of an indented construct are put on record; what stands in it is one block further
    in. -/
theorem keeps_indented {construct : Construct}
    (hp : Keeps tokens false (depth + 1) (fun c => c.current.kind ≠ .dedent) post p) :
    Keeps tokens braces depth pre (fun as => ∀ a ∈ as, post a) (indented construct p) := by
  refine .bind keeps_endStatement fun _ => ?_
  refine .imp (fun _ h _ => h) ?_
  rintro c c' as hc - hrun
  obtain ⟨opening, _, hopening, hrun⟩ := run_bind_eq_ok.mp hrun
  cases hopening
  obtain ⟨token, _, hopen, hrun⟩ := run_bind_eq_ok.mp hrun
  obtain ⟨hkind, rfl, rfl⟩ := run_expect hopen
  obtain ⟨bound, _, hbound, hrun⟩ := run_bind_eq_ok.mp hrun
  cases hbound
  obtain ⟨_, c₁, hitems, hrun⟩ := run_bind_eq_ok.mp hrun
  obtain ⟨closing, _, hclosing, hrun⟩ := run_bind_eq_ok.mp hrun
  cases hclosing
  obtain ⟨closed, c₂, haccept, hrun⟩ := run_bind_eq_ok.mp hrun
  cases hrun
  have hc₀ := hc.of_leads (.next c)
  have hc₁ := hc₀.of_leads ((itemsFrom p _).leads hitems)
  obtain ⟨hpassed, -, hreadings⟩ := hc.next (by rw [hkind]; decide)
  have hall : Keeps tokens false (depth + 1) (fun _ => True) (fun as => ∀ a ∈ as, post a)
      (itemsFrom p c.next.tokensLeft) := keeps_itemsFrom hp _
  obtain ⟨rs, hrs, hnests, hpost⟩ := hall hc₀ trivial hitems
  rw [hpassed] at hnests
  have hopens : kindAt tokens c.passed = .indent := hc.kindAt.trans hkind
  have hinside : (∀ r ∈ rs, r.Sound tokens) → depthAt tokens c.passed = depth →
      ∀ a ∈ as, post a := by
    intro hsound hdepth
    refine hpost hsound ?_
    rw [hpassed, depthAt_succ, hopens, hdepth]
    rfl
  -- either a token closes the construct, or the file has ended
  rcases run_accept haccept with ⟨rfl, hkind', rfl⟩ | ⟨rfl, -, rfl⟩
  · obtain ⟨hpassed', -, hreadings'⟩ := hc₁.next (by rw [hkind']; decide)
    refine ⟨.enclosed construct c.passed (some c₁.passed) :: rs, ?_, ?_, ?_⟩
    · rw [List.cons_append, ← hreadings, ← hrs, ← hreadings']
      rfl
    · change Nests tokens braces c.passed c₁.next.passed _
      rw [hpassed']
      exact .enclosed braces construct hopens hnests (hc₁.kindAt.trans hkind')
    · exact fun hsound => hinside (List.forall_mem_cons.mp hsound).2
  · refine ⟨.enclosed construct c.passed none :: rs, ?_, ?_, ?_⟩
    · rw [List.cons_append, ← hreadings, ← hrs]
      rfl
    · exact .unclosed braces construct hopens hnests
    · exact fun hsound => hinside (List.forall_mem_cons.mp hsound).2

end Parse

end EventScript
