import EventScript.Proofs.Grammar.Places

/-! # What a reading does not depend on

`Parse.Settles` compares two computations from a place of a token list on: they do the same, and
where they give up, they do so at a token of the list.  Two readings of the grammar with different
rules below their levels settle alike, as a rule comes back to another one only behind its first
token, or, where a statement is an expression, at a rule that is settled before it.

* `Parse.Settles`                   the relation
* `Settles.bind`, `Settles.token`   one step of a rule
-/

namespace EventScript

/-- A problem of the grammar that was found at a token of a list. -/
structure Diagnostic.AtToken (tokens : List Token) (d : Diagnostic) : Prop where
  stage : d.problem.stage = .parsing
  excerpt : d.excerpt = none
  span : ∃ t ∈ tokens, ∃ stop, d.span = some ⟨t.span.start, stop⟩

namespace Parse

variable {α β γ : Type} {tokens : List Token} {i : Nat}

/-- From a place of a token list on, two computations do the same, and where they give up, they do
    so at a token of the list. -/
def Settles (tokens : List Token) (i : Nat) (p p' : Parse α) : Prop :=
  ∀ ⦃c : Cursor⦄, c.At tokens i →
    p'.run c = p.run c ∧ ∀ d, p.run c = .error d → d.AtToken tokens

namespace Settles

variable {p p' : Parse α}

/-- A computation that never gives up. -/
theorem of_ok (h : ∀ c, ∃ r, p.run c = .ok r) : Settles tokens i p p := by
  refine fun c _ => ⟨rfl, fun d hd => ?_⟩
  obtain ⟨r, hr⟩ := h c
  cases hr.symm.trans hd

theorem pure (a : α) : Settles tokens i (pure a) (pure a) := of_ok fun _ => ⟨_, rfl⟩

theorem fail {d : Diagnostic} (h : d.AtToken tokens) :
    Settles tokens i (fail d : Parse α) (fail d) := by
  refine fun c _ => ⟨rfl, fun d' hd' => ?_⟩
  cases hd'
  exact h

/-- One computation after another. -/
theorem bind {f f' : α → Parse β} (hp : Settles tokens i p p')
    (hf : ∀ a j, i ≤ j → Settles tokens j (f a) (f' a)) :
    Settles tokens i (p >>= f) (p' >>= f') := by
  intro c hc
  obtain ⟨hsame, herror⟩ := hp hc
  cases hrun : p.run c with
  | error d =>
    rw [run_bind_of_error (hsame.trans hrun), run_bind_of_error hrun]
    refine ⟨rfl, fun d' hd' => ?_⟩
    cases hd'
    exact herror d hrun
  | ok r =>
    rw [run_bind_of_ok (hsame.trans hrun), run_bind_of_ok hrun]
    have hleads := p.leads hrun
    exact hf _ _ (hc.le_of_leads hleads) (hc.of_leads hleads)

theorem ask {g : Cursor → α} {f f' : α → Parse β}
    (hf : ∀ c, c.At tokens i → Settles tokens i (f (g c)) (f' (g c))) :
    Settles tokens i (ask g >>= f) (ask g >>= f') :=
  fun c hc => hf c hc hc

/-- The current token. -/
theorem current {f f' : Token → Parse β}
    (hf : ∀ t, tokens[i]? = some t → Settles tokens i (f t) (f' t)) :
    Settles tokens i (current >>= f) (current >>= f') :=
  ask fun c hc => hf c.current hc.getElem?

theorem ite {t : Prop} [Decidable t] {q q' : Parse α} (hp : t → Settles tokens i p p')
    (hq : ¬ t → Settles tokens i q q') :
    Settles tokens i (if t then p else q) (if t then p' else q') := by
  split
  · exact hp ‹_›
  · exact hq ‹_›

/-- Behind the end of a token list there is no cursor. -/
theorem of_length_le (h : tokens.length ≤ i) : Settles tokens i p p' :=
  fun _ hc => absurd (List.getElem?_eq_some_iff.mp hc.getElem?).1 (Nat.not_lt_of_le h)

theorem map {f : α → β} (hp : Settles tokens i p p') : Settles tokens i (f <$> p) (f <$> p') :=
  bind hp fun _ _ _ => pure _

end Settles

variable {p p' : Parse α}

/-! ## Single tokens -/

theorem atToken_located {problem : Problem} {t : Token} {stop : Location} (ht : tokens[i]? = some t)
    (hstage : problem.stage = .parsing) :
    (Diagnostic.located problem ⟨t.span.start, stop⟩).AtToken tokens :=
  ⟨hstage, rfl, t, List.mem_of_getElem? ht, stop, rfl⟩

theorem settles_expected (what : String) :
    Settles tokens i (expected what : Parse α) (expected what) := by
  refine .current fun t ht => .fail (atToken_located ht ?_)
  split <;> rfl

theorem settles_advance : Settles tokens i advance advance := .of_ok fun _ => ⟨_, rfl⟩

/-- Passing a token; the end of the file stays. -/
theorem Settles.advance {f f' : Token → Parse β}
    (hf : ∀ t j, tokens[i]? = some t → i ≤ j → (t.kind ≠ .endOfFile → j = i + 1) →
      Settles tokens j (f t) (f' t)) :
    Settles tokens i (advance >>= f) (advance >>= f') :=
  fun c hc => hf c.current c.next.passed hc.getElem? (hc.le_of_leads (.next c)) hc.next
    (hc.of_leads (.next c))

theorem settles_expect (k : TokenKind) (what : String) :
    Settles tokens i (expect k what) (expect k what) :=
  .ask fun _ _ => .ite (fun _ => settles_advance) fun _ => settles_expected what

/-- A token of a kind that must stand here. -/
theorem Settles.token {k : TokenKind} {what : String} {f f' : Token → Parse β}
    (hk : k ≠ .endOfFile) (hf : ∀ t, tokens[i]? = some t → Settles tokens (i + 1) (f t) (f' t)) :
    Settles tokens i (expect k what >>= f) (expect k what >>= f') := by
  intro c hc
  cases hrun : (expect k what).run c with
  | error d =>
    rw [run_bind_of_error hrun, run_bind_of_error hrun]
    refine ⟨rfl, fun d' hd' => ?_⟩
    cases hd'
    exact (settles_expect k what hc).2 d hrun
  | ok r =>
    obtain ⟨hkind, ht, hc'⟩ := run_expect hrun
    rw [run_bind_of_ok hrun, run_bind_of_ok hrun, ht, hc']
    have hnext := hc.of_leads (.next c)
    rw [hc.next (by rwa [hkind])] at hnext
    exact hf _ hc.getElem? hnext

/-- A token of a kind that may stand here. -/
theorem Settles.token? {k : TokenKind} {q q' : Parse α} (hk : k ≠ .endOfFile)
    (hfound : Settles tokens (i + 1) p p') (hnot : Settles tokens i q q') :
    Settles tokens i (accept k >>= fun found => if found then p else q)
      (accept k >>= fun found => if found then p' else q') := by
  intro c hc
  by_cases hkind : c.current.kind = k
  · rw [run_bind_of_ok (run_accept_of_kind hkind), run_bind_of_ok (run_accept_of_kind hkind)]
    have hnext := hc.of_leads (.next c)
    rw [hc.next (by rwa [hkind])] at hnext
    exact hfound hnext
  · rw [run_bind_of_ok (run_accept_of_ne hkind), run_bind_of_ok (run_accept_of_ne hkind)]
    exact hnot hc

theorem settles_accept (k : TokenKind) : Settles tokens i (accept k) (accept k) :=
  .ask fun _ _ => .ite (fun _ => .bind settles_advance fun _ _ _ => .pure _) fun _ => .pure _

theorem settles_optional {k : TokenKind} (hk : k ≠ .endOfFile) (hp : Settles tokens (i + 1) p p') :
    Settles tokens i (optional k p) (optional k p') :=
  .token? hk (.map hp) (.pure _)

theorem settles_spanFrom (start : Token) : Settles tokens i (spanFrom start) (spanFrom start) :=
  .ask fun _ _ => .pure _

/-- The end of most rules: a node with the span from its first token on. -/
theorem settles_ofSpan {start : Token} {f : Span → α} :
    Settles tokens i (do return f (← spanFrom start)) (do return f (← spanFrom start)) :=
  .bind (settles_spanFrom start) fun _ _ _ => .pure _

theorem settles_note (r : Reading) : Settles tokens i (note r) (note r) := .of_ok fun _ => ⟨_, rfl⟩

theorem settles_setLoops (f : Nat → Nat) : Settles tokens i (setLoops f) (setLoops f) :=
  .of_ok fun _ => ⟨_, rfl⟩

theorem settles_insideLoop (hp : ∀ j, i ≤ j → Settles tokens j p p') :
    Settles tokens i (insideLoop p) (insideLoop p') :=
  .bind (settles_setLoops _) fun _ j hij => .bind (hp j hij) fun _ _ _ =>
    .bind (settles_setLoops _) fun _ _ _ => .pure _

theorem settles_outsideLoops (hp : ∀ j, i ≤ j → Settles tokens j p p') :
    Settles tokens i (outsideLoops p) (outsideLoops p') :=
  .ask fun _ _ => .bind (settles_setLoops _) fun _ j hij => .bind (hp j hij) fun _ _ _ =>
    .bind (settles_setLoops _) fun _ _ _ => .pure _

/-! ## Several tokens and items -/

theorem settles_skipFrom {test : TokenKind → Bool} {pass : Parse Token}
    (hpass : ∀ j, Settles tokens j pass pass) (bound : Nat) :
    Settles tokens i (skipFrom test pass bound) (skipFrom test pass bound) := by
  induction bound generalizing i with
  | zero => exact settles_expected _
  | succ bound ih =>
    exact .ask fun _ _ => .ite (fun _ => .bind (hpass i) fun _ _ _ => ih) fun _ => .pure _

theorem settles_skipNewlines : Settles tokens i skipNewlines skipNewlines :=
  .ask fun _ _ => settles_skipFrom (fun _ => settles_advance) _

theorem settles_skipLayout : Settles tokens i skipLayout skipLayout := by
  refine .ask fun _ _ => .bind (settles_skipFrom (fun _ => ?_) _) fun _ _ _ =>
    .of_ok fun _ => ⟨_, rfl⟩
  exact .ask fun _ _ => .bind (settles_note _) fun _ _ _ => settles_advance

theorem settles_endStatement : Settles tokens i endStatement endStatement :=
  .ask fun _ _ => .ite (fun _ => settles_skipNewlines) fun _ => settles_expected _

theorem settles_separatedFrom {close : TokenKind} {what : String}
    (hp : ∀ j, i ≤ j → Settles tokens j p p') (bound : Nat) :
    Settles tokens i (separatedFrom close what p bound) (separatedFrom close what p' bound) := by
  induction bound generalizing i with
  | zero => exact settles_expected _
  | succ bound ih =>
    refine .ask fun _ _ => .ite (fun _ => .pure _) fun _ => ?_
    refine .bind (hp i (Nat.le_refl i)) fun a j hij => ?_
    refine .bind (.ask fun _ _ => .ite (fun _ => ?_) fun _ => .pure _) fun _ k hjk => ?_
    · exact .bind (settles_expect _ _) fun _ _ _ => .pure _
    · exact .bind (ih fun m hkm => hp m (by omega)) fun _ _ _ => .pure _

theorem settles_separated {close : TokenKind} {what : String}
    (hp : ∀ j, i ≤ j → Settles tokens j p p') :
    Settles tokens i (separated close what p) (separated close what p') :=
  .ask fun _ _ => settles_separatedFrom hp _

theorem settles_bracedFrom (hp : ∀ j, i ≤ j → Settles tokens j p p') (bound : Nat) :
    Settles tokens i (Grammar.bracedFrom p bound) (Grammar.bracedFrom p' bound) := by
  induction bound generalizing i with
  | zero => exact settles_expected _
  | succ bound ih =>
    refine .ask fun _ _ => .ite (fun _ => .pure _) fun _ => ?_
    refine .bind (hp i (Nat.le_refl i)) fun a j hij => ?_
    have hseparator : ∀ j, Settles tokens j Grammar.bracedSeparator Grammar.bracedSeparator :=
      fun j => .bind settles_skipLayout fun _ _ _ => .bind (settles_accept _) fun _ _ _ =>
        .ite (fun _ => settles_skipLayout) fun _ => .pure _
    refine .bind (hseparator j) fun _ k hjk => ?_
    exact .bind (ih fun m hkm => hp m (by omega)) fun _ _ _ => .pure _

/-- The items between two braces stand behind the first one. -/
theorem settles_braced (hp : ∀ j, i < j → Settles tokens j p p') :
    Settles tokens i (Grammar.braced p) (Grammar.braced p') := by
  refine .ask fun _ _ => .token nofun fun start _ => .bind settles_skipLayout fun _ j hij => ?_
  refine .ask fun _ _ => .bind (settles_bracedFrom (fun k hk => hp k (by omega)) _) fun as k _ => ?_
  refine .ask fun _ _ => .bind (settles_expect _ _) fun _ _ _ => ?_
  exact .bind (settles_spanFrom _) fun _ _ _ => .bind (settles_note _) fun _ _ _ => .pure _

theorem settles_itemsFrom (hp : ∀ j, i ≤ j → Settles tokens j p p') (bound : Nat) :
    Settles tokens i (itemsFrom p bound) (itemsFrom p' bound) := by
  induction bound generalizing i with
  | zero => exact settles_expected _
  | succ bound ih =>
    refine .ask fun _ _ => .ite (fun _ => .pure _) fun _ => ?_
    refine .bind settles_skipNewlines fun _ j hij => ?_
    refine .ask fun _ _ => .ite (fun _ => .pure _) fun _ => .bind (hp j hij) fun a k hjk => ?_
    exact .bind (ih fun m hkm => hp m (by omega)) fun _ _ _ => .pure _

/-- The items of an indented construct stand behind the token that opens it. -/
theorem settles_indented {construct : Construct} (hp : ∀ j, i < j → Settles tokens j p p') :
    Settles tokens i (indented construct p) (indented construct p') := by
  refine .bind settles_endStatement fun _ j hij => .ask fun _ _ => .token nofun fun _ _ => ?_
  refine .ask fun _ _ => .bind (settles_itemsFrom (fun k hk => hp k (by omega)) _) fun as k _ => ?_
  refine .ask fun _ _ => .bind (settles_accept _) fun _ _ _ => ?_
  exact .bind (settles_note _) fun _ _ _ => .pure _

end Parse

end EventScript
