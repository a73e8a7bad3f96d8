import EventScript.Proofs.Grammar.Spread

/-! # Where in a token list a rule reads

`Parse.From` follows a rule from a place of a token list on: whatever the rule leads to satisfies a
condition at the place that it has come to.  A place is known exactly as long as single tokens are
passed, and behind a part of unknown length it is known to be further on.

* `Cursor.At`                a cursor has come to a place
* `Parse.From`               the law
* `From.bind`, `From.token`  one step of a rule
* `Successive`               the items of a list were read one behind the other
* `from_separated`, `from_braced`, `from_indented`   the ways to read several items
-/

namespace EventScript

/-- A cursor has come to a place of a token list, and knows where the token before it ended. -/
structure Cursor.At (tokens : List Token) (i : Nat) (c : Cursor) : Prop where
  standsIn : c.StandsIn tokens
  passed : c.passed = i
  lastStop : 0 < i → tokens[i - 1]?.map (·.span.stop) = some c.lastStop

namespace Cursor.At

variable {tokens : List Token} {i : Nat} {c c' : Cursor}

theorem of_leads (h : c.At tokens i) (hc : c.Leads c') : c'.At tokens c'.passed := by
  refine ⟨h.standsIn.of_leads hc, rfl, fun hpos => ?_⟩
  by_cases hlt : c.passed < c'.passed
  · exact h.standsIn.lastStop hc hlt
  · -- no token was passed, so the last one is the same as before
    have hsame : c'.passed = c.passed :=
      Nat.le_antisymm (Nat.le_of_not_lt hlt) (StandsIn.passed_le hc)
    rcases hc.stop with ⟨-, hlast⟩ | ⟨n, _, hn, -⟩
    · rw [hlast, hsame, h.passed]
      exact h.lastStop (by rw [← h.passed, ← hsame]; exact hpos)
    · omega

theorem le_of_leads (h : c.At tokens i) (hc : c.Leads c') : i ≤ c'.passed :=
  h.passed ▸ StandsIn.passed_le hc

theorem getElem? (h : c.At tokens i) : tokens[i]? = some c.current :=
  h.passed ▸ h.standsIn.getElem?

theorem kindAt (h : c.At tokens i) : kindAt tokens i = c.current.kind :=
  h.passed ▸ h.standsIn.kindAt

theorem next (h : c.At tokens i) (hkind : c.current.kind ≠ .endOfFile) :
    c.next.passed = i + 1 := by
  rw [(h.standsIn.next hkind).1, h.passed]

end Cursor.At

/-- Something holds of the items of a list one by one, each in its part of a token list, and these
    parts follow each other between two places. -/
def Successive {α : Type} (R : Nat → Nat → α → Prop) (i j : Nat) : List α → Prop
  | [] => i ≤ j
  | a :: as => ∃ k m, i ≤ k ∧ k ≤ m ∧ R k m a ∧ Successive R m j as

namespace Successive

variable {α β : Type} {R : Nat → Nat → α → Prop} {S : Nat → Nat → β → Prop} {i i' j j' k : Nat}

theorem le {as : List α} (h : Successive R i j as) : i ≤ j := by
  induction as generalizing i with
  | nil => exact h
  | cons a as ih =>
    obtain ⟨k, m, hk, hkm, -, has⟩ := h
    exact Nat.le_trans hk (Nat.le_trans hkm (ih has))

theorem mono {as : List α} (h : Successive R i j as) (hi : i' ≤ i) (hj : j ≤ j') :
    Successive R i' j' as := by
  induction as generalizing i i' with
  | nil => exact Nat.le_trans hi (Nat.le_trans h hj)
  | cons a as ih =>
    obtain ⟨k, m, hk, hkm, ha, has⟩ := h
    exact ⟨k, m, Nat.le_trans hi hk, hkm, ha, ih has (Nat.le_refl _)⟩

theorem of_mem {as : List α} (h : Successive R i j as) {a : α} (ha : a ∈ as) :
    ∃ k m, i ≤ k ∧ m ≤ j ∧ R k m a := by
  induction as generalizing i with
  | nil => cases ha
  | cons b as ih =>
    obtain ⟨k, m, hk, hkm, hb, has⟩ := h
    rcases List.mem_cons.mp ha with rfl | ha
    · exact ⟨k, m, hk, has.le, hb⟩
    · obtain ⟨k', m', hk', hm', ha⟩ := ih has ha
      exact ⟨k', m', Nat.le_trans hk (Nat.le_trans hkm hk'), hm', ha⟩

theorem singleton {a : α} (hij : i ≤ j) (h : R i j a) : Successive R i j [a] :=
  ⟨i, j, Nat.le_refl i, hij, h, Nat.le_refl j⟩

/-- Some of the items are kept, and turned into other ones. -/
theorem filterMap {f : α → Option β} (hf : ∀ k m a b, f a = some b → R k m a → S k m b)
    {as : List α} (h : Successive R i j as) : Successive S i j (as.filterMap f) := by
  induction as generalizing i with
  | nil => exact h
  | cons a as ih =>
    obtain ⟨k, m, hk, hkm, ha, has⟩ := h
    rw [List.filterMap_cons]
    split
    · exact (ih has).mono (Nat.le_trans hk hkm) (Nat.le_refl j)
    · exact ⟨k, m, hk, hkm, hf k m a _ ‹_› ha, ih has⟩

/-- Some of the items come to lists of their own, which are joined. -/
theorem flatMap {f : α → List β}
    (hf : ∀ k m a, R k m a → Successive S k m (f a)) {as : List α} (h : Successive R i j as) :
    Successive S i j (as.flatMap f) := by
  have happend : ∀ {bs bs' : List β} {i k j : Nat}, Successive S i k bs → Successive S k j bs' →
      Successive S i j (bs ++ bs') := by
    intro bs
    induction bs with
    | nil => exact fun hbs hbs' => hbs'.mono hbs (Nat.le_refl _)
    | cons b bs ih =>
      rintro bs' i k j ⟨k', m, hk, hkm, hb, hbs⟩ hbs'
      exact ⟨k', m, hk, hkm, hb, ih hbs hbs'⟩
  induction as generalizing i with
  | nil => exact h
  | cons a as ih =>
    obtain ⟨k, m, hk, -, ha, has⟩ := h
    rw [List.flatMap_cons]
    exact happend ((hf k m a ha).mono hk (Nat.le_refl _)) (ih has)

end Successive

namespace Parse

variable {α β γ : Type} {tokens : List Token} {i j : Nat}

/-- From a place of a token list on, a computation leads to results that satisfy a condition at the
    place that it has come to. -/
def From (tokens : List Token) (i : Nat) (post : Nat → α → Prop) (p : Parse α) : Prop :=
  ∀ ⦃c c' : Cursor⦄ ⦃a : α⦄, c.At tokens i → p.run c = .ok (a, c') → post c'.passed a

namespace From

variable {post : Nat → α → Prop} {p : Parse α}

theorem pure {a : α} (h : post i a) : From tokens i post (pure a) := by
  rintro c c' _ hc hrun
  cases hrun
  exact hc.passed ▸ h

theorem fail (d : Diagnostic) : From tokens i post (fail d) := by
  rintro c c' a - hrun
  cases hrun

/-- One computation after another. -/
theorem bind {mid : Nat → α → Prop} {post : Nat → β → Prop} {f : α → Parse β}
    (hp : From tokens i mid p) (hf : ∀ a j, i ≤ j → mid j a → From tokens j post (f a)) :
    From tokens i post (p >>= f) := by
  rintro c c'' b hc hrun
  obtain ⟨a, c', hpa, hfb⟩ := run_bind_eq_ok.mp hrun
  have hleads := p.leads hpa
  exact hf a c'.passed (hc.le_of_leads hleads) (hp hc hpa) (hc.of_leads hleads) hfb

theorem ask {post : Nat → β → Prop} {g : Cursor → α} {f : α → Parse β}
    (hf : ∀ c, c.At tokens i → From tokens i post (f (g c))) :
    From tokens i post (ask g >>= f) := by
  rintro c c' b hc hrun
  obtain ⟨a, _, hg, hfb⟩ := run_bind_eq_ok.mp hrun
  cases hg
  exact hf c hc hc hfb

/-- The current token. -/
theorem current {post : Nat → β → Prop} {f : Token → Parse β}
    (hf : ∀ t, tokens[i]? = some t → From tokens i post (f t)) :
    From tokens i post (current >>= f) :=
  ask fun c hc => hf c.current hc.getElem?

theorem ite {t : Prop} [Decidable t] {q : Parse α} (hp : t → From tokens i post p)
    (hq : ¬ t → From tokens i post q) : From tokens i post (if t then p else q) := by
  split
  · exact hp ‹_›
  · exact hq ‹_›

theorem imp {post' : Nat → α → Prop} (hp : From tokens i post p)
    (h : ∀ j a, i ≤ j → post j a → post' j a) : From tokens i post' p :=
  fun _ c' a hc hrun => h c'.passed a (hc.le_of_leads (p.leads hrun)) (hp hc hrun)

theorem map {post : Nat → β → Prop} {f : α → β} (hp : From tokens i (fun j a => post j (f a)) p) :
    From tokens i post (f <$> p) :=
  bind hp fun _ _ _ h => pure h

end From

section

variable {post : Nat → α → Prop} {p : Parse α}

/-! ## Single tokens -/

theorem from_expected (what : String) : From tokens i post (expected what : Parse α) :=
  .ask fun _ _ => .fail _

/-- Passing a token; the end of the file stays. -/
theorem from_advance :
    From tokens i (fun j t => tokens[i]? = some t ∧ (t.kind ≠ .endOfFile → j = i + 1)) advance := by
  rintro c c' t hc hrun
  cases hrun
  exact ⟨hc.getElem?, hc.next⟩

/-- Passing a token that is known. -/
theorem From.advance {post : Nat → β → Prop} {f : Token → Parse β} {t : Token}
    (ht : tokens[i]? = some t) (hkind : t.kind ≠ .endOfFile)
    (hf : From tokens (i + 1) post (f t)) : From tokens i post (advance >>= f) := by
  refine .bind from_advance fun u j _ h => ?_
  obtain ⟨hu, hj⟩ := h
  cases ht.symm.trans hu
  obtain rfl := hj hkind
  exact hf

/-- A token of a kind that must stand here. -/
theorem From.token {post : Nat → β → Prop} {k : TokenKind} {what : String} {f : Token → Parse β}
    (hk : k ≠ .endOfFile) (hf : ∀ t, tokens[i]? = some t → From tokens (i + 1) post (f t)) :
    From tokens i post (expect k what >>= f) := by
  rintro c c'' b hc hrun
  obtain ⟨t, c', hexpect, hfb⟩ := run_bind_eq_ok.mp hrun
  obtain ⟨hkind, rfl, rfl⟩ := run_expect hexpect
  have hnext := hc.of_leads (.next c)
  rw [hc.next (by rwa [hkind])] at hnext
  exact hf c.current hc.getElem? hnext hfb

/-- A token of a kind that may stand here. -/
theorem From.token? {k : TokenKind} {q : Parse α} (hk : k ≠ .endOfFile)
    (hfound : From tokens (i + 1) post p) (hnot : From tokens i post q) :
    From tokens i post (accept k >>= fun found => if found then p else q) := by
  rintro c c'' b hc hrun
  obtain ⟨found, c', haccept, hfb⟩ := run_bind_eq_ok.mp hrun
  rcases run_accept haccept with ⟨rfl, hkind, rfl⟩ | ⟨rfl, -, rfl⟩
  · have hnext := hc.of_leads (.next c)
    rw [hc.next (by rwa [hkind])] at hnext
    exact hfound hnext hfb
  · exact hnot hc hfb

theorem from_optional {k : TokenKind} (hk : k ≠ .endOfFile) (hp : From tokens (i + 1) post p) :
    From tokens i (fun j o => ∀ a ∈ o, post j a) (optional k p) := by
  refine .token? hk (.map (hp.imp fun j a _ ha x hx => ?_)) (.pure nofun)
  cases hx
  exact ha

/-- The span from a token to the last one that was passed. -/
theorem From.span {post : Nat → β → Prop} {start : Token} {f : Span → Parse β}
    (hstart : tokens[i]? = some start) (hij : i < j)
    (hf : ∀ span, Covers tokens i (j - 1) span → From tokens j post (f span)) :
    From tokens j post (spanFrom start >>= f) := by
  have hspan : From tokens j (fun k s => k = j ∧ Covers tokens i (j - 1) s) (spanFrom start) := by
    -- some token was passed, so that the cursor knows where the last one ended
    refine .ask fun c hc => .pure ⟨rfl, by omega, ?_, hc.lastStop (by omega)⟩
    rw [hstart]
    rfl
  refine .bind hspan fun span k _ h => ?_
  obtain ⟨rfl, hcovers⟩ := h
  exact hf span hcovers

theorem from_note (r : Reading) : From tokens i (fun j _ => j = i) (note r) := by
  rintro c c' _ hc hrun
  cases hrun
  exact hc.passed

theorem from_setLoops (f : Nat → Nat) : From tokens i (fun j _ => j = i) (setLoops f) := by
  rintro c c' _ hc hrun
  cases hrun
  exact hc.passed

theorem from_insideLoop (hp : From tokens i post p) : From tokens i post (insideLoop p) := by
  refine .bind (from_setLoops _) fun _ _ _ h => ?_
  cases h
  refine .bind hp fun a j _ ha => .bind (from_setLoops _) fun _ _ _ h => ?_
  cases h
  exact .pure ha

theorem from_outsideLoops (hp : From tokens i post p) : From tokens i post (outsideLoops p) := by
  refine .ask fun _ _ => .bind (from_setLoops _) fun _ _ _ h => ?_
  cases h
  refine .bind hp fun a j _ ha => .bind (from_setLoops _) fun _ _ _ h => ?_
  cases h
  exact .pure ha

/-- Wherever a computation leads to, that is known to be further on. -/
theorem from_any (p : Parse α) : From tokens i (fun _ _ => True) p := fun _ _ _ _ _ => trivial

/-! ## Several items -/

variable {R : Nat → Nat → α → Prop}

/-- One more item, and what separates it from those behind it. -/
theorem From.cons {q : Parse γ} {rest : Parse (List α)} (hp : From tokens i (R i) p)
    (hrest : ∀ j, i ≤ j → From tokens j (fun k as => Successive R j k as) rest) :
    From tokens i (fun j as => Successive R i j as)
      (do let a ← p; let _ ← q; return a :: (← rest)) := by
  refine .bind hp fun a j hij ha => .bind (from_any q) fun _ k hjk _ => ?_
  refine .bind (hrest k (Nat.le_trans hij hjk)) fun as m _ has => .pure ?_
  exact ⟨i, j, Nat.le_refl i, hij, ha, has.mono hjk (Nat.le_refl m)⟩

theorem from_separatedFrom {close : TokenKind} {what : String}
    (hp : ∀ j, i ≤ j → From tokens j (R j) p) (bound : Nat) :
    From tokens i (fun j as => Successive R i j as) (separatedFrom close what p bound) := by
  induction bound generalizing i with
  | zero => exact from_expected _
  | succ bound ih =>
    refine .ask fun _ _ => .ite (fun _ => .pure (Nat.le_refl i)) fun _ => ?_
    exact .cons (hp i (Nat.le_refl i)) fun j hij => ih fun k hjk => hp k (Nat.le_trans hij hjk)

theorem from_separated {close : TokenKind} {what : String}
    (hp : ∀ j, i ≤ j → From tokens j (R j) p) :
    From tokens i (fun j as => Successive R i j as) (separated close what p) :=
  .ask fun _ _ => from_separatedFrom hp _

theorem from_bracedFrom (hp : ∀ j, i ≤ j → From tokens j (R j) p) (bound : Nat) :
    From tokens i (fun j as => Successive R i j as) (Grammar.bracedFrom p bound) := by
  induction bound generalizing i with
  | zero => exact from_expected _
  | succ bound ih =>
    refine .ask fun _ _ => .ite (fun _ => .pure (Nat.le_refl i)) fun _ => ?_
    exact .cons (hp i (Nat.le_refl i)) fun j hij => ih fun k hjk => hp k (Nat.le_trans hij hjk)

/-- The items between two braces; the braces are passed as well. -/
theorem from_braced (hp : ∀ j, i ≤ j → From tokens j (R j) p) :
    From tokens i (fun j as => i < j ∧ Successive R i j as) (Grammar.braced p) := by
  refine .ask fun _ _ => .token nofun fun start hstart => ?_
  -- layout behind the first brace comes before all items
  refine .bind (from_any _) fun _ j hij _ => .ask fun _ _ => ?_
  refine .bind (from_bracedFrom (fun k hk => hp k (by omega)) _) fun as k hjk has => ?_
  refine .ask fun _ _ => .token nofun fun _ _ => .span hstart (by omega) fun _ _ => ?_
  refine .bind (from_any _) fun _ m hkm _ => .pure ⟨by omega, ?_⟩
  exact has.mono (by omega) (by omega)

/-- An item of an indented construct does not start where that ends. -/
theorem from_itemsFrom (hp : ∀ j, i ≤ j → kindAt tokens j ≠ .dedent → From tokens j (R j) p)
    (bound : Nat) : From tokens i (fun j as => Successive R i j as) (itemsFrom p bound) := by
  induction bound generalizing i with
  | zero => exact from_expected _
  | succ bound ih =>
    refine .ask fun _ _ => .ite (fun _ => .pure (Nat.le_refl i)) fun _ => ?_
    -- empty statements in front of an item belong to none
    refine .bind (from_any _) fun _ j hij _ => .ask fun c hc => ?_
    refine .ite (fun _ => .pure hij) fun hnot => ?_
    have hkind : kindAt tokens j ≠ .dedent := by
      rw [hc.kindAt]
      simpa using hnot
    refine .bind (hp j hij hkind) fun a k hjk ha => ?_
    refine .bind (ih fun m hkm => hp m (by omega)) fun as m _ has => .pure ?_
    exact ⟨j, k, hij, hjk, ha, has⟩

/-- The items of an indented construct; the token that opens it is passed. -/
theorem from_indented {construct : Construct}
    (hp : ∀ j, i ≤ j → kindAt tokens j ≠ .dedent → From tokens j (R j) p) :
    From tokens i (fun j as => i < j ∧ Successive R i j as) (indented construct p) := by
  refine .bind (from_any _) fun _ j hij _ => .ask fun _ _ => .token nofun fun _ _ => ?_
  refine .ask fun _ _ => ?_
  refine .bind (from_itemsFrom (fun k hk => hp k (by omega)) _) fun as k hjk has => ?_
  refine .ask fun _ _ => .bind (from_any _) fun _ m hkm _ => ?_
  refine .bind (from_any _) fun _ n hmn _ => .pure ⟨by omega, ?_⟩
  exact has.mono (by omega) (by omega)

end

end Parse

end EventScript
