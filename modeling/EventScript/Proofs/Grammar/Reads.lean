import EventScript.Proofs.Grammar.Takes

/-! # Reading given tokens

`Parse.Reads` says of a computation what it does before given tokens: it succeeds, passes just these
tokens, and its result satisfies a condition.  A rule is followed from its first token to its last;
what it reads is split where the rule goes on (`Reads.bind`).

* `Reads.bind`, `Reads.expect`, `Reads.accept`   one step of a rule
* `Reads.notAccept`, `Reads.notKind`             a token that does not stand there
* `Reads.spanFrom`, `Reads.tokensLeft`           what a rule asks without passing a token
-/

namespace EventScript

namespace Parse

variable {α β γ : Type}

/-- From every cursor that stands before given tokens, a computation passes these tokens, which are
    not the last ones, and comes to a result that satisfies a condition. -/
def Reads (p : Parse α) (ts rest : List Token) (post : α → Prop) : Prop :=
  ∀ ⦃c : Cursor⦄, c.left = ts ++ rest → rest ≠ [] →
    ∃ a d, p.run c = .ok (a, d) ∧ d.left = rest ∧ post a

variable {p : Parse α} {ts us rest : List Token} {t : Token} {post : α → Prop}

/-- The first one of several tokens satisfies a condition. -/
def Heads (ts : List Token) (cond : TokenKind → Prop) : Prop := ∀ t ∈ ts.head?, cond t.kind

@[simp] theorem heads_cons {cond : TokenKind → Prop} : Heads (t :: ts) cond ↔ cond t.kind := by
  simp [Heads]

theorem Heads.imp {cond cond' : TokenKind → Prop} (h : Heads ts cond)
    (himp : ∀ k, cond k → cond' k) : Heads ts cond' :=
  fun t ht => himp _ (h t ht)

/-- The token that a cursor stands on. -/
theorem Heads.current {cond : TokenKind → Prop} {c : Cursor} (h : Heads ts cond)
    (hc : c.left = ts) : cond c.current.kind := by
  subst hc
  exact h _ rfl

theorem current_of_left {c : Cursor} (hc : c.left = t :: ts) : c.current = t ∧ c.rest = ts :=
  List.cons.inj hc

/-- Passing a token that is not the last one. -/
theorem left_next {c : Cursor} (hc : c.left = t :: ts) (ht : t.kind ≠ .endOfFile) (hts : ts ≠ []) :
    c.next.left = ts := by
  obtain ⟨rfl, hrest⟩ := current_of_left hc
  unfold Cursor.next Cursor.atEnd
  rw [if_neg (by simpa using ht), hrest]
  cases ts with
  | nil => exact absurd rfl hts
  | cons u us => rfl

namespace Reads

theorem pure {a : α} (h : post a) : (Pure.pure a : Parse α).Reads [] rest post :=
  fun c hc _ => ⟨a, c, rfl, hc, h⟩

/-- One computation after another. -/
theorem bind {mid : α → Prop} {post : β → Prop} {f : α → Parse β}
    (hp : p.Reads ts (us ++ rest) mid) (hf : ∀ a, mid a → (f a).Reads us rest post) :
    (p >>= f).Reads (ts ++ us) rest post := by
  intro c hc hrest
  obtain ⟨a, d, hpa, hd, ha⟩ := hp (by rw [hc, List.append_assoc]) (by simp [hrest])
  obtain ⟨b, e, hfb, he, hb⟩ := hf a ha hd hrest
  exact ⟨b, e, run_bind_eq_ok.mpr ⟨a, d, hpa, hfb⟩, he, hb⟩

/-- A computation that passes all tokens, and what is made of its result. -/
theorem bindLast {mid : α → Prop} {post : β → Prop} {f : α → Parse β} (hp : p.Reads ts rest mid)
    (hf : ∀ a, mid a → (f a).Reads [] rest post) : (p >>= f).Reads ts rest post := by
  have h : (p >>= f).Reads (ts ++ []) rest post := .bind hp hf
  rwa [List.append_nil] at h

/-- A computation that passes no token, before another one. -/
theorem bindStay {mid : α → Prop} {post : β → Prop} {f : α → Parse β}
    (hp : p.Reads [] (ts ++ rest) mid) (hf : ∀ a, mid a → (f a).Reads ts rest post) :
    (p >>= f).Reads ts rest post :=
  .bind hp hf

/-- The tokens passed are not the last ones. -/
theorem of_rest (h : rest ≠ [] → p.Reads ts rest post) : p.Reads ts rest post :=
  fun _ hc hrest => h hrest hc hrest

theorem imp {post' : α → Prop} (hp : p.Reads ts rest post) (h : ∀ a, post a → post' a) :
    p.Reads ts rest post' := by
  intro c hc hrest
  obtain ⟨a, d, hpa, hd, ha⟩ := hp hc hrest
  exact ⟨a, d, hpa, hd, h a ha⟩

theorem map {post : β → Prop} {f : α → β} (hp : p.Reads ts rest fun a => post (f a)) :
    (f <$> p).Reads ts rest post := by
  intro c hc hrest
  obtain ⟨a, d, hpa, hd, ha⟩ := hp hc hrest
  exact ⟨f a, d, run_bind_eq_ok.mpr ⟨a, d, hpa, rfl⟩, hd, ha⟩

/-- Looking at the cursor, where it is known what is seen. -/
theorem ask {g : Cursor → γ} {x : γ} {f : γ → Parse α} (hg : ∀ c, c.left = ts ++ rest → g c = x)
    (hf : (f x).Reads ts rest post) : (Parse.ask g >>= f).Reads ts rest post := by
  intro c hc hrest
  obtain ⟨a, d, hfa, hd⟩ := hf hc hrest
  exact ⟨a, d, run_bind_eq_ok.mpr ⟨x, c, by rw [run_ask, hg c hc], hfa⟩, hd⟩

/-- Looking at the cursor, whatever is seen. -/
theorem askAny {g : Cursor → γ} {f : γ → Parse α} (hf : ∀ x, (f x).Reads ts rest post) :
    (Parse.ask g >>= f).Reads ts rest post := by
  intro c hc hrest
  obtain ⟨a, d, hfa, hd⟩ := hf (g c) hc hrest
  exact ⟨a, d, run_bind_eq_ok.mpr ⟨g c, c, rfl, hfa⟩, hd⟩

theorem spanFrom {start : Token} {f : Span → Parse α} (hf : ∀ span, (f span).Reads ts rest post) :
    (Parse.spanFrom start >>= f).Reads ts rest post := by
  intro c hc hrest
  obtain ⟨a, d, hfa, hd⟩ := hf ⟨start.span.start, c.lastStop⟩ hc hrest
  exact ⟨a, d, run_bind_eq_ok.mpr ⟨_, c, rfl, hfa⟩, hd⟩

theorem tokensLeft {f : Nat → Parse α} (hf : (f (ts ++ rest).length).Reads ts rest post) :
    (Parse.tokensLeft >>= f).Reads ts rest post :=
  .ask (fun c hc => by rw [← hc]; rfl) hf

theorem current {f : Token → Parse α} (hf : (f t).Reads (t :: ts) rest post) :
    (Parse.current >>= f).Reads (t :: ts) rest post :=
  .ask (fun _ hc => (current_of_left hc).1) hf

/-! ## Single tokens -/

theorem advance {f : Token → Parse α} (ht : t.kind ≠ .endOfFile) (hf : (f t).Reads ts rest post) :
    (Parse.advance >>= f).Reads (t :: ts) rest post := by
  intro c hc hrest
  have hnext := left_next hc ht (by simp [hrest])
  obtain ⟨a, d, hfa, hd⟩ := hf hnext hrest
  exact ⟨a, d, run_bind_eq_ok.mpr ⟨t, c.next, by rw [← (current_of_left hc).1]; rfl, hfa⟩, hd⟩

theorem expect {k : TokenKind} {what : String} {f : Token → Parse α} (ht : t.kind = k)
    (hk : k ≠ .endOfFile) (hf : (f t).Reads ts rest post) :
    (Parse.expect k what >>= f).Reads (t :: ts) rest post := by
  intro c hc hrest
  have hcurrent := (current_of_left hc).1
  obtain ⟨a, d, hfa, hd⟩ := hf (left_next hc (ht ▸ hk) (by simp [hrest])) hrest
  refine ⟨a, d, run_bind_eq_ok.mpr ⟨t, c.next, ?_, hfa⟩, hd⟩
  rw [run_expect_of_kind (hcurrent ▸ ht), hcurrent]

theorem accept {k : TokenKind} {f : Bool → Parse α} (ht : t.kind = k) (hk : k ≠ .endOfFile)
    (hf : (f true).Reads ts rest post) : (Parse.accept k >>= f).Reads (t :: ts) rest post := by
  intro c hc hrest
  obtain ⟨a, d, hfa, hd⟩ := hf (left_next hc (ht ▸ hk) (by simp [hrest])) hrest
  exact ⟨a, d, run_bind_eq_ok.mpr
    ⟨true, c.next, run_accept_of_kind ((current_of_left hc).1 ▸ ht), hfa⟩, hd⟩

theorem notAccept {k : TokenKind} {f : Bool → Parse α} (h : Heads (ts ++ rest) (· ≠ k))
    (hf : (f false).Reads ts rest post) : (Parse.accept k >>= f).Reads ts rest post := by
  intro c hc hrest
  obtain ⟨a, d, hfa, hd⟩ := hf hc hrest
  exact ⟨a, d, run_bind_eq_ok.mpr ⟨false, c, run_accept_of_ne (h.current hc), hfa⟩, hd⟩

theorem atKind {k : TokenKind} {f : Bool → Parse α} (h : Heads (ts ++ rest) (· = k))
    (hf : (f true).Reads ts rest post) : (Parse.atKind k >>= f).Reads ts rest post :=
  .ask (fun _ hc => beq_iff_eq.mpr (h.current hc)) hf

theorem notKind {k : TokenKind} {f : Bool → Parse α} (h : Heads (ts ++ rest) (· ≠ k))
    (hf : (f false).Reads ts rest post) : (Parse.atKind k >>= f).Reads ts rest post :=
  .ask (fun _ hc => beq_false_of_ne (h.current hc)) hf

/-- Where there is no layout, none is skipped. -/
theorem skipLayout (h : Heads rest (·.isLayout = false)) :
    Parse.skipLayout.Reads [] rest fun _ => True := by
  intro c hc _
  have hstop : ∀ bound, (skipFrom TokenKind.isLayout passLayout (bound + 1)).run c = .ok ((), c) :=
    fun bound => run_bind_eq_ok.mpr ⟨_, c, rfl, by rw [if_neg (by simpa using h.current hc)]; rfl⟩
  refine ⟨(), { c with breaks := c.passed :: c.breaks }, ?_, hc, trivial⟩
  exact run_bind_eq_ok.mpr ⟨_, c, rfl, run_bind_eq_ok.mpr ⟨(), c, hstop c.rest.length, rfl⟩⟩

theorem note {r : Reading} {f : Unit → Parse α} (hf : (f ()).Reads ts rest post) :
    (Parse.note r >>= f).Reads ts rest post := by
  intro c hc hrest
  obtain ⟨a, d, hfa, hd⟩ := @hf { c with readings := r :: c.readings } hc hrest
  exact ⟨a, d, run_bind_eq_ok.mpr ⟨(), _, rfl, hfa⟩, hd⟩

end Reads

end Parse

end EventScript
