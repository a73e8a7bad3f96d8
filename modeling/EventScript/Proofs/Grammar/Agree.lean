import EventScript.Proofs.Grammar.Padding

/-! # Two readings that agree

`Parse.Agrees` relates two computations, where the first one is part of a reading whose end is known:
if the first one leads to a result, so does the second one from a cursor beside that of the first,
their results are related, and their cursors stand beside each other again.  At the end of a
statement the reading may turn out to be blocked; then nothing is said of the second one.

* `Parse.Agrees`                the relation
* `Agrees.bind`, `Agrees.ask`   one step of a rule
* `Agrees.facing`               a rule that passes its first token starts before the same token
* `agrees_braced`, `agrees_closed`, `agrees_indented`   the ways to read several items
-/

namespace EventScript

namespace Parse

open Walk

variable {α β γ : Type}

/-- Computations with the same runs are the same. -/
theorem ext {p q : Parse α} (h : ∀ c, p.run c = q.run c) : p = q := by
  cases p
  cases q
  obtain rfl := funext h
  rfl

instance : LawfulMonad Parse :=
  LawfulMonad.mk' Parse
    (fun p => ext fun c => by
      change (Parse.bind p fun a => Parse.pure a).run c = p.run c
      simp only [Parse.bind, Parse.pure]
      split <;> simp_all)
    (fun a f => rfl)
    (fun p f g => ext fun c => by
      change (Parse.bind (Parse.bind p f) g).run c = (Parse.bind p fun a => Parse.bind (f a) g).run c
      simp only [Parse.bind]
      cases p.run c <;> rfl)

/-- Two computations agree. -/
def Agrees (w : Walk) (exit : Cursor → Prop) (pre : Cursor → Cursor → Prop) (post : α → α → Prop)
    (p p' : Parse α) : Prop :=
  ∀ ⦃c c' d : Cursor⦄ ⦃a : α⦄, w.Beside c c' → pre c c' → p.run c = .ok (a, d) → d.Leads w.last →
    exit d ∨ ∃ a' d', p'.run c' = .ok (a', d') ∧ post a a' ∧ w.Beside d d'

/-- There is nothing to be known of two cursors. -/
def Anywhere (_ _ : Cursor) : Prop := True

/-- The reading is not blocked. -/
def Never (_ : Cursor) : Prop := False

variable {w : Walk} {exit : Cursor → Prop} {pre : Cursor → Cursor → Prop} {post : α → α → Prop}
  {p p' : Parse α}

namespace Agrees

theorem pure {a a' : α} (h : post a a') :
    Agrees w exit pre post (Pure.pure a) (Pure.pure a') := by
  rintro c c' d _ hc - hrun -
  cases hrun
  exact .inr ⟨a', c', rfl, h, hc⟩

theorem fail {d : Diagnostic} : Agrees w exit pre post (Parse.fail d) p' := by
  rintro c c' _ a - - hrun
  cases hrun

/-- One computation after another, where something is known of the place in between. -/
theorem bindRun {mid : α → α → Prop} {post : β → β → Prop} {f f' : α → Parse β} {q : Cursor → Prop}
    (hp : Agrees w Never pre mid p p') (hq : ∀ ⦃c d a⦄, p.run c = .ok (a, d) → q d)
    (hf : ∀ a a', mid a a' → Agrees w exit (fun c _ => q c) post (f a) (f' a')) :
    Agrees w exit pre post (p >>= f) (p' >>= f') := by
  rintro c c' e b hc hpre hrun hlast
  obtain ⟨a, d, hpa, hfb⟩ := run_bind_eq_ok.mp hrun
  obtain ⟨a', d', hpa', hmid, hd⟩ := (hp hc hpre hpa (((f a).leads hfb).trans hlast)).resolve_left id
  exact (hf a a' hmid hd (hq hpa) hfb hlast).imp_right fun ⟨b', e', hfb', hpost, he⟩ =>
    ⟨b', e', run_bind_eq_ok.mpr ⟨a', d', hpa', hfb'⟩, hpost, he⟩

/-- One computation after another. -/
theorem bind {mid : α → α → Prop} {post : β → β → Prop} {f f' : α → Parse β}
    (hp : Agrees w Never pre mid p p')
    (hf : ∀ a a', mid a a' → Agrees w exit Anywhere post (f a) (f' a')) :
    Agrees w exit pre post (p >>= f) (p' >>= f') :=
  .bindRun (q := fun _ => True) hp (fun _ _ _ _ => trivial) hf

/-- A statement after which the reading goes on: it is not blocked there if what follows passes the
    next token. -/
theorem bindTaking {mid : α → α → Prop} {post : β → β → Prop} {f f' : α → Parse β}
    (hp : Agrees w w.Blocked pre mid p p')
    (ht : ∀ a, (f a).Takes fun c => c.current.kind.isContent = true)
    (hf : ∀ a a', mid a a' → Agrees w exit Anywhere post (f a) (f' a')) :
    Agrees w exit pre post (p >>= f) (p' >>= f') := by
  rintro c c' e b hc hpre hrun hlast
  obtain ⟨a, d, hpa, hfb⟩ := run_bind_eq_ok.mp hrun
  rcases hp hc hpre hpa (((f a).leads hfb).trans hlast) with hblocked | ⟨a', d', hpa', hmid, hd⟩
  · exact absurd ((ht a hblocked.content hfb).2.trans hlast) hblocked.ahead
  · exact (hf a a' hmid hd trivial hfb hlast).imp_right fun ⟨b', e', hfb', hpost, he⟩ =>
      ⟨b', e', run_bind_eq_ok.mpr ⟨a', d', hpa', hfb'⟩, hpost, he⟩

/-- Looking at the cursors: what was seen is known of where the rule goes on. -/
theorem ask {g : Cursor → γ} {f f' : γ → Parse α}
    (hf : ∀ x x', Agrees w exit (fun c c' => pre c c' ∧ g c = x ∧ g c' = x') post (f x) (f' x')) :
    Agrees w exit pre post (Parse.ask g >>= f) (Parse.ask g >>= f') := by
  rintro c c' d b hc hpre hrun hlast
  obtain ⟨x, _, hg, hfb⟩ := run_bind_eq_ok.mp hrun
  cases hg
  rcases hf (g c) (g c') hc ⟨hpre, rfl, rfl⟩ hfb hlast with hexit | ⟨b', d', hfb', hpost, hd⟩
  · exact .inl hexit
  · exact .inr ⟨b', d', run_bind_eq_ok.mpr ⟨g c', c', rfl, hfb'⟩, hpost, hd⟩

theorem ite {t : Prop} [Decidable t] {q q' : Parse α} (hp : t → Agrees w exit pre post p p')
    (hq : ¬ t → Agrees w exit pre post q q') :
    Agrees w exit pre post (if t then p else q) (if t then p' else q') := by
  split
  · exact hp ‹_›
  · exact hq ‹_›

theorem weaken {pre' : Cursor → Cursor → Prop} (h : ∀ c c', pre' c c' → pre c c')
    (hp : Agrees w exit pre post p p') : Agrees w exit pre' post p p' :=
  fun _ _ _ _ hc hpre => hp hc (h _ _ hpre)

theorem imp {post' : α → α → Prop} (h : ∀ a a', post a a' → post' a a')
    (hp : Agrees w exit pre post p p') : Agrees w exit pre post' p p' := by
  rintro c c' d a hc hpre hrun hlast
  exact (hp hc hpre hrun hlast).imp_right fun ⟨a', d', hrun', hpost, hd⟩ =>
    ⟨a', d', hrun', h a a' hpost, hd⟩

/-- A rule that is never blocked. -/
theorem free (hp : Agrees w Never pre post p p') : Agrees w exit pre post p p' :=
  fun _ _ _ _ hc hpre hrun hlast => .inr ((hp hc hpre hrun hlast).resolve_left id)

theorem map {post : β → β → Prop} {f f' : α → β}
    (hp : Agrees w exit pre (fun a a' => post (f a) (f' a')) p p') :
    Agrees w exit pre post (f <$> p) (f' <$> p') := by
  rintro c c' e b hc hpre hrun hlast
  obtain ⟨a, d, hpa, hfa⟩ := run_bind_eq_ok.mp hrun
  cases hfa
  exact (hp hc hpre hpa hlast).imp_right fun ⟨a', d', hpa', hpost, hd⟩ =>
    ⟨f' a', d', run_bind_eq_ok.mpr ⟨a', d', hpa', rfl⟩, hpost, hd⟩

/-- What is known of the first computation alone. -/
theorem and_run {q : α → Prop} (hp : Agrees w exit pre post p p')
    (hq : ∀ ⦃c d a⦄, c.StandsIn w.tokens → p.run c = .ok (a, d) → d.Leads w.last → q a) :
    Agrees w exit pre (fun a a' => post a a' ∧ q a) p p' := by
  rintro c c' d a hc hpre hrun hlast
  exact (hp hc hpre hrun hlast).imp_right fun ⟨a', d', hrun', hpost, hd⟩ =>
    ⟨a', d', hrun', ⟨hpost, hq hc.stands hrun hlast⟩, hd⟩

/-- A rule that starts where both cursors stand before the same token. -/
theorem of_facing (h : ∀ c c', w.Beside c c' → pre c c' → Facing c c')
    (hp : Agrees w exit (fun c c' => pre c c' ∧ Facing c c') post p p') :
    Agrees w exit pre post p p' :=
  fun _ _ _ _ hc hpre => hp hc ⟨hpre, h _ _ hc hpre⟩

/-- A rule that passes the token that it starts on, if that is written out, starts before the same
    token. -/
theorem facing (ht : p.Takes fun c => c.current.kind.isContent = true)
    (hp : Agrees w exit (fun c c' => pre c c' ∧ Facing c c') post p p') :
    Agrees w exit pre post p p' := by
  rintro c c' d a hc hpre hrun hlast
  refine hp hc ⟨hpre, ?_⟩ hrun hlast
  by_cases hk : c.current.kind.isContent = true
  · exact hc.facing_of_next ((ht hk hrun).2.trans hlast)
  · exact hc.facing_of_not_content (Bool.eq_false_iff.mpr hk)

/-- Looking at something that is the same for both cursors. -/
theorem askSame {g : Cursor → γ} {f f' : γ → Parse α} (hg : ∀ c c', pre c c' → g c' = g c)
    (hf : ∀ x, Agrees w exit (fun c c' => pre c c' ∧ g c = x) post (f x) (f' x)) :
    Agrees w exit pre post (Parse.ask g >>= f) (Parse.ask g >>= f') := by
  rintro c c' d b hc hpre hrun hlast
  obtain ⟨x, _, hx, hfb⟩ := run_bind_eq_ok.mp hrun
  cases hx
  rcases hf (g c) hc ⟨hpre, rfl⟩ hfb hlast with hexit | ⟨b', d', hfb', hpost, hd⟩
  · exact .inl hexit
  · refine .inr ⟨b', d', run_bind_eq_ok.mpr ⟨g c, c', ?_, hfb'⟩, hpost, hd⟩
    rw [run_ask, hg c c' hpre]

/-- Looking at the kind of the current token where further layout may stand before it. -/
theorem onKind {g : TokenKind → γ} {f f' : γ → Parse α}
    (hfacing : ∀ k, Agrees w exit (fun c c' => Facing c c' ∧ c.current.kind = k) post
      (f (g k)) (f' (g k)))
    (hbehind : ∀ k k', k.isContent = true → k'.isLayout = true →
      (f (g k)).Takes (fun c => c.current.kind = k) ∨
        Agrees w exit Anywhere post (f (g k)) (f' (g k'))) :
    Agrees w exit pre post (Parse.ask (fun c => g c.current.kind) >>= f)
      (Parse.ask (fun c => g c.current.kind) >>= f') := by
  refine .ask fun x x' => ?_
  rintro c c' d b hc ⟨-, rfl, rfl⟩ hrun hlast
  rcases hc.facing_or_behind with hf | hb
  · rw [hf.kind]
    exact hfacing _ hc ⟨hf, rfl⟩ hrun hlast
  · rcases hbehind _ _ hb.content hb.layout with ht | hp
    · exact absurd ((ht rfl hrun).2.trans hlast) (hc.blocked hb).ahead
    · exact hp hc trivial hrun hlast

/-- Looking for something that the first reading would pass and that is no further layout: it is
    seen from both cursors or from none. -/
theorem ifSeen {g : Parse Bool} {f : Cursor → Bool} {q q' : Parse α}
    (hg : ∀ c, g.run c = .ok (f c, c))
    (hseen : ∀ c c', w.Beside c c' → pre c c' → ∀ d a, f c = true → p.run c = .ok (a, d) →
      d.Leads w.last → f c' = true)
    (hback : ∀ c c', w.Beside c c' → pre c c' → f c' = true → f c = true)
    (hp : Agrees w exit (fun c c' => pre c c' ∧ f c = true ∧ f c' = true) post p p')
    (hq : Agrees w exit pre post q q') :
    Agrees w exit pre post (g >>= fun found => if found = true then p else q)
      (g >>= fun found => if found = true then p' else q') := by
  rintro c c' d a hc hpre hrun hlast
  obtain ⟨found, _, hfound, hrun⟩ := run_bind_eq_ok.mp hrun
  cases (hg c).symm.trans hfound
  suffices h : exit d ∨ ∃ a' d', (if f c' = true then p' else q').run c' = .ok (a', d') ∧
      post a a' ∧ w.Beside d d' from
    h.imp_right fun ⟨a', d', h, hd⟩ => ⟨a', d', run_bind_eq_ok.mpr ⟨_, c', hg c', h⟩, hd⟩
  cases hf : f c with
  | true =>
    rw [hf, if_pos rfl] at hrun
    have hf' := hseen c c' hc hpre d a hf hrun hlast
    rw [if_pos hf']
    exact hp hc ⟨hpre, hf, hf'⟩ hrun hlast
  | false =>
    rw [hf, if_neg (by decide)] at hrun
    have hf' : f c' ≠ true := by
      intro hf'
      rw [hback c c' hc hpre hf'] at hf
      cases hf
    rw [if_neg hf']
    exact hq hc hpre hrun hlast

/-- Looking for a token that the first reading would pass. -/
theorem ifToken (test : Token → Bool) {q q' : Parse α}
    (hlayout : ∀ t, t.kind.isLayout = true → test t = false)
    (hsame : ∀ t t', t.Same t' → test t' = test t)
    (ht : p.Takes fun c => test c.current = true)
    (hp : Agrees w exit (fun c c' => pre c c' ∧ Facing c c') post p p')
    (hq : Agrees w exit pre post q q') :
    Agrees w exit pre post
      (Parse.ask (fun c => test c.current) >>= fun found => if found = true then p else q)
      (Parse.ask (fun c => test c.current) >>= fun found => if found = true then p' else q') := by
  have hfacing : ∀ {c c'}, w.Beside c c' → test c'.current = true → Facing c c' := by
    refine fun hc hfound => hc.facing_of_not_layout (Bool.eq_false_iff.mpr fun hk => ?_)
    rw [hlayout _ hk] at hfound
    cases hfound
  refine .ifSeen (fun _ => rfl) (fun c c' hc _ d a hf hrun hlast => ?_)
    (fun c c' hc _ hf => by rwa [← hsame _ _ (hfacing hc hf)]) ?_ hq
  · rwa [hsame _ _ (hc.facing_of_next ((ht hf hrun).2.trans hlast))]
  · intro c c' d a hc ⟨hpre, _, hf⟩
    exact hp hc ⟨hpre, hfacing hc hf⟩

/-- Two cursors before the same token: what the rule does with it may only depend on what the two
    have in common. -/
theorem current {f f' : Token → Parse α} (hpre : ∀ c c', pre c c' → Facing c c')
    (hf : ∀ t t', t.Same t' → Agrees w exit (fun c c' => pre c c' ∧ c.current = t) post (f t) (f' t')) :
    Agrees w exit pre post (Parse.current >>= f) (Parse.current >>= f') := by
  refine .ask fun t t' => ?_
  rintro c c' d a hc ⟨hp, rfl, rfl⟩
  exact hf _ _ (hpre c c' hp) hc ⟨hp, rfl⟩

/-- The end of a statement, behind which nothing is passed. -/
theorem bindStay {mid : α → α → Prop} {post : β → β → Prop} {f f' : α → Parse β}
    (hp : Agrees w exit pre mid p p') (hstay : ∀ a c b e, (f a).run c = .ok (b, e) → e = c)
    (hf : ∀ a a', mid a a' → Agrees w exit Anywhere post (f a) (f' a')) :
    Agrees w exit pre post (p >>= f) (p' >>= f') := by
  rintro c c' e b hc hpre hrun hlast
  obtain ⟨a, d, hpa, hfb⟩ := run_bind_eq_ok.mp hrun
  obtain rfl := hstay _ _ _ _ hfb
  rcases hp hc hpre hpa hlast with hexit | ⟨a', d', hpa', hmid, hd⟩
  · exact .inl hexit
  · exact (hf a a' hmid hd trivial hfb hlast).imp_right fun ⟨b', e', hfb', hpost, he⟩ =>
      ⟨b', e', run_bind_eq_ok.mpr ⟨a', d', hpa', hfb'⟩, hpost, he⟩

end Agrees

/-! ## Single tokens -/

theorem agrees_expected (what : String) :
    Agrees w exit pre post (expected what) p' :=
  fun _ _ _ _ _ _ hrun => absurd hrun (not_run_expected _ _ _)

/-- Passing the same token. -/
theorem agrees_advance (hpre : ∀ c c', pre c c' → Facing c c') :
    Agrees w exit pre Token.Same advance advance := by
  rintro c c' d t hc hp hrun -
  cases hrun
  exact .inr ⟨c'.current, c'.next, rfl, hpre c c' hp, hc.next (hpre c c' hp)⟩

theorem agrees_expect (k : TokenKind) (what : String) :
    Agrees w exit pre Token.Same (expect k what) (expect k what) := by
  rintro c c' d t hc - hrun hlast
  obtain ⟨hk, rfl, rfl⟩ := run_expect hrun
  have hf := hc.facing_of_next hlast
  exact .inr ⟨_, _, run_expect_of_kind (hf.kind.trans hk), hf, hc.next hf⟩

theorem agrees_accept {k : TokenKind} (hk : k.isLayout = false) :
    Agrees w exit pre Eq (accept k) (accept k) := by
  rintro c c' d t hc - hrun hlast
  rcases run_accept hrun with ⟨rfl, hkind, rfl⟩ | ⟨rfl, hkind, rfl⟩
  · have hf := hc.facing_of_next hlast
    exact .inr ⟨_, _, run_accept_of_kind (hf.kind.trans hkind), rfl, hc.next hf⟩
  · refine .inr ⟨_, _, run_accept_of_ne ?_, rfl, hc⟩
    rintro rfl
    exact hkind (hc.facing_of_not_layout hk).kind.symm

theorem Agrees.ifAccept {k : TokenKind} (hk : k.isLayout = false) {q q' : Parse α}
    (hp : Agrees w exit Anywhere post p p') (hq : Agrees w exit Anywhere post q q') :
    Agrees w exit pre post (accept k >>= fun found => if found = true then p else q)
      (accept k >>= fun found => if found = true then p' else q') := by
  refine .bind (agrees_accept hk) ?_
  rintro found _ rfl
  exact .ite (fun _ => hp) fun _ => hq

/-- Before the same token, there may be layout to be passed. -/
theorem agrees_acceptFacing {k : TokenKind} (hpre : ∀ c c', pre c c' → Facing c c') :
    Agrees w exit pre Eq (accept k) (accept k) := by
  refine .askSame (fun c c' h => ?_) fun found => .ite (fun _ => ?_) fun _ => .pure rfl
  · rw [(hpre c c' h).kind]
  · exact .bind (agrees_advance fun c c' h => hpre c c' h.1) fun _ _ _ => .pure rfl

theorem agrees_optional {k : TokenKind} (hk : k.isLayout = false)
    (hp : Agrees w Never Anywhere post p p') :
    Agrees w exit pre (Option.Rel post) (optional k p) (optional k p') := by
  refine .bind (agrees_accept hk) ?_
  rintro found _ rfl
  exact .ite (fun _ => .map (hp.free.imp fun _ _ h => .some h)) fun _ => .pure .none

theorem agrees_spanFrom (start start' : Token) :
    Agrees w exit pre (fun _ _ => True) (spanFrom start) (spanFrom start') :=
  .ask fun _ _ => .pure trivial

theorem agrees_note (r r' : Reading) :
    Agrees w exit pre (fun _ _ => True) (note r) (note r') := by
  rintro c c' d a hc - hrun -
  cases hrun
  exact .inr ⟨(), _, rfl, trivial, hc.stands.of_leads ((note r).leads rfl), hc.left, hc.loops,
    hc.noted, hc.faced⟩

/-- The bounds of the loops: the second one is not less. -/
theorem Agrees.tokensLeft {f f' : Nat → Parse α}
    (hf : ∀ n n', n ≤ n' → Agrees w exit pre post (f n) (f' n')) :
    Agrees w exit pre post (tokensLeft >>= f) (tokensLeft >>= f') := by
  refine .ask fun n n' => ?_
  rintro c c' d b hc ⟨hpre, rfl, rfl⟩ hrun hlast
  exact hf _ _ hc.tokensLeft_le hc hpre hrun hlast

/-! ## Loops -/

theorem agrees_setLoops (f : Nat → Nat) :
    Agrees w exit pre (fun _ _ => True) (setLoops f) (setLoops f) := by
  rintro c c' d a hc - hrun -
  cases hrun
  refine .inr ⟨(), _, rfl, trivial, hc.stands.of_leads ((setLoops f).leads rfl), hc.left, ?_,
    hc.noted, hc.faced⟩
  rw [hc.loops]

/-- The number of loops around is the same. -/
theorem Agrees.loops {f f' : Nat → Parse α}
    (hf : ∀ n, Agrees w exit pre post (f n) (f' n)) :
    Agrees w exit pre post (Parse.ask Cursor.loops >>= f) (Parse.ask Cursor.loops >>= f') := by
  refine .ask fun n n' => ?_
  rintro c c' d b hc ⟨hpre, rfl, rfl⟩ hrun hlast
  rw [hc.loops]
  exact hf _ hc hpre hrun hlast

theorem agrees_insideLoop (hp : Agrees w Never Anywhere post p p') :
    Agrees w exit pre post (insideLoop p) (insideLoop p') := by
  refine .bind (agrees_setLoops _) fun _ _ _ => .bind hp fun a a' ha => ?_
  exact .bind (agrees_setLoops _) fun _ _ _ => .pure ha

theorem agrees_outsideLoops (hp : Agrees w Never Anywhere post p p') :
    Agrees w exit pre post (outsideLoops p) (outsideLoops p') := by
  refine .loops fun n => .bind (agrees_setLoops _) fun _ _ _ => .bind hp fun a a' ha => ?_
  exact .bind (agrees_setLoops _) fun _ _ _ => .pure ha

/-! ## Layout -/

/-- Passing layout beside a reading that passes layout: what is passed only there is the further
    layout, and the bound is large enough for that. -/
theorem run_skipFrom_beside {test : TokenKind → Bool} {pass : Parse Token}
    (hpass : ∀ c, ∃ rs, pass.run c = .ok (c.current, { c with readings := rs }.next))
    (htest : ∀ k, k.isLayout = false → test k = false) {bound bound' : Nat} {c c' d : Cursor}
    (hc : w.Beside c c') (hbound : c'.tokensLeft ≤ bound')
    (hrun : (skipFrom test pass bound).run c = .ok ((), d)) :
    ∃ d', (skipFrom test pass bound').run c' = .ok ((), d') ∧ w.Beside d d' ∧
      test d'.current.kind = false := by
  have hstops : ∀ {c : Cursor} {n : Nat}, test c.current.kind = false →
      (skipFrom test pass (n + 1)).run c = .ok ((), c) := by
    intro c n hk
    refine run_bind_eq_ok.mpr ⟨_, c, rfl, ?_⟩
    rw [if_neg (by simpa using hk)]
    rfl
  have hgoes : ∀ {c e : Cursor} {n : Nat}, test c.current.kind = true →
      ((skipFrom test pass (n + 1)).run c = .ok ((), e) ↔
        ∃ t c₁, pass.run c = .ok (t, c₁) ∧ (skipFrom test pass n).run c₁ = .ok ((), e)) := by
    intro c e n hk
    refine run_bind_eq_ok.trans ⟨?_, ?_⟩
    · rintro ⟨_, _, hkind, hrun⟩
      cases hkind
      rw [if_pos hk] at hrun
      exact run_bind_eq_ok.mp hrun
    · rintro ⟨t, c₁, hpass, hrun⟩
      refine ⟨_, c, rfl, ?_⟩
      rw [if_pos hk]
      exact run_bind_eq_ok.mpr ⟨t, c₁, hpass, hrun⟩
  cases bound with
  | zero => exact absurd hrun (not_run_expected _ _ _)
  | succ bound =>
  induction bound' generalizing bound c c' with
  | zero => exact absurd hbound (by simp [Cursor.tokensLeft])
  | succ bound' ih =>
    cases hk' : test c'.current.kind with
    | false =>
      -- the first reading stops as well, at the same token or at one that is written out
      have hk : test c.current.kind = false := by
        rcases hc.facing_or_behind with hf | hb
        · rwa [← hf.kind]
        · exact htest _ (TokenKind.isLayout_of_isContent hb.content)
      cases (hstops hk).symm.trans hrun
      exact ⟨c', hstops hk', hc, hk'⟩
    | true =>
      obtain ⟨rs', hpass'⟩ := hpass c'
      have hbound' : ({ c' with readings := rs' }.next).tokensLeft ≤ bound' := by
        have := (hc.of_readings c.readings rs').tokensLeft_next (by
          rintro hend
          rw [hend, htest _ rfl] at hk'
          cases hk')
        exact Nat.le_of_lt_succ (Nat.lt_of_lt_of_le this hbound)
      rcases hc.facing_or_behind with hf | hb
      · obtain ⟨t, c₁, hpass₁, hrun⟩ := (hgoes (by rwa [← hf.kind])).mp hrun
        obtain ⟨rs, hpassed⟩ := hpass c
        cases hpassed.symm.trans hpass₁
        cases bound with
        | zero => exact absurd hrun (not_run_expected _ _ _)
        | succ bound =>
          obtain ⟨d', hrun', hd⟩ := ih ((hc.of_readings rs rs').next hf) hbound' _ hrun
          exact ⟨d', (hgoes hk').mpr ⟨_, _, hpass', hrun'⟩, hd⟩
      · obtain ⟨d', hrun', hd⟩ := ih ((hc.of_readings c.readings rs').next_behind
          ⟨hb.content, hb.layout, hb.place, hb.rest⟩) hbound' _ hrun
        exact ⟨d', (hgoes hk').mpr ⟨_, _, hpass', hrun'⟩, hd⟩

/-- Layout that is skipped on both sides. -/
theorem agrees_skipFrom {test : TokenKind → Bool} {pass : Parse Token}
    (hpass : ∀ c, ∃ rs, pass.run c = .ok (c.current, { c with readings := rs }.next))
    (htest : ∀ k, k.isLayout = false → test k = false) :
    Agrees w exit pre (fun _ _ => True) (tokensLeft >>= skipFrom test pass)
      (tokensLeft >>= skipFrom test pass) := by
  rintro c c' d a hc - hrun -
  obtain ⟨bound, _, hbound, hrun⟩ := run_bind_eq_ok.mp hrun
  cases hbound
  obtain ⟨d', hrun', hd, -⟩ := run_skipFrom_beside hpass htest hc (Nat.le_refl _) hrun
  exact .inr ⟨(), d', run_bind_eq_ok.mpr ⟨_, c', rfl, hrun'⟩, trivial, hd⟩

theorem agrees_skipNewlines :
    Agrees w exit pre (fun _ _ => True) skipNewlines skipNewlines :=
  agrees_skipFrom (fun c => ⟨c.readings, rfl⟩) fun k hk => by cases k <;> first | rfl | cases hk

/-- Behind layout that means nothing it is on record that there is none. -/
theorem agrees_skipLayout : Agrees w exit pre (fun _ _ => True) skipLayout skipLayout := by
  rintro c c' d a hc - hrun -
  obtain ⟨bound, _, hbound, hrun⟩ := run_bind_eq_ok.mp hrun
  cases hbound
  obtain ⟨_, e, hskip, hrun⟩ := run_bind_eq_ok.mp hrun
  cases hrun
  obtain ⟨e', hskip', he, hlayout⟩ := run_skipFrom_beside
    (fun c => ⟨.skipped c.passed :: c.readings, rfl⟩) (fun k hk => hk) hc
    (Nat.le_refl c'.tokensLeft) hskip
  have hf : Facing e e' := he.facing_of_not_layout hlayout
  refine .inr ⟨(), { e' with breaks := e'.passed :: e'.breaks }, ?_, trivial, ?_⟩
  · refine run_bind_eq_ok.mpr ⟨_, c', rfl, run_bind_eq_ok.mpr ⟨(), e', hskip', rfl⟩⟩
  · refine ⟨⟨he.stands.ended, he.stands.left⟩, he.left, he.loops, ?_, fun _ => hf⟩
    exact List.forall_mem_cons.mpr ⟨Nat.le_refl _, he.noted⟩

theorem run_skipLayout {c d : Cursor} (h : skipLayout.run c = .ok ((), d)) :
    d.passed ∈ d.breaks := by
  obtain ⟨bound, _, hbound, hrun⟩ := run_bind_eq_ok.mp h
  obtain ⟨_, e, hskip, hrun⟩ := run_bind_eq_ok.mp hrun
  cases hrun
  exact List.mem_cons_self ..

theorem run_skipNewlines_of_content {c d : Cursor} (hk : c.current.kind.isContent = true)
    (h : skipNewlines.run c = .ok ((), d)) : d = c := by
  obtain ⟨bound, _, hbound, h⟩ := run_bind_eq_ok.mp h
  cases hbound
  obtain ⟨k, _, hkind, h⟩ := run_bind_eq_ok.mp h
  cases hkind
  rw [if_neg] at h
  · cases h
    rfl
  · intro hnewline
    rw [show c.current.kind = .newline from beq_iff_eq.mp hnewline] at hk
    cases hk

/-- At the end of a statement no token is passed that is written out. -/
theorem run_endStatement_of_content {c d : Cursor} (hk : c.current.kind.isContent = true)
    (h : endStatement.run c = .ok ((), d)) : d = c := by
  obtain ⟨found, _, hfound, h⟩ := run_bind_eq_ok.mp h
  cases hfound
  split at h
  · exact run_skipNewlines_of_content hk h
  · exact absurd h (not_run_expected _ _ _)

/-- The end of a statement: where further layout follows, the reading may be blocked. -/
theorem agrees_endStatement :
    Agrees w w.Blocked pre (fun _ _ => True) endStatement endStatement := by
  have hfacing : Agrees w w.Blocked Facing (fun _ _ => True) endStatement endStatement := by
    refine .askSame (fun c c' h => ?_) fun _ => .ite (fun _ => ?_) fun _ => agrees_expected _
    · rw [h.kind]
    · exact agrees_skipNewlines
  rintro c c' d a hc - hrun hlast
  rcases hc.facing_or_behind with hf | hb
  · exact hfacing hc hf hrun hlast
  · obtain rfl := run_endStatement_of_content hb.content hrun
    exact .inl (hc.blocked hb)

/-! ## Several items -/

variable {R : α → α → Prop} {item item' : Parse α}

/-- Behind the last one of several items the closing token stands, which is passed then. -/
theorem takes_closed {close : TokenKind} (hclose : close.isContent = true) {what what' : String}
    (bound : Nat) {f : List α → Parse β} :
    (separatedFrom close what item bound >>= fun as => expect close what' >>= fun _ => f as).Takes
      fun c => c.current.kind = close := by
  cases bound with
  | zero => exact .bind (takes_expected _)
  | succ bound =>
    rintro c d b hk hrun
    obtain ⟨as, c₁, has, hrun⟩ := run_bind_eq_ok.mp hrun
    obtain ⟨found, _, hfound, has⟩ := run_bind_eq_ok.mp has
    cases hfound
    rw [if_pos (by simpa using hk)] at has
    cases has
    obtain ⟨t, c₂, hexpect, hrun⟩ := run_bind_eq_ok.mp hrun
    obtain ⟨-, -, rfl⟩ := run_expect hexpect
    exact ⟨by rwa [hk], (f _).leads hrun⟩

/-- Items with commas between them, and the closing token behind them. -/
theorem agrees_closedFrom {close : TokenKind} (hclose : close.isContent = true) {what what' : String}
    (hitem : Agrees w Never Anywhere R item item') {post : β → β → Prop} {bound bound' : Nat}
    (hbound : bound ≤ bound') {f f' : List α → Parse β}
    (hf : ∀ as as', List.Forall₂ R as as' → Agrees w exit Anywhere post (f as) (f' as')) :
    Agrees w exit pre post
      (separatedFrom close what item bound >>= fun as => expect close what' >>= fun _ => f as)
      (separatedFrom close what item' bound' >>= fun as =>
        expect close what' >>= fun _ => f' as) := by
  induction bound generalizing bound' f f' pre with
  | zero =>
    rintro c c' d b - - hrun
    obtain ⟨as, c₁, has, -⟩ := run_bind_eq_ok.mp hrun
    exact absurd has (not_run_expected _ _ _)
  | succ bound ih =>
    cases bound' with
    | zero => exact absurd hbound (Nat.not_succ_le_zero _)
    | succ bound' =>
    have hrest : ∀ a a', R a a' → Agrees w exit Anywhere post
        (separatedFrom close what item bound >>= fun as =>
          expect close what' >>= fun _ => f (a :: as))
        (separatedFrom close what item' bound' >>= fun as =>
          expect close what' >>= fun _ => f' (a' :: as)) :=
      fun a a' ha => ih (Nat.le_of_succ_le_succ hbound) fun as as' has => hf _ _ (.cons ha has)
    have hne : ∀ {k' : TokenKind}, k'.isLayout = true → k' ≠ close := by
      rintro _ hk' rfl
      rw [TokenKind.isLayout_of_isContent hclose] at hk'
      cases hk'
    have hcomma : ∀ a a', R a a' → Agrees w exit Anywhere post
        (separator close what >>= fun _ => separatedFrom close what item bound >>= fun as =>
          expect close what' >>= fun _ => f (a :: as))
        (separator close what >>= fun _ => separatedFrom close what item' bound' >>= fun as =>
          expect close what' >>= fun _ => f' (a' :: as)) := by
      intro a a' ha
      have hsame : ∀ (pre : Cursor → Cursor → Prop) (found : Bool),
          Agrees w Never pre (fun _ _ => True)
            (if (!found) = true then expect .comma what >>= fun _ => pure () else pure ())
            (if (!found) = true then expect .comma what >>= fun _ => pure () else pure ()) :=
        fun pre found => .ite
          (fun _ => .bind (agrees_expect .comma what) fun _ _ _ => .pure trivial)
          fun _ => .pure trivial
      simp only [separator, bind_assoc]
      refine .onKind (g := (· == close))
        (fun k => .bind (hsame _ _) fun _ _ _ => hrest a a' ha) fun k k' hk hk' => ?_
      by_cases hclosed : k = close
      · subst hclosed
        rw [beq_self_eq_true]
        exact .inl (takes_closed hk bound)
      · rw [beq_eq_false_iff_ne.mpr hclosed, beq_eq_false_iff_ne.mpr (hne hk')]
        exact .inr (.bind (hsame _ _) fun _ _ _ => hrest a a' ha)
    simp only [separatedFrom, bind_assoc]
    refine .onKind (g := (· == close)) (fun k => ?_) fun k k' hk hk' => ?_
    · cases k == close with
      | true =>
        simp only [if_true, pure_bind]
        exact .bind (agrees_expect _ _) fun _ _ _ => hf _ _ .nil
      | false =>
        simp only [Bool.false_eq_true, if_false, bind_assoc, pure_bind]
        exact .bind (hitem.weaken fun _ _ _ => trivial) hcomma
    · by_cases hclosed : k = close
      · subst hclosed
        simp only [beq_self_eq_true, if_true, pure_bind]
        exact .inl (.bind (takes_expect hk _))
      · rw [beq_eq_false_iff_ne.mpr hclosed, beq_eq_false_iff_ne.mpr (hne hk')]
        simp only [Bool.false_eq_true, if_false, bind_assoc, pure_bind]
        exact .inr (.bind hitem hcomma)

theorem agrees_closed {close : TokenKind} (hclose : close.isContent = true) {what what' : String}
    (hitem : Agrees w Never Anywhere R item item') {post : β → β → Prop} {f f' : List α → Parse β}
    (hf : ∀ as as', List.Forall₂ R as as' → Agrees w exit Anywhere post (f as) (f' as')) :
    Agrees w exit pre post
      (separated close what item >>= fun as => expect close what' >>= fun _ => f as)
      (separated close what item' >>= fun as => expect close what' >>= fun _ => f' as) := by
  simp only [separated, bind_assoc]
  exact .tokensLeft fun _ _ hbound => agrees_closedFrom hclose hitem hbound hf

/-- What may stand behind an item between braces: in the end it is on record that no layout is
    left. -/
theorem agrees_bracedSeparator :
    Agrees w exit pre (fun _ _ => True) Grammar.bracedSeparator Grammar.bracedSeparator := by
  refine .bind agrees_skipLayout fun _ _ _ => .bind (agrees_accept rfl) ?_
  rintro found _ rfl
  exact .ite (fun _ => agrees_skipLayout) fun _ => .pure trivial

theorem run_bracedSeparator {c d : Cursor} (h : Grammar.bracedSeparator.run c = .ok ((), d)) :
    d.passed ∈ d.breaks := by
  obtain ⟨_, c₁, hskip, hcomma⟩ := run_bind_eq_ok.mp h
  obtain ⟨found, c₂, haccept, hafter⟩ := run_bind_eq_ok.mp hcomma
  rcases run_accept haccept with ⟨rfl, -, rfl⟩ | ⟨rfl, -, rfl⟩
  · exact run_skipLayout hafter
  · cases hafter
    exact run_skipLayout hskip

theorem agrees_bracedFrom (hitem : Agrees w Never Facing R item item') {bound bound' : Nat}
    (hbound : bound ≤ bound') :
    Agrees w exit (fun c _ => c.passed ∈ c.breaks) (List.Forall₂ R)
      (Grammar.bracedFrom item bound) (Grammar.bracedFrom item' bound') := by
  induction bound generalizing bound' exit with
  | zero => exact agrees_expected _
  | succ bound ih =>
    cases bound' with
    | zero => exact absurd hbound (Nat.not_succ_le_zero _)
    | succ bound' =>
    refine .of_facing (fun c c' hc hnoted => hc.faced hnoted) (.askSame (fun c c' h => ?_) fun _ => ?_)
    · rw [h.2.kind]
    refine .ite (fun _ => .pure .nil) fun _ => ?_
    refine .bind (hitem.weaken fun _ _ h => h.1.2) fun a a' ha => ?_
    refine .bindRun agrees_bracedSeparator (fun _ _ _ h => run_bracedSeparator h) fun _ _ _ => ?_
    exact .bind (ih (Nat.le_of_succ_le_succ hbound)) fun as as' has => .pure (.cons ha has)

theorem agrees_braced (hitem : Agrees w Never Facing R item item') :
    Agrees w exit pre (List.Forall₂ R) (Grammar.braced item) (Grammar.braced item') := by
  refine .ask fun first first' => .bind (agrees_expect _ _) fun start start' _ => ?_
  refine .bindRun agrees_skipLayout (fun _ _ _ h => run_skipLayout h) fun _ _ _ => ?_
  refine .tokensLeft fun _ _ hbound => .bind (agrees_bracedFrom hitem hbound) fun as as' has => ?_
  refine .ask fun last last' => .bind (agrees_expect _ _) fun _ _ _ => ?_
  refine .bind (agrees_spanFrom _ _) fun _ _ _ => .bind (agrees_note _ _) fun _ _ _ => ?_
  exact .pure has

/-- Behind empty statements, what passes the next token. -/
theorem takes_afterNewlines {f : Unit → Parse α}
    (hf : (f ()).Takes fun c => c.current.kind.isContent = true) :
    (skipNewlines >>= f).Takes fun c => c.current.kind.isContent = true := by
  rintro c d a hk hrun
  obtain ⟨_, c₁, hskip, hafter⟩ := run_bind_eq_ok.mp hrun
  obtain rfl := run_skipNewlines_of_content hk hskip
  exact hf hk hafter

/-- Before a token that is written out there are no empty statements. -/
theorem takes_of_afterNewlines {f : Unit → Parse α}
    (h : (skipNewlines >>= f).Takes fun c => c.current.kind.isContent = true) :
    (f ()).Takes fun c => c.current.kind.isContent = true := by
  rintro c d a hk hrun
  refine h hk (run_bind_eq_ok.mpr ⟨(), c, ?_, hrun⟩)
  refine run_bind_eq_ok.mpr ⟨_, c, rfl, run_bind_eq_ok.mpr ⟨_, c, rfl, ?_⟩⟩
  rw [if_neg]
  · rfl
  · intro hnewline
    rw [show c.current.kind = .newline from beq_iff_eq.mp hnewline] at hk
    cases hk

/-- Looking for something that no token is that is written out. -/
theorem takes_unless (test : TokenKind → Bool) (htest : ∀ k, k.isContent = true → test k = false)
    {q : Parse α} (hq : q.Takes fun c => c.current.kind.isContent = true) :
    (ask (fun c => test c.current.kind) >>= fun found => if found = true then p else q).Takes
      fun c => c.current.kind.isContent = true := by
  rintro c d a hk hrun
  obtain ⟨found, _, hfound, hafter⟩ := run_bind_eq_ok.mp hrun
  cases hfound
  rw [if_neg (by simp [htest _ hk])] at hafter
  exact hq hk hafter

theorem not_blockEnd {k : TokenKind} (hk : k.isContent = true) :
    [TokenKind.dedent, .endOfFile].contains k = false := by
  cases k <;> first | rfl | cases hk

theorem not_dedent {k : TokenKind} (hk : k.isContent = true) : (k == .dedent) = false := by
  cases k <;> first | rfl | cases hk

theorem takes_itemsFrom (ht : item.Takes fun c => c.current.kind.isContent = true) (bound : Nat) :
    (itemsFrom item bound).Takes fun c => c.current.kind.isContent = true := by
  cases bound with
  | zero => exact takes_expected _
  | succ bound =>
    exact takes_unless _ (fun _ => not_blockEnd) (takes_afterNewlines
      (takes_unless _ (fun _ => not_dedent) (.bind ht)))

/-- The items of a block; one that could not be passed would block the reading. -/
theorem agrees_itemsFrom (hitem : Agrees w w.Blocked Anywhere R item item')
    (ht : item.Takes fun c => c.current.kind.isContent = true) {bound bound' : Nat}
    (hbound : bound ≤ bound') :
    Agrees w exit pre (List.Forall₂ R) (itemsFrom item bound) (itemsFrom item' bound') := by
  induction bound generalizing bound' exit pre with
  | zero => exact agrees_expected _
  | succ bound ih =>
    cases bound' with
    | zero => exact absurd hbound (Nat.not_succ_le_zero _)
    | succ bound' =>
    refine .facing (takes_itemsFrom ht _) (.askSame (fun c c' h => ?_) fun _ => ?_)
    · rw [h.2.kind]
    refine .ite (fun _ => .pure .nil) fun _ => .bind agrees_skipNewlines fun _ _ _ => ?_
    refine .facing (takes_unless _ (fun _ => not_dedent) (.bind ht))
      (.askSame (fun c c' h => ?_) fun _ => ?_)
    · rw [h.2.kind]
    refine .ite (fun _ => .pure .nil) fun _ => ?_
    refine .bindTaking (hitem.weaken fun _ _ _ => trivial) (fun a => .bind (takes_itemsFrom ht _)) ?_
    exact fun a a' ha => .bind (ih (Nat.le_of_succ_le_succ hbound)) fun _ _ has => .pure (.cons ha has)

/-- Behind the items of a block there is no token that is written out. -/
theorem run_itemsFrom {bound : Nat} {c d : Cursor} {as : List α}
    (h : (itemsFrom item bound).run c = .ok (as, d)) : d.current.kind.isContent = false := by
  induction bound generalizing c as with
  | zero => exact absurd h (not_run_expected _ _ _)
  | succ bound ih =>
    obtain ⟨ended, _, hended, h⟩ := run_bind_eq_ok.mp h
    cases hended
    split at h
    · rename_i hfound
      cases h
      by_contra hk
      have hnot := not_blockEnd (Bool.eq_true_of_not_eq_false hk)
      exact absurd (hfound.symm.trans hnot) (by decide)
    obtain ⟨_, c₁, -, h⟩ := run_bind_eq_ok.mp h
    obtain ⟨closed, _, hclosed, h⟩ := run_bind_eq_ok.mp h
    cases hclosed
    split at h
    · rename_i hfound
      cases h
      rw [show d.current.kind = .dedent from beq_iff_eq.mp hfound]
      rfl
    obtain ⟨a, c₂, -, h⟩ := run_bind_eq_ok.mp h
    obtain ⟨rest, c₃, hrest, h⟩ := run_bind_eq_ok.mp h
    cases h
    exact ih hrest

/-- A token that is written out opens no block. -/
theorem not_run_expect_indent {c : Cursor} (hk : c.current.kind.isContent = true) (what : String)
    (r : Token × Cursor) : (expect .indent what).run c ≠ .ok r := by
  intro h
  rw [(run_expect h).1] at hk
  cases hk

theorem takes_indented {construct : Construct} :
    (indented construct item).Takes fun c => c.current.kind.isContent = true := by
  rintro c d as hk hrun
  obtain ⟨_, c₁, hend, h₁⟩ := run_bind_eq_ok.mp hrun
  obtain rfl := run_endStatement_of_content hk hend
  obtain ⟨opening, _, hopening, h₂⟩ := run_bind_eq_ok.mp h₁
  cases hopening
  obtain ⟨token, c₂, hopen, -⟩ := run_bind_eq_ok.mp h₂
  exact absurd hopen (not_run_expect_indent hk _ _)

theorem agrees_indented {construct : Construct}
    (hitem : Agrees w w.Blocked Anywhere R item item')
    (ht : item.Takes fun c => c.current.kind.isContent = true) :
    Agrees w exit pre (List.Forall₂ R) (indented construct item) (indented construct item') := by
  refine .bindTaking agrees_endStatement (fun _ => ?_) fun _ _ _ => ?_
  · exact .ask fun opening => .bind fun c d t hk hrun => absurd hrun (not_run_expect_indent hk.1 _ _)
  refine .ask fun opening opening' => .bind (agrees_expect _ _) fun _ _ _ => ?_
  refine .tokensLeft fun _ _ hbound => ?_
  refine .bindRun (agrees_itemsFrom hitem ht hbound) (fun _ _ _ h => run_itemsFrom h) fun as as' has => ?_
  refine .of_facing (fun c c' hc hk => hc.facing_of_not_content hk) ?_
  refine .ask fun closing closing' => .bind (agrees_acceptFacing fun c c' h => h.1.2) ?_
  rintro closed _ rfl
  exact .bind (agrees_note _ _) fun _ _ _ => .pure has

end Parse

end EventScript
