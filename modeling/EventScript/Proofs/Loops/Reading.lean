import EventScript.Proofs.Grammar.Parts
import EventScript.Proofs.Grammar.Takes
import EventScript.Proofs.Loops.Confined

/-! # Reading inside and outside of loops

Most rules do not look at the number of loops around them: `Parse.Blind`.  The others may meet a
`break` or `continue`, which is refused outside of loops and read inside of them.  `Parse.Guards`
compares the two readings of such a rule: they come to the same result, or the one outside of loops
ends at a `break` or `continue` that the one inside has read.

* `Blind.bind`, `Guards.bind`, `Guards.bindBlind`    one step of a rule
* `Guards.insideLoop`, `Guards.outsideLoops`         the two rules for bodies are blind
* `Guards.indented`                                  the items of an indented construct
-/

namespace EventScript

/-- The same place with another number of loops around it. -/
def Cursor.within (c : Cursor) (n : Nat) : Cursor := { c with loops := n }

namespace Parse

variable {α β γ : Type}

/-! ## Rules that do not look at loops -/

/-- The computation does the same inside and outside of loops, and its result satisfies a
    condition. -/
def Blind (post : α → Prop) (p : Parse α) : Prop :=
  ∀ c : Cursor, (∃ (a : α) (d : Cursor), post a ∧ ∀ n, p.run (c.within n) = .ok (a, d.within n)) ∨
    ∃ e, ∀ n, p.run (c.within n) = .error e

variable {post : α → Prop} {p : Parse α}

namespace Blind

theorem pure {a : α} (h : post a) : Blind post (pure a : Parse α) :=
  fun c => .inl ⟨a, c, h, fun _ => rfl⟩

theorem fail (d : Diagnostic) : Blind post (fail d : Parse α) := fun _ => .inr ⟨d, fun _ => rfl⟩

/-- One computation after another. -/
theorem bind {post : β → Prop} {mid : α → Prop} {f : α → Parse β} (hp : Blind mid p)
    (hf : ∀ a, mid a → Blind post (f a)) : Blind post (p >>= f) := by
  intro c
  rcases hp c with ⟨a, d, ha, hrun⟩ | ⟨e, hrun⟩
  · rcases hf a ha d with ⟨b, d', hb, hrun'⟩ | ⟨e, hrun'⟩
    · exact .inl ⟨b, d', hb, fun n => (run_bind_of_ok (hrun n)).trans (hrun' n)⟩
    · exact .inr ⟨e, fun n => (run_bind_of_ok (hrun n)).trans (hrun' n)⟩
  · exact .inr ⟨e, fun n => run_bind_of_error (hrun n)⟩

/-- Looking at anything but the loops. -/
theorem ofAsk {g : Cursor → α} (hg : ∀ c n, g (c.within n) = g c) :
    Blind (fun _ => True) (Parse.ask g) := fun c =>
  .inl ⟨g c, c, trivial, fun n => by rw [run_ask, hg]⟩

theorem ask {g : Cursor → γ} (hg : ∀ c n, g (c.within n) = g c) {f : γ → Parse α}
    (hf : ∀ x, Blind post (f x)) : Blind post (Parse.ask g >>= f) := (ofAsk hg).bind fun x _ => hf x

theorem ite {t : Prop} [Decidable t] {q : Parse α} (hp : t → Blind post p)
    (hq : ¬ t → Blind post q) : Blind post (if t then p else q) := by
  split
  · exact hp ‹_›
  · exact hq ‹_›

theorem imp {post' : α → Prop} (h : ∀ a, post a → post' a) (hp : Blind post p) :
    Blind post' p := fun c => (hp c).imp_left fun ⟨a, d, ha, hrun⟩ => ⟨a, d, h a ha, hrun⟩

theorem map {post : β → Prop} {f : α → β} (hp : Blind (fun a => post (f a)) p) :
    Blind post (f <$> p) := bind hp fun _ h => pure h

end Blind

theorem blind_expected (what : String) : Blind post (expected what : Parse α) :=
  .ask (fun _ _ => rfl) fun _ => .fail _

theorem next_within (c : Cursor) (n : Nat) : (c.within n).next = c.next.within n := by
  obtain ⟨current, rest, lastStop, loops, passed, readings, breaks⟩ := c
  unfold Cursor.next Cursor.within Cursor.atEnd
  cases rest <;> dsimp only <;> split <;> rfl

theorem blind_advance : Blind (fun _ => True) advance := fun c =>
  .inl ⟨c.current, c.next, trivial, fun n =>
    congrArg (fun d => Except.ok (c.current, d)) (next_within c n)⟩

theorem blind_expect (k : TokenKind) (what : String) : Blind (fun _ => True) (expect k what) :=
  .ask (fun _ _ => rfl) fun _ => .ite (fun _ => blind_advance) fun _ => blind_expected what

theorem blind_accept (k : TokenKind) : Blind (fun _ => True) (accept k) :=
  .ask (fun _ _ => rfl) fun _ =>
    .ite (fun _ => .bind blind_advance fun _ _ => .pure trivial) fun _ => .pure trivial

theorem blind_optional (k : TokenKind) (hp : Blind post p) :
    Blind (fun a => ∀ x ∈ a, post x) (optional k p) := by
  refine .bind (blind_accept k) fun _ _ => .ite (fun _ => .map ?_) fun _ => .pure nofun
  refine hp.imp fun a ha x hx => ?_
  cases hx
  exact ha

theorem blind_spanFrom (start : Token) : Blind (fun _ => True) (spanFrom start) :=
  .ask (fun _ _ => rfl) fun _ => .pure trivial

theorem blind_note (r : Reading) : Blind (fun _ => True) (note r) := fun c =>
  .inl ⟨(), { c with readings := r :: c.readings }, trivial, fun _ => rfl⟩

theorem blind_noteBreak : Blind (fun _ => True) noteBreak := fun c =>
  .inl ⟨(), { c with breaks := c.passed :: c.breaks }, trivial, fun _ => rfl⟩

theorem blind_skipFrom {test : TokenKind → Bool} {pass : Parse Token}
    (hpass : Blind (fun _ => True) pass) (bound : Nat) :
    Blind (fun _ => True) (skipFrom test pass bound) := by
  induction bound with
  | zero => exact blind_expected _
  | succ bound ih =>
    refine .ask (fun _ _ => rfl) fun _ => .ite (fun _ => ?_) fun _ => .pure trivial
    exact .bind hpass fun _ _ => ih

theorem blind_skipNewlines : Blind (fun _ => True) skipNewlines :=
  .ask (fun _ _ => rfl) fun bound => blind_skipFrom blind_advance bound

theorem blind_passUnknown : Blind (fun _ => True) passUnknown :=
  .ask (fun _ _ => rfl) fun _ => .bind (blind_note _) fun _ _ => blind_advance

theorem blind_skipLayout : Blind (fun _ => True) skipLayout := by
  refine .ask (fun _ _ => rfl) fun bound => ?_
  refine .bind (blind_skipFrom ?_ bound) fun _ _ => blind_noteBreak
  exact .ask (fun _ _ => rfl) fun _ => .bind (blind_note _) fun _ _ => blind_advance

theorem blind_endStatement : Blind (fun _ => True) endStatement :=
  .ask (fun _ _ => rfl) fun _ => .ite (fun _ => blind_skipNewlines) fun _ => blind_expected _

/-! ### Several items -/

theorem blind_separator (close : TokenKind) (what : String) :
    Blind (fun _ => True) (separator close what) :=
  .ask (fun _ _ => rfl) fun _ =>
    .ite (fun _ => .bind (blind_expect _ _) fun _ _ => .pure trivial) fun _ => .pure trivial

theorem blind_separated {close : TokenKind} {what : String} (hp : Blind post p) :
    Blind (fun as => ∀ a ∈ as, post a) (separated close what p) := by
  refine .ask (fun _ _ => rfl) fun bound => ?_
  induction bound with
  | zero => exact blind_expected _
  | succ bound ih =>
    refine .ask (fun _ _ => rfl) fun _ => .ite (fun _ => .pure (by simp)) fun _ => ?_
    refine .bind hp fun a ha => .bind (blind_separator close what) fun _ _ => ?_
    exact .bind ih fun as has => .pure (List.forall_mem_cons.mpr ⟨ha, has⟩)

theorem blind_braced (hp : Blind post p) :
    Blind (fun as => ∀ a ∈ as, post a) (Grammar.braced p) := by
  have hitems (bound : Nat) :
      Blind (fun as => ∀ a ∈ as, post a) (Grammar.bracedFrom p bound) := by
    induction bound with
    | zero => exact blind_expected _
    | succ bound ih =>
      have hseparator : Blind (fun _ => True) Grammar.bracedSeparator :=
        .bind blind_skipLayout fun _ _ => .bind (blind_accept _) fun _ _ =>
          .ite (fun _ => blind_skipLayout) fun _ => .pure trivial
      refine .ask (fun _ _ => rfl) fun _ => .ite (fun _ => .pure (by simp)) fun _ => ?_
      refine .bind hp fun a ha => .bind hseparator fun _ _ => .bind ih fun as has => ?_
      exact .pure (List.forall_mem_cons.mpr ⟨ha, has⟩)
  refine .ask (fun _ _ => rfl) fun first => .bind (blind_expect _ _) fun start _ => ?_
  refine .bind blind_skipLayout fun _ _ => .ask (fun _ _ => rfl) fun bound => ?_
  refine .bind (hitems bound) fun as has => .ask (fun _ _ => rfl) fun last => ?_
  refine .bind (blind_expect _ _) fun _ _ => .bind (blind_spanFrom start) fun span _ => ?_
  exact .bind (blind_note _) fun _ _ => .pure has

/-! ## Rules that meet the ends of loops -/

/-- What a computation does at a place, inside and outside of loops. -/
inductive GuardedAt (post : Option Stmt → α → Prop) (p : Parse α) (c : Cursor) : Prop
  /-- It reads the same in both cases. -/
  | reads {a : α} {d : Cursor} (holds : post none a)
      (run : ∀ n, p.run (c.within n) = .ok (a, d.within n))
  /-- What it reads inside of a loop holds a statement that is refused outside of loops. -/
  | refused {a : α} {d : Cursor} {t : Stmt} {word : String} (holds : post (some t) a)
      (inside : ∀ n, p.run (c.within (n + 1)) = .ok (a, d.within (n + 1)))
      (outside : p.run (c.within 0) = .error (.located (.outsideLoop word) t.span))
  /-- It fails in both cases. -/
  | fails {e e' : Diagnostic} (inside : ∀ n, p.run (c.within (n + 1)) = .error e)
      (outside : p.run (c.within 0) = .error e')

/-- Everywhere the computation does the same inside and outside of loops, but for the statements
    that are refused outside of them. -/
def Guards (post : Option Stmt → α → Prop) (p : Parse α) : Prop := ∀ c, GuardedAt post p c

namespace Guards

variable {post : Option Stmt → α → Prop}

theorem of_blind (hp : Blind (post none) p) : Guards post p := by
  intro c
  rcases hp c with ⟨a, d, ha, hrun⟩ | ⟨e, hrun⟩
  · exact .reads ha hrun
  · exact .fails (fun n => hrun (n + 1)) (hrun 0)

theorem pure {a : α} (h : post none a) : Guards post (Pure.pure a : Parse α) := of_blind (.pure h)

theorem expected (what : String) : Guards post (Parse.expected what : Parse α) :=
  of_blind (blind_expected what)

/-- A computation after one that does not look at loops. -/
theorem bindBlind {mid : γ → Prop} {q : Parse γ} {f : γ → Parse α} (hq : Blind mid q)
    (hf : ∀ x, mid x → Guards post (f x)) : Guards post (q >>= f) := by
  intro c
  rcases hq c with ⟨x, d, hx, hrun⟩ | ⟨e, hrun⟩
  · cases hf x hx d with
    | reads ha h => exact .reads ha fun n => (run_bind_of_ok (hrun n)).trans (h n)
    | refused ha hin hout =>
      exact .refused ha (fun n => (run_bind_of_ok (hrun (n + 1))).trans (hin n))
        ((run_bind_of_ok (hrun 0)).trans hout)
    | fails hin hout =>
      exact .fails (fun n => (run_bind_of_ok (hrun (n + 1))).trans (hin n))
        ((run_bind_of_ok (hrun 0)).trans hout)
  · exact .fails (fun n => run_bind_of_error (hrun (n + 1))) (run_bind_of_error (hrun 0))

/-- One computation after another: the first statement that is refused counts. -/
theorem bind {post : Option Stmt → β → Prop} {mid : Option Stmt → α → Prop} {f : α → Parse β}
    (hp : Guards mid p) (hf : ∀ o a, mid o a → Guards (fun o' => post (o.or o')) (f a)) :
    Guards post (p >>= f) := by
  intro c
  cases hp c with
  | @reads a d ha hrun =>
    have hbind (n : Nat) : (p >>= f).run (c.within n) = (f a).run (d.within n) :=
      run_bind_of_ok (hrun n)
    cases hf none a ha d with
    | reads hb h => exact .reads hb fun n => (hbind n).trans (h n)
    | refused hb hin hout =>
      exact .refused hb (fun n => (hbind _).trans (hin n)) ((hbind 0).trans hout)
    | fails hin hout => exact .fails (fun n => (hbind _).trans (hin n)) ((hbind 0).trans hout)
  | @refused a d t word ha hin hout =>
    have hbind (n : Nat) : (p >>= f).run (c.within (n + 1)) = (f a).run (d.within (n + 1)) :=
      run_bind_of_ok (hin n)
    have hrefused := run_bind_of_error (f := f) hout
    -- inside of a loop the reading goes on, and what it meets then is not the first one
    cases hf (some t) a ha d with
    | reads hb h => exact .refused hb (fun n => (hbind n).trans (h _)) hrefused
    | refused hb h _ => exact .refused hb (fun n => (hbind n).trans (h n)) hrefused
    | fails h _ => exact .fails (fun n => (hbind n).trans (h n)) hrefused
  | fails hin hout => exact .fails (fun n => run_bind_of_error (hin n)) (run_bind_of_error hout)

theorem ask {g : Cursor → γ} (hg : ∀ c n, g (c.within n) = g c) {f : γ → Parse α}
    (hf : ∀ x, Guards post (f x)) : Guards post (Parse.ask g >>= f) :=
  bindBlind (.ofAsk hg) fun x _ => hf x

theorem ite {t : Prop} [Decidable t] {q : Parse α} (hp : t → Guards post p)
    (hq : ¬ t → Guards post q) : Guards post (if t then p else q) := by
  split
  · exact hp ‹_›
  · exact hq ‹_›

theorem imp {post' : Option Stmt → α → Prop} (h : ∀ o a, post o a → post' o a)
    (hp : Guards post p) : Guards post' p := by
  intro c
  cases hp c with
  | reads ha hrun => exact .reads (h _ _ ha) hrun
  | refused ha hin hout => exact .refused (h _ _ ha) hin hout
  | fails hin hout => exact .fails hin hout

theorem map {post : Option Stmt → β → Prop} {f : α → β}
    (hp : Guards (fun o a => post o (f a)) p) : Guards post (f <$> p) :=
  hp.bind fun o a h => pure (by rwa [Option.or_none])

/-- What stands in a loop is read whether there are loops around that one or not. -/
theorem insideLoop (hp : Guards post p) : Blind (fun a => ∃ o, post o a) (insideLoop p) := by
  intro c
  have hrun : ∀ n, (Parse.insideLoop p).run (c.within n) =
      (p >>= fun a => do setLoops (· - 1); Pure.pure a).run (c.within (n + 1)) := fun _ => rfl
  cases hp c with
  | @reads a d ha h =>
    exact .inl ⟨a, d, ⟨none, ha⟩, fun n => (hrun n).trans (run_bind_of_ok (h (n + 1)))⟩
  | @refused a d t word ha hin _ =>
    exact .inl ⟨a, d, ⟨some t, ha⟩, fun n => (hrun n).trans (run_bind_of_ok (hin n))⟩
  | @fails e _ hin _ => exact .inr ⟨e, fun n => (hrun n).trans (run_bind_of_error (hin n))⟩

theorem run_outsideLoops (p : Parse α) (c : Cursor) :
    (Parse.outsideLoops p).run c =
      (p >>= fun a => do setLoops (fun _ => c.loops); Pure.pure a).run (c.within 0) := rfl

/-- What stands in a function is read as outside of loops, whether there are loops around it or
    not. -/
theorem outsideLoops (hp : Guards post p) : Blind (post none) (outsideLoops p) := by
  intro c
  have hrun (n : Nat) := run_outsideLoops p (c.within n)
  cases hp c with
  | @reads a d ha h =>
    refine .inl ⟨a, d, ha, fun n => ?_⟩
    rw [hrun n]
    exact run_bind_of_ok (d := d.within 0) (h 0)
  | refused _ _ hout => exact .inr ⟨_, fun n => (hrun n).trans (run_bind_of_error hout)⟩
  | fails _ hout => exact .inr ⟨_, fun n => (hrun n).trans (run_bind_of_error hout)⟩

/-- What is read inside of a loop is read outside of loops as well, or it holds the statement that is
    refused there. -/
theorem outside (hp : Guards post p) {c d : Cursor} {a : α}
    (h : p.run (c.within 1) = .ok (a, d)) :
    (post none a ∧ p.run (c.within 0) = .ok (a, d.within 0)) ∨
      ∃ t word, post (some t) a ∧
        p.run (c.within 0) = .error (.located (.outsideLoop word) t.span) := by
  cases hp c with
  | reads ha hrun =>
    cases h.symm.trans (hrun 1)
    exact .inl ⟨ha, hrun 0⟩
  | refused ha hin hout =>
    cases h.symm.trans (hin 0)
    exact .inr ⟨_, _, ha, hout⟩
  | fails hin _ => cases h.symm.trans (hin 0)

/-- What is read outside of loops holds nothing that is refused there. -/
theorem of_run (hp : Guards post p) {c d : Cursor} {a : α} (hc : c.loops = 0)
    (h : p.run c = .ok (a, d)) : post none a := by
  have hsame : c.within 0 = c := by rw [← hc]; rfl
  rw [← hsame] at h
  cases hp c with
  | reads ha hrun =>
    cases h.symm.trans (hrun 0)
    exact ha
  | refused _ _ hout => cases h.symm.trans hout
  | fails _ hout => cases h.symm.trans hout

end Guards

/-! ### Several items -/

/-- What several items show: the first statement that one of them shows. -/
inductive Each (post : Option Stmt → α → Prop) : Option Stmt → List α → Prop
  | nil : Each post none []
  | cons {o o' : Option Stmt} {a : α} {as : List α} (head : post o a) (tail : Each post o' as) :
    Each post (o.or o') (a :: as)

theorem guards_itemsFrom {post : Option Stmt → α → Prop} (hp : Guards post p) (bound : Nat) :
    Guards (Each post) (itemsFrom p bound) := by
  induction bound with
  | zero => exact .expected _
  | succ bound ih =>
    refine .ask (fun _ _ => rfl) fun _ => .ite (fun _ => .pure .nil) fun _ => ?_
    refine .bindBlind blind_skipNewlines fun _ _ => .ask (fun _ _ => rfl) fun _ => ?_
    refine .ite (fun _ => .pure .nil) fun _ => .bind hp fun o a ha => .bind ih fun o' as has => ?_
    exact .pure (by simpa using .cons ha has)

theorem Guards.indented {post : Option Stmt → α → Prop} (hp : Guards post p)
    (construct : Construct) : Guards (Each post) (indented construct p) := by
  refine .bindBlind blind_endStatement fun _ _ => .ask (fun _ _ => rfl) fun opening => ?_
  refine .bindBlind (blind_expect _ _) fun _ _ => .ask (fun _ _ => rfl) fun bound => ?_
  refine .bind (guards_itemsFrom hp bound) fun o as has => .ask (fun _ _ => rfl) fun closing => ?_
  refine .bindBlind (blind_accept _) fun closed _ => .bindBlind (blind_note _) fun _ _ => ?_
  exact .pure (by rwa [Option.or_none])

/-- Items that show nothing, read one after the other. -/
theorem Blind.indented (hp : Blind post p) (construct : Construct) :
    Blind (fun as => ∀ a ∈ as, post a) (Parse.indented construct p) := by
  have hitems (bound : Nat) : Blind (fun as => ∀ a ∈ as, post a) (itemsFrom p bound) := by
    induction bound with
    | zero => exact blind_expected _
    | succ bound ih =>
      refine .ask (fun _ _ => rfl) fun _ => .ite (fun _ => .pure (by simp)) fun _ => ?_
      refine .bind blind_skipNewlines fun _ _ => .ask (fun _ _ => rfl) fun _ => ?_
      refine .ite (fun _ => .pure (by simp)) fun _ => .bind hp fun a ha => .bind ih fun as has => ?_
      exact .pure (List.forall_mem_cons.mpr ⟨ha, has⟩)
  refine .bind blind_endStatement fun _ _ => .ask (fun _ _ => rfl) fun opening => ?_
  refine .bind (blind_expect _ _) fun _ _ => .ask (fun _ _ => rfl) fun bound => ?_
  refine .bind (hitems bound) fun as has => .ask (fun _ _ => rfl) fun closing => ?_
  refine .bind (blind_accept _) fun closed _ => .bind (blind_note _) fun _ _ => ?_
  exact .pure has

end Parse

end EventScript
