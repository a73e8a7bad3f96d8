import EventScript.Proofs.Grammar.Fork
import EventScript.Proofs.Grammar.Rounds

/-! # Loops over token lists that part

A loop reads two token lists alike if its rounds do.  Where the lists part, layout may be passed in
the first one: at the end of a statement that is the end of a line, and between braces it does not
happen, since the end of a block would be skipped there.  The items of an indented construct end
behind such a line in the first list and go on in the second one.

* `Parse.Repeats.forks`   what a loop comes to in the second list
* `forks_endStatement`    a statement ends in both lists
* `forks_separated`, `forks_braced`, `forks_indented`   the ways to read several items
-/

namespace EventScript

namespace Parse

open Fork

variable {α β : Type} {f : Fork} {goal : Option f.Closing} {ended : Bool} {pre : Cursor → Prop}

/-- One computation after another that depends on the number of tokens left. -/
theorem Forks.bindLoop {q : Nat → Parse α} {g : α → Parse β}
    (hp : Forks f goal false pre (tokensLeft >>= q)) (hg : ∀ a, Forks f goal ended Wherever (g a)) :
    Forks f goal ended pre (tokensLeft >>= fun n => q n >>= g) := by
  rw [← bind_assoc]
  exact hp.bind hg

section

variable {σ : Type} {round : σ → Parse (Round σ β)} {s : σ} {b : β} {c c' d : Cursor}
  {r : Except Diagnostic (β × Cursor)}

theorem Repeats.leads (h : Repeats round s c (.ok (b, c'))) : c.Leads c' := by
  generalize hr : Except.ok (b, c') = r at h
  induction h with
  | raise => cases hr
  | leave h =>
    cases hr
    exact (round _).leads h
  | again h _ _ ih => exact ((round _).leads h).trans (ih hr)

theorem Repeats.eq_of_raise {e : Diagnostic} (h : Repeats round s c r)
    (hround : (round s).run c = .error e) : r = .error e := by
  cases h with
  | raise h =>
    cases hround.symm.trans h
    rfl
  | leave h => cases hround.symm.trans h
  | again h => cases hround.symm.trans h

theorem Repeats.eq_of_leave (h : Repeats round s c r)
    (hround : (round s).run c = .ok (.leave b, c')) : r = .ok (b, c') := by
  cases h with
  | raise h => cases hround.symm.trans h
  | leave h =>
    cases hround.symm.trans h
    rfl
  | again h => cases hround.symm.trans h

theorem Repeats.of_again {s' : σ} (h : Repeats round s c r)
    (hround : (round s).run c = .ok (.again s', c')) : Repeats round s' c' r := by
  cases h with
  | raise h => cases hround.symm.trans h
  | leave h => cases hround.symm.trans h
  | again h _ rest =>
    cases hround.symm.trans h
    exact rest

/-- The rounds of a loop neither go on at the end of a block nor leave the loop there. -/
structure NotAtDedent (round : σ → Parse (Round σ β)) : Prop where
  goesOn (s : σ) {c : Cursor} (r : Round σ β × Cursor) (hk : c.current.kind = .dedent) :
    (round s).run c ≠ .ok r
  leaves {s : σ} {c c' : Cursor} {b : β} (h : (round s).run c = .ok (.leave b, c')) :
    c'.current.kind ≠ .dedent

/-- A loop reads two lists alike if its rounds do.  A round may come to the end of a block if the loop
    does not end there, and no other round follows. -/
theorem Repeats.forks (hround : ∀ s, Forks f goal ended Wherever (round s))
    (hend : ended = true → NotAtDedent round) (h : Repeats round s c (.ok (b, c')))
    (h' : Repeats round s d r) (hc : f.Beside goal c d) (hlast : f.Reaches goal c') :
    (∃ d', r = .ok (b, d') ∧ f.Beside goal c' d') ∨ f.Parted goal c' r := by
  have hdedent : ∀ {c c₁ d₁ : Cursor} {s : σ} {x : Round σ β}, f.Beside goal c d₁ →
      (round s).run c = .ok (x, c₁) → goal.isSome = true → c₁.passed = f.place + 1 →
        c₁.current.kind = .dedent := by
    intro c c₁ d₁ s x hc h hknown hpassed
    obtain ⟨k, -⟩ := Option.isSome_iff_exists.mp hknown
    rw [← (hc.stands.of_leads (Parse.leads _ h)).kindAt, hpassed, k.dedent]
  generalize hr : Except.ok (b, c') = r₁ at h
  induction h generalizing d with
  | raise => cases hr
  | leave h =>
    cases hr
    rcases hround _ hc trivial h hlast with ⟨d', hd, hc'⟩ | hparted | ⟨htrue, hended⟩
    · exact .inl ⟨d', h'.eq_of_leave hd, hc'⟩
    · exact .inr (hparted.mono (.refl _) fun e he => h'.eq_of_raise he)
    · exact absurd (hdedent hc h hended.known hended.passed) ((hend htrue).leaves h)
  | again h _ rest ih =>
    have hleads := (hr ▸ rest : Repeats round _ _ (.ok (b, c'))).leads
    rcases hround _ hc trivial h (hlast.of_leads hleads) with
      ⟨d', hd, hc'⟩ | hparted | ⟨htrue, hended⟩
    · exact ih (h'.of_again hd) hc' hr
    · exact .inr (hparted.mono hleads fun e he => h'.eq_of_raise he)
    · have hk := hdedent hc h hended.known hended.passed
      subst hr
      cases rest with
      | leave h => exact absurd h ((hend htrue).goesOn _ _ hk)
      | again h => exact absurd h ((hend htrue).goesOn _ _ hk)

theorem forks_loopAt {run : Nat → σ → Parse β} {rules : Rules}
    (hloop : Grammar.Loop rules round run) (hr : rules.Over f.tokens) (hr' : rules.Over f.other)
    {mayEnd : Bool} (hround : ∀ s, Forks f goal mayEnd Wherever (round s))
    (hend : mayEnd = true → NotAtDedent round) (s : σ) :
    Forks f goal ended pre (tokensLeft >>= fun n => run n s) := by
  rintro c c' d b hc - hrun hlast
  obtain ⟨hunrolls, hpasses⟩ := hloop.unrolls_and_passes hr
  obtain ⟨-, hpasses'⟩ := hloop.unrolls_and_passes hr'
  have h := repeats_of_unrolls hunrolls hpasses hc.stands (Nat.le_refl _) s
  rw [show (run c.tokensLeft s).run c = .ok (b, c') from hrun] at h
  have h' := repeats_of_unrolls hunrolls hpasses' hc.other (Nat.le_refl _) s
  rcases h.forks hround hend h' hc hlast with hsame | hparted
  · exact .inl hsame
  · exact .inr (.inl hparted)

theorem forks_loop {run : Nat → σ → Parse β} {rules : Rules} (hloop : Grammar.Loop rules round run)
    (hr : rules.Over f.tokens) (hr' : rules.Over f.other)
    (hround : ∀ s, Forks f goal false Wherever (round s)) (s : σ) :
    Forks f goal ended pre (tokensLeft >>= fun n => run n s) :=
  forks_loopAt hloop hr hr' hround nofun s

end

/-- A loop that collects items. -/
theorem forks_collect {rules : Rules} {round : List α → Parse (Round (List α) (List α))}
    {run : Nat → Parse (List α)}
    (hloop : Grammar.Loop rules round fun n items => (items ++ ·) <$> run n)
    (hr : rules.Over f.tokens) (hr' : rules.Over f.other)
    (hround : ∀ items, Forks f goal false Wherever (round items)) :
    Forks f goal ended pre (tokensLeft >>= run) := by
  have h : Forks f goal ended pre _ := forks_loop hloop hr hr' hround []
  simp only [List.nil_append, id_map'] at h
  exact h

/-! ## Layout -/

section

variable {test : TokenKind → Bool} {pass : Parse Token} {c c' d : Cursor}
  {r : Except Diagnostic (Unit × Cursor)}

theorem run_skipRound_of_not (hk : test c.current.kind = false) :
    (skipRound test pass ()).run c = .ok (.leave (), c) := by
  refine run_bind_eq_ok.mpr ⟨_, c, rfl, ?_⟩
  rw [if_neg (by simp [hk])]
  rfl

theorem run_skipRound (hk : test c.current.kind = true) {t : Token}
    (hpass : pass.run c = .ok (t, c')) : (skipRound test pass ()).run c = .ok (.again (), c') := by
  refine run_bind_eq_ok.mpr ⟨_, c, rfl, ?_⟩
  rw [if_pos hk]
  exact run_bind_eq_ok.mpr ⟨t, c', hpass, rfl⟩

/-- Layout is passed alike, or the first reading passes the end of the line where the lists part. -/
theorem Repeats.skips
    (hpass : ∀ c, ∃ rs, pass.run c = .ok (c.current, { c with readings := rs }.next))
    (htest : ∀ k ∈ TokenKind.closingBrackets, test k = false)
    (h : Repeats (skipRound test pass) () c (.ok ((), c')))
    (h' : Repeats (skipRound test pass) () d r) (hc : f.Beside goal c d) :
    (∃ d', r = .ok ((), d') ∧ f.Beside goal c' d') ∨ f.Parted goal c' r ∨
      ∃ c₁ d', f.Beside goal c₁ d' ∧ c₁.passed = f.place ∧ r = .ok ((), d') ∧
        Repeats (skipRound test pass) () c₁ (.ok ((), c')) ∧ test c₁.current.kind = true := by
  generalize hr : Except.ok ((), c') = r₁ at h
  generalize () = s at h
  induction h generalizing d with
  | raise => cases hr
  | @leave _ c _ _ h =>
    cases hr
    cases hk : test c.current.kind with
    | true =>
      obtain ⟨rs, hp⟩ := hpass c
      cases h.symm.trans (run_skipRound hk hp)
    | false =>
      cases h.symm.trans (run_skipRound_of_not hk)
      refine .inl ⟨d, h'.eq_of_leave (run_skipRound_of_not ?_), hc⟩
      rcases hc.lt_or_at_place with hlt | hplace
      · rwa [hc.current hlt]
      · obtain ⟨k, -, -, hbracket⟩ := hc.at_place hplace
        rw [hbracket]
        exact htest _ k.closes
  | @again _ _ c c₁ _ h hp rest ih =>
    cases hk : test c.current.kind with
    | false => cases h.symm.trans (run_skipRound_of_not hk)
    | true =>
      obtain ⟨rs, hp₁⟩ := hpass c
      cases h.symm.trans (run_skipRound hk hp₁)
      rcases hc.lt_or_at_place with hlt | hplace
      · obtain ⟨rs', hp₂⟩ := hpass d
        have hround : (skipRound test pass ()).run d = _ :=
          run_skipRound (by rwa [hc.current hlt]) hp₂
        rcases (hc.of_records rs rs' c.breaks d.breaks).next hlt with hnext | ⟨rfl, hpassed⟩
        · exact ih (h'.of_again hround) hnext hr
        · have := Cursor.StandsIn.passed_le (hr ▸ rest : Repeats _ _ _ (.ok ((), c'))).leads
          exact .inr (.inl (Nat.le_trans hpassed this))
      · obtain ⟨k, -, -, hbracket⟩ := hc.at_place hplace
        refine .inr (.inr ⟨c, d, hc, hplace, h'.eq_of_leave (run_skipRound_of_not ?_), ?_, hk⟩)
        · rw [hbracket]
          exact htest _ k.closes
        · exact .again h hp (hr ▸ rest)

/-- Behind the layout that was passed there is no more of it. -/
theorem Repeats.skipped
    (hpass : ∀ c, ∃ rs, pass.run c = .ok (c.current, { c with readings := rs }.next))
    (h : Repeats (skipRound test pass) () c (.ok ((), c'))) : test c'.current.kind = false := by
  generalize hr : Except.ok ((), c') = r₁ at h
  generalize () = s at h
  induction h with
  | raise => cases hr
  | @leave _ c _ _ h =>
    cases hr
    cases hk : test c.current.kind with
    | true =>
      obtain ⟨rs, hp⟩ := hpass c
      cases h.symm.trans (run_skipRound hk hp)
    | false =>
      cases h.symm.trans (run_skipRound_of_not hk)
      exact hk
  | again _ _ _ ih => exact ih hr

end

section

variable {c c' d : Cursor} {tokens : List Token} {i : Nat}

theorem run_advance (c : Cursor) :
    ∃ rs, advance.run c = .ok (c.current, { c with readings := rs }.next) :=
  ⟨c.readings, rfl⟩

theorem run_passLayout (c : Cursor) :
    ∃ rs, passLayout.run c = .ok (c.current, { c with readings := rs }.next) :=
  ⟨.skipped c.passed :: c.readings, rfl⟩

theorem repeats_skipNewlines (hc : c.At tokens i) :
    Repeats (skipRound (· == .newline) advance) () c (skipNewlines.run c) := by
  have hloop : Grammar.Loop (Grammar.rulesAt 0) _ _ := .emptyStatements
  obtain ⟨hunrolls, hpasses⟩ := hloop.unrolls_and_passes (Rules.over_rulesAt tokens 0)
  exact repeats_of_unrolls hunrolls hpasses hc (Nat.le_refl _) ()

theorem repeats_skipLayout (hc : c.At tokens i) :
    Repeats (skipRound TokenKind.isLayout passLayout) () c
      ((tokensLeft >>= skipFrom TokenKind.isLayout passLayout).run c) := by
  have hloop : Grammar.Loop (Grammar.rulesAt 0) _ _ := .layout
  obtain ⟨hunrolls, hpasses⟩ := hloop.unrolls_and_passes (Rules.over_rulesAt tokens 0)
  exact repeats_of_unrolls hunrolls hpasses hc (Nat.le_refl _) ()

theorem run_skipNewlines (hc : c.At tokens i) (h : skipNewlines.run c = .ok ((), c')) :
    c'.current.kind ≠ .newline := by
  exact beq_eq_false_iff_ne.mp ((h ▸ repeats_skipNewlines hc).skipped run_advance)

/-- There are no empty statements where no line ends. -/
theorem run_skipNewlines_of_ne (hk : c.current.kind ≠ .newline) :
    skipNewlines.run c = .ok ((), c) := by
  refine run_bind_eq_ok.mpr ⟨_, c, rfl, run_bind_eq_ok.mpr ⟨_, c, rfl, ?_⟩⟩
  rw [if_neg (by simpa using hk)]
  rfl

/-- The end of the line where the lists part, and the end of the block behind it. -/
theorem forks_skipNewlines : Forks f goal true pre skipNewlines := by
  rintro c c' d a hc - hrun hlast
  rcases (hrun ▸ repeats_skipNewlines hc.stands).skips run_advance (by decide)
    (repeats_skipNewlines hc.other) hc with hsame | hparted | ⟨c₁, d', hc₁, hplace, hd, h, hk⟩
  · exact .inl hsame
  · exact .inr (.inl hparted)
  · obtain ⟨k, rfl, -⟩ := hc₁.at_place hplace
    obtain ⟨hnext, hdedent⟩ := k.next (hplace ▸ hc₁.stands)
    have hleave := (h.of_again (run_skipRound hk rfl)).eq_of_leave
      (run_skipRound_of_not (by rw [hdedent]; rfl))
    cases hleave
    exact .inr (.inr ⟨rfl, rfl, hnext.passed, (), d', hd, hplace ▸ hc₁.other⟩)

theorem forks_noteBreak : Forks f goal ended pre noteBreak := by
  rintro c c' d a hc - hrun -
  cases hrun
  exact .inl ⟨_, rfl, hc.of_records _ _ _ _⟩

/-- Between braces the lists do not part: the end of a block would be skipped there. -/
theorem forks_skipLayout : Forks f goal ended pre skipLayout := by
  have hskip : Forks f goal false pre (tokensLeft >>= skipFrom TokenKind.isLayout passLayout) := by
    rintro c c' d a hc - hrun hlast
    rcases (hrun ▸ repeats_skipLayout hc.stands).skips run_passLayout (by decide)
      (repeats_skipLayout hc.other) hc with hsame | hparted | ⟨c₁, d', hc₁, hplace, -, h, hk⟩
    · exact .inl hsame
    · exact .inr (.inl hparted)
    · obtain ⟨k, rfl, -⟩ := hc₁.at_place hplace
      have hnoted := (hc₁.of_records (.skipped c₁.passed :: c₁.readings) d'.readings c₁.breaks
        d'.breaks).stands
      obtain ⟨hnext, hdedent⟩ :=
        k.next (c := { c₁ with readings := .skipped c₁.passed :: c₁.readings }) (hplace ▸ hnoted)
      have hrest := (h.of_again (run_skipRound hk rfl)).of_again
        (run_skipRound (by rw [hdedent]; rfl) rfl)
      have hends := k.isBlock (r := .skipped (f.place + 1))
        (List.mem_cons.mpr (.inl (congrArg Reading.skipped hnext.passed.symm)))
        (((Cursor.Leads.next _).trans hrest.leads).trans hlast) (by simp [Reading.endsAt])
      obtain ⟨_, hfalse⟩ := hends
      cases hfalse
  exact .bindLoop hskip fun _ => forks_noteBreak

end

/-- A statement ends in front of the end of a line and of a bracket that closes. -/
theorem forks_endStatement : Forks f goal true pre endStatement :=
  .onKind (x := (statementEnds ++ statementFollowers).contains) (by decide) fun _ =>
    .ite (fun _ => forks_skipNewlines) fun _ => forks_expected _

/-! ## Several items -/

section

variable {item : Parse α} {rules : Rules}

/-- One of several items in front of a closing token, and what separates it from the next one. -/
theorem forks_roundUntil (close : TokenKind) (hclose : close ≠ .newline) {sep : Parse Unit}
    (hsep : Forks f goal false Wherever sep) (hitem : Forks f goal false Wherever item)
    (htakes : item.Takes Wherever) (items : List α) :
    Forks f goal false Wherever (do
      if ← atKind close then return Round.leave items
      let a ← item
      sep
      return .again (items ++ [a]) : Parse (Round (List α) (List α))) := by
  refine .of_inLine (fun c r _ hk hrun => ?_) (.ask (fun c d hc h => ?_) fun _ => ?_)
  · -- at the end of a line an item would have to start
    obtain ⟨_, _, hfound, hrun⟩ := run_bind_eq_ok.mp hrun
    cases hfound
    rw [if_neg (by simpa [hk] using hclose.symm)] at hrun
    obtain ⟨_, _, hitem, -⟩ := run_bind_eq_ok.mp hrun
    have := (htakes trivial hitem).1
    rw [hk] at this
    cases this
  · rw [hc.current (hc.lt_of_kind h.2)]
  · exact .ite (fun _ => .pure) fun _ =>
      .bind (hitem.weaken fun _ _ => trivial) fun _ => .bind hsep fun _ => .pure

theorem forks_separator {close : TokenKind} (hclose : close ≠ .newline) (what : String) :
    Forks f goal ended pre (separator close what) := by
  refine .of_inLine (fun c r _ hk hrun => ?_) (.ask (fun c d hc h => ?_) fun _ => ?_)
  · obtain ⟨_, _, hfound, hrun⟩ := run_bind_eq_ok.mp hrun
    cases hfound
    rw [if_pos (by simpa [hk] using hclose.symm)] at hrun
    obtain ⟨_, _, hcomma, -⟩ := run_bind_eq_ok.mp hrun
    exact absurd (hk.symm.trans (run_expect hcomma).1) (by decide)
  · rw [hc.current (hc.lt_of_kind h.2)]
  · exact .ite (fun _ => .bind (forks_expect (by decide) _) fun _ => .pure) fun _ => .pure

theorem forks_separated {close : TokenKind} (hclose : close ≠ .newline) {what : String}
    (hloop : Grammar.Loop rules (separatedRound close what item)
      fun n items => (items ++ ·) <$> separatedFrom close what item n)
    (hr : rules.Over f.tokens) (hr' : rules.Over f.other)
    (hitem : Forks f goal false Wherever item) (htakes : item.Takes Wherever) :
    Forks f goal ended pre (separated close what item) :=
  forks_collect hloop hr hr'
    (forks_roundUntil close hclose (forks_separator hclose what) hitem htakes)

theorem forks_bracedSeparator : Forks f goal ended pre Grammar.bracedSeparator :=
  .bind forks_skipLayout fun _ => .bind (forks_accept (by decide) (by decide)) fun _ =>
    .ite (fun _ => forks_skipLayout) fun _ => .pure

theorem forks_braced
    (hloop : Grammar.Loop rules (bracedRound item)
      fun n items => (items ++ ·) <$> Grammar.bracedFrom item n)
    (hr : rules.Over f.tokens) (hr' : rules.Over f.other)
    (hitem : Forks f goal false Wherever item) (htakes : item.Takes Wherever) :
    Forks f goal ended pre (Grammar.braced item) := by
  have h : Forks f goal false Wherever _ := forks_collect hloop hr hr'
    (forks_roundUntil .rightBrace (by decide) forks_bracedSeparator hitem htakes)
  refine .bind forks_place fun first => .bind (forks_expect (by decide) _) fun start => ?_
  refine .bind forks_skipLayout fun _ => .bindLoop h fun items => .bind forks_place fun last => ?_
  refine .bind (forks_expect (by decide) _) fun _ => .bind (forks_spanFrom _) fun span => ?_
  exact .bind (forks_note _) fun _ => .pure

/-! ## Items of a construct -/

variable {c c' d d₁ : Cursor} {items as : List α}

theorem run_itemsRound_of_end (hk : c.current.kind = .dedent ∨ c.current.kind = .endOfFile) :
    (itemsRound item items).run c = .ok (.leave items, c) := by
  refine run_bind_eq_ok.mpr ⟨_, c, rfl, ?_⟩
  rw [if_pos (by simpa using hk)]
  rfl

theorem run_itemsRound (hk : ¬(c.current.kind = .dedent ∨ c.current.kind = .endOfFile)) :
    (itemsRound item items).run c = (skipNewlines >>= fun _ => atKind .dedent >>= fun ended =>
      if ended = true then pure (Round.leave items)
      else item >>= fun a => pure (.again (items ++ [a]))).run c := by
  rw [itemsRound, atAny, run_bind_of_ok (run_ask _ _), if_neg (by simpa using hk)]

/-- Where the lists part, a round of the second reading has to read an item at the bracket. -/
theorem run_itemsRound_of_closes (k : f.Closing)
    (hk : ¬(d.current.kind = .dedent ∨ d.current.kind = .endOfFile))
    (hskip : skipNewlines.run d = .ok ((), d₁)) (hd₁ : d₁.At f.other f.place) {e : Diagnostic}
    (hitem : item.run d₁ = .error e) : (itemsRound item items).run d = .error e := by
  rw [run_itemsRound hk, run_bind_of_ok hskip, atKind, run_bind_of_ok (run_ask _ _),
    k.current hd₁, if_neg, run_bind_of_error hitem]
  intro hdedent
  exact absurd (beq_iff_eq.mp hdedent ▸ k.closes) (by decide)

/-- A round of the second reading comes to the bracket: it should read an item there, or the next
    round should. -/
def Overruns (f : Fork) (item : Parse α)
    (r : Except Diagnostic (Round (List α) (List α) × Cursor)) : Prop :=
  ∃ d, d.At f.other f.place ∧
    ((∀ e, item.run d = .error e → r = .error e) ∨ ∃ items, r = .ok (.again items, d))

/-- If no item starts with a bracket, then the items do not go on behind it. -/
theorem Repeats.overruns (k : f.Closing) {r : Except Diagnostic (List α × Cursor)}
    (h : Repeats (itemsRound item) items d r)
    (hover : Overruns f item ((itemsRound item items).run d)) :
    ∃ d₁, d₁.At f.other f.place ∧ ∀ e, item.run d₁ = .error e → r = .error e := by
  obtain ⟨d₁, hd₁, hstops | ⟨items', hagain⟩⟩ := hover
  · exact ⟨d₁, hd₁, fun e he => h.eq_of_raise (hstops e he)⟩
  · have hcloses : d₁.current.kind ∈ TokenKind.closingBrackets := k.current hd₁ ▸ k.closes
    have hend : ¬(d₁.current.kind = .dedent ∨ d₁.current.kind = .endOfFile) := by
      rintro (hk | hk) <;> exact absurd (hk ▸ hcloses) (by decide)
    have hline : d₁.current.kind ≠ .newline := fun hk => absurd (hk ▸ hcloses) (by decide)
    exact ⟨d₁, hd₁, fun e he => (h.of_again hagain).eq_of_raise
      (run_itemsRound_of_closes k hend (run_skipNewlines_of_ne hline) hd₁ he)⟩

theorem forks_itemsRound {x : Round (List α) (List α)} (hitem : Forks f goal true InLine item)
    (hc : f.Beside goal c d) (h : (itemsRound item items).run c = .ok (x, c'))
    (hlast : f.Reaches goal c') :
    (∃ d', (itemsRound item items).run d = .ok (x, d') ∧ f.Beside goal c' d') ∨
      f.Parted goal c' ((itemsRound item items).run d) ∨ goal.isSome = true ∧
        c'.passed = f.place + 1 ∧ Overruns f item ((itemsRound item items).run d) := by
  by_cases hend : c.current.kind = .dedent ∨ c.current.kind = .endOfFile
  · cases h.symm.trans (run_itemsRound_of_end hend)
    have hsame := hc.current (hc.lt_of_kind (by rcases hend with hk | hk <;> simp [hk]))
    exact .inl ⟨d, run_itemsRound_of_end (by rwa [hsame]), hc⟩
  have hend' : ¬(d.current.kind = .dedent ∨ d.current.kind = .endOfFile) := by
    rcases hc.lt_or_at_place with hlt | hplace
    · rwa [hc.current hlt]
    · obtain ⟨k, -, -, hbracket⟩ := hc.at_place hplace
      rw [hbracket]
      rintro (hk | hk) <;> exact absurd (hk ▸ k.closes) (by decide)
  rw [run_itemsRound hend] at h
  obtain ⟨_, c₁, hskip, h₁⟩ := run_bind_eq_ok.mp h
  obtain ⟨_, _, hask, h₂⟩ := run_bind_eq_ok.mp h₁
  cases hask
  have hleads := Parse.leads _ h₂
  rw [run_itemsRound hend']
  have hlines : Forks f goal true Wherever skipNewlines := forks_skipNewlines
  rcases hlines hc trivial hskip (hlast.of_leads hleads) with
    ⟨d₁, hskip', hc₁⟩ | hparted | ⟨-, hended⟩
  · have hline : InLine c₁ := run_skipNewlines hc.stands hskip
    rw [run_bind_of_ok hskip', atKind, run_bind_of_ok (run_ask _ _),
      hc₁.current (hc₁.lt_of_kind hline)]
    split at h₂
    · cases h₂
      exact .inl ⟨d₁, by rw [if_pos ‹_›]; rfl, hc₁⟩
    rw [if_neg ‹_›]
    obtain ⟨a, c₂, hrun, hx⟩ := run_bind_eq_ok.mp h₂
    cases hx
    rcases hitem hc₁ hline hrun hlast with ⟨d₂, hrun', hc₂⟩ | hparted | ⟨-, hended⟩
    · exact .inl ⟨d₂, run_bind_of_ok hrun', hc₂⟩
    · exact .inr (.inl (hparted.mono (.refl _) fun e he => run_bind_of_error he))
    · obtain ⟨a', d₂, hrun', hd₂⟩ := hended.other
      exact .inr (.inr ⟨hended.known, hended.passed, d₂, hd₂, .inr ⟨_, run_bind_of_ok hrun'⟩⟩)
  · exact .inr (.inl (hparted.mono hleads fun e he => run_bind_of_error he))
  · obtain ⟨_, d₁, hskip', hd₁⟩ := hended.other
    obtain ⟨k, rfl⟩ := Option.isSome_iff_exists.mp hended.known
    have hdedent : c₁.current.kind = .dedent := by
      rw [← (hc.stands.of_leads (skipNewlines.leads hskip)).kindAt, hended.passed, k.dedent]
    rw [if_pos (beq_iff_eq.mpr hdedent)] at h₂
    cases h₂
    refine .inr (.inr ⟨rfl, hended.passed, d₁, hd₁, .inl fun e he => ?_⟩)
    rw [← run_itemsRound hend']
    exact run_itemsRound_of_closes k hend' hskip' hd₁ he

/-- The items of a construct are read alike.  Where the first reading comes to the end of the block
    behind the place where the lists part, the second one goes on to one more item at the bracket. -/
theorem Repeats.forks_items {r : Except Diagnostic (List α × Cursor)}
    (hitem : Forks f goal true InLine item)
    (h : Repeats (itemsRound item) items c (.ok (as, c')))
    (h' : Repeats (itemsRound item) items d r) (hc : f.Beside goal c d) (hlast : f.Reaches goal c') :
    (∃ d', r = .ok (as, d') ∧ f.Beside goal c' d') ∨ f.Parted goal c' r ∨
      goal.isSome = true ∧ c'.passed = f.place + 1 ∧
        ∃ d₁, d₁.At f.other f.place ∧ ∀ e, item.run d₁ = .error e → r = .error e := by
  generalize hr : Except.ok (as, c') = r₁ at h
  induction h generalizing d with
  | raise => cases hr
  | leave h =>
    cases hr
    rcases forks_itemsRound hitem hc h hlast with
      ⟨d', hd, hc'⟩ | hparted | ⟨hknown, hpassed, hover⟩
    · exact .inl ⟨d', h'.eq_of_leave hd, hc'⟩
    · exact .inr (.inl (hparted.mono (.refl _) fun e he => h'.eq_of_raise he))
    · obtain ⟨k, rfl⟩ := Option.isSome_iff_exists.mp hknown
      exact .inr (.inr ⟨rfl, hpassed, h'.overruns k hover⟩)
  | @again _ _ _ c₁ _ h _ rest ih =>
    have hleads := (hr ▸ rest : Repeats (itemsRound item) _ _ (.ok (as, c'))).leads
    rcases forks_itemsRound hitem hc h (hlast.of_leads hleads) with
      ⟨d', hd, hc'⟩ | hparted | ⟨hknown, hpassed, hover⟩
    · exact ih (h'.of_again hd) hc' hr
    · exact .inr (.inl (hparted.mono hleads fun e he => h'.eq_of_raise he))
    · obtain ⟨k, rfl⟩ := Option.isSome_iff_exists.mp hknown
      have hdedent : c₁.current.kind = .dedent := by
        rw [← (hc.stands.of_leads (Parse.leads _ h)).kindAt, hpassed, k.dedent]
      cases hr.trans (rest.eq_of_leave (run_itemsRound_of_end (.inl hdedent)))
      exact .inr (.inr ⟨rfl, hpassed, h'.overruns k hover⟩)

/-- What follows the items of an indented construct. -/
def closeItems (construct : Construct) (opening : Nat) (items : List α) : Parse (List α) := do
  let closing ← place
  let closed ← accept .dedent
  note (.enclosed construct opening (if closed then some closing else none))
  return items

theorem forks_closeItems (construct : Construct) (opening : Nat) (items : List α) :
    Forks f goal ended pre (closeItems construct opening items) :=
  .bind forks_place fun _ => .bind (forks_accept (by decide) (by decide)) fun _ =>
    .bind (forks_note _) fun _ => .pure

/-- The end of a block closes the construct, and that is on record. -/
theorem run_closeItems {construct : Construct} {opening : Nat} (hk : c.current.kind = .dedent)
    (h : (closeItems construct opening items).run c = .ok (as, c')) :
    .enclosed construct opening (some c.passed) ∈ c'.readings := by
  obtain ⟨_, _, hplace, h₁⟩ := run_bind_eq_ok.mp h
  cases hplace
  rw [run_bind_of_ok (run_accept_of_kind hk)] at h₁
  cases h₁
  exact List.mem_cons_self ..

/-- No indented construct starts where the lists part: a block ends there in the first one. -/
theorem not_run_indented {construct : Construct} (k : f.Closing) (hc : c.At f.tokens f.place)
    (r : List α × Cursor) : (indented construct item).run c ≠ .ok r := by
  intro h
  obtain ⟨_, c₁, hend, h₁⟩ := run_bind_eq_ok.mp h
  obtain ⟨_, _, hfound, hskip⟩ := run_bind_eq_ok.mp hend
  cases hfound
  rw [if_pos (by simp [k.kind_eq hc, statementEnds])] at hskip
  obtain ⟨-, hdedent⟩ := k.next hc
  have hlines := (hskip ▸ repeats_skipNewlines hc).of_again
    (run_skipRound (by rw [k.kind_eq hc]; rfl) rfl)
  have hnext := hlines.eq_of_leave (run_skipRound_of_not (by rw [hdedent]; rfl))
  cases hnext
  obtain ⟨_, _, hplace, h₂⟩ := run_bind_eq_ok.mp h₁
  cases hplace
  obtain ⟨_, _, hindent, -⟩ := run_bind_eq_ok.mp h₂
  exact absurd (hdedent.symm.trans (run_expect hindent).1) (by decide)

/-- An indented construct is read alike: where the lists part it can only be a block, and in the
    second list that does not end with the bracket. -/
theorem forks_indented {rules : Rules} {construct : Construct}
    (hloop : Grammar.Loop rules (itemsRound item)
      fun n items => (items ++ ·) <$> itemsFrom item n)
    (hr : rules.Over f.tokens) (hr' : rules.Over f.other) (hitem : Forks f goal true InLine item)
    (hrefuses : ∀ k, goal = some k → construct = .block →
      ∀ d, d.At f.other f.place → item.run d = .error k.problem) :
    Forks f goal ended pre (indented construct item) := by
  refine .bindEnd (q := Wherever) forks_endStatement (fun _ _ _ _ _ _ _ => trivial)
    (fun _ c r hk hrun => ?_) fun _ => .bind forks_place fun opening => ?_
  · -- no construct starts at the end of a block
    obtain ⟨_, _, hplace, h₁⟩ := run_bind_eq_ok.mp hrun
    cases hplace
    obtain ⟨_, _, hindent, -⟩ := run_bind_eq_ok.mp h₁
    exact absurd (hk.symm.trans (run_expect hindent).1) (by decide)
  refine .bind (forks_expect (by decide) _) fun _ => ?_
  rintro c c' d as hc - hrun hlast
  change (itemsFrom item c.tokensLeft >>= closeItems construct opening).run c = _ at hrun
  change (∃ d', (itemsFrom item d.tokensLeft >>= closeItems construct opening).run d = _ ∧ _) ∨
    f.Parted goal c' ((itemsFrom item d.tokensLeft >>= closeItems construct opening).run d) ∨
      ended = true ∧
        f.Ended goal c' ((itemsFrom item d.tokensLeft >>= closeItems construct opening).run d)
  obtain ⟨items, c₁, hitems, hclose⟩ := run_bind_eq_ok.mp hrun
  have hleads := Parse.leads _ hclose
  obtain ⟨hunrolls, hpasses⟩ := hloop.unrolls_and_passes hr
  obtain ⟨-, hpasses'⟩ := hloop.unrolls_and_passes hr'
  have h := repeats_of_unrolls hunrolls hpasses hc.stands (Nat.le_refl _) []
  have h' := repeats_of_unrolls hunrolls hpasses' hc.other (Nat.le_refl _) []
  simp only [List.nil_append, id_map'] at h h'
  rw [hitems] at h
  rcases h.forks_items hitem h' hc (hlast.of_leads hleads) with
    ⟨d₁, hitems', hc₁⟩ | hparted | ⟨hknown, hpassed, d₁, hd₁, hover⟩
  · rw [run_bind_of_ok hitems']
    have hcloses : Forks f goal ended Wherever (closeItems construct opening items) :=
      forks_closeItems construct opening items
    exact hcloses hc₁ trivial hclose hlast
  · exact .inr (.inl (hparted.mono hleads fun e he => run_bind_of_error he))
  · obtain ⟨k, rfl⟩ := Option.isSome_iff_exists.mp hknown
    have hdedent : c₁.current.kind = .dedent := by
      rw [← (hc.stands.of_leads (Parse.leads _ hitems)).kindAt, hpassed, k.dedent]
    obtain ⟨_, hblock⟩ := k.isBlock (run_closeItems hdedent hclose) hlast
      (by simp [Reading.endsAt, hpassed])
    injection hblock with hconstruct
    exact .inr (.inl (run_bind_of_error (hover _ (hrefuses k rfl hconstruct d₁ hd₁))))

end

end Parse

end EventScript
