import EventScript.Proofs.Grammar.Places

/-! # Token lists that part

Two token lists are the same up to a place.  A rule looks at the token that it stands on and, where
that is a name, at the two behind it; so it reads both lists alike for as long as it does not come to
the place where they part (`Parse.Forks`).

Of what happens at that place something is known where a line and a block end there in the first
list while a bracket closes there in the second one (`Fork.Closing`).  A statement can end in front
of both (`Fork.Ended`), but the block can not: it goes on to a further statement, and a bracket
starts none.

* `Fork`            two token lists that are the same up to a place
* `Fork.Closing`    a line and a block end there in one of them, and a bracket closes in the other one
* `Fork.Abreast`    two cursors, one in each list, that have passed the same tokens
* `Fork.Beside`     such cursors that do not stand where the lists part, unless that is to be known
* `Parse.Forks`     a rule reads both lists alike, or it comes to where they part
* `Forks.bind`, `Forks.bindEnd`   one step of a rule
-/

namespace EventScript

/-- The kinds that close brackets. -/
def TokenKind.closingBrackets : List TokenKind := [.rightParen, .rightBracket, .rightBrace]

/-- Something that is passed here ends with the token at a place: an indented construct does, and so
    does layout that means nothing. -/
def Reading.endsAt (place : Nat) : Reading → Bool
  | .enclosed _ _ closing => closing == some place
  | .skipped i => i == place
  | .braced .. | .unknown _ => false

/-- Two token lists that are the same up to a place, where in neither of them a name, a colon or a
    function stands. -/
structure Fork where
  tokens : List Token
  other : List Token
  place : Nat
  same : ∀ i < place, other[i]? = tokens[i]?
  plain : ∀ k ∈ [TokenKind.identifier, .colon, .fnWord],
    tokens[place]?.map Token.kind ≠ some k ∧ other[place]?.map Token.kind ≠ some k

namespace Fork

theorem getElem?_behind (earlier : List Token) (last : Token) (later : List Token) :
    (earlier ++ last :: later)[earlier.length + 1]? = later.head? := by
  rw [List.getElem?_append_right (Nat.le_succ _), Nat.succ_sub (Nat.le_refl _), Nat.sub_self]
  cases later <;> rfl

/-- Two token lists that part behind a token that both have. -/
def behind (earlier : List Token) (last : Token) (later more : List Token)
    (plain : ∀ k ∈ [TokenKind.identifier, .colon, .fnWord],
      later.head?.map Token.kind ≠ some k ∧ more.head?.map Token.kind ≠ some k) : Fork where
  tokens := earlier ++ last :: later
  other := earlier ++ last :: more
  place := earlier.length + 1
  same i hi := by
    rcases Nat.lt_or_eq_of_le (Nat.le_of_lt_succ hi) with hlt | rfl
    · rw [List.getElem?_append_left hlt, List.getElem?_append_left hlt]
    · simp
  plain := by rwa [getElem?_behind, getElem?_behind]

/-- Where two lists part, a line and a block end in the first one, whose reading leads to a known
    end, and a bracket closes in the second one. -/
structure Closing (f : Fork) where
  last : Cursor
  bracket : Token
  newline : kindAt f.tokens f.place = .newline
  dedent : kindAt f.tokens (f.place + 1) = .dedent
  found : f.other[f.place]? = some bracket
  closes : bracket.kind ∈ TokenKind.closingBrackets
  block : ∀ r ∈ last.readings, r.endsAt (f.place + 1) = true →
    ∃ opening, r = .enclosed .block opening (some (f.place + 1))

/-- What is told of a bracket where an expression should start. -/
def Closing.problem {f : Fork} (k : f.Closing) : Diagnostic :=
  .located (.unexpectedToken "expression" k.bracket.kind) k.bracket.span

variable {α : Type} {f : Fork} {goal : Option f.Closing} {c c' d d' : Cursor}

namespace Closing

theorem current (k : f.Closing) (hd : d.At f.other f.place) : d.current = k.bracket :=
  Option.some.inj (hd.getElem?.symm.trans k.found)

theorem kind_eq (k : f.Closing) (hc : c.At f.tokens f.place) : c.current.kind = .newline := by
  rw [← hc.kindAt, k.newline]

/-- Behind the end of the line the block ends. -/
theorem next (k : f.Closing) (hc : c.At f.tokens f.place) :
    c.next.At f.tokens (f.place + 1) ∧ c.next.current.kind = .dedent := by
  have hpassed : c.next.passed = f.place + 1 := hc.next (by rw [k.kind_eq hc]; decide)
  have hnext := hc.of_leads (.next c)
  rw [hpassed] at hnext
  exact ⟨hnext, by rw [← hnext.kindAt, k.dedent]⟩

/-- What is on record at the end of the block is the block. -/
theorem isBlock (k : f.Closing) {r : Reading} (hr : r ∈ c.readings) (hc : c.Leads k.last)
    (hends : r.endsAt (f.place + 1) = true) :
    ∃ opening, r = .enclosed .block opening (some (f.place + 1)) := by
  obtain ⟨new, hnew⟩ := hc.readings
  exact k.block r (hnew ▸ List.mem_append_right _ hr) hends

end Closing

/-- Two cursors, one in each list, that have passed the same tokens. -/
structure Abreast (f : Fork) (c d : Cursor) : Prop where
  stands : c.At f.tokens c.passed
  other : d.At f.other c.passed
  le : c.passed ≤ f.place
  lastStop : d.lastStop = c.lastStop
  loops : d.loops = c.loops

/-- Such cursors come to where the lists part only if something is to be known of that place. -/
structure Beside (f : Fork) (goal : Option f.Closing) (c d : Cursor) : Prop
    extends Abreast f c d where
  known : c.passed = f.place → goal.isSome = true

/-- The readings have come to where the lists part: the second one is refused there, if that is to be
    known. -/
def Parted (f : Fork) : Option f.Closing → Cursor → Except Diagnostic (α × Cursor) → Prop
  | none, c, _ => f.place ≤ c.passed
  | some k, _, r => r = .error k.problem

/-- The first reading has come behind the end of the line, and the second one to the bracket. -/
structure Ended (f : Fork) (goal : Option f.Closing) (c : Cursor)
    (r : Except Diagnostic (α × Cursor)) : Prop where
  known : goal.isSome = true
  passed : c.passed = f.place + 1
  other : ∃ b d, r = .ok (b, d) ∧ d.At f.other f.place

/-- A cursor from which the first reading goes on to its end. -/
def Reaches (f : Fork) : Option f.Closing → Cursor → Prop
  | none, _ => True
  | some k, c => c.Leads k.last

theorem Reaches.of_leads (h : f.Reaches goal c') (hc : c.Leads c') : f.Reaches goal c := by
  cases goal with
  | none => trivial
  | some k => exact hc.trans h

theorem Parted.mono {β : Type} {r : Except Diagnostic (α × Cursor)}
    {r' : Except Diagnostic (β × Cursor)} (h : f.Parted goal c r) (hc : c.Leads c')
    (hr : ∀ d, r = .error d → r' = .error d) : f.Parted goal c' r' := by
  cases goal with
  | none => exact Nat.le_trans h (Cursor.StandsIn.passed_le hc)
  | some k => exact hr _ h

theorem loops_next (c : Cursor) : c.next.loops = c.loops := by
  unfold Cursor.next
  split
  · rfl
  · split <;> rfl

namespace Abreast

theorem current (h : f.Abreast c d) (hlt : c.passed < f.place) : d.current = c.current := by
  have hd := h.other.getElem?
  rw [f.same _ hlt, h.stands.getElem?] at hd
  exact (Option.some.inj hd).symm

/-- What is on record makes no difference. -/
theorem of_records (h : f.Abreast c d) (rs rs' : List Reading) (bs bs' : List Nat) :
    f.Abreast { c with readings := rs, breaks := bs } { d with readings := rs', breaks := bs' } :=
  ⟨⟨⟨h.stands.standsIn.ended, h.stands.standsIn.left⟩, rfl, h.stands.lastStop⟩,
    ⟨⟨h.other.standsIn.ended, h.other.standsIn.left⟩, h.other.passed, h.other.lastStop⟩,
    h.le, h.lastStop, h.loops⟩

/-- The readings of both lists start alike. -/
theorem start (hplace : 0 < f.place) (hc : c.At f.tokens 0) (hd : d.At f.other 0)
    (htokens : Cursor.ofTokens? f.tokens = some c) (hother : Cursor.ofTokens? f.other = some d) :
    f.Abreast c d := by
  have hstart : ∀ {tokens : List Token} {c : Cursor}, Cursor.ofTokens? tokens = some c →
      c.lastStop = c.current.span.stop ∧ c.loops = 0 := by
    intro tokens c h
    cases tokens with
    | nil => cases h
    | cons t rest =>
      cases h
      exact ⟨rfl, rfl⟩
  have hsame : d.current = c.current := by
    have := hd.getElem?
    rw [f.same 0 hplace, hc.getElem?] at this
    exact (Option.some.inj this).symm
  obtain ⟨hstop, hloops⟩ := hstart htokens
  obtain ⟨hstop', hloops'⟩ := hstart hother
  refine ⟨?_, ?_, ?_, by rw [hstop, hstop', hsame], by rw [hloops, hloops']⟩
  · rwa [hc.passed]
  · rwa [hc.passed]
  · rw [hc.passed]
    exact Nat.zero_le _

theorem of_loops (h : f.Abreast c d) (n : Nat) :
    f.Abreast { c with loops := n } { d with loops := n } :=
  ⟨⟨⟨h.stands.standsIn.ended, h.stands.standsIn.left⟩, rfl, h.stands.lastStop⟩,
    ⟨⟨h.other.standsIn.ended, h.other.standsIn.left⟩, h.other.passed, h.other.lastStop⟩,
    h.le, h.lastStop, rfl⟩

/-- Passing the same token. -/
theorem next (h : f.Abreast c d) (hlt : c.passed < f.place) : f.Abreast c.next d.next := by
  have hsame := h.current hlt
  by_cases hend : c.current.kind = .endOfFile
  · have hc : c.next = c := by simp [Cursor.next, Cursor.atEnd, hend]
    have hd : d.next = d := by simp [Cursor.next, Cursor.atEnd, hsame, hend]
    rwa [hc, hd]
  have hpassed := h.stands.next hend
  have hstop := (h.stands.standsIn.next hend).2.1
  have hpassed' := h.other.next (by rwa [hsame])
  have hstop' := (h.other.standsIn.next (by rwa [hsame])).2.1
  refine ⟨h.stands.of_leads (.next c), ?_, ?_, ?_, ?_⟩
  · rw [hpassed, ← hpassed']
    exact h.other.of_leads (.next d)
  · rw [hpassed]
    exact hlt
  · rw [hstop, hstop', hsame]
  · rw [loops_next, loops_next, h.loops]

end Abreast

namespace Beside

/-- Where the lists part, a line ends in the first one, and a bracket closes in the second one. -/
theorem at_place (h : f.Beside goal c d) (hc : c.passed = f.place) :
    ∃ k, goal = some k ∧ c.current.kind = .newline ∧ d.current = k.bracket := by
  obtain ⟨k, rfl⟩ := Option.isSome_iff_exists.mp (h.known hc)
  refine ⟨k, rfl, ?_, ?_⟩
  · exact k.kind_eq (hc ▸ h.stands)
  · exact k.current (hc ▸ h.other)

theorem lt_or_at_place (h : f.Beside goal c d) : c.passed < f.place ∨ c.passed = f.place :=
  Nat.lt_or_eq_of_le h.le

theorem lt_of_kind (h : f.Beside goal c d) (hk : c.current.kind ≠ .newline) :
    c.passed < f.place := by
  refine h.lt_or_at_place.resolve_right fun hc => ?_
  obtain ⟨_, -, hnewline, -⟩ := h.at_place hc
  exact hk hnewline

theorem of_records (h : f.Beside goal c d) (rs rs' : List Reading) (bs bs' : List Nat) :
    f.Beside goal { c with readings := rs, breaks := bs }
      { d with readings := rs', breaks := bs' } :=
  ⟨h.toAbreast.of_records rs rs' bs bs', h.known⟩

theorem of_loops (h : f.Beside goal c d) (n : Nat) :
    f.Beside goal { c with loops := n } { d with loops := n } :=
  ⟨h.toAbreast.of_loops n, h.known⟩

theorem next (h : f.Beside goal c d) (hlt : c.passed < f.place) :
    f.Beside goal c.next d.next ∨ goal = none ∧ f.place ≤ c.next.passed := by
  have hnext := h.toAbreast.next hlt
  by_cases hknown : c.next.passed = f.place → goal.isSome = true
  · exact .inl ⟨hnext, hknown⟩
  · rw [Classical.not_imp, Bool.not_eq_true, Option.isSome_eq_false_iff,
      Option.isNone_iff_eq_none] at hknown
    exact .inr ⟨hknown.2, Nat.le_of_eq hknown.1.symm⟩

/-- The kind of a token some places ahead. -/
theorem kindAhead?_eq {tokens : List Token} (h : c.StandsIn tokens) (n : Nat) :
    c.kindAhead? n = tokens[c.passed + n]?.map Token.kind := by
  have hleft : c.left[n]? = tokens[c.passed + n]? := by rw [h.left, List.getElem?_drop]
  rw [← hleft]
  cases n <;> rfl

/-- Before the lists part, the same kinds lie ahead, and there neither a name nor a colon nor a
    function does. -/
theorem isAhead_eq (h : f.Beside goal c d) {n : Nat} (hn : c.passed + n ≤ f.place) {k : TokenKind}
    (hk : k ∈ [TokenKind.identifier, .colon, .fnWord]) :
    (d.kindAhead? n == some k) = (c.kindAhead? n == some k) := by
  rw [kindAhead?_eq h.stands.standsIn, kindAhead?_eq h.other.standsIn, h.other.passed]
  rcases Nat.lt_or_eq_of_le hn with hlt | heq
  · rw [f.same _ hlt]
  · obtain ⟨htokens, hother⟩ := f.plain k hk
    rw [heq, beq_false_of_ne htokens, beq_false_of_ne hother]

/-- A name, a colon or a function that lies ahead lies before the place where the lists part. -/
theorem lt_of_isAhead (h : f.Beside goal c d) {n : Nat} (hn : c.passed + n ≤ f.place)
    {k : TokenKind} (hk : k ∈ [TokenKind.identifier, .colon, .fnWord])
    (hahead : (c.kindAhead? n == some k) = true) : c.passed + n < f.place := by
  refine Nat.lt_of_le_of_ne hn fun heq => ?_
  rw [kindAhead?_eq h.stands.standsIn, heq, beq_false_of_ne (f.plain k hk).1] at hahead
  cases hahead

end Beside

end Fork

namespace Parse

open Fork

variable {α β γ : Type} {f : Fork} {goal : Option f.Closing} {ended : Bool} {pre : Cursor → Prop}

/-- A rule reads two lists alike, or it comes to the place where they part; some rules may also come
    to the end of a statement there. -/
def Forks (f : Fork) (goal : Option f.Closing) (ended : Bool) (pre : Cursor → Prop) (p : Parse α) :
    Prop :=
  ∀ ⦃c c' d : Cursor⦄ ⦃a : α⦄, f.Beside goal c d → pre c → p.run c = .ok (a, c') →
    f.Reaches goal c' →
      (∃ d', p.run d = .ok (a, d') ∧ f.Beside goal c' d') ∨ f.Parted goal c' (p.run d) ∨
        ended = true ∧ f.Ended goal c' (p.run d)

/-- There is nothing to be known of a cursor. -/
def Wherever (_ : Cursor) : Prop := True

/-- A cursor that does not stand at the end of a line. -/
def InLine (c : Cursor) : Prop := c.current.kind ≠ .newline

variable {p : Parse α}

namespace Forks

/-- A rule that does not come to the end of a statement. -/
theorem free (h : Forks f goal false pre p) : Forks f goal ended pre p := by
  rintro c c' d a hc hpre hrun hlast
  rcases h hc hpre hrun hlast with h | h | ⟨h, -⟩
  · exact .inl h
  · exact .inr (.inl h)
  · cases h

theorem pure {a : α} : Forks f goal ended pre (Pure.pure a) := by
  rintro c c' d _ hc - hrun -
  cases hrun
  exact .inl ⟨d, rfl, hc⟩

theorem fail {e : Diagnostic} : Forks f goal ended pre (Parse.fail e : Parse α) := by
  rintro c c' d a - - hrun
  cases hrun

/-- One computation after another, where something is known of the place in between. -/
theorem bindRun {g : α → Parse β} {q : Cursor → Prop} (hp : Forks f goal false pre p)
    (hq : ∀ ⦃c d a⦄, p.run c = .ok (a, d) → q d) (hg : ∀ a, Forks f goal ended q (g a)) :
    Forks f goal ended pre (p >>= g) := by
  rintro c c'' d b hc hpre hrun hlast
  obtain ⟨a, c', hpa, hgb⟩ := run_bind_eq_ok.mp hrun
  have hleads := (g a).leads hgb
  rcases hp hc hpre hpa (hlast.of_leads hleads) with ⟨d', hpd, hd⟩ | hparted | ⟨h, -⟩
  · rw [run_bind_of_ok hpd]
    exact hg a hd (hq hpa) hgb hlast
  · exact .inr (.inl (hparted.mono hleads fun _ => run_bind_of_error))
  · cases h

theorem bind {g : α → Parse β} (hp : Forks f goal false pre p)
    (hg : ∀ a, Forks f goal ended Wherever (g a)) : Forks f goal ended pre (p >>= g) :=
  .bindRun hp (fun _ _ _ _ => trivial) hg

/-- The end of a statement, behind which nothing is passed. -/
theorem bindStay {g : α → Parse β} (hp : Forks f goal true pre p)
    (hg : ∀ a, ∃ b : Location → β, ∀ c, (g a).run c = .ok (b c.lastStop, c)) :
    Forks f goal true pre (p >>= g) := by
  rintro c c'' d x hc hpre hrun hlast
  obtain ⟨a, c', hpa, hgb⟩ := run_bind_eq_ok.mp hrun
  obtain ⟨b, hb⟩ := hg a
  cases (hb c').symm.trans hgb
  rcases hp hc hpre hpa hlast with ⟨d', hpd, hd⟩ | hparted | ⟨-, hended⟩
  · refine .inl ⟨d', ?_, hd⟩
    rw [run_bind_of_ok hpd, hb, hd.lastStop]
  · exact .inr (.inl (hparted.mono (.refl _) fun _ => run_bind_of_error))
  · obtain ⟨a', d', hpd, hd⟩ := hended.other
    obtain ⟨b', hb'⟩ := hg a'
    exact .inr (.inr ⟨rfl, hended.known, hended.passed, _, d',
      (run_bind_of_ok hpd).trans (hb' d'), hd⟩)

/-- The end of a statement, and what can not go on with the end of a block. -/
theorem bindEnd {g : α → Parse β} {q : Cursor → Prop} (hp : Forks f goal true pre p)
    (hq : ∀ ⦃c d a tokens i⦄, c.At tokens i → p.run c = .ok (a, d) → q d)
    (hfail : ∀ a c r, c.current.kind = .dedent → (g a).run c ≠ .ok r)
    (hg : ∀ a, Forks f goal ended q (g a)) : Forks f goal ended pre (p >>= g) := by
  rintro c c'' d b hc hpre hrun hlast
  obtain ⟨a, c', hpa, hgb⟩ := run_bind_eq_ok.mp hrun
  have hleads := (g a).leads hgb
  rcases hp hc hpre hpa (hlast.of_leads hleads) with ⟨d', hpd, hd⟩ | hparted | ⟨-, hended⟩
  · rw [run_bind_of_ok hpd]
    exact hg a hd (hq hc.stands hpa) hgb hlast
  · exact .inr (.inl (hparted.mono hleads fun _ => run_bind_of_error))
  · obtain ⟨k, rfl⟩ := Option.isSome_iff_exists.mp hended.known
    refine absurd hgb (hfail a c' _ ?_)
    rw [← (hc.stands.of_leads (p.leads hpa)).kindAt, hended.passed, k.dedent]

theorem weaken {pre' : Cursor → Prop} (h : ∀ c, pre' c → pre c) (hp : Forks f goal ended pre p) :
    Forks f goal ended pre' p :=
  fun _ _ _ _ hc hpre => hp hc (h _ hpre)

theorem ite {t : Prop} [Decidable t] {q : Parse α} (hp : t → Forks f goal ended pre p)
    (hq : ¬ t → Forks f goal ended pre q) : Forks f goal ended pre (if t then p else q) := by
  split
  · exact hp ‹_›
  · exact hq ‹_›

theorem map {g : α → β} (hp : Forks f goal false pre p) : Forks f goal ended pre (g <$> p) :=
  bind hp fun _ => pure

/-- Looking at something that is the same for both cursors. -/
theorem ask {x : Cursor → γ} {g : γ → Parse α}
    (hx : ∀ c d, f.Beside goal c d → pre c → x d = x c)
    (hg : ∀ a, Forks f goal ended (fun c => pre c ∧ x c = a) (g a)) :
    Forks f goal ended pre (Parse.ask x >>= g) := by
  rintro c c' d b hc hpre hrun hlast
  obtain ⟨a, _, hxa, hgb⟩ := run_bind_eq_ok.mp hrun
  cases hxa
  have hd : (Parse.ask x >>= g).run d = (g (x c)).run d := by rw [← hx c d hc hpre]; rfl
  rw [hd]
  exact hg _ hc ⟨hpre, rfl⟩ hgb hlast

/-- Looking at the kind of the current token, in a way that does not tell the end of a line from a
    bracket that closes. -/
theorem onKind {x : TokenKind → γ} {g : γ → Parse α}
    (hx : ∀ k ∈ TokenKind.closingBrackets, x k = x .newline)
    (hg : ∀ a, Forks f goal ended (fun c => pre c ∧ x c.current.kind = a) (g a)) :
    Forks f goal ended pre (Parse.ask (fun c => x c.current.kind) >>= g) := by
  refine ask (fun c d hc _ => ?_) hg
  rcases hc.lt_or_at_place with hlt | hplace
  · rw [hc.current hlt]
  · obtain ⟨k, -, hnewline, hbracket⟩ := hc.at_place hplace
    rw [hnewline, hbracket]
    exact hx _ k.closes

/-- Going on in a way that depends on the kind of the current token, but not on whether it is the end
    of a line or a bracket that closes. -/
theorem onSameKind {g : TokenKind → Parse α}
    (hg : ∀ k ∈ TokenKind.closingBrackets, g k = g .newline)
    (h : ∀ k, Forks f goal ended (fun c => pre c ∧ c.current.kind = k) (g k)) :
    Forks f goal ended pre (kind >>= g) := by
  rintro c c' d a hc hpre hrun hlast
  have hd : (kind >>= g).run d = (g c.current.kind).run d := by
    change (g d.current.kind).run d = _
    rcases hc.lt_or_at_place with hlt | hplace
    · rw [hc.current hlt]
    · obtain ⟨k, -, hnewline, hbracket⟩ := hc.at_place hplace
      rw [hnewline, hbracket, hg _ k.closes]
  rw [hd]
  exact h _ hc ⟨hpre, rfl⟩ hrun hlast

/-- The current token, in front of a rule that does not start at the end of a line. -/
theorem current {g : Token → Parse α} (hpre : ∀ c, pre c → InLine c)
    (hg : ∀ t, Forks f goal ended (fun c => pre c ∧ c.current = t) (g t)) :
    Forks f goal ended pre (Parse.current >>= g) :=
  ask (fun _ _ hc h => hc.current (hc.lt_of_kind (hpre _ h))) hg

/-- Looking for a word, in front of a rule that does not start at the end of a line. -/
theorem atWord {word : String} {g : Bool → Parse α} (hpre : ∀ c, pre c → InLine c)
    (hg : ∀ found, Forks f goal ended pre (g found)) :
    Forks f goal ended pre (Parse.atWord word >>= g) := by
  refine ask (fun c d hc h => ?_) fun found => (hg found).weaken fun _ h => h.1
  rw [hc.current (hc.lt_of_kind (hpre c h))]

/-- A rule that fails at the end of a line. -/
theorem of_inLine (h : ∀ c r, pre c → c.current.kind = .newline → p.run c ≠ .ok r)
    (hp : Forks f goal ended (fun c => pre c ∧ InLine c) p) : Forks f goal ended pre p := by
  rintro c c' d a hc hpre hrun hlast
  exact hp hc ⟨hpre, fun hk => h c _ hpre hk hrun⟩ hrun hlast

/-- A rule that takes the token it starts on. -/
theorem of_takes (h : p.Takes pre) (hp : Forks f goal ended (fun c => pre c ∧ InLine c) p) :
    Forks f goal ended pre p := by
  refine .of_inLine (fun c r hpre hk hrun => ?_) hp
  have := (h hpre hrun).1
  rw [hk] at this
  cases this

end Forks

/-! ## Single tokens -/

theorem forks_expected (what : String) : Forks f goal ended pre (expected what : Parse α) :=
  fun _ _ _ _ _ _ hrun => absurd hrun (not_run_expected _ _ _)

theorem forks_advance (hpre : ∀ c, pre c → InLine c) : Forks f goal ended pre advance := by
  rintro c c' d t hc hc' hrun -
  cases hrun
  have hlt := hc.lt_of_kind (hpre c hc')
  rcases hc.next hlt with hnext | ⟨rfl, hplace⟩
  · exact .inl ⟨d.next, by rw [← hc.current hlt]; rfl, hnext⟩
  · exact .inr (.inl hplace)

theorem forks_expect {k : TokenKind} (hk : k ≠ .newline) (what : String) :
    Forks f goal ended pre (expect k what) := by
  rintro c c' d t hc - hrun hlast
  obtain ⟨hkind, rfl, rfl⟩ := run_expect hrun
  have hline : c.current.kind ≠ .newline := by rwa [hkind]
  have hsame := hc.current (hc.lt_of_kind hline)
  have hadvance : Forks f goal ended InLine advance := forks_advance fun _ h => h
  rw [show (expect k what).run d = advance.run d from run_expect_of_kind (by rw [hsame, hkind])]
  exact hadvance hc hline rfl hlast

theorem forks_accept {k : TokenKind} (hk : k ≠ .newline) (hclose : k ∉ TokenKind.closingBrackets) :
    Forks f goal ended pre (accept k) := by
  refine .onKind (x := (· == k)) (fun k' hk' => ?_) fun found =>
    .ite (fun hfound => ?_) fun _ => .pure
  · rw [beq_false_of_ne hk.symm, beq_eq_false_iff_ne]
    rintro rfl
    exact hclose hk'
  · refine .bind (forks_advance ?_) fun _ => .pure
    rintro c ⟨-, rfl⟩ hline
    exact hk ((beq_iff_eq.mp hfound).symm.trans hline)

theorem forks_acceptInLine {k : TokenKind} (hpre : ∀ c, pre c → InLine c) :
    Forks f goal ended pre (accept k) := by
  refine .ask (fun c d hc h => ?_) fun found => .ite (fun _ => ?_) fun _ => .pure
  · rw [hc.current (hc.lt_of_kind (hpre c h))]
  · exact .bind (forks_advance fun c h => hpre c h.1) fun _ => .pure

theorem forks_optional {k : TokenKind} (hk : k ≠ .newline) (hclose : k ∉ TokenKind.closingBrackets)
    (hp : Forks f goal false Wherever p) : Forks f goal ended pre (optional k p) :=
  .bind (forks_accept hk hclose) fun _ => .ite (fun _ => .map hp) fun _ => .pure

theorem forks_spanFrom (start : Token) : Forks f goal ended pre (spanFrom start) :=
  .ask (fun _ _ hc _ => hc.lastStop) fun _ => .pure

theorem forks_note (r : Reading) : Forks f goal ended pre (note r) := by
  rintro c c' d a hc - hrun -
  cases hrun
  exact .inl ⟨_, rfl, hc.of_records _ _ _ _⟩

theorem forks_place : Forks f goal ended pre place :=
  .ask (g := Pure.pure) (fun _ _ hc _ => hc.other.passed) fun _ => .pure

/-! ## Loops around -/

theorem forks_setLoops (g : Nat → Nat) : Forks f goal ended pre (setLoops g) := by
  rintro c c' d a hc - hrun -
  cases hrun
  have hloops := hc.of_loops (g c.loops)
  refine .inl ⟨_, rfl, ?_⟩
  rw [hc.loops]
  exact hloops

theorem forks_insideLoop (hp : Forks f goal false Wherever p) :
    Forks f goal ended pre (insideLoop p) :=
  .bind (forks_setLoops _) fun _ => .bind hp fun _ => .bind (forks_setLoops _) fun _ => .pure

theorem forks_outsideLoops (hp : Forks f goal false Wherever p) :
    Forks f goal ended pre (outsideLoops p) :=
  .ask (fun _ _ hc _ => hc.loops) fun _ => .bind (forks_setLoops _) fun _ => .bind hp fun _ =>
    .bind (forks_setLoops _) fun _ => .pure

end Parse

end EventScript
