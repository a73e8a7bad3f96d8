import EventScript.Proofs.Token.Layout
import EventScript.Token.Scan
import Mathlib

/-! # The layout of scanned sources

The scanner puts layout tokens between the tokens that are written out: one for the end of a line
that has any, and one for each block that a line opens or closes.  Blocks are opened and closed only
where another token of the line follows, so between two steps the last token is none of these.

* `Scanner.Between`          what holds between two steps of the scanner
* `Scanner.Ready`            what holds before the first token of a line as well
* `Moves`                    what a step can do
* `Between.step`             a step leads from one such place to the next
* `scan_laidOut`             the tokens of every source are laid out
-/

namespace EventScript

/-! ## Runs of characters -/

section

variable {p : Char → Bool} {cs behind : List Char}

theorem takeWhile_append_of_forall (hcs : ∀ c ∈ cs, p c = true)
    (hbehind : ∀ c ∈ behind.head?, p c = false) : (cs ++ behind).takeWhile p = cs := by
  rw [List.takeWhile_append_of_pos hcs]
  cases behind with
  | nil => simp
  | cons c behind => simp [hbehind c rfl]

theorem drop_length_takeWhile (p : Char → Bool) (cs : List Char) :
    cs.drop (cs.takeWhile p).length = cs.dropWhile p :=
  calc cs.drop (cs.takeWhile p).length
      = (cs.takeWhile p ++ cs.dropWhile p).drop (cs.takeWhile p).length := by
        rw [List.takeWhile_append_dropWhile]
    _ = cs.dropWhile p := List.drop_left

theorem head?_dropWhile_eq_false (cs : List Char) {c : Char} (hc : c ∈ (cs.dropWhile p).head?) : p c = false := by
  have hnot := List.head?_dropWhile_not p cs
  rw [Option.mem_def.mp hc] at hnot
  simpa using hnot

end

/-! ## Lexemes -/

/-- A word is a name or one of the keywords. -/
theorem TokenKind.ofWord_of_keywords {P : TokenKind → Prop} (hname : P .identifier)
    (hkeyword : ∀ e ∈ keywords, P e.2) (word : String) : P (ofWord word) := by
  unfold ofWord
  cases h : keywords.lookup word with
  | none => exact hname
  | some k =>
    obtain ⟨l₁, l₂, hl, -⟩ := List.lookup_eq_some_iff.mp h
    exact hkeyword (word, k) (by rw [hl]; simp)

theorem TokenKind.isContent_ofWord (word : String) : (ofWord word).isContent = true :=
  ofWord_of_keywords (P := fun k => k.isContent = true) rfl (by decide) word

namespace Lexeme

/-- The kind of an operator is one of those of its one or two characters. -/
theorem kind_operator? {c : Char} {rest : List Char} {l : Lexeme} (h : operator? c rest = some l) :
    (∃ d, pairOperator? c d = some l.kind) ∨ singleOperator? c = some l.kind := by
  unfold operator? at h
  split at h
  · rename_i kind d hd
    cases h
    obtain ⟨e, -, he⟩ := Option.bind_eq_some_iff.mp hd
    obtain ⟨k, hk, hkd⟩ := Option.map_eq_some_iff.mp he
    cases hkd
    exact .inl ⟨_, hk⟩
  · obtain ⟨k, hk, rfl⟩ := Option.map_eq_some_iff.mp h
    exact .inr hk

theorem isContent_operator? {c : Char} {rest : List Char} {l : Lexeme}
    (h : operator? c rest = some l) : l.kind.isContent = true := by
  have hkind := kind_operator? h
  generalize l.kind = k at hkind ⊢
  rcases hkind with ⟨d, hk⟩ | hk
  · unfold pairOperator? at hk
    split at hk <;> cases hk <;> rfl
  · unfold singleOperator? at hk
    split at hk <;> cases hk <;> rfl

/-- What is read from a source is a token that is written out. -/
theorem isContent_read {afterOperand : Bool} {c : Char} {rest : List Char} {l : Lexeme}
    (h : read afterOperand c rest = .ok l) : l.kind.isContent = true := by
  unfold read at h
  split at h
  · cases h
    rfl
  split at h
  · cases h
    rfl
  split at h
  · dsimp only at h
    split at h
    · cases h
      rfl
    · cases h
  split at h
  · cases h
    exact TokenKind.isContent_ofWord _
  split at h
  · rename_i l' hl
    cases h
    exact isContent_operator? hl
  · cases h

end Lexeme

namespace Scanner

/-! ## The tokens found so far -/

/-- The kinds of the tokens found so far, in their order. -/
def kinds (s : Scanner) : List TokenKind := (s.tokens.map Token.kind).reverse

/-- The tokens found so far can be read, up to a place with an open block for each open width. -/
def Tracks (s : Scanner) (place : LinePlace) : Prop :=
  Tracker.start.read? s.kinds = some ⟨place, s.levels.length⟩

/-- The widths of the open blocks grow, from zero on. -/
def Rising (s : Scanner) : Prop := (s.levels ++ [0]).Pairwise (· > ·)

/-- Two scanners have found the same tokens and have the same blocks open. -/
structure SameTokens (s t : Scanner) : Prop where
  tokens : t.tokens = s.tokens
  levels : t.levels = s.levels

theorem kinds_push (s : Scanner) (k : TokenKind) (v : Literal) (lexeme : String) (l : Location) :
    (s.push k v lexeme l).kinds = s.kinds ++ [k] := by
  simp [kinds, push]

theorem getLast?_kinds (s : Scanner) : s.kinds.getLast? = s.lastKind? := by
  rw [kinds, List.getLast?_reverse, List.head?_map]
  rfl

theorem sameTokens_advance (s : Scanner) (n : Nat) : SameTokens s (s.advance n) := ⟨rfl, rfl⟩

namespace SameTokens

variable {s t u : Scanner}

theorem trans (h : SameTokens s t) (h' : SameTokens t u) : SameTokens s u :=
  ⟨h'.tokens.trans h.tokens, h'.levels.trans h.levels⟩

theorem tracks (h : SameTokens s t) {place : LinePlace} (hs : s.Tracks place) : t.Tracks place := by
  rw [Tracks, kinds, h.tokens, h.levels]
  exact hs

theorem rising (h : SameTokens s t) (hs : s.Rising) : t.Rising := by
  rw [Rising, h.levels]
  exact hs

end SameTokens

theorem Tracks.push {s : Scanner} {place : LinePlace} (hs : s.Tracks place) {k : TokenKind}
    {place' : LinePlace}
    (hk : (⟨place, s.levels.length⟩ : Tracker).step? k = some ⟨place', s.levels.length⟩)
    (v : Literal) (lexeme : String) (l : Location) : (s.push k v lexeme l).Tracks place' := by
  rw [Tracks, kinds_push, Tracker.read?_append, hs, Option.bind_some, Tracker.read?_singleton]
  exact hk

/-- A place is the first one exactly if nothing was found, and then no block is open. -/
theorem Tracks.levels_eq_nil {s : Scanner} (hs : s.Tracks .atStart) : s.levels = [] := by
  have hnone : s.kinds = [] := Tracker.place_read? hs
  rw [Tracks, hnone] at hs
  cases hlevels : s.levels with
  | nil => rfl
  | cons width rest => simp [hlevels, Tracker.start] at hs

/-- Layout tokens cover nothing, so several of them stand at one place. -/
theorem tokens_pushLayouts (s : Scanner) (k : TokenKind) (n : Nat) :
    (s.pushLayouts k n).tokens = List.replicate n ⟨k, .null, "", ⟨s.here, s.here⟩⟩ ++ s.tokens := by
  induction n generalizing s with
  | zero => rfl
  | succ n ih =>
    rw [pushLayouts, ih, List.replicate_succ', List.append_assoc]
    rfl

theorem here_pushLayouts (s : Scanner) (k : TokenKind) (n : Nat) :
    (s.pushLayouts k n).here = s.here := by
  induction n generalizing s with
  | zero => rfl
  | succ n ih => exact ih _

theorem kinds_pushLayouts (s : Scanner) (k : TokenKind) (n : Nat) :
    (s.pushLayouts k n).kinds = s.kinds ++ List.replicate n k := by
  rw [kinds, tokens_pushLayouts]
  simp [kinds]

theorem levels_pushLayouts (s : Scanner) (k : TokenKind) (n : Nat) :
    (s.pushLayouts k n).levels = s.levels := by
  induction n generalizing s with
  | zero => rfl
  | succ n ih => exact ih _

/-- Blocks that are closed at one place. -/
theorem read?_dedents {place behind : LinePlace} (n depth : Nat)
    (hplace : (place = .lineEnded ∨ place = .closed) ∧ behind = .closed ∨
      (place = .inLine ∨ place = .finishing) ∧ behind = .finishing) :
    (⟨place, n + depth⟩ : Tracker).read? (List.replicate n .dedent) =
      some ⟨if n = 0 then place else behind, depth⟩ := by
  induction n generalizing place with
  | zero => simp
  | succ n ih =>
    have hfirst : (⟨place, n + 1 + depth⟩ : Tracker).step? .dedent = some ⟨behind, n + depth⟩ := by
      have hpos : n + 1 + depth ≠ 0 := by omega
      have hpred : n + 1 + depth - 1 = n + depth := by omega
      rcases hplace with ⟨rfl | rfl, rfl⟩ | ⟨rfl | rfl, rfl⟩ <;>
        simp only [Tracker.step?, hpos, if_false, hpred]
    have hbehind : (behind = .lineEnded ∨ behind = .closed) ∧ behind = .closed ∨
        (behind = .inLine ∨ behind = .finishing) ∧ behind = .finishing := by
      rcases hplace with ⟨-, h⟩ | ⟨-, h⟩
      · exact .inl ⟨.inr h, h⟩
      · exact .inr ⟨.inr h, h⟩
    rw [List.replicate_succ, Tracker.read?_cons, hfirst, Option.bind_some, ih hbehind]
    simp

/-! ## Places of the scan -/

/-- What holds between two steps: the last token found is written out or ends a line, and it ends a
    line where a new one starts. -/
structure Between (s : Scanner) : Prop where
  rising : s.Rising
  tracks : s.Tracks .atStart ∨ s.Tracks .inLine ∨ s.Tracks .lineEnded
  fresh : s.atLineStart = true → s.Tracks .atStart ∨ s.Tracks .lineEnded

/-- What holds where a token that is written out may follow. -/
structure Ready (s : Scanner) : Prop where
  rising : s.Rising
  tracks : ∃ place, s.Tracks place ∧ place ≠ .finishing ∧ place ≠ .done

theorem Between.ready {s : Scanner} (hs : s.Between) : s.Ready := by
  refine ⟨hs.rising, ?_⟩
  rcases hs.tracks with h | h | h <;> exact ⟨_, h, by decide, by decide⟩

/-- A token that is written out. -/
theorem Ready.take {s : Scanner} (hs : s.Ready) {l : Lexeme} (hl : l.kind.isContent = true)
    (hstart : s.atLineStart = false) : (s.take l).Between := by
  obtain ⟨place, hplace, hfinishing, hdone⟩ := hs.tracks
  have hmoved := sameTokens_advance s l.chars.length
  have htaken : (s.take l).Tracks .inLine := by
    refine (hmoved.tracks hplace).push ?_ _ _ _
    rw [Tracker.step?_content hl, if_neg (by simp [hfinishing, hdone])]
  refine ⟨hmoved.rising hs.rising, .inr (.inl htaken), fun h => ?_⟩
  exact absurd (hstart.symm.trans h) (by decide)

/-- The end of a line. -/
theorem Between.lineFeed {s : Scanner} (hs : s.Between) : s.lineFeed.Between := by
  -- whatever is added, the new line starts behind nothing or behind the end of a line
  suffices h : s.lineFeed.Tracks .atStart ∨ s.lineFeed.Tracks .lineEnded by
    have hlevels : s.lineFeed.levels = s.levels := by
      unfold Scanner.lineFeed
      dsimp only
      split <;> rfl
    refine ⟨?_, h.imp_right .inr, fun _ => h⟩
    rw [Rising, hlevels]
    exact hs.rising
  have hmoved : SameTokens s { s.advance 1 with atLineStart := true } := ⟨rfl, rfl⟩
  unfold Scanner.lineFeed
  dsimp only
  rw [← getLast?_kinds]
  rcases hs.tracks with h | h | h
  · have hlast : s.kinds = [] := Tracker.place_read? h
    rw [hlast]
    exact .inl (hmoved.tracks h)
  · obtain ⟨k, hlast, hk⟩ := Tracker.place_read? h
    rw [hlast]
    refine .inr ?_
    split
    · rename_i heq
      cases heq
    · rename_i heq
      cases heq
      cases hk
    · rename_i heq
      cases heq
      cases hk
    · rename_i heq
      cases heq
      cases hk
    · exact (hmoved.tracks h).push rfl _ _ _
  · have hlast : s.kinds.getLast? = some .newline := Tracker.place_read? h
    rw [hlast]
    exact .inr (hmoved.tracks h)

/-- The blocks that are closed before the first token of a line. -/
theorem Tracks.close {t : Scanner} (h : t.Tracks .atStart ∨ t.Tracks .lineEnded)
    {closed left : List Nat} (hsplit : t.levels = closed ++ left) :
    ∃ place, ({ t with levels := left }.pushLayouts .dedent closed.length).Tracks place ∧
      place ≠ .finishing ∧ place ≠ .done := by
  rcases h with h | h
  · obtain ⟨rfl, rfl⟩ := List.append_eq_nil_iff.mp (hsplit.symm.trans h.levels_eq_nil)
    refine ⟨.atStart, ?_, by decide, by decide⟩
    rw [Tracks, hsplit] at h
    exact h
  · refine ⟨if closed.length = 0 then .lineEnded else .closed, ?_, ?_, ?_⟩
    · rw [Tracks, levels_pushLayouts, kinds_pushLayouts, Tracker.read?_append]
      change (Tracker.start.read? t.kinds).bind _ = _
      rw [h, Option.bind_some, hsplit, List.length_append]
      exact read?_dedents _ _ (.inl ⟨.inl rfl, rfl⟩)
    all_goals split <;> decide

/-- A width that is greater than the innermost one is greater than all of them. -/
theorem Rising.cons {s : Scanner} (hs : s.Rising) {width : Nat}
    (hdeeper : width > s.levels.head?.getD 0) :
    (width :: (s.levels ++ [0])).Pairwise (· > ·) := by
  refine List.pairwise_cons.mpr ⟨fun x hx => ?_, hs⟩
  rw [Rising] at hs
  cases hlevels : s.levels with
  | nil =>
    rw [hlevels] at hx hdeeper
    obtain rfl : x = 0 := by simpa using hx
    exact hdeeper
  | cons top rest =>
    rw [hlevels, List.cons_append] at hx hs
    rw [hlevels] at hdeeper
    rcases List.mem_cons.mp hx with rfl | hx
    · exact hdeeper
    · exact Nat.lt_trans (List.rel_of_pairwise_cons hs hx) hdeeper

/-- At the start of a line blocks are opened or closed. -/
theorem Between.indentTo {s : Scanner} (hs : s.Between) (hfresh : s.atLineStart = true)
    {t : Scanner} (ht : SameTokens s t) (width : Nat) : (t.indentTo width).Ready := by
  have hrising := ht.rising hs.rising
  have htracks : t.Tracks .atStart ∨ t.Tracks .lineEnded :=
    (hs.fresh hfresh).imp ht.tracks ht.tracks
  unfold Scanner.indentTo
  split
  · rename_i hdeeper
    refine ⟨hrising.cons hdeeper, .opened, ?_, by decide, by decide⟩
    rw [Tracks, pushLayout, kinds_push]
    change Tracker.start.read? (t.kinds ++ [.indent]) = some ⟨.opened, t.levels.length + 1⟩
    rcases htracks with h | h <;> rw [Tracker.read?_append, h] <;> rfl
  · have hsplit : t.levels = t.levels.takeWhile (· > width) ++ t.levels.dropWhile (· > width) :=
      List.takeWhile_append_dropWhile.symm
    refine ⟨?_, Tracks.close htracks hsplit⟩
    rw [Rising, levels_pushLayouts]
    exact hrising.sublist ((List.dropWhile_sublist _).append_right _)

/-- Opening and closing blocks does not start a line. -/
theorem atLineStart_indentTo (s : Scanner) (width : Nat) :
    (s.indentTo width).atLineStart = s.atLineStart := by
  have hpushed : ∀ (n : Nat) (t : Scanner),
      (t.pushLayouts .dedent n).atLineStart = t.atLineStart := by
    intro n
    induction n with
    | zero => exact fun _ => rfl
    | succ n ih => exact fun _ => ih _
  unfold Scanner.indentTo
  split
  · rfl
  · exact hpushed _ _

/-- What is left behind the leading blanks of a line with content. -/
theorem isEmptyLine_eq_false {rest : List Char} (h : isEmptyLine rest = false) :
    ∃ c cs, rest = c :: cs ∧ c ≠ '\n' ∧ c ≠ '\r' ∧
      (c == '#' && !Lexeme.startsColor (c :: cs)) = false := by
  cases rest with
  | nil => cases h
  | cons c cs =>
    simp only [isEmptyLine, Bool.or_eq_false_iff, beq_eq_false_iff_ne] at h
    exact ⟨c, cs, rfl, h.1.1, h.1.2, h.2⟩

/-- A lexeme follows, if anything can be read there at all. -/
def AtLexeme (s : Scanner) : Prop :=
  ∃ c cs, s.rest = c :: cs ∧ c ≠ '\n' ∧ (c == '#' && !Lexeme.startsColor (c :: cs)) = false

/-- Behind the leading blanks of a line with content its first token follows. -/
theorem Between.firstOfLine {s t : Scanner} (hs : s.Between) (hfresh : s.atLineStart = true)
    (ht : SameTokens s t) (hrest : t.rest = s.rest.dropWhile isIndent)
    (hline : isEmptyLine t.rest = false) (width : Nat) :
    (t.indentTo width).skipGap.Ready ∧
      (t.indentTo width).skipGap.atLineStart = t.atLineStart ∧
        (t.indentTo width).skipGap.AtLexeme := by
  obtain ⟨c, cs, hcs, hfeed, hreturn, hcomment⟩ := isEmptyLine_eq_false hline
  -- the blanks were all measured, so none is left to be passed over
  have hblank : isIndent c = false := by
    refine head?_dropWhile_eq_false s.rest ?_
    rw [← hrest, hcs]
    rfl
  have hskip : (t.indentTo width).skipGap = (t.indentTo width).advance 0 := by
    have hgap : isGap c = false := by simp [isGap, hblank, hreturn]
    simp [skipGap, hcs, hgap]
  rw [hskip]
  refine ⟨?_, atLineStart_indentTo t width, c, cs, ?_, hfeed, hcomment⟩
  · have hready := hs.indentTo hfresh ht width
    have hzero := sameTokens_advance (t.indentTo width) 0
    obtain ⟨place, hplace, hne⟩ := hready.tracks
    exact ⟨hzero.rising hready.rising, place, hzero.tracks hplace, hne⟩
  · exact (rest_indentTo t width).trans hcs

/-- Behind the layout and the blanks before a token, everything is as between two steps, unless the
    first token of a line follows. -/
theorem Between.layout {s : Scanner} (hs : s.Between) :
    s.layout.skipGap.Ready ∧ s.layout.skipGap.atLineStart = false ∧
      (s.layout.skipGap.Between ∨ s.layout.skipGap.AtLexeme) := by
  have hstays : ∀ t : Scanner, SameTokens s t → t.atLineStart = false →
      t.skipGap.Ready ∧ t.skipGap.atLineStart = false ∧
        (t.skipGap.Between ∨ t.skipGap.AtLexeme) := by
    intro t ht hstart
    have hmoved := ht.trans (sameTokens_advance t (t.rest.takeWhile isGap).length)
    have hbetween : t.skipGap.Between := by
      refine ⟨hmoved.rising hs.rising, ?_, fun h => absurd (hstart.symm.trans h) (by decide)⟩
      exact hs.tracks.imp hmoved.tracks (.imp hmoved.tracks hmoved.tracks)
    exact ⟨hbetween.ready, hstart, .inl hbetween⟩
  unfold Scanner.layout
  split
  · rename_i hfresh
    dsimp only
    split
    · exact hstays _ ⟨rfl, rfl⟩ rfl
    · rename_i hline
      obtain ⟨hready, hstart, hlexeme⟩ := hs.firstOfLine hfresh
        (t := { s.advance (s.rest.takeWhile isIndent).length with atLineStart := false })
        ⟨rfl, rfl⟩ (drop_length_takeWhile ..) (Bool.eq_false_iff.mpr hline) (indentWidth (s.rest.takeWhile isIndent))
      exact ⟨hready, hstart, .inr hlexeme⟩
  · rename_i hstart
    exact hstays s ⟨rfl, rfl⟩ (Bool.eq_false_iff.mpr hstart)

theorem rest_skipGap (s : Scanner) : s.skipGap.rest = s.rest.dropWhile isGap :=
  drop_length_takeWhile isGap s.rest

/-- What a step does behind the layout and the blanks: it ends with the source, passes over a
    comment, ends a line or takes a lexeme. -/
inductive Moves (s : Scanner) : Scanner → Prop
  | ended (rest : s.rest = []) : Moves s s
  | comment {rest : List Char} (behind : s.rest = '#' :: rest)
      (colorless : Lexeme.startsColor s.rest = false) : Moves s s.skipComment
  | lineFeed {rest : List Char} (behind : s.rest = '\n' :: rest) : Moves s s.lineFeed
  | lexeme {c : Char} {rest : List Char} {l : Lexeme} (behind : s.rest = c :: rest)
      (visible : isGap c = false) (written : s.AtLexeme)
      (taken : Lexeme.read (s.lastKind?.any TokenKind.endsOperand) c rest = .ok l) :
      Moves s (s.take l)

theorem moves_of_step {s t : Scanner} (h : s.step = .ok t) : s.layout.skipGap.Moves t := by
  have hvisible : ∀ c ∈ s.layout.skipGap.rest.head?, isGap c = false := fun c hc => by
    rw [rest_skipGap] at hc
    exact head?_dropWhile_eq_false _ hc
  unfold Scanner.step at h
  generalize s.layout.skipGap = u at h hvisible
  dsimp only at h
  split at h
  · rename_i hrest
    cases h
    exact .ended hrest
  · rename_i c cs hrest
    split at h
    · rename_i hcomment
      cases h
      simp only [Bool.and_eq_true, beq_iff_eq, Bool.not_eq_true'] at hcomment
      obtain ⟨rfl, hcolor⟩ := hcomment
      exact .comment hrest (hrest ▸ hcolor)
    · rename_i hcomment
      split at h
      · rename_i hfeed
        cases h
        exact .lineFeed (beq_iff_eq.mp hfeed ▸ hrest)
      · rename_i hfeed
        split at h
        · rename_i l hl
          cases h
          exact .lexeme hrest (hvisible c (by rw [hrest]; rfl))
            ⟨c, cs, hrest, by simpa using hfeed, Bool.eq_false_iff.mpr hcomment⟩ hl
        · cases h

/-- A step fails at a lexeme that cannot be read. -/
theorem step_eq_error {s : Scanner} {d : Diagnostic} (h : s.step = .error d) :
    ∃ c rest problem covered, s.layout.skipGap.rest = c :: rest ∧
      Lexeme.read (s.layout.skipGap.lastKind?.any TokenKind.endsOperand) c rest =
        .error (problem, covered) ∧
      d = .located problem ⟨s.layout.skipGap.here, s.layout.skipGap.here.after covered⟩ := by
  unfold Scanner.step at h
  generalize s.layout.skipGap = u at h ⊢
  dsimp only at h
  split at h
  · cases h
  · rename_i c cs hrest
    split at h
    · cases h
    · split at h
      · cases h
      · split at h
        · cases h
        · rename_i problem covered hl
          cases h
          exact ⟨c, cs, problem, covered, hrest, hl, rfl⟩

/-- A step leads from one place between two steps to the next. -/
theorem Between.step {s t : Scanner} (hs : s.Between) (h : s.step = .ok t) : t.Between := by
  obtain ⟨hready, hstart, hnext⟩ := hs.layout
  have hmoves := moves_of_step h
  generalize s.layout.skipGap = u at hready hstart hnext hmoves
  have hlexeme : ∀ {c rest}, u.rest = c :: rest → u.AtLexeme →
      c ≠ '\n' ∧ (c == '#' && !Lexeme.startsColor (c :: rest)) = false := by
    rintro c rest hrest ⟨c', rest', hrest', hne⟩
    cases hrest.symm.trans hrest'
    exact hne
  cases hmoves with
  | ended hrest =>
    refine hnext.resolve_right ?_
    rintro ⟨c, rest, hcs, -⟩
    cases hrest.symm.trans hcs
  | comment hrest hcolor =>
    have hbetween := hnext.resolve_right fun hl => by
      have hcomment := (hlexeme hrest hl).2
      rw [← hrest, hcolor] at hcomment
      cases hcomment
    have hmoved := sameTokens_advance u (u.rest.takeWhile (· != '\n')).length
    refine ⟨hmoved.rising hbetween.rising, ?_, fun hfresh => ?_⟩
    · exact hbetween.tracks.imp hmoved.tracks (.imp hmoved.tracks hmoved.tracks)
    · exact (hbetween.fresh hfresh).imp hmoved.tracks hmoved.tracks
  | lineFeed hrest => exact (hnext.resolve_right fun hl => (hlexeme hrest hl).1 rfl).lineFeed
  | lexeme _ _ _ hl => exact hready.take (Lexeme.isContent_read hl) hstart

/-! ## The whole scan -/

/-- The widths of the open blocks, outermost first, from the zero on that no block has. -/
def stack (s : Scanner) : List Nat := 0 :: s.levels.reverse

/-- The widths grow, and each belongs to a block that was opened and not closed. -/
theorem Ready.stack {s : Scanner} (hs : s.Ready) :
    s.stack.Pairwise (· < ·) ∧
      s.stack.length + s.kinds.count .dedent = s.kinds.count .indent + 1 := by
  have hstack : s.stack = (s.levels ++ [0]).reverse := by simp [Scanner.stack]
  obtain ⟨place, hplace, -⟩ := hs.tracks
  have hcount : s.kinds.count .indent = s.kinds.count .dedent + s.levels.length :=
    Tracker.count_read? hplace
  constructor
  · rw [hstack, List.pairwise_reverse]
    exact hs.rising
  · rw [hstack, List.length_reverse, List.length_append, List.length_singleton]
    omega

/-- The scanners that the scan of a source passes between its steps. -/
inductive Passes (source : List Char) (file : Option String) : Scanner → Prop
  | start : Passes source file (start source file)
  | step {s t : Scanner} (before : Passes source file s) (more : s.rest ≠ [])
      (taken : s.step = .ok t) : Passes source file t

variable {source : List Char} {file : Option String} {s t : Scanner}

theorem Passes.between (hs : Passes source file s) : s.Between := by
  induction hs with
  | start => exact ⟨by simp [Rising, Scanner.start], .inl rfl, fun _ => .inl rfl⟩
  | step _ _ taken ih => exact ih.step taken

/-- The scan ends at a scanner that it passes, with nothing left. -/
theorem Passes.run (hs : Passes source file s) (h : s.run = .ok t) :
    Passes source file t ∧ t.rest = [] := by
  fun_induction Scanner.run s with
  | case1 s hrest =>
    cases h
    exact ⟨hs, hrest⟩
  | case2 => cases h
  | case3 s hmore u htaken ih => exact ih (.step hs hmore htaken) h

/-- A scan that fails does so at a scanner that it passes. -/
theorem Passes.run_eq_error {d : Diagnostic} (hs : Passes source file s) (h : s.run = .error d) :
    ∃ t, Passes source file t ∧ t.step = .error d := by
  fun_induction Scanner.run s with
  | case1 => cases h
  | case2 s _ _ hstep =>
    cases h
    exact ⟨s, hs, hstep⟩
  | case3 s hmore u htaken ih => exact ih (.step hs hmore htaken) h

/-- What ends the token list closes the open blocks and marks the end of the file. -/
theorem finish_eq (s : Scanner) :
    s.finish = s.tokens.reverse ++
      (List.replicate s.levels.length ⟨.dedent, .null, "", ⟨s.here, s.here⟩⟩ ++
        [⟨.endOfFile, .null, "", ⟨s.here, s.here⟩⟩]) := by
  have hclosed := tokens_pushLayouts { s with levels := [] } .dedent s.levels.length
  rw [finish, pushLayout, push, hclosed, here_pushLayouts]
  simp

/-- Behind the last line all blocks are closed, and the file ends. -/
theorem Between.finish {s : Scanner} (hs : s.Between) : LaidOut (s.finish.map Token.kind) := by
  have hkinds : s.finish.map Token.kind =
      s.kinds ++ List.replicate s.levels.length .dedent ++ [.endOfFile] := by
    have hclosed := kinds_pushLayouts { s with levels := [] } .dedent s.levels.length
    rw [Scanner.finish, pushLayout, List.map_reverse]
    exact (kinds_push _ _ _ _ _).trans (congrArg (· ++ [.endOfFile]) hclosed)
  have hread : ∃ place, Tracker.start.read? (s.kinds ++ List.replicate s.levels.length .dedent) =
      some ⟨place, 0⟩ ∧ place ≠ .opened ∧ place ≠ .done := by
    rcases hs.tracks with h | h | h
    · refine ⟨.atStart, ?_, by decide, by decide⟩
      rw [Tracker.read?_append, h, h.levels_eq_nil]
      rfl
    · refine ⟨if s.levels.length = 0 then .inLine else .finishing, ?_, ?_, ?_⟩
      · rw [Tracker.read?_append, h]
        exact read?_dedents s.levels.length 0 (.inr ⟨.inl rfl, rfl⟩)
      all_goals split <;> decide
    · refine ⟨if s.levels.length = 0 then .lineEnded else .closed, ?_, ?_, ?_⟩
      · rw [Tracker.read?_append, h]
        exact read?_dedents s.levels.length 0 (.inl ⟨.inl rfl, rfl⟩)
      all_goals split <;> decide
  obtain ⟨place, hread, hopened, hdone⟩ := hread
  rw [hkinds]
  refine laidOut_of_read? (t := ⟨.done, 0⟩) ?_ rfl
  rw [Tracker.read?_append, hread, Option.bind_some, Tracker.read?_singleton]
  exact Tracker.step?_endOfFile_eq_some.mpr ⟨⟨rfl, hopened, hdone⟩, rfl⟩

end Scanner

theorem tokens_laidOut {source : String} {file : Option String} {tokens : List Token}
    (h : Token.scan source file = .ok tokens) : LaidOut (tokens.map Token.kind) := by
  unfold Token.scan at h
  split at h
  · rename_i last hrun
    cases h
    exact ((Scanner.Passes.start).run hrun).1.between.finish
  · cases h

/-- The tokens of a source are laid out.  All through the scan, before each step as well as behind
    the layout that it starts with, the open widths grow from zero on, and there is one more of them
    than blocks that were opened and not closed. -/
theorem scan_laidOut (source : String) (file : Option String) :
    (∀ tokens, Token.scan source file = .ok tokens → LaidOut (tokens.map Token.kind)) ∧
      ∀ s, Scanner.Passes source.toList file s → ∀ t, t = s ∨ t = s.layout.skipGap →
        t.stack.Pairwise (· < ·) ∧
          t.stack.length + t.kinds.count .dedent = t.kinds.count .indent + 1 := by
  refine ⟨fun tokens h => tokens_laidOut h, ?_⟩
  rintro s hs t (rfl | rfl)
  · exact hs.between.ready.stack
  · exact hs.between.layout.1.stack

/-- A source whose first line is indented already, with a line further in, a comment and an empty
    line in between, and a last line that is not as far in as any but does not end. -/
def raggedSource : String := "  if a:\n      # c\n\n      b\n #fff"

theorem scan_laidOut_raggedSource :
    (∃ tokens, Token.scan raggedSource none = .ok tokens ∧
      tokens.map Token.kind = [.indent, .ifWord, .identifier, .colon, .newline, .indent,
        .identifier, .newline, .dedent, .dedent, .string, .endOfFile] ∧
      LaidOut (tokens.map Token.kind)) ∧
    ∃ s, Scanner.Passes raggedSource.toList none s ∧ s.layout.skipGap.stack = [0, 2] ∧
      s.layout.skipGap.stack.length + s.layout.skipGap.kinds.count .dedent =
        s.layout.skipGap.kinds.count .indent + 1 := by
  obtain ⟨hscanned, hpassed⟩ := scan_laidOut raggedSource none
  constructor
  · cases htokens : Token.scan raggedSource none with
    | error d =>
      have hok : (Token.scan raggedSource none).isOk = true := by cbv
      rw [htokens] at hok
      cases hok
    | ok tokens =>
      refine ⟨tokens, rfl, ?_, hscanned tokens htokens⟩
      have hkinds : (Token.scan raggedSource none).toOption.map (·.map Token.kind) =
          some [.indent, .ifWord, .identifier, .colon, .newline, .indent, .identifier, .newline,
            .dedent, .dedent, .string, .endOfFile] := by cbv
      rw [htokens] at hkinds
      exact Option.some.inj hkinds
  · exact ⟨_, .start, by cbv, (hpassed _ .start _ (.inr rfl)).2⟩

end EventScript
