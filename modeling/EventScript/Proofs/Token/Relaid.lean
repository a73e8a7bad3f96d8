import EventScript.Proofs.Token.LineTokens
import EventScript.Proofs.Token.Positions

/-! # Sources that are alike line by line

Two sources are compared line by line: a line of the one has a line of the other beside it that has
the same tokens and, if there are any, is indented as far, or the other has an empty line more.  Then
scanners at the start of both are alike at the start of each line, so they find the same tokens, up
to where these stand.

* `LineTokens.append`, `LineTokens.respace`   blanks and comments do not change the tokens of a line
* `LineReads`                                 the tokens of a whole line
* `Scanner.outcome_eq_behindLine`             scanning over a line
* `Scanner.Alike`                             what two scanners have in common
* `Relaid.outcome`                            sources that are alike have the same tokens
-/

namespace EventScript

/-- What a token says, wherever it stands. -/
def Token.key (t : Token) : TokenKind × Literal × String := (t.kind, t.value, t.lexeme)

theorem Token.map_kind {ts us : List Token} (h : ts.map Token.key = us.map Token.key) :
    ts.map Token.kind = us.map Token.kind := by
  have hkind : Token.kind = Prod.fst ∘ Token.key := rfl
  rw [hkind, ← List.map_map, h, List.map_map]

/-! ## Lines -/

theorem Trivia.nil : Trivia [] := .gap (by simp)

theorem Trivia.add_gap {gap cs : List Char} (h : Trivia cs)
    (hblank : ∀ c ∈ gap, Scanner.isGap c = true) : Trivia (gap ++ cs) := by
  cases h with
  | gap hcs => exact .gap (List.forall_mem_append.mpr ⟨hblank, hcs⟩)
  | comment hgap hcolor =>
    rw [← List.append_assoc]
    exact .comment (List.forall_mem_append.mpr ⟨hblank, hgap⟩) hcolor

/-- Blanks end before what is no blank. -/
theorem exists_eq_append_of_gap {gap gap' cs rest : List Char} {c : Char}
    (hblank : ∀ x ∈ gap, Scanner.isGap x = true) (hc : Scanner.isGap c = false)
    (h : gap' ++ c :: rest = gap ++ cs) : ∃ more, gap' = gap ++ more ∧ cs = more ++ c :: rest := by
  rcases List.append_eq_append_iff.mp h with ⟨more, hgap, hrest⟩ | ⟨more, hgap, hcs⟩
  · cases more with
    | nil => exact ⟨[], by simpa using hgap.symm, by simpa using hrest.symm⟩
    | cons d more =>
      obtain rfl : c = d := (List.cons.inj hrest).1
      rw [hblank c (by simp [hgap])] at hc
      cases hc
  · exact ⟨more, hgap, hcs⟩

namespace LineTokens

variable {afterOperand : Bool} {here : Location} {gap cs : List Char} {ts : List Token}

theorem add_gap (h : LineTokens afterOperand (here.after gap) cs ts)
    (hblank : ∀ c ∈ gap, Scanner.isGap c = true) : LineTokens afterOperand here (gap ++ cs) ts := by
  cases h with
  | done htrivia => exact .done (htrivia.add_gap hblank)
  | token hgap hvisible hwritten hread hsplit hmore =>
    rw [← Location.after_append] at hmore ⊢
    rw [← List.append_assoc] at hmore ⊢
    exact .token (List.forall_mem_append.mpr ⟨hblank, hgap⟩) hvisible hwritten hread hsplit hmore

theorem drop_gap (h : LineTokens afterOperand here (gap ++ cs) ts)
    (hblank : ∀ c ∈ gap, Scanner.isGap c = true) :
    LineTokens afterOperand (here.after gap) cs ts := by
  generalize hline : gap ++ cs = line at h
  cases h with
  | done htrivia =>
    refine .done ?_
    cases htrivia with
    | gap hall => exact .gap fun c hc => hall c (hline ▸ List.mem_append_right _ hc)
    | comment hgap hcolor =>
      obtain ⟨more, rfl, rfl⟩ := exists_eq_append_of_gap hblank (by decide) hline.symm
      exact .comment (fun c hc => hgap c (List.mem_append_right _ hc)) hcolor
  | token hgap hvisible hwritten hread hsplit hmore =>
    obtain ⟨more, rfl, rfl⟩ := exists_eq_append_of_gap hblank hvisible hline.symm
    rw [Location.after_append]
    rw [List.append_assoc, Location.after_append] at hmore
    exact .token (fun c hc => hgap c (List.mem_append_right _ hc)) hvisible hwritten hread hsplit
      hmore

/-- The tokens of a line are written out. -/
theorem isContent (h : LineTokens afterOperand here cs ts) : ∀ t ∈ ts, t.kind.isContent = true := by
  induction h with
  | done => simp
  | token _ _ _ hread _ _ ih =>
    exact List.forall_mem_cons.mpr ⟨Lexeme.isContent_read hread, ih⟩

/-- A line that has tokens is not blank. -/
theorem exists_visible (h : LineTokens afterOperand here cs ts) (hts : ts ≠ []) :
    ∃ c ∈ cs, Scanner.isGap c = false := by
  cases h with
  | done => exact absurd rfl hts
  | token _ hvisible => exact ⟨_, by simp, hvisible⟩

/-- At the end of a line, blanks and a comment behind them do not matter. -/
theorem append (h : LineTokens afterOperand here cs ts) {extra : List Char} (hextra : Trivia extra)
    (hbreaks : Lexeme.Breaks extra) (here' : Location) :
    ∃ ts', LineTokens afterOperand here' (cs ++ extra) ts' ∧
      ts'.map Token.key = ts.map Token.key := by
  induction h generalizing here' with
  | done htrivia =>
    refine ⟨[], .done ?_, rfl⟩
    cases htrivia with
    | gap hblank => exact hextra.add_gap hblank
    | comment hgap hcolor =>
      rw [List.append_assoc, List.cons_append]
      exact .comment hgap ((Lexeme.startsColor_append hbreaks _ _).trans hcolor)
  | @token afterOperand here gap cs rest c l ts hgap hvisible hwritten hread hsplit _ ih =>
    obtain ⟨ts', hts', hkeys⟩ := ih (here'.after (gap ++ l.chars))
    refine ⟨l.token (here'.after gap) :: ts', ?_, congrArg (_ :: ·) hkeys⟩
    rw [List.append_assoc, List.cons_append]
    refine .token hgap hvisible ?_ (Lexeme.read_append hread hbreaks) ?_ hts'
    · rwa [Lexeme.startsColor_append hbreaks]
    · rw [← List.cons_append, hsplit, List.append_assoc]

/-- Wherever a line starts, it has the same tokens. -/
theorem shift (h : LineTokens afterOperand here cs ts) (here' : Location) :
    ∃ ts', LineTokens afterOperand here' cs ts' ∧ ts'.map Token.key = ts.map Token.key := by
  obtain ⟨ts', hts', hkeys⟩ := h.append .nil Lexeme.breaks_nil here'
  exact ⟨ts', List.append_nil cs ▸ hts', hkeys⟩

end LineTokens

/-- Some blanks, at least one. -/
structure Blanks (run : List Char) : Prop where
  blank : ∀ c ∈ run, Scanner.isIndent c = true
  some : run ≠ []

namespace Blanks

variable {run : List Char}

theorem isGap (h : Blanks run) : ∀ c ∈ run, Scanner.isGap c = true :=
  fun c hc => by simp [Scanner.isGap, h.blank c hc]

theorem breaks (h : Blanks run) (rest : List Char) : Lexeme.Breaks (run ++ rest) := by
  cases run with
  | nil => exact absurd rfl h.some
  | cons c run =>
    refine Lexeme.breaks_cons ?_ _
    rw [Lexeme.isBreak, h.isGap c (by simp)]
    rfl

end Blanks

/-- A comment goes on over whatever blanks are in it. -/
theorem Trivia.respace {pre run run' post : List Char} (hrun : Blanks run) (hrun' : Blanks run')
    (h : Trivia (pre ++ (run ++ post))) : Trivia (pre ++ (run' ++ post)) := by
  generalize hline : pre ++ (run ++ post) = line at h
  cases h with
  | gap hall =>
    subst hline
    simp only [List.forall_mem_append] at hall
    exact .gap (List.forall_mem_append.mpr
      ⟨hall.1, List.forall_mem_append.mpr ⟨hrun'.isGap, hall.2.2⟩⟩)
  | @comment gap text hgap hcolor =>
    rcases List.append_eq_append_iff.mp hline with ⟨more, rfl, hmore⟩ | ⟨more, rfl, hmore⟩
    · obtain ⟨more, rfl, rfl⟩ := exists_eq_append_of_gap hrun.isGap (by decide) hmore.symm
      simp only [List.forall_mem_append] at hgap
      rw [← List.append_assoc, ← List.append_assoc]
      exact .comment (List.forall_mem_append.mpr
        ⟨List.forall_mem_append.mpr ⟨hgap.1, hrun'.isGap⟩, hgap.2.2⟩) hcolor
    · cases more with
      | nil =>
        have hmore' : [] ++ '#' :: text = run ++ post := by simpa using hmore
        obtain ⟨more, hnil, -⟩ := exists_eq_append_of_gap hrun.isGap (by decide) hmore'
        exact absurd (List.append_eq_nil_iff.mp hnil.symm).1 hrun.some
      | cons d more =>
        simp only [List.cons_append, List.cons.injEq] at hmore
        obtain ⟨rfl, rfl⟩ := hmore
        rw [List.append_assoc, List.cons_append]
        refine .comment hgap ?_
        rw [Lexeme.startsColor_append (hrun'.breaks post)]
        rwa [Lexeme.startsColor_append (hrun.breaks post)] at hcolor

/-- Between the tokens of a line, any blanks stand for any others. -/
theorem LineTokens.respace {afterOperand : Bool} {here : Location} {pre run run' post : List Char}
    {ts : List Token} (h : LineTokens afterOperand here (pre ++ (run ++ post)) ts)
    (hrun : Blanks run) (hrun' : Blanks run')
    (hbetween : ∀ t ∈ ts, t.span.stop.offset ≤ here.offset + pre.length ∨
      here.offset + pre.length + run.length ≤ t.span.start.offset) (here' : Location) :
    ∃ ts', LineTokens afterOperand here' (pre ++ (run' ++ post)) ts' ∧
      ts'.map Token.key = ts.map Token.key := by
  generalize hline : pre ++ (run ++ post) = line at h
  induction h generalizing here' pre with
  | done htrivia =>
    subst hline
    exact ⟨[], .done (htrivia.respace hrun hrun'), rfl⟩
  | @token afterOperand here gap cs rest c l ts hgap hvisible hwritten hread hsplit hmore ih =>
    rcases hbetween _ List.mem_cons_self with hbefore | hbehind
    · -- the blanks come after the token, so they are in the rest of the line
      simp only [Lexeme.token, Location.offset_after] at hbefore
      obtain ⟨pre, rfl⟩ : ∃ more, pre = gap ++ l.chars ++ more := by
        have htaken : gap ++ l.chars <+: pre ++ (run ++ post) := by
          rw [hline, hsplit, ← List.append_assoc]
          exact List.prefix_append ..
        exact (List.prefix_of_prefix_length_le htaken (List.prefix_append ..)
          (by rw [List.length_append]; omega)).imp fun _ h => h.symm
      have hrest : pre ++ (run ++ post) = rest := by
        rw [hsplit, ← List.append_assoc gap, List.append_assoc (gap ++ l.chars)] at hline
        exact List.append_cancel_left hline
      have htail : cs = l.tail ++ pre ++ (run ++ post) := by
        rw [List.append_assoc, hrest]
        exact (List.cons.inj hsplit).2
      obtain ⟨rfl, -⟩ := List.cons.inj hsplit
      have hbetween' : ∀ t ∈ ts,
          t.span.stop.offset ≤ (here.after (gap ++ l.chars)).offset + pre.length ∨
            (here.after (gap ++ l.chars)).offset + pre.length + run.length ≤
              t.span.start.offset := fun t ht => by
        simpa [Nat.add_assoc] using hbetween t (List.mem_cons_of_mem _ ht)
      obtain ⟨ts', hts', hkeys⟩ := ih hbetween' (here'.after (gap ++ l.chars)) hrest
      refine ⟨l.token (here'.after gap) :: ts', ?_, congrArg (_ :: ·) hkeys⟩
      have hnew : gap ++ l.chars ++ pre ++ (run' ++ post) =
          gap ++ l.head :: (l.tail ++ pre ++ (run' ++ post)) := by
        simp [Lexeme.chars]
      rw [hnew]
      rw [htail] at hwritten hread
      refine .token hgap hvisible ?_ (Lexeme.read_of_read_append (hrun.breaks post) hread (by simp)
        (hrun'.breaks post)) (by simp [Lexeme.chars]) hts'
      rw [Lexeme.startsColor_append (hrun'.breaks post)]
      rwa [Lexeme.startsColor_append (hrun.breaks post)] at hwritten
    · -- the blanks come before the token
      simp only [Lexeme.token, Location.offset_after] at hbehind
      obtain ⟨more, rfl⟩ : ∃ more, gap = pre ++ run ++ more := by
        have hblanks : pre ++ run <+: gap ++ c :: cs := by
          rw [← hline, ← List.append_assoc]
          exact List.prefix_append ..
        exact (List.prefix_of_prefix_length_le hblanks (List.prefix_append ..)
          (by rw [List.length_append]; omega)).imp fun _ h => h.symm
      obtain rfl : post = more ++ c :: cs := by
        rw [← List.append_assoc, List.append_assoc (pre ++ run)] at hline
        exact List.append_cancel_left hline
      obtain ⟨ts', hts', hkeys⟩ := hmore.shift (here'.after (pre ++ run' ++ more ++ l.chars))
      refine ⟨l.token (here'.after (pre ++ run' ++ more)) :: ts', ?_, congrArg (_ :: ·) hkeys⟩
      simp only [List.forall_mem_append] at hgap
      rw [← List.append_assoc, ← List.append_assoc]
      exact .token (List.forall_mem_append.mpr
        ⟨List.forall_mem_append.mpr ⟨hgap.1.1, hrun'.isGap⟩, hgap.2⟩) hvisible hwritten hread hsplit
        hts'

/-! ## Scanning line by line -/

/-- The tokens of a whole line, where a line that starts with a carriage return has none. -/
structure LineReads (here : Location) (line : List Char) (ts : List Token) : Prop where
  tokens : LineTokens false here line ts
  feedless : '\n' ∉ line
  blank : (line.dropWhile Scanner.isIndent).head? = some '\r' → ts = []

namespace Scanner

/-- The scanner is at the start of a line. -/
structure AtLine (s : Scanner) (text : List Char) : Prop where
  rest : s.rest = text
  start : s.atLineStart = true
  fresh : s.lastKind? = none ∨ s.lastKind? = some .newline

theorem isGap_of_isIndent {c : Char} (h : isIndent c = true) : isGap c = true := by
  simp [isGap, h]

/-- The scanner behind the leading blanks of a line. -/
def indented (s : Scanner) (line rest : List Char) : Scanner :=
  { s.behind (line.takeWhile isIndent) [] (line.dropWhile isIndent ++ rest) with
    atLineStart := false }

/-- The scanner behind a line with the tokens that it found there. -/
def behindLine (s : Scanner) (line : List Char) (ts : List Token) (rest : List Char) : Scanner :=
  let u := s.indented line rest
  (if ts = [] then u else u.indentTo (indentWidth (line.takeWhile isIndent))).behind
    (line.dropWhile isIndent) ts rest

variable {s : Scanner} {line tail text : List Char} {ts us : List Token} {here : Location}

theorem here_indentTo (s : Scanner) (width : Nat) : (s.indentTo width).here = s.here := by
  unfold indentTo
  split
  · rfl
  · exact here_pushLayouts _ _ _

/-- What opens or closes a block ends no operand. -/
theorem endsOperand_indentTo (hfresh : s.lastKind? = none ∨ s.lastKind? = some .newline)
    (width : Nat) : (s.indentTo width).lastKind?.any TokenKind.endsOperand = false := by
  have hnone : s.lastKind?.any TokenKind.endsOperand = false := by
    rcases hfresh with h | h <;> rw [h] <;> rfl
  unfold indentTo
  split
  · rfl
  · rw [lastKind?, tokens_pushLayouts]
    cases (s.levels.takeWhile (· > width)).length with
    | zero => exact hnone
    | succ n => rfl

theorem layout_eq_indented (hs : s.AtLine (line ++ tail)) (htail : EndsLine tail) :
    s.layout = if isEmptyLine (line.dropWhile isIndent ++ tail) then s.indented line tail
      else (s.indented line tail).indentTo (indentWidth (line.takeWhile isIndent)) := by
  have hlead : (line ++ tail).takeWhile isIndent = line.takeWhile isIndent := by
    conv_lhs => rw [← List.takeWhile_append_dropWhile (p := isIndent) (l := line), List.append_assoc]
    refine takeWhile_append_of_forall (fun _ => List.mem_takeWhile_imp) fun c hc => ?_
    cases hdrop : line.dropWhile isIndent with
    | nil =>
      rw [hdrop] at hc
      rw [htail c hc]
      decide
    | cons d ds =>
      rw [hdrop] at hc
      cases hc
      exact head?_dropWhile_eq_false line (by rw [hdrop]; rfl)
  have hsplit : s.rest = line.takeWhile isIndent ++ (line.dropWhile isIndent ++ tail) := by
    rw [← List.append_assoc, List.takeWhile_append_dropWhile, hs.rest]
  unfold layout
  rw [if_pos hs.start, hs.rest, hlead]
  dsimp only
  rw [advance_eq_behind hsplit]
  rfl

/-- Behind the leading blanks the rest of the line follows, and no operand was read. -/
theorem layout_atLine (hs : s.AtLine (line ++ tail)) (htail : EndsLine tail) :
    s.layout.here = s.here.after (line.takeWhile isIndent) ∧
      s.layout.rest = line.dropWhile isIndent ++ tail ∧
        s.layout.lastKind?.any TokenKind.endsOperand = false := by
  rw [layout_eq_indented hs htail]
  split
  · refine ⟨rfl, rfl, ?_⟩
    have hlast : (s.indented line tail).lastKind? = s.lastKind? := rfl
    rcases hs.fresh with h | h <;> rw [hlast, h] <;> rfl
  · exact ⟨here_indentTo _ _, rest_indentTo _ _,
      endsOperand_indentTo (s := s.indented line tail) hs.fresh _⟩

/-- A line is empty if it has no tokens. -/
theorem isEmptyLine_iff (h : LineReads here line ts) (htail : EndsLine tail) :
    isEmptyLine (line.dropWhile isIndent ++ tail) = true ↔ ts = [] := by
  have htokens : LineTokens false (here.after (line.takeWhile isIndent))
      (line.dropWhile isIndent) ts := by
    refine LineTokens.drop_gap ?_ fun c hc => isGap_of_isIndent (List.mem_takeWhile_imp hc)
    rw [List.takeWhile_append_dropWhile]
    exact h.tokens
  have hhead : ∀ c ∈ (line.dropWhile isIndent).head?, isIndent c = false :=
    fun _ => head?_dropWhile_eq_false line
  have hfeed : '\n' ∉ line.dropWhile isIndent :=
    fun hmem => h.feedless ((List.dropWhile_sublist _).subset hmem)
  have hblank := h.blank
  generalize line.dropWhile isIndent = cs at htokens hhead hfeed hblank
  -- only a carriage return is a blank that does not count for the indentation
  have hreturn : ∀ {gap rest : List Char}, (∀ c ∈ gap, isGap c = true) → cs = gap ++ rest →
      gap = [] ∨ cs.head? = some '\r' := by
    rintro (_ | ⟨g, gs⟩) rest hgap rfl
    · exact .inl rfl
    · have hg := hgap g (by simp)
      rw [isGap, hhead g rfl, Bool.false_or, beq_iff_eq] at hg
      exact .inr (by rw [hg]; rfl)
  have hempty : cs.head? = some '\r' → isEmptyLine (cs ++ tail) = true := by
    intro h
    obtain ⟨more, rfl⟩ := List.head?_eq_some_iff.mp h
    rfl
  cases htokens with
  | done htrivia =>
    refine iff_of_true ?_ rfl
    cases htrivia with
    | gap hgap =>
      rcases hreturn hgap (List.append_nil _).symm with rfl | hr
      · cases tail with
        | nil => rfl
        | cons d ds =>
          rw [htail d rfl]
          rfl
      · exact hempty hr
    | @comment gap text hgap hcolor =>
      rcases hreturn hgap rfl with rfl | hr
      · rw [← startsColor_of_endsLine htail] at hcolor
        simp [isEmptyLine, hcolor]
      · exact hempty hr
  | @token _ _ gap cs rest c l _ hgap hvisible hwritten =>
    refine iff_of_false ?_ (by simp)
    rcases hreturn hgap rfl with rfl | hr
    · rw [← Lexeme.startsColor_append htail.breaks] at hwritten
      simp only [List.nil_append, List.cons_append, isEmptyLine, hwritten]
      have hc : c ≠ '\n' := by
        rintro rfl
        exact hfeed (by simp)
      have hc' : c ≠ '\r' := by
        rintro rfl
        cases hvisible
      simp [hc, hc']
    · exact absurd (hblank hr) (by simp)

theorem layout_eq (hs : s.AtLine (line ++ tail)) (h : LineReads here line ts)
    (htail : EndsLine tail) :
    s.layout = if ts = [] then s.indented line tail
      else (s.indented line tail).indentTo (indentWidth (line.takeWhile isIndent)) := by
  rw [layout_eq_indented hs htail]
  simp only [isEmptyLine_iff h htail]

/-- Scanning over a line finds its tokens. -/
theorem outcome_eq_behindLine (hs : s.AtLine (line ++ tail)) (h : LineReads s.here line ts)
    (htail : EndsLine tail) : s.outcome = (s.behindLine line ts tail).outcome := by
  have hlayout := layout_eq hs h htail
  have hfacts := layout_atLine hs htail
  have htokens : LineTokens false s.layout.here (line.dropWhile isIndent) ts := by
    rw [hfacts.1]
    refine LineTokens.drop_gap ?_ fun c hc => isGap_of_isIndent (List.mem_takeWhile_imp hc)
    rw [List.takeWhile_append_dropWhile]
    exact h.tokens
  rw [← outcome_layout, htokens.outcome_eq rfl (atLineStart_layout s) hfacts.2.1 hfacts.2.2
    (fun hmem => h.feedless ((List.dropWhile_sublist _).subset hmem)) htail, hlayout]
  rfl

theorem atLineStart_behindLine (s : Scanner) (line : List Char) (ts : List Token)
    (rest : List Char) : (s.behindLine line ts rest).atLineStart = false := by
  unfold behindLine
  dsimp only
  split
  · rfl
  · exact atLineStart_indentTo _ _

/-- A scan that succeeds finds the tokens of its next line. -/
theorem exists_lineReads (hs : s.AtLine (line ++ tail)) (hscan : s.outcome = .ok ts)
    (hstrings : OneLineStrings ts) (hfeed : '\n' ∉ line) (hreturn : '\r' ∉ line)
    (htail : EndsLine tail) : ∃ us, LineReads s.here line us ∧ ∀ u ∈ us, u ∈ ts := by
  have hfacts := layout_atLine hs htail
  obtain ⟨us, hus, hmem⟩ := exists_lineTokens hstrings (s.outcome_layout.trans hscan)
    (atLineStart_layout s) hfacts.2.1
    (fun hmem => hfeed ((List.dropWhile_sublist _).subset hmem)) htail
  rw [hfacts.1, hfacts.2.2] at hus
  have hline := hus.add_gap fun c hc => isGap_of_isIndent (List.mem_takeWhile_imp hc)
  rw [List.takeWhile_append_dropWhile] at hline
  refine ⟨us, ⟨hline, hfeed, fun h => absurd ?_ hreturn⟩, hmem⟩
  exact (List.dropWhile_sublist _).subset (List.mem_of_mem_head? h)

/-- Behind its line feed, the scanner is at the start of the next line. -/
theorem AtLine.next (hs : s.AtLine (line ++ tail)) (h : LineReads s.here line ts)
    (rest : List Char) :
    (s.behindLine line ts ('\n' :: rest)).lineFeed.AtLine rest ∧
      (s.behindLine line ts ('\n' :: rest)).lineFeed.here = s.here.after (line ++ ['\n']) := by
  have hhere : (s.behindLine line ts ('\n' :: rest)).here = s.here.after line := by
    have hlead : ((s.here.after (line.takeWhile isIndent)).after (line.dropWhile isIndent)) =
        s.here.after line := by
      rw [← Location.after_append, List.takeWhile_append_dropWhile]
    unfold behindLine
    dsimp only
    split
    · exact hlead
    · rw [behind, here_indentTo]
      exact hlead
  have hlast : (s.behindLine line ts ('\n' :: rest)).lastKind? = none ∨
      ∃ k, (s.behindLine line ts ('\n' :: rest)).lastKind? = some k ∧
        (k = .newline ∨ k.isContent = true) := by
    by_cases hts : ts = []
    · subst hts
      exact hs.fresh.imp id fun h => ⟨_, h, .inl rfl⟩
    · obtain ⟨init, last, rfl⟩ := (List.eq_nil_or_concat' ts).resolve_left hts
      refine .inr ⟨last.kind, ?_, .inr (h.tokens.isContent last (by simp))⟩
      simp [behindLine, behind, lastKind?]
  have hnext : (s.behindLine line ts ('\n' :: rest)).lineFeed.here = s.here.after (line ++ ['\n']) ∧
      (s.behindLine line ts ('\n' :: rest)).lineFeed.rest = rest ∧
        (s.behindLine line ts ('\n' :: rest)).lineFeed.atLineStart = true := by
    rw [Location.after_append, ← hhere]
    unfold lineFeed
    dsimp only
    split <;> exact ⟨rfl, rfl, rfl⟩
  refine ⟨⟨hnext.2.1, hnext.2.2, ?_⟩, hnext.1⟩
  generalize s.behindLine line ts ('\n' :: rest) = u at hlast
  unfold lineFeed
  dsimp only
  rcases hlast with hlast | ⟨k, hlast, rfl | hk⟩
  · rw [hlast]
    exact .inl hlast
  · rw [hlast]
    exact .inr hlast
  · rw [hlast]
    split
    · rename_i heq
      cases heq
    · rename_i heq
      exact .inr (hlast.trans heq)
    · rename_i heq
      cases heq
      cases hk
    · rename_i heq
      cases heq
      cases hk
    · exact .inr rfl

/-! ## Scanners that are alike -/

/-- Two scanners have found the same tokens, up to where they stand, and have the same blocks
    open. -/
structure Alike (s t : Scanner) : Prop where
  levels : t.levels = s.levels
  keys : t.tokens.map Token.key = s.tokens.map Token.key

namespace Alike

variable {t : Scanner}

theorem lastKind? (h : Alike s t) : t.lastKind? = s.lastKind? := by
  rw [Scanner.lastKind?, Scanner.lastKind?, ← List.head?_map, ← List.head?_map,
    Token.map_kind h.keys]

theorem pushLayouts (h : Alike s t) (k : TokenKind) (n : Nat) :
    Alike (s.pushLayouts k n) (t.pushLayouts k n) := by
  refine ⟨?_, ?_⟩
  · rw [levels_pushLayouts, levels_pushLayouts, h.levels]
  · rw [tokens_pushLayouts, tokens_pushLayouts, List.map_append, List.map_append, h.keys,
      List.map_replicate, List.map_replicate]
    rfl

theorem indentTo (h : Alike s t) (width : Nat) : Alike (s.indentTo width) (t.indentTo width) := by
  unfold Scanner.indentTo
  rw [h.levels]
  split
  · exact pushLayouts (s := { s with levels := width :: s.levels })
      (t := { t with levels := width :: s.levels }) ⟨rfl, h.keys⟩ .indent 1
  · exact pushLayouts (s := { s with levels := s.levels.dropWhile (· > width) })
      (t := { t with levels := s.levels.dropWhile (· > width) }) ⟨rfl, h.keys⟩ .dedent _

theorem behind (h : Alike s t) {ts us : List Token} (hkeys : us.map Token.key = ts.map Token.key)
    (cs ds rest rest' : List Char) : Alike (s.behind cs ts rest) (t.behind ds us rest') := by
  refine ⟨h.levels, ?_⟩
  simp [Scanner.behind, List.map_reverse, hkeys, h.keys]

theorem lineFeed (h : Alike s t) : Alike s.lineFeed t.lineFeed := by
  unfold Scanner.lineFeed
  rw [h.lastKind?]
  dsimp only
  split
  · exact ⟨h.levels, h.keys⟩
  · exact ⟨h.levels, h.keys⟩
  · exact ⟨h.levels, h.keys⟩
  · exact ⟨h.levels, h.keys⟩
  · exact ⟨h.levels, congrArg (_ :: ·) h.keys⟩

theorem finish (h : Alike s t) : t.finish.map Token.key = s.finish.map Token.key := by
  simp only [finish_eq, List.map_append, List.map_reverse, List.map_replicate, h.keys, h.levels]
  rfl

/-- Lines with the same tokens that are indented as far lead to scanners that are alike. -/
theorem behindLine (h : Alike s t) {line line' : List Char} {ts us : List Token}
    (hkeys : us.map Token.key = ts.map Token.key)
    (hwidth : ts ≠ [] → indentWidth (line'.takeWhile isIndent) =
      indentWidth (line.takeWhile isIndent)) (rest rest' : List Char) :
    Alike (s.behindLine line ts rest) (t.behindLine line' us rest') := by
  have hindented : Alike (s.indented line rest) (t.indented line' rest') := ⟨h.levels, h.keys⟩
  have hnone : us = [] ↔ ts = [] := by
    rw [← List.map_eq_nil_iff (f := Token.key), hkeys, List.map_eq_nil_iff]
  unfold Scanner.behindLine
  dsimp only
  simp only [hnone]
  split
  · exact hindented.behind hkeys _ _ _ _
  · rename_i hts
    rw [hwidth hts]
    exact (hindented.indentTo _).behind hkeys _ _ _ _

/-- An empty line changes nothing. -/
theorem emptyLine (h : Alike s t) (ht : t.AtLine text) (line rest : List Char) :
    Alike s (t.behindLine line [] ('\n' :: rest)).lineFeed := by
  have hlast : (t.behindLine line [] ('\n' :: rest)).lastKind? = t.lastKind? := rfl
  unfold Scanner.lineFeed
  rw [hlast]
  rcases ht.fresh with hlast | hlast <;> rw [hlast] <;> exact ⟨h.levels, h.keys⟩

end Alike

end Scanner

/-! ## Sources that are alike line by line -/

/-- A line with tokens among some may stand for another one at a location: it has the same tokens,
    and if there are any, it is indented as far. -/
structure SameLine (ts : List Token) (here : Location) (line line' : List Char) : Prop where
  feedless : '\n' ∉ line
  returnless : '\r' ∉ line
  reads (us : List Token) : LineReads here line us → (∀ u ∈ us, u ∈ ts) → ∀ here', ∃ us',
    LineReads here' line' us' ∧ us'.map Token.key = us.map Token.key ∧
      (us ≠ [] → Scanner.indentWidth (line'.takeWhile Scanner.isIndent) =
        Scanner.indentWidth (line.takeWhile Scanner.isIndent))

/-- The other text, from the start of a line on, has a line for each line of the one, and empty
    lines. -/
inductive Relaid (ts : List Token) : Location → List Char → List Char → Prop
  | last {here : Location} {line line' : List Char} (same : SameLine ts here line line') :
    Relaid ts here line line'
  | line {here : Location} {line line' rest rest' : List Char} (same : SameLine ts here line line')
      (more : Relaid ts (here.after (line ++ ['\n'])) rest rest') :
    Relaid ts here (line ++ '\n' :: rest) (line' ++ '\n' :: rest')
  | empty {here : Location} {extra text text' : List Char} (trivia : Trivia extra)
      (feedless : '\n' ∉ extra) (more : Relaid ts here text text') :
    Relaid ts here text (extra ++ '\n' :: text')

theorem EndsLine.nil : EndsLine [] := nofun

theorem EndsLine.cons (rest : List Char) : EndsLine ('\n' :: rest) := by
  intro c hc
  cases hc
  rfl

/-- Scanners that are alike find the same tokens in texts that are alike. -/
theorem Relaid.outcome {ts : List Token} (hstrings : OneLineStrings ts) {here : Location}
    {text text' : List Char} (h : Relaid ts here text text') {s t : Scanner} (hs : s.AtLine text)
    (hhere : s.here = here) (ht : t.AtLine text') (halike : s.Alike t)
    (hscan : s.outcome = .ok ts) :
    ∃ us, t.outcome = .ok us ∧ us.map Token.key = ts.map Token.key := by
  induction h generalizing s t with
  | @last here line line' hsame =>
    rw [← List.append_nil line] at hs
    rw [← List.append_nil line'] at ht
    obtain ⟨us, hus, hmem⟩ := Scanner.exists_lineReads hs hscan hstrings hsame.feedless
      hsame.returnless .nil
    obtain ⟨us', hus', hkeys, hwidth⟩ := hsame.reads us (hhere ▸ hus) hmem t.here
    rw [Scanner.outcome_eq_behindLine hs hus .nil,
      Scanner.outcome_of_rest_eq_nil rfl] at hscan
    cases hscan
    rw [Scanner.outcome_eq_behindLine ht hus' .nil,
      Scanner.outcome_of_rest_eq_nil rfl]
    exact ⟨_, rfl, (halike.behindLine hkeys hwidth [] []).finish⟩
  | @line here line line' rest rest' hsame _ ih =>
    obtain ⟨us, hus, hmem⟩ := Scanner.exists_lineReads hs hscan hstrings hsame.feedless
      hsame.returnless (.cons rest)
    obtain ⟨us', hus', hkeys, hwidth⟩ := hsame.reads us (hhere ▸ hus) hmem t.here
    obtain ⟨hnext, hthere⟩ := hs.next hus rest
    obtain ⟨hnext', -⟩ := ht.next hus' rest'
    rw [Scanner.outcome_eq_behindLine hs hus (.cons rest),
      ← Scanner.outcome_lineFeed (Scanner.atLineStart_behindLine ..) rfl] at hscan
    rw [Scanner.outcome_eq_behindLine ht hus' (.cons rest'), ← Scanner.outcome_lineFeed (Scanner.atLineStart_behindLine ..) rfl]
    exact ih hnext (by rw [hthere, hhere]) hnext'
      (halike.behindLine hkeys hwidth _ _).lineFeed hscan
  | @empty here extra text text' htrivia hfeed _ ih =>
    have hreads : LineReads t.here extra [] := ⟨.done htrivia, hfeed, fun _ => rfl⟩
    obtain ⟨hnext, -⟩ := ht.next hreads text'
    rw [Scanner.outcome_eq_behindLine ht hreads (.cons text'),
      ← Scanner.outcome_lineFeed (Scanner.atLineStart_behindLine ..) rfl]
    exact ih hs hhere hnext (halike.emptyLine ht ..) hscan

end EventScript
