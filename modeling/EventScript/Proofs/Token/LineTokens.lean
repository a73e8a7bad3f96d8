import EventScript.Proofs.Token.Lexeme
import EventScript.Proofs.Token.Lines

/-! # The tokens of a line

The scanner reads a line from left to right and looks at what stands behind it only to see that the
line is over, unless a string goes on over its end.  So the tokens of a line are determined by its
text and by where it starts: `LineTokens` says which ones they are without a scanner, and a scanner
in front of the line behaves like one behind it that has found them.

* `Scanner.outcome`             what the rest of a scan comes to
* `LineTokens`                  the tokens of the rest of a line
* `LineTokens.outcome_eq`       scanning over a line
* `Scanner.exists_lineTokens`   a scan that succeeds has found the tokens of its lines
-/

namespace EventScript

/-- The token of a lexeme that starts at a location. -/
def Lexeme.token (l : Lexeme) (start : Location) : Token :=
  ⟨l.kind, l.value, String.ofList l.chars, ⟨start, start.after l.chars⟩⟩

namespace Lexeme

/-- A line feed is written in a string only. -/
theorem kind_eq_string_of_mem {afterOperand : Bool} {c : Char} {rest : List Char} {l : Lexeme}
    (h : read afterOperand c rest = .ok l) (hfeed : '\n' ∈ l.tail) : l.kind = .string := by
  unfold read at h
  split at h
  · cases h
    rfl
  split at h
  · -- a number goes on with digits and a point
    cases h
    have hdigit : ∀ cs : List Char, '\n' ∉ cs.takeWhile Char.isDigit := fun cs hmem =>
      absurd (List.mem_takeWhile_imp hmem) (by decide)
    have hplaces : ∀ cs, '\n' ∉ fraction cs := by
      intro cs hmem
      unfold fraction at hmem
      split at hmem
      · split at hmem
        · exact (List.mem_cons.mp hmem).elim (by decide) (hdigit _)
        · cases hmem
      · cases hmem
    unfold number at hfeed
    dsimp only at hfeed
    rcases List.mem_append.mp hfeed with hmem | hmem
    · split at hmem
      · exact absurd hmem (hdigit _)
      · exact absurd (List.mem_of_mem_drop hmem) (hdigit _)
    · exact absurd hmem (hplaces _)
  split at h
  · dsimp only at h
    split at h
    · cases h
      rfl
    · cases h
  split at h
  · cases h
    exact absurd (List.mem_takeWhile_imp hfeed) (by decide)
  split at h
  · rename_i hl
    cases h
    unfold operator? at hl
    split at hl
    · rename_i kind d hd
      cases hl
      obtain ⟨e, -, hk⟩ := Option.bind_eq_some_iff.mp hd
      obtain ⟨k, hpair, hkd⟩ := Option.map_eq_some_iff.mp hk
      cases hkd
      obtain rfl : '\n' = d := by simpa using hfeed
      rw [pairOperator?_of_isBreak c (by decide)] at hpair
      cases hpair
    · obtain ⟨k, -, rfl⟩ := Option.map_eq_some_iff.mp hl
      cases hfeed
  · cases h

end Lexeme

namespace Scanner

/-! ## What a scan comes to -/

/-- All tokens of the source, those found so far among them. -/
def outcome (s : Scanner) : Except Diagnostic (List Token) := s.run.map finish

variable {s t : Scanner}

theorem outcome_of_rest_eq_nil (h : s.rest = []) : s.outcome = .ok s.finish := by
  rw [outcome, run, dif_pos h]
  rfl

theorem outcome_eq_bind (h : s.rest ≠ []) : s.outcome = s.step.bind outcome := by
  rw [outcome, run, dif_neg h]
  cases s.step <;> rfl

/-- The scanner behind some characters, with the tokens found in them. -/
def behind (s : Scanner) (cs : List Char) (ts : List Token) (rest : List Char) : Scanner :=
  { s with rest := rest, here := s.here.after cs, tokens := ts.reverse ++ s.tokens }

theorem behind_behind (s : Scanner) (cs ds : List Char) (ts us : List Token) (rest rest' : List Char) :
    (s.behind cs ts rest).behind ds us rest' = s.behind (cs ++ ds) (ts ++ us) rest' := by
  simp [behind]

theorem advance_eq_behind {cs rest : List Char} (h : s.rest = cs ++ rest) :
    s.advance cs.length = s.behind cs [] rest := by
  rw [advance, h, List.drop_left, List.take_left]
  rfl

theorem take_eq_behind {l : Lexeme} {rest : List Char} (h : s.rest = l.chars ++ rest) :
    s.take l = s.behind l.chars [l.token s.here] rest := by
  rw [take, advance_eq_behind h]
  rfl

theorem skipGap_eq_behind {cs rest : List Char} (h : s.rest = cs ++ rest)
    (hcs : ∀ c ∈ cs, isGap c = true) (hrest : ∀ c ∈ rest.head?, isGap c = false) :
    s.skipGap = s.behind cs [] rest := by
  rw [skipGap, h, takeWhile_append_of_forall hcs hrest, advance_eq_behind h]

theorem skipComment_eq_behind {cs rest : List Char} (h : s.rest = cs ++ rest) (hcs : '\n' ∉ cs)
    (hrest : ∀ c ∈ rest.head?, c = '\n') : s.skipComment = s.behind cs [] rest := by
  have hline : ∀ c ∈ cs, (c != '\n') = true := fun c hc => by
    rw [bne_iff_ne]
    rintro rfl
    exact hcs hc
  rw [skipComment, h, takeWhile_append_of_forall hline (fun c hc => by simp [hrest c hc]),
    advance_eq_behind h]

theorem layout_of_atLineStart (h : s.atLineStart = false) : s.layout = s := by
  rw [layout, if_neg (by simp [h])]

theorem atLineStart_layout (s : Scanner) : s.layout.atLineStart = false := by
  unfold layout
  split
  · dsimp only
    split
    · rfl
    · exact atLineStart_indentTo _ _
  · rename_i h
    exact Bool.eq_false_iff.mpr h

theorem skipGap_of_head (h : ∀ c ∈ s.rest.head?, isGap c = false) : s.skipGap = s := by
  have hnone : ([] ++ s.rest).takeWhile isGap = [] := takeWhile_append_of_forall (by simp) h
  rw [List.nil_append] at hnone
  rw [skipGap, hnone]
  rfl

/-- Behind the layout of a line and the blanks in front of a token there is no more of either. -/
theorem layout_skipGap_idem (s : Scanner) :
    s.layout.skipGap.layout.skipGap = s.layout.skipGap := by
  rw [layout_of_atLineStart (s := s.layout.skipGap) (atLineStart_layout s)]
  refine skipGap_of_head fun c hc => ?_
  rw [rest_skipGap] at hc
  exact head?_dropWhile_eq_false _ hc

/-- The layout of a line and the blanks in front of a token can be passed over first. -/
theorem outcome_layout_skipGap (s : Scanner) : s.layout.skipGap.outcome = s.outcome := by
  by_cases hend : s.rest = []
  · have hfinish : s.layout.skipGap.finish = s.finish := by
      unfold layout
      split <;> simp [hend, isEmptyLine, skipGap, advance, finish_eq]
    have hrest : s.layout.skipGap.rest = [] := by
      have hlayout := length_rest_layout_le s
      rw [rest_skipGap, List.eq_nil_of_length_eq_zero (l := s.layout.rest) (by simp_all)]
      rfl
    rw [outcome_of_rest_eq_nil hend, outcome_of_rest_eq_nil hrest, hfinish]
  · rw [outcome_eq_bind hend]
    by_cases hrest : s.layout.skipGap.rest = []
    · have hstep : s.step = .ok s.layout.skipGap := by
        unfold step
        dsimp only
        rw [hrest]
      rw [hstep]
      rfl
    · rw [outcome_eq_bind hrest]
      congr 1
      unfold step
      rw [layout_skipGap_idem]

theorem outcome_layout (s : Scanner) : s.layout.outcome = s.outcome := by
  rw [← outcome_layout_skipGap s.layout, layout_of_atLineStart (atLineStart_layout s),
    outcome_layout_skipGap]

theorem outcome_skipGap (h : s.atLineStart = false) : s.skipGap.outcome = s.outcome := by
  rw [← outcome_layout_skipGap s, layout_of_atLineStart h]

section

variable {c : Char} {rest : List Char}

theorem layout_skipGap_of_head (h : s.atLineStart = false) (hrest : s.rest = c :: rest)
    (hc : isGap c = false) : s.layout.skipGap = s := by
  rw [layout_of_atLineStart h]
  refine skipGap_of_head fun d hd => ?_
  rw [hrest] at hd
  cases hd
  exact hc

theorem outcome_skipComment (h : s.atLineStart = false) (hrest : s.rest = '#' :: rest)
    (hcolor : Lexeme.startsColor ('#' :: rest) = false) : s.skipComment.outcome = s.outcome := by
  have hstep : s.step = .ok s.skipComment := by
    unfold step
    rw [layout_skipGap_of_head h hrest (by decide)]
    dsimp only
    rw [hrest]
    simp [hcolor]
  rw [outcome_eq_bind (s := s) (by simp [hrest]), hstep]
  rfl

theorem outcome_lineFeed (h : s.atLineStart = false) (hrest : s.rest = '\n' :: rest) :
    s.lineFeed.outcome = s.outcome := by
  have hstep : s.step = .ok s.lineFeed := by
    unfold step
    rw [layout_skipGap_of_head h hrest (by decide)]
    dsimp only
    rw [hrest]
    simp
  rw [outcome_eq_bind (s := s) (by simp [hrest]), hstep]
  rfl

/-- In front of a lexeme, the lexeme is read. -/
theorem outcome_eq_read (h : s.atLineStart = false) (hrest : s.rest = c :: rest)
    (hgap : isGap c = false) (hfeed : c ≠ '\n')
    (hcomment : (c == '#' && !Lexeme.startsColor (c :: rest)) = false) :
    s.outcome =
      match Lexeme.read (s.lastKind?.any TokenKind.endsOperand) c rest with
      | .ok l => (s.take l).outcome
      | .error (problem, covered) => .error (.located problem ⟨s.here, s.here.after covered⟩) := by
  rw [outcome_eq_bind (s := s) (by simp [hrest])]
  unfold step
  rw [layout_skipGap_of_head h hrest hgap]
  dsimp only
  rw [hrest]
  simp only [hcomment, beq_eq_false_iff_ne.mpr hfeed, Bool.false_eq_true, if_false]
  cases Lexeme.read (s.lastKind?.any TokenKind.endsOperand) c rest <;> rfl

/-- A lexeme behind blanks is found. -/
theorem outcome_eq_behind {gap more : List Char} {l : Lexeme} (h : s.atLineStart = false)
    (hrest : s.rest = gap ++ c :: rest) (hblank : ∀ x ∈ gap, isGap x = true)
    (hgap : isGap c = false) (hfeed : c ≠ '\n')
    (hcomment : (c == '#' && !Lexeme.startsColor (c :: rest)) = false)
    (hread : Lexeme.read (s.lastKind?.any TokenKind.endsOperand) c rest = .ok l)
    (hsplit : c :: rest = l.chars ++ more) :
    s.outcome = (s.behind (gap ++ l.chars) [l.token (s.here.after gap)] more).outcome := by
  have hskip : s.skipGap = s.behind gap [] (c :: rest) :=
    skipGap_eq_behind hrest hblank (by simpa using hgap)
  have hread' : Lexeme.read ((s.behind gap [] (c :: rest)).lastKind?.any TokenKind.endsOperand) c
      rest = .ok l := hread
  have htake : (s.behind gap [] (c :: rest)).take l =
      s.behind (gap ++ l.chars) [l.token (s.here.after gap)] more := by
    rw [take_eq_behind (s := s.behind gap [] (c :: rest)) hsplit, behind_behind]
    rfl
  rw [← outcome_skipGap h, hskip, outcome_eq_read (s := s.behind gap [] (c :: rest)) h rfl hgap
    hfeed hcomment, hread', ← htake]

end

/-! ## Tokens that were found stay found -/

theorem tokens_indentTo (s : Scanner) (width : Nat) : s.tokens <:+ (s.indentTo width).tokens := by
  unfold indentTo
  split
  · exact List.suffix_cons _ _
  · rw [tokens_pushLayouts]
    exact List.suffix_append _ _

theorem tokens_layout (s : Scanner) : s.tokens <:+ s.layout.tokens := by
  unfold layout
  split
  · dsimp only
    split
    · exact List.suffix_refl _
    · exact tokens_indentTo { s.advance (s.rest.takeWhile isIndent).length with
        atLineStart := false } _
  · exact List.suffix_refl _

theorem tokens_step (h : s.step = .ok t) : s.tokens <:+ t.tokens := by
  have hlayout : s.tokens <:+ s.layout.skipGap.tokens := tokens_layout s
  have hmoves := moves_of_step h
  generalize s.layout.skipGap = u at hlayout hmoves
  refine hlayout.trans ?_
  cases hmoves with
  | ended => exact List.suffix_refl _
  | comment => exact List.suffix_refl _
  | lineFeed =>
    unfold lineFeed
    dsimp only
    split <;> first | exact List.suffix_refl _ | exact List.suffix_cons _ _
  | lexeme => exact List.suffix_cons _ _

theorem prefix_of_outcome_eq_ok {ts : List Token} (h : s.outcome = .ok ts) :
    s.tokens.reverse <+: ts := by
  have hrun : ∀ {t : Scanner}, s.run = .ok t → s.tokens <:+ t.tokens := by
    intro t ht
    fun_induction Scanner.run s with
    | case1 s hrest =>
      cases ht
      exact List.suffix_refl _
    | case2 => cases ht
    | case3 s hmore u htaken ih => exact (tokens_step htaken).trans (ih (by
        rwa [outcome_eq_bind hmore, htaken] at h) ht)
  rw [outcome] at h
  cases hlast : s.run with
  | error d =>
    rw [hlast] at h
    cases h
  | ok last =>
    rw [hlast] at h
    cases h
    rw [last.finish_eq]
    exact (List.reverse_prefix.mpr (hrun hlast)).trans (List.prefix_append _ _)

theorem mem_of_outcome_eq_ok {ts : List Token} (h : s.outcome = .ok ts) :
    ∀ t ∈ s.tokens, t ∈ ts :=
  fun _ ht => (prefix_of_outcome_eq_ok h).subset (List.mem_reverse.mpr ht)

end Scanner

theorem Token.scan_eq_ok {source : String} {file : Option String} {ts : List Token} :
    Token.scan source file = .ok ts ↔ (Scanner.start source.toList file).outcome = .ok ts := by
  unfold Token.scan Scanner.outcome
  cases (Scanner.start source.toList file).run <;> simp [Except.map]

/-! ## Lines without a scanner -/

/-- The end of a line that is no token: blanks, or blanks and a comment. -/
inductive Trivia : List Char → Prop
  | gap {cs : List Char} (blank : ∀ c ∈ cs, Scanner.isGap c = true) : Trivia cs
  | comment {gap text : List Char} (blank : ∀ c ∈ gap, Scanner.isGap c = true)
      (colorless : Lexeme.startsColor ('#' :: text) = false) : Trivia (gap ++ '#' :: text)

/-- The tokens of the rest of a line that starts at a location, behind an operand or not. -/
inductive LineTokens : Bool → Location → List Char → List Token → Prop
  | done {afterOperand : Bool} {here : Location} {cs : List Char} (trivia : Trivia cs) :
    LineTokens afterOperand here cs []
  | token {afterOperand : Bool} {here : Location} {gap cs rest : List Char} {c : Char} {l : Lexeme}
      {ts : List Token} (blank : ∀ x ∈ gap, Scanner.isGap x = true)
      (visible : Scanner.isGap c = false)
      (written : (c == '#' && !Lexeme.startsColor (c :: cs)) = false)
      (read : Lexeme.read afterOperand c cs = .ok l) (split : c :: cs = l.chars ++ rest)
      (more : LineTokens l.kind.endsOperand (here.after (gap ++ l.chars)) rest ts) :
    LineTokens afterOperand here (gap ++ c :: cs) (l.token (here.after gap) :: ts)

/-- The end of a line is the end of the source, or a line feed follows. -/
def EndsLine (tail : List Char) : Prop := ∀ c ∈ tail.head?, c = '\n'

theorem EndsLine.breaks {tail : List Char} (h : EndsLine tail) : Lexeme.Breaks tail :=
  fun c hc => by rw [h c hc]; decide

theorem EndsLine.isGap_eq_false {tail : List Char} (h : EndsLine tail) :
    ∀ c ∈ tail.head?, Scanner.isGap c = false :=
  fun c hc => by rw [h c hc]; decide

theorem startsColor_of_endsLine {tail text : List Char} (h : EndsLine tail) :
    Lexeme.startsColor ('#' :: (text ++ tail)) = Lexeme.startsColor ('#' :: text) :=
  Lexeme.startsColor_append h.breaks '#' text

section

variable {tail : List Char} {s : Scanner}

theorem Trivia.outcome_eq {cs : List Char} (h : Trivia cs) (hstart : s.atLineStart = false)
    (hrest : s.rest = cs ++ tail) (hline : '\n' ∉ cs) (htail : EndsLine tail) :
    s.outcome = (s.behind cs [] tail).outcome := by
  cases h with
  | gap hblank =>
    rw [← Scanner.outcome_skipGap hstart,
      Scanner.skipGap_eq_behind hrest hblank htail.isGap_eq_false]
  | @comment gap text hblank hcolor =>
    have hgap : s.skipGap = s.behind gap [] ('#' :: (text ++ tail)) :=
      Scanner.skipGap_eq_behind (by simp [hrest]) hblank (by simp; decide)
    have hcomment : (s.behind gap [] ('#' :: (text ++ tail))).skipComment =
        (s.behind gap [] ('#' :: (text ++ tail))).behind ('#' :: text) [] tail :=
      Scanner.skipComment_eq_behind rfl (fun h => hline (List.mem_append_right _ h)) htail
    calc s.outcome
        = (s.behind gap [] ('#' :: (text ++ tail))).outcome := by
          rw [← hgap, Scanner.outcome_skipGap hstart]
      _ = ((s.behind gap [] ('#' :: (text ++ tail))).behind ('#' :: text) [] tail).outcome := by
          rw [← hcomment]
          exact (Scanner.outcome_skipComment (s := s.behind gap [] ('#' :: (text ++ tail))) hstart
            rfl ((startsColor_of_endsLine htail).trans hcolor)).symm
      _ = (s.behind (gap ++ '#' :: text) [] tail).outcome := by
          rw [Scanner.behind_behind]
          rfl

/-- Scanning over the rest of a line finds its tokens. -/
theorem LineTokens.outcome_eq {afterOperand : Bool} {here : Location} {cs : List Char}
    {ts : List Token} (h : LineTokens afterOperand here cs ts) (hhere : s.here = here)
    (hstart : s.atLineStart = false) (hrest : s.rest = cs ++ tail)
    (hoperand : s.lastKind?.any TokenKind.endsOperand = afterOperand) (hline : '\n' ∉ cs)
    (htail : EndsLine tail) : s.outcome = (s.behind cs ts tail).outcome := by
  induction h generalizing s with
  | done htrivia => exact htrivia.outcome_eq hstart hrest hline htail
  | @token afterOperand here gap cs rest c l ts hblank hvisible hwritten hread hsplit _ ih =>
    have hfeed : c ≠ '\n' := fun h => hline (by simp [h])
    have hcomment : (c == '#' && !Lexeme.startsColor (c :: (cs ++ tail))) = false := by
      rw [Lexeme.startsColor_append htail.breaks]
      exact hwritten
    have hlexeme := Lexeme.read_append (hoperand ▸ hread) htail.breaks
    have hchars : c :: (cs ++ tail) = l.chars ++ (rest ++ tail) := by
      rw [← List.append_assoc, ← hsplit]
      rfl
    calc s.outcome
        = (s.behind (gap ++ l.chars) [l.token (here.after gap)] (rest ++ tail)).outcome := by
          rw [Scanner.outcome_eq_behind hstart (by simp [hrest]) hblank hvisible hfeed hcomment
            hlexeme hchars, hhere]
      _ = ((s.behind (gap ++ l.chars) [l.token (here.after gap)] (rest ++ tail)).behind rest ts
            tail).outcome := by
          refine ih ?_ hstart rfl rfl fun h => hline ?_
          · rw [← hhere]
            rfl
          · rw [hsplit]
            simp [h]
      _ = (s.behind (gap ++ c :: cs) (l.token (here.after gap) :: ts) tail).outcome := by
          rw [Scanner.behind_behind, List.append_assoc, ← hsplit]
          rfl

end

/-- No string goes on over the end of its line. -/
def OneLineStrings (ts : List Token) : Prop :=
  ∀ t ∈ ts, t.kind = .string → '\n' ∉ t.lexeme.toList

/-- A scan that succeeds reads the rest of a line by itself. -/
theorem Scanner.exists_lineTokens {ts : List Token} (hstrings : OneLineStrings ts)
    {cs tail : List Char} {s : Scanner} (hscan : s.outcome = .ok ts)
    (hstart : s.atLineStart = false) (hrest : s.rest = cs ++ tail) (hline : '\n' ∉ cs)
    (htail : EndsLine tail) :
    ∃ us, LineTokens (s.lastKind?.any TokenKind.endsOperand) s.here cs us ∧ ∀ u ∈ us, u ∈ ts := by
  induction hn : cs.length using Nat.strong_induction_on generalizing s cs with
  | _ n ih =>
  subst hn
  have hcs : cs.takeWhile isGap ++ cs.dropWhile isGap = cs := List.takeWhile_append_dropWhile
  have hblank : ∀ x ∈ cs.takeWhile isGap, isGap x = true := fun _ => List.mem_takeWhile_imp
  cases hdrop : cs.dropWhile isGap with
  | nil =>
    refine ⟨[], .done (.gap fun c hc => hblank c ?_), by simp⟩
    rwa [← hcs, hdrop, List.append_nil] at hc
  | cons c rest =>
    have hvisible : isGap c = false := head?_dropWhile_eq_false cs (by rw [hdrop]; rfl)
    generalize cs.takeWhile isGap = gap at hcs hblank
    rw [hdrop] at hcs
    subst hcs
    by_cases hcomment : (c == '#' && !Lexeme.startsColor (c :: rest)) = true
    · simp only [Bool.and_eq_true, beq_iff_eq, Bool.not_eq_true'] at hcomment
      obtain ⟨rfl, hcolor⟩ := hcomment
      exact ⟨[], .done (.comment hblank hcolor), by simp⟩
    have hwritten := Bool.eq_false_iff.mpr hcomment
    have hfeed : c ≠ '\n' := fun h => hline (by simp [h])
    have hgap : s.skipGap = s.behind gap [] (c :: (rest ++ tail)) :=
      skipGap_eq_behind (by simp [hrest]) hblank (by simpa using hvisible)
    have hnext := outcome_eq_read (s := s.behind gap [] (c :: (rest ++ tail))) hstart rfl hvisible
      hfeed (by rwa [Lexeme.startsColor_append htail.breaks])
    rw [← hgap, outcome_skipGap hstart, hscan, hgap] at hnext
    split at hnext
    · rename_i l hl
      obtain ⟨more, hmore, htaken⟩ := Lexeme.read_eq_append hl
      have htake := take_eq_behind (s := s.behind gap [] (c :: (rest ++ tail))) hmore
      rw [htake, behind_behind] at hnext
      have hmem : l.token (s.here.after gap) ∈ ts :=
        mem_of_outcome_eq_ok hnext.symm _ List.mem_cons_self
      -- the lexeme ends before the line does, for only a string could go on
      have hlength : l.tail.length ≤ rest.length := by
        by_contra hlong
        obtain ⟨x, hx⟩ : ∃ x, l.tail = rest ++ x := by
          obtain ⟨x, hx⟩ := List.prefix_of_prefix_length_le (List.prefix_append rest tail)
            (htaken ▸ List.prefix_append l.tail more) (by omega)
          exact ⟨x, hx.symm⟩
        have hx' : tail = x ++ more := by
          rw [hx, List.append_assoc] at htaken
          exact List.append_cancel_left htaken
        cases x with
        | nil => simp [hx] at hlong
        | cons d ds =>
          obtain rfl : d = '\n' := htail d (by rw [hx']; rfl)
          have hfeed' : '\n' ∈ l.tail := by simp [hx]
          refine hstrings _ hmem (Lexeme.kind_eq_string_of_mem hl hfeed') ?_
          simp [Lexeme.token, Lexeme.chars, hfeed']
      have hread : Lexeme.read (s.lastKind?.any TokenKind.endsOperand) c rest = .ok l := by
        have := Lexeme.read_of_read_append htail.breaks hl hlength Lexeme.breaks_nil
        rwa [List.append_nil] at this
      obtain ⟨left, hsplit, hleft⟩ := Lexeme.read_eq_append hread
      have hbehind : more = left ++ tail := by
        rw [hleft, List.append_assoc] at htaken
        exact (List.append_cancel_left htaken).symm
      obtain ⟨us, hus, hmems⟩ := ih left.length (by simp [hleft]; omega) hnext.symm hstart hbehind
        (fun h => hline (by simp [hleft, h])) rfl
      exact ⟨_, .token hblank hvisible hwritten hread hsplit hus,
        List.forall_mem_cons.mpr ⟨hmem, hmems⟩⟩
    · cases hnext

end EventScript
