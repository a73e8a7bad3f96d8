import EventScript.Proofs.Token.Strings

/-! # Where strings end

A string goes up to the first quote of its own style that is not escaped, and an unescaped line feed
breaks it off.  A backslash takes a line feed out of the syntax as it takes a quote, so a string
keeps to its line but for the line feeds behind such a backslash.

* `Closes`                          the quote at one place closes the string opened at another
* `Lexeme.closed_quotedTail_iff`    what is read behind an opening quote is closed by such a quote
* `Token.feed_escaped_of_scan`      a string token covers no line feed that is not escaped
* `Scanner.Passes.reports_iff`      a string is reported exactly when no quote closes it
* `strings_keep_to_their_line`      both, for every source
-/

namespace EventScript

/-- The quote at the second place closes the string that the quote at the first place opens: it is
    the next one of that style that is not escaped, and no unescaped line feed stands before it. -/
structure Closes (source : List Char) (first last : Nat) : Prop where
  behind : first < last
  quote : source[last]? = source[first]?
  bare : ¬ Lexeme.Escaped source last
  between : ∀ i, first < i → i < last → (source[i]? = source[first]? ∨ source[i]? = some '\n') →
    Lexeme.Escaped source i

namespace Lexeme

variable {quote : Char} {cs ds : List Char}

/-! ## Behind an opening quote -/

/-- The opening quote itself can be put in front or left away. -/
theorem closes_cons_iff (hquote : quote ≠ '\\') (before cs : List Char) (k : Nat) :
    Closes (before ++ quote :: cs) before.length (before.length + 1 + k) ↔
      cs[k]? = some quote ∧ ¬ Escaped cs k ∧
        ∀ i < k, cs[i]? = some quote ∨ cs[i]? = some '\n' → Escaped cs i := by
  have hfirst : (before ++ quote :: cs)[before.length]? = some quote := by simp
  have hbehind : ∀ i, (before ++ quote :: cs)[before.length + 1 + i]? = cs[i]? := fun i => by
    rw [List.append_cons, List.getElem?_append_right (by simp), List.length_append,
      List.length_singleton, Nat.add_sub_cancel_left]
  constructor
  · intro h
    refine ⟨?_, fun hk => h.bare ((escaped_behind hquote before cs k).mpr hk),
      fun i hi hspecial => ?_⟩
    · rw [← hbehind, h.quote, hfirst]
    · refine (escaped_behind hquote before cs i).mp (h.between _ (by omega) (by omega) ?_)
      rwa [hbehind, hfirst]
  · rintro ⟨hk, hbare, hbetween⟩
    refine ⟨by omega, by rw [hbehind, hk, hfirst],
      fun h => hbare ((escaped_behind hquote before cs k).mp h), fun i hi hlt hspecial => ?_⟩
    obtain ⟨j, rfl⟩ := Nat.exists_eq_add_of_le (Nat.succ_le_of_lt hi)
    rw [Nat.succ_eq_add_one, hbehind, hfirst] at hspecial
    exact (escaped_behind hquote before cs j).mpr (hbetween j (by omega) hspecial)

theorem not_escaped_zero (cs : List Char) : ¬ Escaped cs 0 := Nat.zero_ne_one

/-- A body ends at the quote that closes it. -/
theorem Body.closes (h : Body quote cs ds) (hquote : IsQuote quote) (before rest : List Char) :
    Closes (before ++ quote :: (cs ++ quote :: rest)) before.length
      (before.length + 1 + cs.length) := by
  refine (closes_cons_iff hquote.ne_backslash before _ _).mpr ⟨by simp, ?_, fun i hi hspecial => ?_⟩
  · rw [escaped_append (Nat.le_refl _)]
    exact h.end_unescaped
  · rw [List.getElem?_append_left hi] at hspecial
    rw [escaped_append (Nat.le_of_lt hi)]
    rcases hspecial with hi | hi
    · exact h.quote_escaped hquote.ne_backslash i hi
    · exact h.special_escaped (by decide) (.inr rfl) i hi

/-- Reading goes on to the first unescaped quote, if no unescaped line feed stands before it. -/
theorem closed_of_bare_quote (hquote : IsQuote quote) {k : Nat} (hk : cs[k]? = some quote)
    (hbare : ¬ Escaped cs k)
    (hbetween : ∀ i < k, cs[i]? = some quote ∨ cs[i]? = some '\n' → Escaped cs i) :
    (quotedTail quote cs).closed = true := by
  induction cs using quotedTail.induct quote generalizing k with
  | case1 => cases hk
  | case2 =>
    cases k with
    | zero => exact absurd (Option.some.inj hk).symm hquote.ne_backslash
    | succ k => cases hk
  | case3 c rest ih =>
    cases k with
    | zero => exact absurd (Option.some.inj hk).symm hquote.ne_backslash
    | succ k =>
      cases k with
      | zero => exact absurd rfl hbare
      | succ k =>
        exact ih (k := k) hk (fun h => hbare ((escaped_behind_escape c rest k).mpr h))
          fun i hi hspecial =>
            (escaped_behind_escape c rest i).mp (hbetween (i + 2) (by omega) hspecial)
  | case4 c rest hlast hmore hsame =>
    rw [quotedTail_cons quote (ne_backslash hlast hmore), if_pos hsame]
  | case5 c rest hlast hmore hother hfeed =>
    cases k with
    | zero => exact absurd (Option.some.inj hk) (by simpa using hother)
    | succ k =>
      have hescaped := hbetween 0 (Nat.succ_pos k) (.inr (by simpa using hfeed))
      exact absurd hescaped (not_escaped_zero _)
  | case6 c rest hlast hmore hother hfeed ih =>
    have hplain := ne_backslash hlast hmore
    rw [quotedTail_cons quote hplain, if_neg hother, if_neg hfeed]
    cases k with
    | zero => exact absurd (Option.some.inj hk) (by simpa using hother)
    | succ k =>
      exact ih (k := k) hk (fun h => hbare ((escaped_behind_plain hplain rest k).mpr h))
        fun i hi hspecial =>
          (escaped_behind_plain hplain rest i).mp (hbetween (i + 1) (by omega) hspecial)

/-- What is read behind an opening quote is closed exactly where a quote closes the string. -/
theorem closed_quotedTail_iff (hquote : IsQuote quote) (before cs : List Char) :
    (quotedTail quote cs).closed = true ↔
      ∃ last, Closes (before ++ quote :: cs) before.length last := by
  constructor
  · intro h
    obtain ⟨body, hwritten, hbody⟩ := body_of_quotedTail h
    obtain ⟨rest, hrest⟩ := prefix_written quote cs
    rw [hwritten, List.append_assoc, List.singleton_append] at hrest
    exact ⟨_, hrest ▸ hbody.closes hquote before rest⟩
  · rintro ⟨last, hlast⟩
    obtain ⟨k, rfl⟩ := Nat.exists_eq_add_of_le (Nat.succ_le_of_lt hlast.behind)
    obtain ⟨hk, hbare, hbetween⟩ := (closes_cons_iff hquote.ne_backslash before cs k).mp hlast
    exact closed_of_bare_quote hquote hk hbare hbetween

/-- At a quote a string is read, if it is closed. -/
theorem read_of_isQuote (hquote : IsQuote quote) (afterOperand : Bool) (rest : List Char) :
    read afterOperand quote rest =
      if (quotedTail quote rest).closed = true then
        .ok ⟨.string, .text (String.ofList (quotedTail quote rest).decoded), quote,
          (quotedTail quote rest).written⟩
      else .error (.unterminatedString, quote :: (quotedTail quote rest).written) := by
  unfold read
  rcases hquote with rfl | rfl <;> simp [startsColor, startsNumber]

/-- No colour is written over a line feed. -/
theorem feed_not_mem_color (rest : List Char) : '\n' ∉ (color rest).chars := by
  intro h
  rcases List.mem_cons.mp h with h | h
  · cases h
  · exact absurd (List.mem_takeWhile_imp h) (by decide)

end Lexeme

/-! ## Tokens -/

namespace Token

variable {t : Token} {source : List Char} {file : Option String}

/-- A token ends as many lines below its start as it covers line feeds. -/
theorem StandsIn.line_stop (h : t.StandsIn source file) :
    t.span.stop.line = t.span.start.line +
      (source.extract t.span.start.offset t.span.stop.offset).count '\n' := by
  obtain ⟨width, hwidth⟩ := Nat.exists_eq_add_of_le h.forward
  rw [h.start.line, h.stop.line, List.extract_eq_take_drop, hwidth, List.take_add,
    List.count_append, Nat.add_sub_cancel_left, Nat.add_assoc]

/-- A token covers the characters that stand between its ends. -/
theorem mem_covered_iff {c : Char} :
    c ∈ source.extract t.span.start.offset t.span.stop.offset ↔
      ∃ i, t.Covers i ∧ source[i]? = some c := by
  rw [List.extract_eq_take_drop, List.mem_iff_getElem?]
  constructor
  · rintro ⟨i, hi⟩
    rw [List.getElem?_take] at hi
    split at hi
    · rename_i hlt
      rw [List.getElem?_drop] at hi
      exact ⟨_, ⟨Nat.le_add_right .., by omega⟩, hi⟩
    · cases hi
  · rintro ⟨i, ⟨hle, hlt⟩, hi⟩
    refine ⟨i - t.span.start.offset, ?_⟩
    rw [List.getElem?_take, if_pos (by omega), List.getElem?_drop, Nat.add_sub_cancel' hle]
    exact hi

/-- A string token that covers a line feed is a literal, from its quote to the one that closes
    it. -/
theorem closes_of_scan {source : String} {file : Option String} {tokens : List Token}
    (h : Token.scan source file = .ok tokens) {t : Token} (ht : t ∈ tokens)
    (hkind : t.kind = .string) :
    '\n' ∉ source.toList.extract t.span.start.offset t.span.stop.offset ∨
      (∃ quote, Lexeme.IsQuote quote ∧ source.toList[t.span.start.offset]? = some quote) ∧
        Closes source.toList t.span.start.offset (t.span.stop.offset - 1) := by
  have hstop := ((faithful_of_scan h).standing t ht).stop.offset
  obtain ⟨-, ⟨rest, hcovered⟩ | ⟨quote, body, decoded, hquote, hbody, hcovered, -⟩⟩ :=
    color_or_body_of_scan h ht hkind
  · exact .inl (hcovered ▸ Lexeme.feed_not_mem_color rest)
  right
  rw [List.extract_eq_take_drop] at hcovered
  have hlength := congrArg List.length hcovered
  simp only [List.length_take, List.length_drop, List.length_cons, List.length_append,
    List.length_nil] at hlength
  have hbefore : (source.toList.take t.span.start.offset).length = t.span.start.offset := by
    rw [List.length_take]
    omega
  have hsplit : source.toList = source.toList.take t.span.start.offset ++
      quote :: (body ++ quote :: (source.toList.drop t.span.start.offset).drop
        (t.span.stop.offset - t.span.start.offset)) := by
    conv_lhs => rw [← List.take_append_drop t.span.start.offset source.toList,
      ← List.take_append_drop (t.span.stop.offset - t.span.start.offset)
        (source.toList.drop t.span.start.offset), hcovered]
    simp
  have hcloses := hbody.closes hquote (source.toList.take t.span.start.offset)
    ((source.toList.drop t.span.start.offset).drop (t.span.stop.offset - t.span.start.offset))
  rw [← hsplit, hbefore] at hcloses
  refine ⟨⟨quote, hquote, ?_⟩, ?_⟩
  · rw [hsplit, List.getElem?_append_right (Nat.le_of_eq hbefore), hbefore, Nat.sub_self]
    rfl
  · rwa [show t.span.stop.offset - 1 = t.span.start.offset + 1 + body.length by omega]

/-- Every line feed that a string token covers is escaped. -/
theorem feed_escaped_of_scan {source : String} {file : Option String} {tokens : List Token}
    (h : Token.scan source file = .ok tokens) {t : Token} (ht : t ∈ tokens)
    (hkind : t.kind = .string) {i : Nat} (hcovers : t.Covers i)
    (hfeed : source.toList[i]? = some '\n') : Lexeme.Escaped source.toList i := by
  obtain hnone | ⟨⟨quote, hquote, hfirst⟩, hcloses⟩ := closes_of_scan h ht hkind
  · exact absurd (mem_covered_iff.mpr ⟨i, hcovers, hfeed⟩) hnone
  have hplain : source.toList[t.span.start.offset]? ≠ some '\n' := by
    rw [hfirst]
    rcases hquote with rfl | rfl <;> decide
  have hnotFirst : t.span.start.offset ≠ i := by
    rintro rfl
    exact hplain hfeed
  have hnotLast : i ≠ t.span.stop.offset - 1 := by
    rintro rfl
    exact hplain (hcloses.quote ▸ hfeed)
  obtain ⟨hle, hlt⟩ := hcovers
  exact hcloses.between i (by omega) (by omega) (.inr hfeed)

end Token

/-! ## The scan -/

namespace Scanner

variable {source : List Char} {file : Option String} {s t : Scanner}

/-- Every scanner that a scan passes comes to what the scan comes to. -/
theorem Passes.outcome_eq (hs : Passes source file s) :
    s.outcome = (Scanner.start source file).outcome := by
  induction hs with
  | start => rfl
  | step _ more taken ih =>
    rw [outcome_eq_bind more, taken] at ih
    exact ih

theorem offset_le_advance (s : Scanner) (n : Nat) : s.here.offset ≤ (s.advance n).here.offset := by
  rw [advance, Location.offset_after]
  exact Nat.le_add_right ..

theorem offset_le_layout_skipGap (s : Scanner) : s.here.offset ≤ s.layout.skipGap.here.offset := by
  have hlayout : s.here.offset ≤ s.layout.here.offset := by
    unfold layout
    split
    · dsimp only
      split
      · exact offset_le_advance s _
      · rw [here_indentTo]
        exact offset_le_advance s _
    · exact Nat.le_refl _
  exact hlayout.trans (offset_le_advance _ _)

/-- A step goes forward. -/
theorem offset_le_step (h : s.step = .ok t) : s.here.offset ≤ t.here.offset := by
  have hu := offset_le_layout_skipGap s
  have hmoves := moves_of_step h
  generalize s.layout.skipGap = u at hu hmoves
  refine hu.trans ?_
  cases hmoves with
  | ended => exact Nat.le_refl _
  | comment => exact offset_le_advance u _
  | lineFeed =>
    unfold lineFeed
    dsimp only
    split <;> exact offset_le_advance u 1
  | lexeme => exact offset_le_advance u _

theorem offset_lt_take (hmore : s.rest ≠ []) (l : Lexeme) :
    s.here.offset < (s.take l).here.offset := by
  show s.here.offset < (s.here.after (s.rest.take (l.tail.length + 1))).offset
  have hpos := List.length_pos_iff.mpr hmore
  rw [Location.offset_after, List.length_take]
  omega

/-- What a scan reports stands no further back than the scanner. -/
theorem offset_le_of_outcome_eq_error {d : Diagnostic} (h : s.outcome = .error d) :
    ∃ span, d.span = some span ∧ s.here.offset ≤ span.start.offset := by
  induction hn : s.rest.length using Nat.strong_induction_on generalizing s with
  | _ n ih =>
  subst hn
  by_cases hend : s.rest = []
  · rw [outcome_of_rest_eq_nil hend] at h
    cases h
  rw [outcome_eq_bind hend] at h
  cases hstep : s.step with
  | error e =>
    obtain ⟨c, rest, problem, covered, -, -, rfl⟩ := Scanner.step_eq_error hstep
    rw [hstep] at h
    cases h
    exact ⟨_, rfl, offset_le_layout_skipGap s⟩
  | ok t =>
    rw [hstep] at h
    obtain ⟨span, hspan, hle⟩ := ih _ (length_rest_step_lt hstep hend) h rfl
    exact ⟨span, hspan, (offset_le_step hstep).trans hle⟩

end Scanner

theorem Token.scan_eq_error {source : String} {file : Option String} {d : Diagnostic} :
    Token.scan source file = .error d ↔
      ∃ e, (Scanner.start source.toList file).outcome = .error e ∧ e.quoting source = d := by
  unfold Token.scan Scanner.outcome
  cases (Scanner.start source.toList file).run <;> simp [Except.map]

/-- The scan of a source fails, as the string opened at a place is not closed. -/
def ReportsUnterminated (source : String) (file : Option String) (here : Location) : Prop :=
  ∃ stop, Token.scan source file =
    .error ((Diagnostic.located .unterminatedString ⟨here, stop⟩).quoting source)

namespace Scanner

variable {s : Scanner} {quote : Char} {rest : List Char}

/-- In front of a quote the scan goes on behind the string, or reports it. -/
theorem outcome_of_isQuote (hstart : s.atLineStart = false) (hrest : s.rest = quote :: rest)
    (hquote : Lexeme.IsQuote quote) :
    s.outcome =
      if (Lexeme.quotedTail quote rest).closed = true then
        (s.take ⟨.string, .text (String.ofList (Lexeme.quotedTail quote rest).decoded), quote,
          (Lexeme.quotedTail quote rest).written⟩).outcome
      else
        .error (.located .unterminatedString
          ⟨s.here, s.here.after (quote :: (Lexeme.quotedTail quote rest).written)⟩) := by
  have hgap : isGap quote = false := by rcases hquote with rfl | rfl <;> rfl
  have hfeed : quote ≠ '\n' := by rcases hquote with rfl | rfl <;> decide
  have hcomment : (quote == '#' && !Lexeme.startsColor (quote :: rest)) = false := by
    rcases hquote with rfl | rfl <;> rfl
  rw [outcome_eq_read hstart hrest hgap hfeed hcomment, Lexeme.read_of_isQuote hquote]
  split
  · rename_i hread
    split at hread <;> cases hread
    rw [if_pos ‹_›]
  · rename_i hread
    split at hread <;> cases hread
    rw [if_neg ‹_›]

/-- Where the scan meets a quote, it reports the string exactly when no quote closes it. -/
theorem Passes.reports_iff {source : String} {file : Option String}
    (hs : Passes source.toList file s) (hrest : s.layout.skipGap.rest = quote :: rest)
    (hquote : Lexeme.IsQuote quote) :
    ReportsUnterminated source file s.layout.skipGap.here ↔
      ¬ ∃ last, Closes source.toList s.layout.skipGap.here.offset last := by
  obtain ⟨_, hpassed⟩ := hs.traced
  obtain ⟨before, hu⟩ := hpassed.atVisible
  have houtcome := outcome_of_isQuote (s := s.layout.skipGap) (atLineStart_layout s) hrest hquote
  rw [outcome_layout_skipGap, hs.outcome_eq] at houtcome
  generalize s.layout.skipGap = u at *
  have hoffset : u.here.offset = before.length := by
    rw [hu.here, Location.offset_start_after]
  rw [hoffset, hu.split, hrest, ← Lexeme.closed_quotedTail_iff hquote, Bool.not_eq_true]
  constructor
  · rintro ⟨stop, hscan⟩
    obtain ⟨e, he, hquoting⟩ := Token.scan_eq_error.mp hscan
    refine Bool.eq_false_iff.mpr fun hclosed => ?_
    -- behind the string, whatever is reported stands further on
    rw [he, if_pos hclosed] at houtcome
    obtain ⟨span, hspan, hle⟩ := offset_le_of_outcome_eq_error houtcome.symm
    have hsame : some span = some ⟨u.here, stop⟩ := by
      rw [← hspan]
      exact congrArg Diagnostic.span hquoting
    cases hsame
    exact absurd hle (Nat.not_le.mpr (offset_lt_take (by simp [hrest]) _))
  · intro hopen
    rw [if_neg (by simp [hopen])] at houtcome
    exact ⟨_, Token.scan_eq_error.mpr ⟨_, houtcome, rfl⟩⟩

end Scanner

/-- A string token starts and ends on one line unless it covers a line feed, and every line feed
    that it covers is escaped.  Where the scan meets a quote, it reports the string at this quote
    exactly when no quote closes it, on its line or behind escaped line feeds. -/
theorem strings_keep_to_their_line (source : String) (file : Option String) :
    (∀ tokens, Token.scan source file = .ok tokens → ∀ t ∈ tokens, t.kind = .string →
      (t.span.start.line = t.span.stop.line ↔
        ¬ ∃ i, t.Covers i ∧ source.toList[i]? = some '\n') ∧
      ∀ i, t.Covers i → source.toList[i]? = some '\n' → Lexeme.Escaped source.toList i) ∧
    ∀ (s : Scanner) (quote : Char) (rest : List Char), Scanner.Passes source.toList file s →
      s.layout.skipGap.rest = quote :: rest → Lexeme.IsQuote quote →
      let here := s.layout.skipGap.here
      here.In source.toList file ∧ source.toList[here.offset]? = some quote ∧
        (ReportsUnterminated source file here ↔
          ¬ ∃ last, Closes source.toList here.offset last) := by
  constructor
  · intro tokens h t ht hkind
    have hstands := (Token.faithful_of_scan h).standing t ht
    refine ⟨?_, fun i hcovers hfeed => Token.feed_escaped_of_scan h ht hkind hcovers hfeed⟩
    rw [hstands.line_stop, Nat.left_eq_add, List.count_eq_zero, Token.mem_covered_iff]
  · intro s quote rest hs hrest hquote
    obtain ⟨_, hpassed⟩ := hs.traced
    obtain ⟨before, hu⟩ := hpassed.atVisible
    refine ⟨?_, ?_, hs.reports_iff hrest hquote⟩
    · rw [hu.here]
      exact Location.in_start_after hu.split
    · rw [hu.here, Location.offset_start_after, hu.split, hrest]
      simp

/-- A source with a string that goes on behind an escaped line feed. -/
def brokenString : String := "\"a\\\nb\""

/-- Its tokens. -/
def brokenStringTokens : List Token :=
  [⟨.string, .text "a\nb", "\"a\\\nb\"", ⟨⟨1, 1, 0, none⟩, ⟨2, 3, 6, none⟩⟩⟩,
    ⟨.endOfFile, .null, "", ⟨⟨2, 3, 6, none⟩, ⟨2, 3, 6, none⟩⟩⟩]

/-- A source with a string that no quote closes: the first quote behind the opening one is escaped,
    and so is the first line feed, but not the second one. -/
def openString : String := "'it\\'s\\\n\n'"

theorem strings_keep_to_their_line_brokenString :
    Token.scan brokenString none = .ok brokenStringTokens ∧
      (∀ t ∈ brokenStringTokens[0]?, t.span.start.line ≠ t.span.stop.line ∧
        ∃ i, t.Covers i ∧ brokenString.toList[i]? = some '\n' ∧
          Lexeme.Escaped brokenString.toList i) ∧
      ReportsUnterminated openString none (.start none) ∧
      ¬ ∃ last, Closes openString.toList 0 last := by
  have hscan : Token.scan brokenString none = .ok brokenStringTokens := by cbv
  refine ⟨hscan, fun t ht => ?_, ?_⟩
  · have hmem := List.mem_of_getElem? ht
    cases ht
    have hbroken := (strings_keep_to_their_line brokenString none).1 _ hscan _ hmem rfl
    have hlines : (1 : Nat) ≠ 2 := by decide
    obtain ⟨i, hcovers, hfeed⟩ := Classical.not_not.mp (mt hbroken.1.mpr hlines)
    exact ⟨hlines, i, hcovers, hfeed, hbroken.2 i hcovers hfeed⟩
  · have hreport : ReportsUnterminated openString none (.start none) :=
      ⟨⟨2, 1, 8, none⟩, by cbv⟩
    have hopen := (strings_keep_to_their_line openString none).2 _ '\''
      "it\\'s\\\n\n'".toList .start (by cbv) (.inr rfl)
    exact ⟨hreport, hopen.2.2.mp hreport⟩

end EventScript
