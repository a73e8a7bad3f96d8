import EventScript.Proofs.Grammar.Bottom
import EventScript.Proofs.Grammar.Indentation
import EventScript.Proofs.Token.Positions

/-! # The source line that a diagnostic shows

The location of a diagnostic counts line feeds, and the line that is shown with it is counted in the
boundaries of `Text.lines`, of which there are more.  As long as no boundary other than a line feed
comes before the end of the line in question, that is the line that is shown, and the carets stand
below the place of the diagnostic.  A stray boundary in an earlier line makes the diagnostic show a
part of an earlier line instead.

* `Text.strays`            the line boundaries that are no line feeds
* `Text.LineAround`        the line that a place of a text is in
* `sourceLine?_line`       what is shown for a location of a source
* `Program.compile_quotes`   what is shown with a diagnostic
-/

namespace EventScript

namespace Text

/-! ## Lines and their boundaries -/

/-- The number of line boundaries of a text that are neither a line feed nor a carriage return
    before one or at the end. -/
def strays : List Char → Nat
  | [] => 0
  | ['\r'] => 0
  | '\r' :: '\n' :: rest => strays rest
  | c :: rest => (if isLineBoundary c && c != '\n' then 1 else 0) + strays rest

/-- A line without the carriage return at its end. -/
def withoutReturn (line : List Char) : List Char :=
  if line.getLast? = some '\r' then line.dropLast else line

/-- The line of a text that a place is in: what stands between the line feeds around it. -/
structure LineAround (cs : List Char) (place : Nat) (before line : List Char) : Prop where
  parts : ∃ after, cs = before ++ (line ++ after) ∧ (after = [] ∨ ∃ more, after = '\n' :: more)
  start : before = [] ∨ ∃ more, before = more ++ ['\n']
  oneLine : '\n' ∉ line
  first : before.length ≤ place
  last : place ≤ before.length + line.length

theorem linesFrom_feed (line rest : List Char) :
    linesFrom line ('\n' :: rest) = line.reverse :: linesFrom [] rest := by
  rw [linesFrom] <;> simp [isLineBoundary]

theorem linesFrom_cons (line : List Char) {c : Char} {rest : List Char}
    (h : ∀ more, c = '\r' → rest = '\n' :: more → False) :
    linesFrom line (c :: rest) =
      if isLineBoundary c then line.reverse :: linesFrom [] rest
      else linesFrom (c :: line) rest := by
  rw [linesFrom]
  exact h

theorem strays_cons {c : Char} {rest : List Char} (hlast : c = '\r' → rest ≠ [])
    (h : ∀ more, c = '\r' → rest = '\n' :: more → False) :
    strays (c :: rest) = (if isLineBoundary c && c != '\n' then 1 else 0) + strays rest := by
  rw [strays]
  · exact fun hc hrest => hlast hc hrest
  · exact h

/-- A carriage return that no line feed follows is followed by none further on either. -/
theorem not_feed_append {c : Char} {more : List Char}
    (h : ∀ rest, c = '\r' → more = '\n' :: rest → False) (hlast : c = '\r' → more ≠ [])
    (rest : List Char) : ∀ rest', c = '\r' → more ++ rest = '\n' :: rest' → False := by
  intro rest' hc hmore
  cases more with
  | nil => exact hlast hc rfl
  | cons d more =>
    obtain ⟨rfl, -⟩ := List.cons.inj hmore
    exact h more hc rfl

/-- A line feed ends a line, whatever stands before and behind it. -/
theorem linesFrom_append (line before rest : List Char) :
    linesFrom line (before ++ '\n' :: rest) =
      linesFrom line (before ++ ['\n']) ++ linesFrom [] rest := by
  fun_induction linesFrom line before with
  | case1 line h => simp [linesFrom_feed, linesFrom]
  | case2 line h => simp [linesFrom_feed, linesFrom]
  | case3 line more ih => simp [linesFrom, ih]
  | case4 line c more h hc ih | case5 line c more h hc ih =>
    -- a carriage return just before the line feed makes one boundary with it
    by_cases hreturn : c = '\r' ∧ more = []
    · obtain ⟨rfl, rfl⟩ := hreturn
      simp [linesFrom]
    · have hnot := not_feed_append h fun h₁ h₂ => hreturn ⟨h₁, h₂⟩
      rw [List.cons_append, List.cons_append, linesFrom_cons _ (hnot _), linesFrom_cons _ (hnot _)]
      simp [hc, ih]

/-- The lines up to a line feed are as many as there are line feeds and stray boundaries. -/
theorem length_linesFrom (line before : List Char) :
    (linesFrom line (before ++ ['\n'])).length =
      (before ++ ['\n']).count '\n' + strays (before ++ ['\n']) := by
  fun_induction linesFrom line before with
  | case1 line h => simp [linesFrom, isLineBoundary, strays]
  | case2 line h => simp [linesFrom, isLineBoundary, strays]
  | case3 line more ih =>
    simp only [List.cons_append, linesFrom, strays, List.length_cons, ih]
    simp
    omega
  | case4 line c more h hc ih | case5 line c more h hc ih =>
    by_cases hreturn : c = '\r' ∧ more = []
    · obtain ⟨rfl, rfl⟩ := hreturn
      simp [linesFrom, strays]
    have hnot := not_feed_append h fun h₁ h₂ => hreturn ⟨h₁, h₂⟩
    rw [List.cons_append, linesFrom_cons _ (hnot _), strays_cons (fun _ => by simp) (hnot _),
      List.count_cons]
    have hfeed : c = '\n' → isLineBoundary c = true := by rintro rfl; rfl
    by_cases hc' : c = '\n' <;> simp_all <;> omega

/-- The first line goes up to the first boundary. -/
theorem head?_linesFrom (line cs : List Char) :
    (linesFrom line cs).head? =
      if line = [] ∧ cs = [] then none
      else some (line.reverse ++ cs.takeWhile fun c => !isLineBoundary c) := by
  fun_induction linesFrom line cs with
  | case1 line h => simp_all
  | case2 line h => simp_all
  | case3 line more ih => simp [isLineBoundary]
  | case4 line c more h hc ih => simp [hc]
  | case5 line c more h hc ih => simp_all

variable {cs before line rest : List Char} {place : Nat}

/-- Text that ends with a line feed is cut into lines by itself. -/
theorem lines_append (rest : List Char) (h : before = [] ∨ ∃ more, before = more ++ ['\n']) :
    lines (before ++ rest) = lines before ++ lines rest ∧
      (lines before).length = before.count '\n' + strays before := by
  rcases h with rfl | ⟨more, rfl⟩
  · simp [lines, linesFrom, strays]
  · refine ⟨?_, length_linesFrom [] more⟩
    simpa [lines] using linesFrom_append [] more rest

/-- A line feed is a boundary, whatever stands behind it. -/
theorem takeWhile_feed (line more : List Char) :
    ((line ++ '\n' :: more).takeWhile fun c => !isLineBoundary c) =
      line.takeWhile fun c => !isLineBoundary c := by
  induction line with
  | nil => rfl
  | cons c line ih => simp only [List.cons_append, List.takeWhile_cons, ih]

/-- A line without stray boundaries has at most a carriage return at its end. -/
theorem takeWhile_of_strays (hstrays : strays line = 0) (hfeed : '\n' ∉ line) :
    (line.takeWhile fun c => !isLineBoundary c) = withoutReturn line := by
  fun_induction strays line with
  | case1 => rfl
  | case2 => rfl
  | case3 rest ih => simp at hfeed
  | case4 c rest hlast hreturn ih =>
    rw [List.mem_cons, not_or] at hfeed
    obtain ⟨hc, hrest⟩ := hfeed
    have hplain : isLineBoundary c = false := by
      by_contra hboundary
      simp [hboundary, Ne.symm hc] at hstrays
    rw [List.takeWhile_cons_of_pos (by simp [hplain]), ih (by omega) hrest]
    rcases rest with _ | ⟨d, rest⟩
    · have hc' : c ≠ '\r' := fun h => hlast h rfl
      simp [withoutReturn, hc']
    · simp only [withoutReturn, List.getLast?_cons_cons]
      split <;> simp

namespace LineAround

variable (h : LineAround cs place before line)

include h

/-- The line with a given number, counted in line feeds, is the right one as long as there are no
    stray boundaries before it. -/
theorem getElem?_lines (hbefore : strays before = 0) {shown : List Char}
    (hshown : (lines cs)[before.count '\n']? = some shown) :
    shown = line.takeWhile fun c => !isLineBoundary c := by
  obtain ⟨after, rfl, hafter⟩ := h.parts
  obtain ⟨hlines, hlength⟩ := lines_append (line ++ after) h.start
  rw [hlines, List.getElem?_append_right (by omega), hlength, hbefore, Nat.add_zero, Nat.sub_self,
    ← List.head?_eq_getElem?, lines, head?_linesFrom] at hshown
  split at hshown
  · cases hshown
  · obtain rfl := Option.some.inj hshown
    rw [List.reverse_nil, List.nil_append]
    rcases hafter with rfl | ⟨more, rfl⟩
    · rw [List.append_nil]
    · exact takeWhile_feed line more

/-- Behind stray boundaries it is a part of an earlier line. -/
theorem getElem?_lines_of_strays (hbefore : strays before ≠ 0) {shown : List Char}
    (hshown : (lines cs)[before.count '\n']? = some shown) : shown ∈ lines before := by
  obtain ⟨after, rfl, -⟩ := h.parts
  obtain ⟨hlines, hlength⟩ := lines_append (line ++ after) h.start
  rw [hlines, List.getElem?_append_left (by omega)] at hshown
  exact List.mem_of_getElem? hshown

/-- A character that is no end of a line stands in the line around it. -/
theorem getElem?_withoutReturn {c : Char} (hc : cs[place]? = some c) (hfeed : c ≠ '\n')
    (hreturn : c ≠ '\r') : (withoutReturn line)[place - before.length]? = some c := by
  obtain ⟨after, rfl, hafter⟩ := h.parts
  rw [List.getElem?_append_right h.first] at hc
  have hget : (line)[place - before.length]? = some c := by
    rcases Nat.lt_or_ge (place - before.length) line.length with hlt | hge
    · rwa [List.getElem?_append_left hlt] at hc
    · -- behind the line there is at most a line feed
      have hlast := h.last
      have hnext : place - before.length - line.length = 0 := by omega
      rw [List.getElem?_append_right hge, hnext] at hc
      rcases hafter with rfl | ⟨more, rfl⟩ <;> cases hc
      exact absurd rfl hfeed
  unfold withoutReturn
  split
  · rename_i hend
    rw [List.getLast?_eq_getElem?] at hend
    have hlt := (List.getElem?_eq_some_iff.mp hget).1
    have hne : place - before.length ≠ line.length - 1 := by
      intro heq
      rw [heq, hend] at hget
      exact hreturn (Option.some.inj hget).symm
    rw [List.dropLast_eq_take, List.getElem?_take_of_lt (by omega), hget]
  · exact hget

end LineAround

end Text

/-- A location of a source is in the line that its number and its column are counted in. -/
theorem Location.In.lineAround {l : Location} {source : List Char} {file : Option String}
    (h : l.In source file) : ∃ before line, Text.LineAround source l.offset before line ∧
      l.line = 1 + before.count '\n' ∧ l.column = l.offset - before.length + 1 := by
  obtain ⟨first, hfirst, hstart, hplain, hcolumn⟩ := h.column
  have hoffset := h.offset
  have hlength : (source.take first).length = first := by
    rw [List.length_take]
    omega
  -- the characters between the start of the line and the location belong to the line
  obtain ⟨n, hn⟩ : ∃ n, l.offset = first + n := ⟨l.offset - first, by omega⟩
  have hpart : ∀ c ∈ (source.drop first).take n, c ≠ '\n' := by
    intro c hc
    obtain ⟨i, hi, rfl⟩ := List.mem_take_iff_getElem.mp hc
    rw [List.length_drop] at hi
    have hget := hplain (first + i) (by omega) (by omega)
    rw [List.getElem_drop]
    intro hfeed
    exact hget (by rw [List.getElem?_eq_getElem (by omega), hfeed])
  have hline : (source.drop first).takeWhile (· ≠ '\n') =
      (source.drop first).take n ++ ((source.drop first).drop n).takeWhile (· ≠ '\n') := by
    conv_lhs => rw [← List.take_append_drop n (source.drop first)]
    exact List.takeWhile_append_of_pos fun c hc => by simpa using hpart c hc
  refine ⟨source.take first, (source.drop first).takeWhile (· ≠ '\n'), ⟨?_, ?_, ?_, ?_, ?_⟩, ?_, ?_⟩
  · refine ⟨(source.drop first).dropWhile (· ≠ '\n'), ?_, ?_⟩
    · rw [List.takeWhile_append_dropWhile, List.take_append_drop]
    · have hstop := List.head?_dropWhile_not (· ≠ '\n') (source.drop first)
      cases hafter : (source.drop first).dropWhile (· ≠ '\n') with
      | nil => exact .inl rfl
      | cons c more =>
        rw [hafter] at hstop
        exact .inr ⟨more, by simpa using hstop⟩
  · cases first with
    | zero => exact .inl rfl
    | succ first =>
      refine .inr ⟨source.take first, ?_⟩
      have hfeed := hstart.resolve_left (Nat.succ_ne_zero first)
      rw [Nat.add_sub_cancel] at hfeed
      rw [List.take_add_one, hfeed]
      rfl
  · intro hmem
    simpa using List.mem_takeWhile_imp hmem
  · rw [hlength]
    exact hfirst
  · rw [hlength, hline, List.length_append, List.length_take, List.length_drop]
    omega
  · have hnone : ((source.drop first).take n).count '\n' = 0 :=
      List.count_eq_zero.mpr fun hmem => hpart _ hmem rfl
    rw [h.line, hn, List.take_add, List.count_append, hnone, Nat.add_zero]
  · rw [hlength, hcolumn]

/-- What is shown for a location of a source: a part of an earlier line if there is a stray boundary
    in one of them, and else the line that the location is in up to the first boundary. -/
theorem sourceLine?_line {source : String} {file : Option String} {l : Location} {shown : String}
    (h : l.In source.toList file) (hshown : sourceLine? source l.line = some shown) :
    ∃ before line, Text.LineAround source.toList l.offset before line ∧
      l.column = l.offset - before.length + 1 ∧
      (Text.strays before = 0 →
        shown.toList = line.takeWhile fun c => !Text.isLineBoundary c) ∧
      (Text.strays before ≠ 0 → shown.toList ∈ Text.lines before) := by
  obtain ⟨before, line, haround, hline, hcolumn⟩ := h.lineAround
  rw [hline, Nat.add_comm, sourceLine?] at hshown
  obtain ⟨shown, hget, rfl⟩ := Option.map_eq_some_iff.mp hshown
  rw [String.toList_ofList]
  exact ⟨before, line, haround, hcolumn, fun hbefore => haround.getElem?_lines hbefore hget,
    fun hbefore => haround.getElem?_lines_of_strays hbefore hget⟩

/-! ## Diagnostics -/

theorem toList_pushn (s : String) (c : Char) (n : Nat) :
    (s.pushn c n).toList = s.toList ++ List.replicate n c := by
  induction n with
  | zero => simp [String.pushn, Nat.repeat]
  | succ n ih =>
    rw [String.pushn, Nat.repeat, String.toList_push, ← String.pushn, ih, List.append_assoc,
      List.replicate_succ']

/-- The first caret that is shown with a diagnostic stands below a character of the excerpt. -/
def Diagnostic.PointsAt (d : Diagnostic) (c : Char) : Prop :=
  ∃ row marks, d.excerptLines = ["  |", row, marks] ∧
    row.toList[marks.toList.idxOf '^']? = some c

/-- The first caret comes behind the margin and the blanks. -/
theorem idxOf_caret (margin : String) (hmargin : '^' ∉ margin.toList) (blanks n : Nat) :
    (margin ++ "".pushn ' ' blanks ++ "".pushn '^' (n + 1)).toList.idxOf '^' =
      margin.length + blanks := by
  have hblank : '^' ∉ List.replicate blanks ' ' := fun h => by
    simpa using List.eq_of_mem_replicate h
  simp only [String.toList_append, toList_pushn, String.toList_empty, List.nil_append,
    List.append_assoc]
  rw [List.idxOf_append_of_notMem hmargin, List.idxOf_append_of_notMem hblank,
    List.replicate_succ, List.idxOf_cons_self, List.length_replicate, String.length_toList]
  rfl

/-- Line numbers with at most three digits stand in as much space as there is before the carets, so
    that the first of these stands below the column of the span. -/
theorem Diagnostic.pointsAt_of_column {d : Diagnostic} {span : Span} {shown : String} {c : Char}
    (hspan : d.span = some span) (hshown : d.excerpt = some shown)
    (hnumber : span.start.line < 1000) (hc : shown.toList[span.start.column - 1]? = some c) :
    d.PointsAt c := by
  have hdigits : (toString span.start.line).length ≤ 3 :=
    (Nat.length_repr_le_iff (by omega)).mpr hnumber
  generalize hnumbered : toString span.start.line = number at hdigits
  obtain ⟨n, hn⟩ : ∃ n, caretCount span shown = n + 1 := by
    have hpos : 1 ≤ caretCount span shown := Nat.le_max_left ..
    exact ⟨caretCount span shown - 1, by omega⟩
  have hlines : d.excerptLines =
      ["  |", "".pushn ' ' (3 - number.length) ++ number ++ " | " ++ shown,
        "    | " ++ "".pushn ' ' (span.start.column - 1) ++ "".pushn '^' (n + 1)] := by
    simp only [excerptLines, hspan, hshown, hnumbered, hn, String.append_assoc]
    rfl
  refine ⟨_, _, hlines, ?_⟩
  have hgutter : ("".pushn ' ' (3 - number.length) ++ number ++ " | ").toList.length = 6 := by
    simp only [String.toList_append, toList_pushn, List.length_append, List.length_replicate,
      String.length_toList]
    have : " | ".length = 3 := rfl
    have : "".length = 0 := rfl
    omega
  have hmargin : "    | ".length = 6 := rfl
  rw [idxOf_caret _ (by decide), hmargin, String.toList_append,
    List.getElem?_append_right (by omega), hgutter, Nat.add_sub_cancel_left, hc]

theorem Token.excerpt_of_scan {source : String} {file : Option String} {d : Diagnostic}
    (h : Token.scan source file = .error d) :
    d.excerpt = d.span.bind fun s => sourceLine? source s.start.line := by
  unfold Token.scan at h
  split at h
  · cases h
  · cases h
    rfl

/-- A problem of a source that does not compile is at a location of the source, and what is shown
    with it is the line with the number of that location. -/
theorem Program.compile_error {source : String} {file : Option String} {d : Diagnostic}
    {shown : String} (h : Program.compile source file = .error d)
    (hshown : d.excerpt = some shown) : ∃ span, d.span = some span ∧
      span.start.In source.toList (some (sourceName file)) ∧
        sourceLine? source span.start.line = some shown := by
  change Token.scan source (some (sourceName file)) >>= _ = _ at h
  cases hscan : Token.scan source (some (sourceName file)) with
  | error d' =>
    rw [hscan] at h
    cases h
    obtain ⟨span, hspan, hstart, -⟩ := Token.span_of_scan hscan
    refine ⟨span, hspan, hstart, ?_⟩
    rw [Token.excerpt_of_scan hscan, hspan] at hshown
    exact hshown
  | ok tokens =>
    rw [hscan] at h
    change (Program.ofTokens tokens).mapError (quoting source) = .error d at h
    rw [Program.ofTokens] at h
    cases hread : Program.read tokens with
    | ok result =>
      rw [hread] at h
      cases h
    | error d' =>
      rw [hread] at h
      cases h
      obtain ⟨body, last, hbody, hlast, -⟩ := (tokens_laidOut hscan).eq_append
      obtain ⟨-, hnone, t, ht, stop, hspan⟩ :=
        Program.atToken_of_read ⟨body, last, hbody, hlast⟩ hread
      have hstart := ((Token.faithful_of_scan hscan).standing t ht).start
      -- an end of the file is shown without a line
      unfold quoting at hshown ⊢
      split at hshown
      · rw [hnone] at hshown
        cases hshown
      · refine ⟨_, hspan, hstart, ?_⟩
        rw [Diagnostic.quoting, hspan] at hshown
        exact hshown

/-- What a diagnostic shows of a source, where `line` is the line that its span starts in, and
    `before` what stands before that. -/
structure Diagnostic.Quotes (d : Diagnostic) (source : List Char) (shown : String) (span : Span)
    (before line : List Char) : Prop where
  here : d.span = some span
  around : Text.LineAround source span.start.offset before line
  /-- Without stray boundaries up to the end of the line it shows the line. -/
  right : Text.strays before = 0 → Text.strays line = 0 →
    shown = String.ofList (Text.withoutReturn line)
  /-- The first caret then points at the character where the span starts, as far as line numbers
      have three digits. -/
  points : Text.strays before = 0 → Text.strays line = 0 → span.start.line < 1000 →
    ∀ c ∈ source[span.start.offset]?, c ≠ '\n' → c ≠ '\r' → d.PointsAt c
  /-- A stray boundary in the line cuts it off. -/
  cut : Text.strays before = 0 → shown.toList = line.takeWhile fun c => !Text.isLineBoundary c
  /-- Behind a stray boundary in an earlier line it shows a part of an earlier line. -/
  earlier : Text.strays before ≠ 0 → shown.toList ∈ Text.lines before

/-- A diagnostic of a source that does not compile shows the line of the problem, as long as there
    are no stray boundaries up to the end of that line. -/
theorem Program.compile_quotes {source : String} {file : Option String} {d : Diagnostic}
    {shown : String} (h : Program.compile source file = .error d)
    (hshown : d.excerpt = some shown) :
    ∃ span before line, d.Quotes source.toList shown span before line := by
  obtain ⟨span, hspan, hstart, hline⟩ := Program.compile_error h hshown
  obtain ⟨before, line, haround, hcolumn, hcut, hearlier⟩ := sourceLine?_line hstart hline
  have hwhole (hbefore : Text.strays before = 0) (hplain : Text.strays line = 0) :
      shown.toList = Text.withoutReturn line := by
    rw [hcut hbefore, Text.takeWhile_of_strays hplain haround.oneLine]
  refine ⟨span, before, line, hspan, haround, fun hbefore hplain => ?_, ?_, hcut, hearlier⟩
  · rw [← hwhole hbefore hplain, String.ofList_toList]
  · intro hbefore hplain hnumber c hc hfeed hreturn
    refine Diagnostic.pointsAt_of_column hspan hshown hnumber ?_
    rw [hwhole hbefore hplain, hcolumn, Nat.add_sub_cancel]
    exact haround.getElem?_withoutReturn hc hfeed hreturn

/-- A form feed in a comment: the problem is in the second line, and the rest of the first one is
    shown. -/
theorem Program.compile_quotes_formFeed :
    ∃ d, Program.compile "# a\x0cb\nlet 1\n" none = .error d ∧ d.excerpt = some "b" ∧
      ∃ span before line, d.Quotes "# a\x0cb\nlet 1\n".toList "b" span before line := by
  have hchecks : (match Program.compile "# a\x0cb\nlet 1\n" none with
      | .error d => d.excerpt == some "b"
      | .ok _ => false) = true := by decide +kernel
  cases hcompile : Program.compile "# a\x0cb\nlet 1\n" none with
  | ok program => simp [hcompile] at hchecks
  | error d =>
    simp only [hcompile, beq_iff_eq] at hchecks
    exact ⟨d, rfl, hchecks, Program.compile_quotes hcompile hchecks⟩

end EventScript
