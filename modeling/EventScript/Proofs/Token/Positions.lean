import EventScript.Proofs.Token.Lexeme
import EventScript.Proofs.Token.Scanned

/-! # Positions in the source

Every character that the scanner passes ends up in one place: in the span of the token that it is
written in, among the blanks and line feeds between tokens, or in a comment.  The locations that
spans are made of are counted while the characters are passed; `Location.In` says what they count,
and `scan_positions` that the spans of all tokens, and of the diagnostic where there is one, are
made of such locations.

* `Location.In`          what line, column and offset of a location say
* `FaithfulTokens`       the tokens of a source stand where their spans say, and nothing is lost
* `Scanner.Traced`       what holds all through the scan
* `scan_positions`       spans are right about every source
-/

namespace EventScript

variable {source : List Char} {file : Option String}

/-! ## Locations -/

/-- A location belongs to a place of a source: the line is the number of line feeds before it,
    counted from one, and the column is the distance from the start of that line, from one as
    well. -/
structure Location.In (l : Location) (source : List Char) (file : Option String) : Prop where
  offset : l.offset ≤ source.length
  line : l.line = 1 + (source.take l.offset).count '\n'
  column : ∃ first ≤ l.offset, (first = 0 ∨ source[first - 1]? = some '\n') ∧
    (∀ i, first ≤ i → i < l.offset → source[i]? ≠ some '\n') ∧ l.column = l.offset - first + 1
  file : l.file = file

namespace Location

theorem offset_start_after (file : Option String) (cs : List Char) :
    ((start file).after cs).offset = cs.length := by
  simp [start]

theorem file_after (l : Location) (cs : List Char) : (l.after cs).file = l.file := by
  induction cs generalizing l with
  | nil => rfl
  | cons c cs ih =>
    refine (ih (l.next c)).trans ?_
    unfold next
    split <;> rfl

theorem line_after (l : Location) (cs : List Char) :
    (l.after cs).line = l.line + cs.count '\n' := by
  induction cs generalizing l with
  | nil => rfl
  | cons c cs ih =>
    refine (ih (l.next c)).trans ?_
    rw [List.count_cons, next]
    split
    · simp_all
      omega
    · simp_all

/-- The column is counted from the last line feed that was passed. -/
theorem column_start_after (file : Option String) (passed rest : List Char) :
    ∃ first ≤ passed.length, (first = 0 ∨ (passed ++ rest)[first - 1]? = some '\n') ∧
      (∀ i, first ≤ i → i < passed.length → (passed ++ rest)[i]? ≠ some '\n') ∧
        ((start file).after passed).column = passed.length - first + 1 := by
  induction passed using List.reverseRecOn generalizing rest with
  | nil => exact ⟨0, Nat.le_refl _, .inl rfl, fun i _ hi => absurd hi (Nat.not_lt_zero i), rfl⟩
  | append_singleton before c ih =>
    have hc : (before ++ [c] ++ rest)[before.length]? = some c := by simp
    have hcolumn : ((start file).after (before ++ [c])).column =
        if c = '\n' then 1 else ((start file).after before).column + 1 := by
      rw [after_append]
      simp only [after, List.foldl_cons, List.foldl_nil, next, beq_iff_eq]
      split <;> rfl
    rw [hcolumn, List.length_append, List.length_singleton]
    by_cases hfeed : c = '\n'
    · refine ⟨before.length + 1, Nat.le_refl _, .inr (hfeed ▸ hc), fun i hi hi' => by omega, ?_⟩
      rw [if_pos hfeed, Nat.sub_self]
    · obtain ⟨first, hle, hstart, hline, hcounted⟩ := ih (c :: rest)
      rw [List.append_cons before c rest] at hstart hline
      refine ⟨first, by omega, hstart, fun i hi hi' => ?_, ?_⟩
      · rcases Nat.lt_succ_iff_lt_or_eq.mp hi' with hbefore | rfl
        · exact hline i hi hbefore
        · rw [hc]
          exact fun h => hfeed (Option.some.inj h)
      · rw [if_neg hfeed, hcounted]
        omega

/-- The location behind the first characters of a source belongs to that place. -/
theorem in_start_after {passed rest : List Char} (hsplit : source = passed ++ rest) :
    ((start file).after passed).In source file where
  offset := by
    rw [offset_start_after, hsplit, List.length_append]
    exact Nat.le_add_right ..
  line := by rw [line_after, offset_start_after, hsplit, List.take_left, start]
  column := by
    rw [offset_start_after, hsplit]
    exact column_start_after file passed rest
  file := file_after _ _

end Location

/-! ## Tokens -/

/-- A token stands in a source where its span says, which starts at no blank: what is written there
    is its lexeme, unless it ends a line, and a token of layout is written by nothing. -/
structure Token.StandsIn (t : Token) (source : List Char) (file : Option String) : Prop where
  start : t.span.start.In source file
  stop : t.span.stop.In source file
  forward : t.span.start.offset ≤ t.span.stop.offset
  visible : ∀ c ∈ source[t.span.start.offset]?, c ≠ ' ' ∧ c ≠ '\t'
  lexeme : t.kind ≠ .newline →
    t.lexeme = String.ofList (source.extract t.span.start.offset t.span.stop.offset)
  layout : t.kind = .indent ∨ t.kind = .dedent ∨ t.kind = .endOfFile → t.lexeme = ""

/-- A character belongs to a token. -/
def Token.Covers (t : Token) (i : Nat) : Prop := t.span.start.offset ≤ i ∧ i < t.span.stop.offset

/-- A comment: a hash, no digit in base sixteen behind it, and everything up to the end of the
    line. -/
structure CommentAt (source : List Char) (first last : Nat) : Prop where
  hash : source[first]? = some '#'
  colorless : ∀ c ∈ source[first + 1]?, Lexeme.isHexDigit c = false
  oneLine : ∀ i, first ≤ i → i < last → source[i]? ≠ some '\n'
  ended : last = source.length ∨ source[last]? = some '\n'

/-- One of the first `n` characters is a blank or a line feed, or in a comment between the tokens. -/
def PassedOver (source : List Char) (tokens : List Token) (n i : Nat) : Prop :=
  (∃ c, source[i]? = some c ∧ (c = ' ' ∨ c = '\t' ∨ c = '\r' ∨ c = '\n')) ∨
    ∃ first last, first ≤ i ∧ i < last ∧ last ≤ n ∧ CommentAt source first last ∧
      ∀ t ∈ tokens, t.span.stop.offset ≤ first ∨ last ≤ t.span.start.offset

/-- Each of the first `n` characters is written in a token, or passed over. -/
def Accounted (source : List Char) (tokens : List Token) (n : Nat) : Prop :=
  ∀ i < n, (∃ t ∈ tokens, t.Covers i) ∨ PassedOver source tokens n i

/-- The tokens of a source stand where their spans say, in the order of the source and without
    overlap, and no character is lost. -/
structure FaithfulTokens (source : List Char) (file : Option String) (tokens : List Token) :
    Prop where
  standing : ∀ t ∈ tokens, t.StandsIn source file
  ordered : tokens.Pairwise fun earlier later => earlier.span.stop.offset ≤ later.span.start.offset
  kept : Accounted source tokens source.length

namespace Accounted

variable {tokens : List Token} {n m : Nat}

theorem mono (h : Accounted source tokens n) (hn : n ≤ m)
    (hmore : ∀ i, n ≤ i → i < m → (∃ t ∈ tokens, t.Covers i) ∨ PassedOver source tokens m i) :
    Accounted source tokens m := by
  intro i hi
  by_cases hold : i < n
  · refine (h i hold).imp_right (.imp_right ?_)
    rintro ⟨first, last, hfirst, hlast, hle, hcomment⟩
    exact ⟨first, last, hfirst, hlast, Nat.le_trans hle hn, hcomment⟩
  · exact hmore i (Nat.le_of_not_lt hold) hi

/-- A token further on takes no character from a comment. -/
theorem push (h : Accounted source tokens n) {t : Token} (ht : n ≤ t.span.start.offset) :
    Accounted source (t :: tokens) n := by
  intro i hi
  refine (h i hi).imp ?_ (.imp_right ?_)
  · rintro ⟨u, hu, hcovers⟩
    exact ⟨u, List.mem_cons_of_mem _ hu, hcovers⟩
  · rintro ⟨first, last, hfirst, hlast, hle, hcomment, hbetween⟩
    exact ⟨first, last, hfirst, hlast, hle, hcomment,
      List.forall_mem_cons.mpr ⟨.inr (Nat.le_trans hle ht), hbetween⟩⟩

theorem reverse (h : Accounted source tokens n) : Accounted source tokens.reverse n := by
  intro i hi
  refine (h i hi).imp ?_ (.imp_right ?_)
  · rintro ⟨t, ht, hcovers⟩
    exact ⟨t, List.mem_reverse.mpr ht, hcovers⟩
  · rintro ⟨first, last, hfirst, hlast, hle, hcomment, hbetween⟩
    exact ⟨first, last, hfirst, hlast, hle, hcomment,
      fun t ht => hbetween t (List.mem_reverse.mp ht)⟩

end Accounted

/-! ## The scan -/

namespace Scanner

/-- The scanner has passed the first characters of a source, and the tokens found so far account for
    them. -/
structure Traced (source : List Char) (file : Option String) (passed : List Char) (s : Scanner) :
    Prop where
  split : source = passed ++ s.rest
  here : s.here = (Location.start file).after passed
  standing : ∀ t ∈ s.tokens, t.StandsIn source file
  bounded : ∀ t ∈ s.tokens, t.span.stop.offset ≤ passed.length
  ordered : s.tokens.Pairwise fun later earlier =>
    earlier.span.stop.offset ≤ later.span.start.offset
  kept : Accounted source s.tokens passed.length

namespace Traced

variable {passed cs rest : List Char} {s t : Scanner}

/-- The open blocks, and whether a line starts, do not matter. -/
theorem congr (hs : Traced source file passed s) (hrest : t.rest = s.rest) (hhere : t.here = s.here)
    (htokens : t.tokens = s.tokens) : Traced source file passed t where
  split := hrest ▸ hs.split
  here := hhere.trans hs.here
  standing := htokens ▸ hs.standing
  bounded := htokens ▸ hs.bounded
  ordered := htokens ▸ hs.ordered
  kept := htokens ▸ hs.kept

theorem getElem?_source (hs : Traced source file passed s) (hrest : s.rest = cs ++ rest) (i : Nat)
    (hi : i < cs.length) : source[passed.length + i]? = cs[i]? := by
  rw [hs.split, hrest, List.getElem?_append_right (Nat.le_add_right ..), Nat.add_sub_cancel_left,
    List.getElem?_append_left hi]

/-- Passing over characters that belong to no token. -/
theorem pass (hs : Traced source file passed s) (hrest : s.rest = cs ++ rest)
    (hover : ∀ i < cs.length,
      PassedOver source s.tokens (passed.length + cs.length) (passed.length + i)) :
    Traced source file (passed ++ cs) (s.advance cs.length) where
  split := by rw [hs.split, rest_advance, hrest, List.drop_left, List.append_assoc]
  here := by rw [Location.after_append, ← hs.here, advance, hrest, List.take_left]
  standing := hs.standing
  bounded := fun t ht => by
    have := hs.bounded t ht
    rw [List.length_append]
    omega
  ordered := hs.ordered
  kept := by
    rw [List.length_append]
    refine hs.kept.mono (Nat.le_add_right ..) fun i hi hlt => .inr ?_
    obtain ⟨k, rfl⟩ := Nat.exists_eq_add_of_le hi
    exact hover k (by omega)

/-- Passing over blanks and line feeds. -/
theorem skip (hs : Traced source file passed s) (cs : List Char) (hrest : s.rest = cs ++ rest)
    (hblank : ∀ c ∈ cs, c = ' ' ∨ c = '\t' ∨ c = '\r' ∨ c = '\n') :
    Traced source file (passed ++ cs) (s.advance cs.length) :=
  hs.pass hrest fun i hi =>
    .inl ⟨cs[i], (hs.getElem?_source hrest i hi).trans (List.getElem?_eq_getElem hi),
      hblank _ (List.getElem_mem hi)⟩

/-- Passing the characters of a token. -/
theorem cover (hs : Traced source file passed s) (cs : List Char) (hrest : s.rest = cs ++ rest)
    (hvisible : ∀ c ∈ s.rest.head?, isIndent c = false) {k : TokenKind} (v : Literal)
    {lexeme : String} (hlexeme : k ≠ .newline → lexeme = String.ofList cs)
    (hlayout : k = .indent ∨ k = .dedent ∨ k = .endOfFile → cs = []) :
    Traced source file (passed ++ cs) ((s.advance cs.length).push k v lexeme s.here) := by
  have hsplit : source = (passed ++ cs) ++ rest := by rw [hs.split, hrest, List.append_assoc]
  have hhere : (s.advance cs.length).here = (Location.start file).after (passed ++ cs) := by
    rw [Location.after_append, ← hs.here, advance, hrest, List.take_left]
  have hstart : s.here.offset = passed.length := by
    rw [hs.here, Location.offset_start_after]
  have hstop : (s.advance cs.length).here.offset = passed.length + cs.length := by
    rw [hhere, Location.offset_start_after, List.length_append]
  have hstands : Token.StandsIn ⟨k, v, lexeme, ⟨s.here, (s.advance cs.length).here⟩⟩ source file :=
    { start := hs.here ▸ Location.in_start_after hs.split
      stop := hhere ▸ Location.in_start_after hsplit
      forward := by simp only [hstart, hstop]; omega
      visible := fun c hc => by
        rw [hstart, hs.split, List.getElem?_append_right (Nat.le_refl _), Nat.sub_self,
          ← List.head?_eq_getElem?] at hc
        simpa [isIndent] using hvisible c hc
      lexeme := fun hk => by
        rw [hlexeme hk, hstart, hstop, hs.split, hrest, List.extract_eq_take_drop,
          List.drop_left, Nat.add_sub_cancel_left, List.take_left]
      layout := fun hk => by
        have hk' : k ≠ .newline := by rcases hk with rfl | rfl | rfl <;> decide
        rw [hlexeme hk', hlayout hk] }
  refine ⟨by rw [rest_push, rest_advance, hrest, List.drop_left, hsplit], hhere, ?_, ?_, ?_, ?_⟩
  · exact List.forall_mem_cons.mpr ⟨hstands, hs.standing⟩
  · rw [List.length_append]
    refine List.forall_mem_cons.mpr ⟨Nat.le_of_eq hstop, fun t ht => ?_⟩
    have := hs.bounded t ht
    omega
  · refine List.pairwise_cons.mpr ⟨fun t ht => ?_, hs.ordered⟩
    rw [hstart]
    exact hs.bounded t ht
  · rw [List.length_append]
    refine (hs.kept.push (Nat.le_of_eq hstart.symm)).mono (Nat.le_add_right ..) fun i hi hlt => ?_
    exact .inl ⟨_, List.mem_cons_self, by rw [hstart]; exact hi, by rw [hstop]; exact hlt⟩

theorem pushLayouts (hs : Traced source file passed s)
    (hvisible : ∀ c ∈ s.rest.head?, isIndent c = false) (k : TokenKind) (n : Nat) :
    Traced source file passed (s.pushLayouts k n) := by
  induction n generalizing s with
  | zero => exact hs
  | succ n ih =>
    have hpushed := hs.cover [] rfl hvisible (k := k) .null (fun _ => rfl) fun _ => rfl
    rw [List.append_nil] at hpushed
    exact ih hpushed hvisible

theorem indentTo (hs : Traced source file passed s)
    (hvisible : ∀ c ∈ s.rest.head?, isIndent c = false) (width : Nat) :
    Traced source file passed (s.indentTo width) := by
  unfold Scanner.indentTo
  split
  · exact (hs.congr (t := { s with levels := width :: s.levels }) rfl rfl rfl).pushLayouts
      hvisible .indent 1
  · exact (hs.congr (t := { s with levels := s.levels.dropWhile (· > width) }) rfl rfl
      rfl).pushLayouts hvisible .dedent _

/-- Passing over a run of blanks. -/
theorem skipWhile (hs : Traced source file passed s) {p : Char → Bool}
    (hp : ∀ c, p c = true → isGap c = true) :
    Traced source file (passed ++ s.rest.takeWhile p) (s.advance (s.rest.takeWhile p).length) := by
  refine hs.skip _ List.takeWhile_append_dropWhile.symm fun c hc => ?_
  have hgap := hp c (List.mem_takeWhile_imp hc)
  simp only [isGap, isIndent, Bool.or_eq_true, beq_iff_eq] at hgap
  rcases hgap with (rfl | rfl) | rfl <;> simp

theorem layout (hs : Traced source file passed s) :
    ∃ passed', Traced source file passed' s.layout := by
  unfold Scanner.layout
  split
  · have hmoved := (hs.skipWhile (p := isIndent) fun c hc => by simp [isGap, hc]).congr
      (t := { s.advance (s.rest.takeWhile isIndent).length with atLineStart := false }) rfl rfl rfl
    dsimp only
    split
    · exact ⟨_, hmoved⟩
    · refine ⟨_, hmoved.indentTo (fun c hc => ?_) _⟩
      change c ∈ (s.rest.drop (s.rest.takeWhile isIndent).length).head? at hc
      rw [drop_length_takeWhile] at hc
      exact head?_dropWhile_eq_false _ hc
  · exact ⟨passed, hs⟩

theorem skipGap (hs : Traced source file passed s) :
    ∃ passed', Traced source file passed' s.skipGap :=
  ⟨_, hs.skipWhile fun _ hc => hc⟩

theorem lineFeed (hs : Traced source file passed s) (hrest : s.rest = '\n' :: rest) :
    Traced source file (passed ++ ['\n']) s.lineFeed := by
  have hskipped : Traced source file (passed ++ ['\n']) { s.advance 1 with atLineStart := true } :=
    (hs.skip ['\n'] hrest (by simp)).congr rfl rfl rfl
  have hcovered : Traced source file (passed ++ ['\n'])
      ({ s.advance 1 with atLineStart := true }.push .newline .null "\\n" s.here) :=
    (hs.cover ['\n'] hrest (by simp [hrest]; decide) (k := .newline) .null (by simp)
      (by simp)).congr rfl rfl rfl
  unfold Scanner.lineFeed
  dsimp only
  split
  · exact hskipped
  · exact hskipped
  · exact hskipped
  · exact hskipped
  · exact hcovered

theorem skipComment (hs : Traced source file passed s) (hrest : s.rest = '#' :: rest)
    (hcolor : Lexeme.startsColor s.rest = false) :
    Traced source file (passed ++ s.rest.takeWhile (· != '\n')) s.skipComment := by
  have hlength : (s.rest.takeWhile (· != '\n')).length =
      (rest.takeWhile (· != '\n')).length + 1 := by
    simp [hrest]
  have hsplit : s.rest = s.rest.takeWhile (· != '\n') ++ s.rest.dropWhile (· != '\n') :=
    List.takeWhile_append_dropWhile.symm
  have hbehind : ∀ i, source[passed.length + i]? = s.rest[i]? := fun i => by
    rw [hs.split, List.getElem?_append_right (Nat.le_add_right ..), Nat.add_sub_cancel_left]
  refine hs.pass hsplit fun i hi => .inr ⟨passed.length,
    passed.length + (s.rest.takeWhile (· != '\n')).length, Nat.le_add_right .., by omega,
    Nat.le_refl _, ⟨?_, ?_, ?_, ?_⟩, fun t ht => .inl (hs.bounded t ht)⟩
  · rw [← Nat.add_zero passed.length, hbehind, hrest]
    rfl
  · intro c hc
    rw [hbehind, hrest] at hc
    rw [hrest] at hcolor
    cases rest with
    | nil => cases hc
    | cons d ds =>
      cases hc
      exact hcolor
  · intro j hj hlt heq
    obtain ⟨k, rfl⟩ := Nat.exists_eq_add_of_le hj
    rw [hs.getElem?_source hsplit k (by omega)] at heq
    exact absurd (List.mem_takeWhile_imp (List.mem_of_getElem? heq)) (by simp)
  · rw [hbehind]
    have hnext : s.rest[(s.rest.takeWhile (· != '\n')).length]? =
        (s.rest.dropWhile (· != '\n')).head? := by
      conv_lhs => rw [hsplit]
      rw [List.getElem?_append_right (by simp), List.head?_eq_getElem?]
      simp
    have hhead := List.head?_dropWhile_not (· != '\n') s.rest
    rw [hnext]
    cases hdrop : s.rest.dropWhile (· != '\n') with
    | nil =>
      refine .inl ?_
      conv_rhs => rw [hs.split, hsplit, hdrop]
      simp
    | cons d ds =>
      rw [hdrop] at hhead
      exact .inr (by simpa using hhead)

theorem take (hs : Traced source file passed s) {c : Char} {l : Lexeme} {afterOperand : Bool}
    (hrest : s.rest = c :: rest) (hvisible : isGap c = false)
    (hl : Lexeme.read afterOperand c rest = .ok l) :
    Traced source file (passed ++ l.chars) (s.take l) := by
  obtain ⟨more, hmore, -⟩ := Lexeme.read_eq_append hl
  have hcontent := Lexeme.isContent_read hl
  have hindent : isIndent c = false := (Bool.or_eq_false_iff.mp hvisible).1
  refine hs.cover l.chars (hrest.trans hmore) (by simpa [hrest] using hindent) l.value
    (fun _ => rfl) fun hk => ?_
  rcases hk with hk | hk | hk <;> rw [hk] at hcontent <;> cases hcontent

/-- In front of what a step reads, behind the blanks. -/
theorem atVisible (hs : Traced source file passed s) :
    ∃ passed', Traced source file passed' s.layout.skipGap :=
  hs.layout.elim fun _ hlaid => hlaid.skipGap

theorem step (hs : Traced source file passed s) (h : s.step = .ok t) :
    ∃ passed', Traced source file passed' t := by
  obtain ⟨_, hu⟩ := hs.atVisible
  have hmoves := moves_of_step h
  generalize s.layout.skipGap = u at hu hmoves
  cases hmoves with
  | ended => exact ⟨_, hu⟩
  | comment hrest hcolor => exact ⟨_, hu.skipComment hrest hcolor⟩
  | lineFeed hrest => exact ⟨_, hu.lineFeed hrest⟩
  | lexeme hrest hvisible _ hl => exact ⟨_, hu.take hrest hvisible hl⟩

/-- The span of what cannot be read. -/
theorem step_eq_error (hs : Traced source file passed s) {d : Diagnostic}
    (h : s.step = .error d) :
    ∃ span, d.span = some span ∧ span.start.In source file ∧ span.stop.In source file ∧
      span.start.offset ≤ span.stop.offset := by
  obtain ⟨passed', hu⟩ := hs.atVisible
  obtain ⟨c, rest, problem, covered, hrest, hread, rfl⟩ := Scanner.step_eq_error h
  obtain ⟨more, hmore⟩ := Lexeme.prefix_covered hread
  have hsplit : source = (passed' ++ covered) ++ more := by
    rw [hu.split, hrest, ← hmore, List.append_assoc]
  refine ⟨_, rfl, ?_, ?_, by simp⟩
  · rw [hu.here]
    exact Location.in_start_after hu.split
  · rw [hu.here, ← Location.after_append]
    exact Location.in_start_after hsplit

/-- At the end of a source its tokens account for all of it. -/
theorem faithful (hs : Traced source file passed s) (hend : s.rest = []) :
    FaithfulTokens source file s.finish := by
  have hvisible : ∀ c ∈ s.rest.head?, isIndent c = false := by simp [hend]
  have hclosed := (hs.congr (t := { s with levels := [] }) rfl rfl rfl).pushLayouts
    hvisible .dedent s.levels.length
  have hdone := hclosed.pushLayouts (by simpa using hvisible) .endOfFile 1
  have hall : source = passed := by
    rw [hs.split, hend, List.append_nil]
  refine ⟨fun t ht => hdone.standing t (List.mem_reverse.mp ht), ?_, ?_⟩
  · exact List.pairwise_reverse.mpr hdone.ordered
  · conv in source.length => rw [hall]
    exact hdone.kept.reverse

end Traced

theorem Passes.traced {s : Scanner} (hs : Passes source file s) :
    ∃ passed, Traced source file passed s := by
  induction hs with
  | start =>
    refine ⟨[], rfl, rfl, ?_, ?_, List.Pairwise.nil, fun i hi => absurd hi (Nat.not_lt_zero i)⟩
    all_goals simp [Scanner.start]
  | step _ _ taken ih => exact ih.elim fun _ hpassed => hpassed.step taken

end Scanner

/-- The tokens of a source account for all of it. -/
theorem Token.faithful_of_scan {source : String} {file : Option String} {tokens : List Token}
    (h : Token.scan source file = .ok tokens) : FaithfulTokens source.toList file tokens := by
  unfold Token.scan at h
  cases hrun : (Scanner.start source.toList file).run with
  | error d => rw [hrun] at h; cases h
  | ok s =>
    rw [hrun] at h
    cases h
    obtain ⟨hpassed, hend⟩ := (Scanner.Passes.start).run hrun
    obtain ⟨passed, htraced⟩ := hpassed.traced
    exact htraced.faithful hend

/-- What is reported of a source that cannot be scanned is at a part of it. -/
theorem Token.span_of_scan {source : String} {file : Option String} {d : Diagnostic}
    (h : Token.scan source file = .error d) :
    ∃ span, d.span = some span ∧ span.start.In source.toList file ∧
      span.stop.In source.toList file ∧ span.start.offset ≤ span.stop.offset := by
  unfold Token.scan at h
  cases hrun : (Scanner.start source.toList file).run with
  | ok s => rw [hrun] at h; cases h
  | error e =>
    rw [hrun] at h
    cases h
    obtain ⟨s, hpassed, hstep⟩ := (Scanner.Passes.start).run_eq_error hrun
    obtain ⟨passed, htraced⟩ := hpassed.traced
    obtain ⟨span, hspan, hfaithful⟩ := htraced.step_eq_error hstep
    exact ⟨span, hspan, hfaithful⟩

/-- The spans of the tokens of a source are right, and nothing of it is lost; of a source that cannot
    be scanned, the span of the diagnostic is right. -/
theorem scan_positions (source : String) (file : Option String) :
    match Token.scan source file with
    | .error d => ∃ span, d.span = some span ∧ span.start.In source.toList file ∧
        span.stop.In source.toList file ∧ span.start.offset ≤ span.stop.offset
    | .ok tokens => FaithfulTokens source.toList file tokens := by
  cases hscan : Token.scan source file with
  | error d => exact Token.span_of_scan hscan
  | ok tokens => exact Token.faithful_of_scan hscan

end EventScript
