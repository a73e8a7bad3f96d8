import EventScript.Proofs.Grammar.Indentation
import EventScript.Proofs.Token.LayoutEdit

/-! # String literals

A string is written between two quotes of one style; a backslash in it takes the character behind it
out of the syntax.  What is between the quotes of a token is therefore a `Body`: no quote of the
literal's own style stands in it but behind such a backslash.  Whether a quote is escaped can be
seen without reading the text from its start, from the run of backslashes before it (`Escaped`).

* `quotedTail_of_body`, `body_of_quotedTail`   what is read is a body and the quote behind it
* `Body.quote_escaped`, `Body.end_unescaped`   the quote behind a body is the first unescaped one
* `body_escape`                                every text can be written as a body
* `string_literals_are_read_back`              literals are read back, and nothing else is read
-/

namespace EventScript

namespace Lexeme

variable {quote : Char} {cs ds : List Char}

/-! ## What stands between the quotes -/

/-- The quotes that open a string. -/
def IsQuote (c : Char) : Prop := c = '"' ∨ c = '\''

/-- A text between two quotes, with what it stands for. -/
inductive Body (quote : Char) : List Char → List Char → Prop
  | nil : Body quote [] []
  | escaped (c : Char) {cs ds : List Char} (behind : Body quote cs ds) :
      Body quote ('\\' :: c :: cs) (unescape c :: ds)
  | plain {c : Char} {cs ds : List Char} (notBackslash : c ≠ '\\') (notQuote : c ≠ quote)
      (notFeed : c ≠ '\n') (behind : Body quote cs ds) : Body quote (c :: cs) (c :: ds)

theorem IsQuote.ne_backslash (h : IsQuote quote) : quote ≠ '\\' := by
  rcases h with rfl | rfl <;> decide

/-- A body is read up to the quote behind it. -/
theorem quotedTail_of_body (hquote : quote ≠ '\\') (h : Body quote cs ds) (rest : List Char) :
    quotedTail quote (cs ++ quote :: rest) = ⟨cs ++ [quote], ds, true⟩ := by
  induction h with
  | nil =>
    show quotedTail quote (quote :: rest) = ⟨[quote], [], true⟩
    rw [quotedTail_cons quote hquote, if_pos (beq_self_eq_true quote)]
  | escaped c behind ih =>
    show (quotedTail quote (_ ++ quote :: rest)).cons ['\\', c] (unescape c) = _
    rw [ih]
    rfl
  | @plain c cs ds notBackslash notQuote notFeed behind ih =>
    show quotedTail quote (c :: (cs ++ quote :: rest)) = _
    rw [quotedTail_cons quote notBackslash, if_neg (by simpa using notQuote),
      if_neg (by simpa using notFeed), ih]
    rfl

/-- What is read of a string that is closed is a body and the quote behind it. -/
theorem body_of_quotedTail (h : (quotedTail quote cs).closed = true) :
    ∃ body, (quotedTail quote cs).written = body ++ [quote] ∧
      Body quote body (quotedTail quote cs).decoded := by
  induction cs using quotedTail.induct quote with
  | case1 => simp [quotedTail] at h
  | case2 => simp [quotedTail] at h
  | case3 c rest ih =>
    obtain ⟨body, hwritten, hbody⟩ := ih h
    refine ⟨'\\' :: c :: body, ?_, .escaped c hbody⟩
    show ['\\', c] ++ (quotedTail quote rest).written = _
    rw [hwritten]
    rfl
  | case4 c rest hlast hmore hquote =>
    rw [quotedTail_cons quote (ne_backslash hlast hmore), if_pos hquote]
    exact ⟨[], by rw [beq_iff_eq.mp hquote]; rfl, .nil⟩
  | case5 c rest hlast hmore hquote hfeed =>
    rw [quotedTail_cons quote (ne_backslash hlast hmore), if_neg hquote, if_pos hfeed] at h
    cases h
  | case6 c rest hlast hmore hquote hfeed ih =>
    rw [quotedTail_cons quote (ne_backslash hlast hmore), if_neg hquote, if_neg hfeed] at h ⊢
    obtain ⟨body, hwritten, hbody⟩ := ih h
    refine ⟨c :: body, ?_, .plain (ne_backslash hlast hmore) (by simpa using hquote)
      (by simpa using hfeed) hbody⟩
    show [c] ++ (quotedTail quote rest).written = _
    rw [hwritten]
    rfl

/-! ## Decoding -/

/-- What a text with escapes stands for. -/
def unescaped : List Char → List Char
  | '\\' :: c :: cs => unescape c :: unescaped cs
  | c :: cs => c :: unescaped cs
  | [] => []

theorem Body.eq_unescaped (h : Body quote cs ds) : ds = unescaped cs := by
  induction h with
  | nil => rfl
  | escaped c behind ih => rw [ih]; rfl
  | @plain c cs ds notBackslash notQuote notFeed behind ih =>
    rw [ih, unescaped.eq_2]
    intro d es hc
    exact absurd hc notBackslash

/-! ## Escaped places -/

/-- The number of backslashes directly before a place. -/
def backslashesBefore (cs : List Char) (i : Nat) : Nat :=
  ((cs.take i).reverse.takeWhile (· == '\\')).length

/-- A place is escaped when the backslashes directly before it do not pair up. -/
def Escaped (cs : List Char) (i : Nat) : Prop := backslashesBefore cs i % 2 = 1

theorem takeWhile_append_singleton_of_neg {p : Char → Bool} {c : Char} (hc : p c = false)
    (front behind : List Char) :
    (front ++ c :: behind).takeWhile p = front.takeWhile p := by
  rw [List.takeWhile_append]
  split
  · rename_i hall
    have hfront : front.takeWhile p = front := (List.takeWhile_prefix p).eq_of_length hall
    simp [hc, hfront]
  · rfl

/-- Behind another character the run of backslashes starts anew, whatever stands before. -/
theorem escaped_behind {c : Char} (hc : c ≠ '\\') (before cs : List Char) (i : Nat) :
    Escaped (before ++ c :: cs) (before.length + 1 + i) ↔ Escaped cs i := by
  unfold Escaped backslashesBefore
  rw [List.append_cons, List.take_append, List.take_of_length_le (by simp),
    List.length_append, List.length_singleton, Nat.add_sub_cancel_left, List.reverse_append,
    List.reverse_append, List.reverse_singleton, List.singleton_append,
    takeWhile_append_singleton_of_neg (by simpa using hc)]

theorem escaped_behind_plain {c : Char} (hc : c ≠ '\\') (cs : List Char) (i : Nat) :
    Escaped (c :: cs) (i + 1) ↔ Escaped cs i := by
  have h := escaped_behind hc [] cs i
  rwa [List.length_nil, Nat.zero_add, Nat.add_comm 1 i] at h

/-- What stands at a place or behind it does not matter to whether it is escaped. -/
theorem escaped_append {cs : List Char} {i : Nat} (hi : i ≤ cs.length) (rest : List Char) :
    Escaped (cs ++ rest) i ↔ Escaped cs i := by
  unfold Escaped backslashesBefore
  rw [List.take_append_of_le_length hi]

/-- A backslash and the character behind it do not matter further on: where that is a backslash, the
    two of them pair up. -/
theorem escaped_behind_escape (c : Char) (cs : List Char) (i : Nat) :
    Escaped ('\\' :: c :: cs) (i + 2) ↔ Escaped cs i := by
  unfold Escaped backslashesBefore
  rw [List.take_succ_cons, List.take_succ_cons, List.reverse_cons, List.reverse_cons,
    List.append_assoc, List.singleton_append]
  by_cases hc : c = '\\'
  · subst hc
    rw [List.takeWhile_append]
    split
    · rename_i hall
      rw [hall, List.length_append]
      simp
    · rfl
  · rw [takeWhile_append_singleton_of_neg (by simpa using hc)]

/-- Every quote and every line feed between the quotes of a string is escaped. -/
theorem Body.special_escaped (h : Body quote cs ds) {x : Char} (hx : x ≠ '\\')
    (hspecial : x = quote ∨ x = '\n') : ∀ i, cs[i]? = some x → Escaped cs i := by
  induction h with
  | nil => simp
  | @escaped c cs ds behind ih =>
    intro i hi
    match i with
    | 0 => exact absurd (Option.some.inj hi).symm hx
    | 1 => exact rfl
    | i + 2 => exact (escaped_behind_escape c cs i).mpr (ih i hi)
  | @plain c cs ds notBackslash notQuote notFeed behind ih =>
    intro i hi
    match i with
    | 0 =>
      obtain rfl := Option.some.inj hi
      exact absurd hspecial (not_or.mpr ⟨notQuote, notFeed⟩)
    | i + 1 => exact (escaped_behind_plain notBackslash cs i).mpr (ih i hi)

theorem Body.quote_escaped (h : Body quote cs ds) (hquote : quote ≠ '\\') :
    ∀ i, cs[i]? = some quote → Escaped cs i :=
  h.special_escaped hquote (.inl rfl)

/-- The quote behind a body is not escaped. -/
theorem Body.end_unescaped (h : Body quote cs ds) : ¬ Escaped cs cs.length := by
  induction h with
  | nil => exact Nat.zero_ne_one
  | @escaped c cs ds behind ih => exact fun hend => ih ((escaped_behind_escape c cs _).mp hend)
  | @plain c cs ds notBackslash notQuote notFeed behind ih =>
    exact fun hend => ih ((escaped_behind_plain notBackslash cs _).mp hend)

/-! ## Writing a literal -/

/-- A character as it is written between two quotes of one style. -/
def escape (quote c : Char) : List Char :=
  if c = '\\' ∨ c = quote then ['\\', c]
  else if c = '\n' then ['\\', 'n']
  else if c = '\t' then ['\\', 't']
  else if c = '\r' then ['\\', 'r']
  else [c]

/-- The literal for a text, in one of the two styles. -/
def literal (quote : Char) (s : String) : List Char :=
  quote :: (s.toList.flatMap (escape quote) ++ [quote])

/-- Every text can be written between two quotes, and stands for itself there. -/
theorem body_escape (hquote : IsQuote quote) (cs : List Char) :
    Body quote (cs.flatMap (escape quote)) cs := by
  induction cs with
  | nil => exact .nil
  | cons c cs ih =>
    show Body quote (escape quote c ++ cs.flatMap (escape quote)) (c :: cs)
    unfold escape
    split
    · rename_i hc
      have hsame : unescape c = c := by
        rcases hc with rfl | rfl
        · rfl
        · rcases hquote with rfl | rfl <;> rfl
      have hwritten := Body.escaped c ih
      rwa [hsame] at hwritten
    rename_i hc
    obtain ⟨hbackslash, hplain⟩ := not_or.mp hc
    split
    · rename_i hfeed
      subst hfeed
      exact .escaped 'n' ih
    split
    · rename_i htab
      subst htab
      exact .escaped 't' ih
    split
    · rename_i hreturn
      subst hreturn
      exact .escaped 'r' ih
    · rename_i hfeed _ _
      exact .plain hbackslash hplain hfeed ih

/-! ## Lexemes -/

/-- Between two quotes a body is read, whatever stands before. -/
theorem read_of_body (hquote : IsQuote quote) (h : Body quote cs ds) (afterOperand : Bool)
    (rest : List Char) :
    read afterOperand quote (cs ++ quote :: rest) =
      .ok ⟨.string, .text (String.ofList ds), quote, cs ++ [quote]⟩ := by
  have htail := quotedTail_of_body hquote.ne_backslash h rest
  unfold read
  rcases hquote with rfl | rfl <;> simp [startsColor, startsNumber, htail]

theorem ofWord_ne_string (word : String) : TokenKind.ofWord word ≠ .string :=
  TokenKind.ofWord_of_keywords (P := fun k => k ≠ .string) (by decide) (by decide) word

theorem operator?_ne_string {c : Char} {rest : List Char} {l : Lexeme}
    (h : operator? c rest = some l) : l.kind ≠ .string := by
  intro hkind
  rcases kind_operator? h with ⟨d, hk⟩ | hk <;> rw [hkind] at hk
  · unfold pairOperator? at hk
    split at hk <;> cases hk
  · unfold singleOperator? at hk
    split at hk <;> cases hk

/-- The parser tells a colour by its hash. -/
theorem startsWith_hash (c : Char) (cs : List Char) :
    (String.ofList (c :: cs)).startsWith "#" = (c == '#') := by
  rw [Bool.eq_iff_iff, String.startsWith_string_iff, beq_iff_eq]
  show ['#'] <+: (String.ofList (c :: cs)).toList ↔ c = '#'
  rw [String.toList_ofList, List.cons_prefix_cons]
  exact ⟨fun h => h.1.symm, fun h => ⟨h.symm, List.nil_prefix⟩⟩

/-- A lexeme that is a string is a colour, or a body between two quotes. -/
theorem color_or_body_of_read {afterOperand : Bool} {c : Char} {rest : List Char} {l : Lexeme}
    (h : read afterOperand c rest = .ok l) (hkind : l.kind = .string) :
    l = color rest ∨ ∃ quote body decoded, IsQuote quote ∧ Body quote body decoded ∧
      l.chars = quote :: (body ++ [quote]) ∧ l.value = .text (String.ofList decoded) := by
  unfold read at h
  split at h
  · cases h
    exact .inl rfl
  split at h
  · cases h
    cases hkind
  split at h
  · rename_i hquote
    dsimp only at h
    split at h
    · rename_i hclosed
      cases h
      obtain ⟨body, hwritten, hbody⟩ := body_of_quotedTail hclosed
      exact .inr ⟨c, body, _, by simpa [IsQuote] using hquote, hbody, by rw [← hwritten]; rfl, rfl⟩
    · cases h
  split at h
  · cases h
    exact absurd hkind (ofWord_ne_string _)
  split at h
  · rename_i hl
    cases h
    exact absurd hkind (operator?_ne_string hl)
  · cases h

end Lexeme

/-! ## Tokens -/

/-- A token was read from a lexeme. -/
def Token.Read (t : Token) : Prop :=
  ∃ (afterOperand : Bool) (c : Char) (rest : List Char) (l : Lexeme),
    Lexeme.read afterOperand c rest = .ok l ∧ t.kind = l.kind ∧ t.value = l.value ∧
      t.lexeme = String.ofList l.chars

namespace Scanner

variable {source : List Char} {file : Option String} {s t : Scanner}

/-- Every token found so far is a token of layout or was read. -/
def AllRead (s : Scanner) : Prop := ∀ t ∈ s.tokens, t.kind.isContent = true → t.Read

theorem AllRead.push (hs : s.AllRead) {k : TokenKind} (hk : k.isContent = false) (v : Literal)
    (lexeme : String) (l : Location) : (s.push k v lexeme l).AllRead :=
  List.forall_mem_cons.mpr ⟨fun h => absurd (hk.symm.trans h) Bool.false_ne_true, hs⟩

theorem AllRead.pushLayouts (hs : s.AllRead) {k : TokenKind} (hk : k.isContent = false) (n : Nat) :
    (s.pushLayouts k n).AllRead := by
  induction n generalizing s with
  | zero => exact hs
  | succ n ih => exact ih (hs.push hk _ _ _)

theorem AllRead.layout (hs : s.AllRead) : s.layout.AllRead := by
  unfold Scanner.layout
  split
  · dsimp only
    split
    · exact hs
    · unfold indentTo
      split
      · exact AllRead.push
          (s := { s.advance _ with atLineStart := false, levels := _ }) hs rfl _ _ _
      · exact AllRead.pushLayouts
          (s := { s.advance _ with atLineStart := false, levels := _ }) hs rfl _
  · exact hs

theorem AllRead.step (hs : s.AllRead) (h : s.step = .ok t) : t.AllRead := by
  have hu : s.layout.skipGap.AllRead := hs.layout
  have hmoves := moves_of_step h
  generalize s.layout.skipGap = u at hu hmoves
  cases hmoves with
  | ended => exact hu
  | comment => exact hu
  | lineFeed =>
    unfold Scanner.lineFeed
    dsimp only
    split
    · exact hu
    · exact hu
    · exact hu
    · exact hu
    · exact AllRead.push (s := { u.advance 1 with atLineStart := true }) hu rfl _ _ _
  | lexeme _ _ _ hl =>
    exact List.forall_mem_cons.mpr ⟨fun _ => ⟨_, _, _, _, hl, rfl, rfl, rfl⟩, hu⟩

theorem Passes.allRead (hs : Passes source file s) : s.AllRead := by
  induction hs with
  | start => exact fun t ht => nomatch ht
  | step _ _ taken ih => exact ih.step taken

end Scanner

/-- Every token of a source is a token of layout, the end of the file, or was read. -/
theorem Token.scan_read {source : String} {file : Option String} {tokens : List Token}
    (h : Token.scan source file = .ok tokens) :
    ∀ t ∈ tokens, t.kind.isContent = true → t.Read := by
  unfold Token.scan at h
  split at h
  · rename_i s hrun
    cases h
    obtain ⟨hpassed, -⟩ := (Scanner.Passes.start).run hrun
    intro t ht hcontent
    rw [Scanner.finish_eq] at ht
    rcases List.mem_append.mp ht with ht | ht
    · exact hpassed.allRead t (List.mem_reverse.mp ht) hcontent
    · rcases List.mem_append.mp ht with ht | ht
      · rw [List.eq_of_mem_replicate ht] at hcontent
        cases hcontent
      · rw [List.mem_singleton.mp ht] at hcontent
        cases hcontent
  · cases h

/-! ## Literals -/

namespace Token

/-- A token is a string literal of a source: a quote, a text in which every quote of that style is
    escaped, and a quote of that style that is not.  It stands for that text, decoded. -/
structure IsLiteral (t : Token) (source : List Char) (quote : Char) (body : List Char) : Prop where
  style : Lexeme.IsQuote quote
  written : source.extract t.span.start.offset t.span.stop.offset = quote :: (body ++ [quote])
  stop : t.span.stop.offset = t.span.start.offset + (body.length + 2)
  inside : ∀ i, body[i]? = some quote → Lexeme.Escaped body i
  ends : ¬ Lexeme.Escaped body body.length
  value : t.value = .text (String.ofList (Lexeme.unescaped body))

/-- What a string token covers in its source is a colour, or a body between two quotes. -/
theorem color_or_body_of_scan {source : String} {file : Option String} {tokens : List Token}
    (h : Token.scan source file = .ok tokens) {t : Token} (ht : t ∈ tokens)
    (hkind : t.kind = .string) :
    let covered := source.toList.extract t.span.start.offset t.span.stop.offset
    t.lexeme = String.ofList covered ∧
      ((∃ rest, covered = (Lexeme.color rest).chars) ∨
        ∃ quote body decoded, Lexeme.IsQuote quote ∧ Lexeme.Body quote body decoded ∧
          covered = quote :: (body ++ [quote]) ∧ t.value = .text (String.ofList decoded)) := by
  have hfaithful := faithful_of_scan h
  have hlexeme := (hfaithful.standing t ht).lexeme (by rw [hkind]; nofun)
  obtain ⟨afterOperand, c, rest, l, hl, hlkind, hvalue, hchars⟩ :=
    scan_read h t ht (by rw [hkind]; rfl)
  have hcovered := String.ofList_injective (hlexeme.symm.trans hchars)
  refine ⟨hlexeme, ?_⟩
  rw [hcovered, hvalue]
  rcases Lexeme.color_or_body_of_read hl (hlkind.symm.trans hkind) with rfl | hbody
  · exact .inl ⟨rest, rfl⟩
  · exact .inr hbody

/-- Every string token that is no colour is a literal. -/
theorem isLiteral_of_scan {source : String} {file : Option String} {tokens : List Token}
    (h : Token.scan source file = .ok tokens) {t : Token} (ht : t ∈ tokens)
    (hkind : t.kind = .string) (hcolor : t.lexeme.startsWith "#" = false) :
    ∃ quote body, t.IsLiteral source.toList quote body := by
  have hfaithful := faithful_of_scan h
  obtain ⟨hlexeme, ⟨rest, hcovered⟩ | ⟨quote, body, decoded, hquote, hbody, hcovered, hvalue⟩⟩ :=
    color_or_body_of_scan h ht hkind
  · rw [hlexeme, hcovered, Lexeme.chars, Lexeme.startsWith_hash] at hcolor
    cases hcolor
  refine ⟨quote, body, hquote, hcovered, ?_, hbody.quote_escaped hquote.ne_backslash,
    hbody.end_unescaped, ?_⟩
  · have hlength := congrArg List.length hcovered
    have hstop := (hfaithful.standing t ht).stop.offset
    simp only [List.extract_eq_take_drop, List.length_take, List.length_drop, List.length_cons,
      List.length_append, List.length_nil] at hlength
    omega
  · rw [hvalue, hbody.eq_unescaped]

/-- The only token of a text that is a string literal. -/
def ofLiteral (written : List Char) (s : String) (file : Option String) : Token :=
  ⟨.string, .text s, String.ofList written, ⟨.start file, (Location.start file).after written⟩⟩

/-- The end of a file behind the characters of a text. -/
def endBehind (written : List Char) (file : Option String) : Token :=
  let stop := (Location.start file).after written
  ⟨.endOfFile, .null, "", ⟨stop, stop⟩⟩

/-- A body between two quotes is scanned to one token. -/
theorem scan_of_body {quote : Char} (hquote : Lexeme.IsQuote quote) {cs : List Char} {s : String}
    (h : Lexeme.Body quote cs s.toList) (file : Option String) :
    Token.scan (String.ofList (quote :: (cs ++ [quote]))) file =
      .ok [ofLiteral (quote :: (cs ++ [quote])) s file,
        endBehind (quote :: (cs ++ [quote])) file] := by
  let l : Lexeme := ⟨.string, .text s, quote, cs ++ [quote]⟩
  let inLine : Scanner := ⟨l.chars, .start file, [], false, []⟩
  have hlayout : (Scanner.start l.chars file).layout = inLine := by
    rcases hquote with rfl | rfl <;> rfl
  have hgap : Scanner.isGap quote = false := by rcases hquote with rfl | rfl <;> rfl
  have hfeed : quote ≠ '\n' := by rcases hquote with rfl | rfl <;> decide
  have hhash : (quote == '#') = false := by rcases hquote with rfl | rfl <;> rfl
  have hread : Lexeme.read (inLine.lastKind?.any TokenKind.endsOperand) quote (cs ++ [quote]) =
      .ok l := by
    show Lexeme.read false quote (cs ++ [quote]) = .ok l
    rw [Lexeme.read_of_body hquote h, String.ofList_toList]
  rw [scan_eq_ok, String.toList_ofList]
  calc (Scanner.start l.chars file).outcome
      = inLine.outcome := by rw [← Scanner.outcome_layout, hlayout]
    _ = (inLine.take l).outcome := by
      rw [Scanner.outcome_eq_read (s := inLine) rfl rfl hgap hfeed (by rw [hhash, Bool.false_and])]
      rw [hread]
    _ = (inLine.behind l.chars [l.token inLine.here] []).outcome := by
      rw [Scanner.take_eq_behind (List.append_nil l.chars).symm]
    _ = _ := by
      rw [Scanner.outcome_of_rest_eq_nil rfl, Scanner.finish_eq]
      rfl

/-- A string token that stands alone is an expression; written with a quote, it is no colour. -/
theorem read_ofLiteral {quote : Char} (hquote : Lexeme.IsQuote quote) (cs : List Char) (s : String)
    (file : Option String) :
    ∃ c, Program.read [ofLiteral (quote :: cs) s file, endBehind (quote :: cs) file] =
      .ok (⟨(ofLiteral (quote :: cs) s file).span, [],
        [.expression (ofLiteral (quote :: cs) s file).span
          (.string (ofLiteral (quote :: cs) s file).span s)]⟩, c) := by
  have hcolor : (ofLiteral (quote :: cs) s file).lexeme.startsWith "#" = false := by
    rw [ofLiteral, Lexeme.startsWith_hash]
    rcases hquote with rfl | rfl <;> rfl
  have hexpr : Grammar.stringExpr (ofLiteral (quote :: cs) s file) =
      .string (ofLiteral (quote :: cs) s file).span s := by
    rw [Grammar.stringExpr, hcolor]
    rfl
  rw [← hexpr]
  exact ⟨_, rfl⟩

end Token

/-- A text written between two quotes is scanned to one string token, which is read as a string with
    that text; and every string token of every source that is no colour is a quote, the text up to
    the first quote of that style that is not escaped, and that quote, and stands for the text. -/
theorem string_literals_are_read_back :
    (∀ (s : String) (quote : Char), Lexeme.IsQuote quote → ∀ file : Option String,
      let written := Lexeme.literal quote s
      let name := some (Program.sourceName file)
      let span : Span := ⟨.start name, (Location.start name).after written⟩
      Token.scan (String.ofList written) file =
          .ok [Token.ofLiteral written s file, Token.endBehind written file] ∧
        Program.compile (String.ofList written) file =
          .ok ⟨span, [], [.expression span (.string span s)]⟩) ∧
    ∀ (source : String) (file : Option String) (tokens : List Token),
      Token.scan source file = .ok tokens → ∀ t ∈ tokens, t.kind = .string →
        t.lexeme.startsWith "#" = false → ∃ quote body, t.IsLiteral source.toList quote body := by
  refine ⟨fun s quote hquote file => ?_, fun source file tokens h t ht =>
    Token.isLiteral_of_scan h ht⟩
  have hbody := Lexeme.body_escape hquote s.toList
  obtain ⟨c, hread⟩ := Token.read_ofLiteral hquote
    (s.toList.flatMap (Lexeme.escape quote) ++ [quote]) s (some (Program.sourceName file))
  exact ⟨Token.scan_of_body hquote hbody file,
    Program.compile_of_read (Token.scan_of_body hquote hbody _) hread⟩

/-- A source with a colour and a string with an escaped quote and an escaped backslash, which stands
    before the closing quote. -/
def colorAndText : String := "#fff \"it\\\"s \\\\\""

/-- Its tokens. -/
def colorAndTextTokens : List Token :=
  [⟨.string, .text "#fff", "#fff", ⟨⟨1, 1, 0, none⟩, ⟨1, 5, 4, none⟩⟩⟩,
    ⟨.string, .text "it\"s \\", "\"it\\\"s \\\\\"", ⟨⟨1, 6, 5, none⟩, ⟨1, 16, 15, none⟩⟩⟩,
    ⟨.endOfFile, .null, "", ⟨⟨1, 16, 15, none⟩, ⟨1, 16, 15, none⟩⟩⟩]

/-- The span of a source with nine characters. -/
def wholeLine : Span := ⟨⟨1, 1, 0, some "<input>"⟩, ⟨1, 10, 9, some "<input>"⟩⟩

theorem string_literals_are_read_back_colorAndText :
    Program.compile "'it\\'s\\n'" none =
        .ok ⟨wholeLine, [], [.expression wholeLine (.string wholeLine "it's\n")]⟩ ∧
      Token.scan colorAndText none = .ok colorAndTextTokens ∧
      ∀ t ∈ colorAndTextTokens[1]?, t.lexeme.startsWith "#" = false ∧
        ∃ quote body, t.IsLiteral colorAndText.toList quote body := by
  have hscan : Token.scan colorAndText none = .ok colorAndTextTokens := by cbv
  refine ⟨?_, hscan, ?_⟩
  · have hwritten : "'it\\'s\\n'" = String.ofList (Lexeme.literal '\'' "it's\n") := by decide
    rw [hwritten, (string_literals_are_read_back.1 "it's\n" '\'' (.inr rfl) none).2]
    rfl
  · intro t ht
    have hmem := List.mem_of_getElem? ht
    cases ht
    have hplain : ("\"it\\\"s \\\\\"" : String).startsWith "#" = false := by decide +kernel
    exact ⟨hplain, string_literals_are_read_back.2 _ _ _ hscan _ hmem rfl hplain⟩

end EventScript
