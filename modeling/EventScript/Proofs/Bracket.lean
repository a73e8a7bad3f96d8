import EventScript.Proofs.Grammar.Closing
import EventScript.Proofs.Token.Fork

/-! # A bracket directly behind the last statement of a block

A block ends where its indentation does.  The bracket that closes the call or the literal around a
lambda with a block therefore stands on a line of its own: put directly behind the last statement of
the block, it is refused, whatever follows.

* `Scanner.Behind.breaks`     a token at the end of its line is followed by a break
* `Program.compile_bracket`   what compiles no longer does with a bracket there
-/

namespace EventScript

open Lexeme (Breaks)

/-! ## The text behind a line -/

namespace Lexeme

variable {bracket : Char} {k : TokenKind}

theorem eq_of_closes (h : singleOperator? bracket = some k) (hk : k ∈ TokenKind.closingBrackets) :
    bracket = ')' ∨ bracket = ']' ∨ bracket = '\x7d' := by
  revert hk
  unfold singleOperator? at h
  split at h <;> cases h <;> decide

theorem isBreak_of_closes (h : singleOperator? bracket = some k)
    (hk : k ∈ TokenKind.closingBrackets) : isBreak bracket = true := by
  rcases eq_of_closes h hk with rfl | rfl | rfl <;> decide

theorem read_of_closes (h : singleOperator? bracket = some k) (hk : k ∈ TokenKind.closingBrackets)
    (afterOperand : Bool) (rest : List Char) :
    read afterOperand bracket rest = .ok ⟨k, .text (String.singleton bracket), bracket, []⟩ := by
  rcases eq_of_closes h hk with rfl | rfl | rfl <;> cases h <;> cases rest <;> rfl

end Lexeme

namespace Scanner

variable {s : Scanner} {source : List Char} {file : Option String} {earlier later : List Token}
  {x : Token}

/-- Behind the last token of a line there is a break. -/
theorem Behind.breaks (h : Behind source file earlier x later s)
    (hline : (later.head?.map Token.kind) = some .newline) : Breaks s.rest := by
  cases hrest : s.rest with
  | nil => exact Lexeme.breaks_nil
  | cons c rest =>
    refine Lexeme.breaks_cons ?_ rest
    by_contra hc
    simp only [Lexeme.isBreak, Bool.or_eq_true, not_or, Bool.not_eq_true, beq_eq_false_iff_ne] at hc
    obtain ⟨⟨⟨⟨hgap, hfeed⟩, -⟩, hhash⟩, -⟩ := hc
    have hread := outcome_eq_read h.inLine hrest hgap hfeed (by simp [hhash])
    rw [h.outcome] at hread
    split at hread
    · rename_i l hl
      -- what stands there would be the next token
      obtain ⟨more, hmore⟩ := prefix_of_outcome_eq_ok hread.symm
      obtain ⟨t, htokens, ht⟩ : ∃ t, (s.take l).tokens = t :: s.tokens ∧ t.kind = l.kind :=
        ⟨_, rfl, rfl⟩
      rw [htokens, h.tokens, List.reverse_cons, List.reverse_cons, List.reverse_reverse,
        List.append_assoc, List.append_assoc] at hmore
      obtain rfl := (List.cons.inj (List.append_cancel_left hmore)).2
      have hcontent := Lexeme.isContent_read hl
      rw [← ht, show t.kind = .newline by simpa using hline] at hcontent
      cases hcontent
    · cases hread

/-- In front of a bracket that closes the bracket is taken. -/
theorem outcome_eq_bracket {bracket : Char} {k : TokenKind}
    (h : Lexeme.singleOperator? bracket = some k) (hk : k ∈ TokenKind.closingBrackets)
    (hstart : s.atLineStart = false) (rest : List Char) :
    ∃ (t : Scanner) (b : Token), (s.withRest (bracket :: rest)).outcome = t.outcome ∧
      t.tokens = b :: s.tokens ∧ b.kind = k ∧ b.span = ⟨s.here, s.here.after [bracket]⟩ := by
  have hread := outcome_eq_read (s := s.withRest (bracket :: rest)) (c := bracket) hstart rfl
    (by rcases Lexeme.eq_of_closes h hk with rfl | rfl | rfl <;> rfl)
    (by rcases Lexeme.eq_of_closes h hk with rfl | rfl | rfl <;> decide)
    (by rcases Lexeme.eq_of_closes h hk with rfl | rfl | rfl <;> rfl)
  rw [Lexeme.read_of_closes h hk] at hread
  exact ⟨_, _, hread, rfl, rfl, rfl⟩

end Scanner

/-! ## Moving the bracket -/

/-- A line ends behind a token that is written out. -/
theorem LaidOut.isContent_of_newline {earlier later : List Token} {x : Token}
    (h : LaidOut ((earlier ++ x :: later).map Token.kind))
    (hline : later.head?.map Token.kind = some .newline) : x.kind.isContent = true := by
  cases later with
  | nil => cases hline
  | cons t later =>
    have ht : t.kind = .newline := by simpa using hline
    obtain ⟨k, hk, hnewline, hindent, hdedent⟩ := h.newline ((earlier ++ [x]).map Token.kind)
      (later.map Token.kind) (by simp [ht])
    obtain rfl : x.kind = k := by simpa using hk
    rcases x.kind.isContent_or with hcontent | hk | hk | hk | hk
    · exact hcontent
    · exact absurd hk hnewline
    · exact absurd hk hindent
    · exact absurd hk hdedent
    · -- the end of the file is the last token
      obtain ⟨body, last, heq, -, hbody⟩ := h.eq_append
      have hdrop : body = earlier ++ x :: (t :: later).dropLast := by
        have hlast : (body ++ [last]).dropLast = body := List.dropLast_concat
        rw [← heq, List.dropLast_append_of_ne_nil (by simp)] at hlast
        exact hlast.symm
      exact absurd hk (hbody x (by simp [hdrop]))

/-- Whatever compiles, no block in it can be closed by the bracket of a call or a literal around it:
    if a block ends behind a line, then the bracket directly behind the last token of that line is
    refused, since another statement is looked for there. -/
theorem Program.compile_bracket {source : String} {file : Option String} {tokens : List Token}
    {program : Program} {c : Cursor}
    (hscan : Token.scan source (some (sourceName file)) = .ok tokens)
    (hread : Program.read tokens = .ok (program, c)) {opening place : Nat}
    (hblock : .enclosed .block opening (some (place + 2)) ∈ c.readings) {last : Token}
    (hlast : tokens[place]? = some last) (hline : kindAt tokens (place + 1) = .newline)
    {bracket : Char} {k : TokenKind} (hbracket : Lexeme.singleOperator? bracket = some k)
    (hk : k ∈ TokenKind.closingBrackets) (rest : List Char) {moved : String}
    (hmoved : moved = String.ofList (source.toList.take last.span.stop.offset ++ bracket :: rest)) :
    ∃ d, compile moved file = .error d ∧
      (Token.scan moved (some (sourceName file)) = .error d ∨
        d = quoting moved (.located (.unexpectedToken "expression" k)
          ⟨last.span.stop, last.span.stop.after [bracket]⟩)) := by
  have hlaid := tokens_laidOut hscan
  obtain ⟨earlier, later, htokens, hplace⟩ : ∃ earlier later,
      tokens = earlier ++ last :: later ∧ earlier.length = place := by
    obtain ⟨hlt, rfl⟩ := List.getElem?_eq_some_iff.mp hlast
    refine ⟨tokens.take place, tokens.drop (place + 1), ?_, by simp; omega⟩
    rw [List.getElem_cons_drop, List.take_append_drop]
  subst hplace
  have hnewline : later.head?.map Token.kind = some .newline := by
    rw [htokens, kindAt, List.getElem?_append_right (Nat.le_succ _)] at hline
    cases later with
    | nil => simp at hline
    | cons t later => simpa using hline
  have hcontent : last.kind.isContent = true :=
    LaidOut.isContent_of_newline (htokens ▸ hlaid) hnewline
  obtain ⟨s, hs⟩ := Token.exists_behind (htokens ▸ hscan) hcontent
  cases hscan' : Token.scan moved (some (sourceName file)) with
  | error d =>
    refine ⟨d, ?_, .inl rfl⟩
    rw [compile, hscan']
    rfl
  | ok other =>
    -- the scan of the other text finds the bracket, and what follows is not looked at
    have hscanned := hs.fork (bracket :: rest) (hs.breaks hnewline)
      (Lexeme.breaks_cons (Lexeme.isBreak_of_closes hbracket hk) rest)
    obtain ⟨t, b, ht, hfound, rfl, hspan⟩ := Scanner.outcome_eq_bracket hbracket hk hs.inLine rest
    have hmoved' := Token.scan_eq_ok.mp hscan'
    rw [hmoved, String.toList_ofList, hscanned, ht] at hmoved'
    obtain ⟨more, hmore⟩ := Scanner.prefix_of_outcome_eq_ok hmoved'
    rw [hfound, hs.tokens] at hmore
    simp only [List.reverse_cons, List.reverse_reverse, List.append_assoc, List.cons_append,
      List.nil_append] at hmore
    subst hmore
    have hrefused := read_append_bracket (htokens ▸ hlaid) (tokens_laidOut hscan') (htokens ▸ hread)
      hblock hnewline hk
    rw [hspan, hs.here] at hrefused
    refine ⟨_, ?_, .inr rfl⟩
    rw [compile, hscan']
    change (Program.ofTokens _).mapError (quoting moved) = _
    rw [ofTokens, hrefused]
    rfl

deriving instance DecidableEq for Reading

/-- A call with a lambda whose block ends on a line of its own. -/
def lambdaSource : String := "run(fn():\n  let x = 1\n)\n"

/-- The same call with the bracket directly behind the statement. -/
def closedSource : String := "run(fn():\n  let x = 1)\n"

theorem compile_bracket_closedSource :
    (∃ program, Program.compile lambdaSource none = .ok program) ∧
      ∃ d, Program.compile closedSource none = .error d ∧
        d.problem = .unexpectedToken "expression" .rightParen := by
  have hmoved : (Token.scan closedSource (some (Program.sourceName none))).toOption.isSome =
      true := by decide +kernel
  have hchecks : ((Token.scan lambdaSource (some (Program.sourceName none))).toOption.bind
      fun tokens => (Program.read tokens).toOption.map fun r =>
        (decide (.enclosed .block 7 (some 13) ∈ r.2.readings), kindAt tokens 12,
          tokens[11]?.map (·.span.stop.offset))) = some (true, .newline, some 21) := by
    decide +kernel
  cases hscan : Token.scan lambdaSource (some (Program.sourceName none)) with
  | error d => simp [hscan, Except.toOption] at hchecks
  | ok tokens =>
    cases hread : Program.read tokens with
    | error d => simp [hscan, hread, Except.toOption] at hchecks
    | ok result =>
      obtain ⟨program, c⟩ := result
      simp only [hscan, hread, Except.toOption, Option.bind_some, Option.map_some,
        Option.some.injEq, Prod.mk.injEq, decide_eq_true_iff, Option.map_eq_some_iff] at hchecks
      obtain ⟨hblock, hline, last, hlast, hoffset⟩ := hchecks
      have hbracket : Lexeme.singleOperator? ')' = some .rightParen := rfl
      have hsource : closedSource = String.ofList
          (lambdaSource.toList.take last.span.stop.offset ++ ')' :: ['\n']) := by
        rw [hoffset]
        decide +kernel
      obtain ⟨d, hd, hscan' | rfl⟩ := Program.compile_bracket hscan hread hblock hlast hline
        hbracket (by decide) ['\n'] hsource
      · simp [hscan', Except.toOption] at hmoved
      · exact ⟨⟨program, Program.compile_of_read hscan hread⟩, _, hd, rfl⟩

end EventScript
