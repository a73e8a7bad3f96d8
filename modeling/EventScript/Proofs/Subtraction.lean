import EventScript.Proofs.Grammar.Indentation
import EventScript.Proofs.Grammar.Subtraction
import EventScript.Proofs.Token.Fork

/-! # A minus behind an operand

A minus directly in front of a digit is a sign or a subtraction, and the scanner decides that by the
kind of the token before it; apart from a digit it is always a subtraction.  The kinds it looks for
are those at which a postfix expression can end, except for the reserved words that may name a
property.  Behind these a minus that touches its number is taken for a sign, and two operands stand
side by side.

* `Lexeme.Numeral`          the numbers without a sign
* `Program.PostfixText`     a text that is a postfix expression
* `Program.compile_minus`   what a minus and a number behind such a text come to
-/

namespace EventScript

open Lexeme (Breaks)

/-! ## Numbers and signs -/

namespace Lexeme

/-- A number without a sign: digits, and behind a point further digits, or neither. -/
structure Numeral where
  whole : List Char
  places : List Char
  whole_ne_nil : whole ≠ []
  isDigit_whole : ∀ c ∈ whole, c.isDigit = true
  isDigit_places : ∀ c ∈ places, c.isDigit = true

namespace Numeral

variable (n : Numeral)

/-- The point and the digits behind it. -/
def fraction : List Char := if n.places = [] then [] else '.' :: n.places

/-- The characters of a number. -/
def chars : List Char := n.whole ++ n.fraction

/-- The value of a number with a sign or without one. -/
def value (negative : Bool) : Number := numeralValue negative n.whole n.fraction

/-- A number by itself. -/
def lexeme : Lexeme :=
  ⟨.number, .number (n.value false), n.whole.head n.whole_ne_nil, n.whole.tail ++ n.fraction⟩

/-- A number behind its sign. -/
def negated : Lexeme := ⟨.number, .number (n.value true), '-', n.chars⟩

theorem chars_lexeme : n.lexeme.chars = n.chars := by
  rw [Lexeme.chars, lexeme, ← List.cons_append, List.cons_head_tail]
  rfl

theorem isDigit_head : n.lexeme.head.isDigit = true := n.isDigit_whole _ (List.head_mem _)

/-- The digits of a number and its fraction, as the scanner finds them. -/
theorem takeWhile_chars :
    n.chars.takeWhile Char.isDigit = n.whole ∧ n.chars.dropWhile Char.isDigit = n.fraction ∧
      Lexeme.fraction n.fraction = n.fraction := by
  have hpoint : ∀ c ∈ n.fraction.head?, c.isDigit = false := by
    intro c hc
    unfold fraction at hc
    split at hc
    · cases hc
    · cases hc
      decide
  have htake : n.chars.takeWhile Char.isDigit = n.whole :=
    takeWhile_append_of_forall n.isDigit_whole hpoint
  refine ⟨htake, ?_, ?_⟩
  · have h : n.chars.takeWhile Char.isDigit ++ n.chars.dropWhile Char.isDigit = n.chars :=
      List.takeWhile_append_dropWhile
    rw [htake] at h
    exact List.append_cancel_left h
  · unfold fraction
    split
    · rfl
    · rename_i hne
      obtain ⟨d, ds, hplaces⟩ := List.exists_cons_of_ne_nil hne
      have hall : (d :: ds).takeWhile Char.isDigit = d :: ds := by
        rw [← hplaces]
        exact List.takeWhile_eq_self_iff.mpr n.isDigit_places
      rw [hplaces, Lexeme.fraction, hall, if_pos (n.isDigit_places d (by simp [hplaces]))]

end Numeral

/-- A minus by itself. -/
def minus : Lexeme := ⟨.minus, .text "-", '-', []⟩

variable {gap : List Char}

theorem eq_of_isGap {c : Char} (h : Scanner.isGap c = true) : c = ' ' ∨ c = '\t' ∨ c = '\r' := by
  simpa [Scanner.isGap, Scanner.isIndent, or_assoc] using h

/-- A number stands where a digit does. -/
theorem read_numeral (n : Numeral) (afterOperand : Bool) :
    read afterOperand n.lexeme.head n.lexeme.tail = .ok n.lexeme := by
  obtain ⟨htake, hdrop, hfraction⟩ := n.takeWhile_chars
  have hchars : n.lexeme.head :: n.lexeme.tail = n.chars := n.chars_lexeme
  have hne : ∀ d : Char, d.isDigit = false → n.lexeme.head ≠ d := by
    rintro _ hd rfl
    rw [n.isDigit_head] at hd
    cases hd
  have hcolor : startsColor (n.lexeme.head :: n.lexeme.tail) = false := by
    unfold startsColor
    split
    · rename_i heq
      exact absurd (List.cons.inj heq).1 (hne '#' (by decide))
    · rfl
  have hstarts : startsNumber afterOperand (n.lexeme.head :: n.lexeme.tail) = true := by
    unfold startsNumber
    split
    · rename_i heq
      exact absurd (List.cons.inj heq).1 (hne '-' (by decide))
    · rename_i heq
      rw [← (List.cons.inj heq).1, n.isDigit_head]
    · rename_i heq
      cases heq
  rw [read, hcolor, if_neg Bool.false_ne_true, if_pos hstarts]
  unfold number
  rw [beq_false_of_ne (hne '-' (by decide))]
  simp only [Bool.false_eq_true, if_false, hchars, htake, hdrop, hfraction, List.drop_one]
  rfl

/-- A minus that touches a number is its sign, unless an operand ends in front of it. -/
theorem read_sign (n : Numeral) : read false '-' n.chars = .ok n.negated := by
  obtain ⟨htake, hdrop, hfraction⟩ := n.takeWhile_chars
  have hstarts : startsNumber false ('-' :: n.chars) = true := by
    rw [← n.chars_lexeme]
    simp [startsNumber, Lexeme.chars, n.isDigit_head]
  rw [read, if_neg (by simp [startsColor]), if_pos hstarts]
  unfold number
  simp only [beq_self_eq_true, if_true, htake, hdrop, hfraction]
  rfl

/-- A minus that touches no number or stands behind an operand is a subtraction. -/
theorem read_minus (n : Numeral) {afterOperand : Bool}
    (hgap : ∀ c ∈ gap, Scanner.isGap c = true) (h : gap ≠ [] ∨ afterOperand = true) :
    read afterOperand '-' (gap ++ n.chars) = .ok minus := by
  obtain ⟨c, cs, hrest, hsign, hpair⟩ : ∃ c cs, gap ++ n.chars = c :: cs ∧
      (c.isDigit && !afterOperand) = false ∧ pairOperator? '-' c = none := by
    cases gap with
    | nil =>
      refine ⟨_, _, n.chars_lexeme.symm, by simp [h.resolve_left], ?_⟩
      unfold pairOperator?
      split <;> first | rfl | (rename_i hc; exact absurd (hc ▸ n.isDigit_head) (by decide))
    | cons c cs =>
      refine ⟨c, cs ++ n.chars, rfl, ?_⟩
      rcases eq_of_isGap (hgap c (List.mem_cons_self ..)) with rfl | rfl | rfl <;> exact ⟨rfl, rfl⟩
  rw [hrest, read, if_neg (by simp [startsColor]), if_neg (by simp [startsNumber, hsign])]
  simp [operator?, hpair, singleOperator?, startsWord, minus]

end Lexeme

section

open Lexeme

variable {n : Numeral} {gap gap' : List Char} {here : Location}

/-- The tokens of a subtraction. -/
theorem LineTokens.subtraction {afterOperand : Bool} (hgap : ∀ c ∈ gap, Scanner.isGap c = true)
    (hgap' : ∀ c ∈ gap', Scanner.isGap c = true) (h : gap' ≠ [] ∨ afterOperand = true) :
    LineTokens afterOperand here (gap ++ '-' :: (gap' ++ n.chars))
      [minus.token (here.after gap), n.lexeme.token ((here.after (gap ++ ['-'])).after gap')] := by
  refine .token hgap rfl rfl (read_minus n hgap' h) rfl ?_
  rw [← n.chars_lexeme]
  refine .token hgap' ?_ ?_ (read_numeral n _) (List.append_nil _).symm (.done (.gap (by simp)))
  · refine Bool.eq_false_iff.mpr fun hblank => ?_
    have hdigit := n.isDigit_head
    rcases eq_of_isGap hblank with hc | hc | hc <;> exact absurd (hc ▸ hdigit) (by decide)
  · rw [beq_false_of_ne, Bool.false_and]
    intro hc
    exact absurd (hc ▸ n.isDigit_head) (by decide)

/-- The token of a number behind its sign. -/
theorem LineTokens.negated (hgap : ∀ c ∈ gap, Scanner.isGap c = true) :
    LineTokens false here (gap ++ '-' :: n.chars) [n.negated.token (here.after gap)] :=
  .token hgap rfl rfl (read_sign n) (List.append_nil _).symm (.done (.gap (by simp)))

end

/-! ## Scanning -/

namespace Scanner

/-- The definition of `v` starts with three tokens, whatever its value is. -/
theorem tokens_of_definition {file : Option String} {cs : List Char} {ts : List Token}
    (h : (start ("let v = ".toList ++ cs) file).outcome = .ok ts) :
    ∃ t₀ t₁ t₂ more, ts = t₀ :: t₁ :: t₂ :: more ∧ t₀.kind = .letWord ∧ t₁.kind = .identifier ∧
      t₁.word = "v" ∧ t₂.kind = .assign := by
  let s₀ : Scanner :=
    { start ('l' :: 'e' :: 't' :: ' ' :: 'v' :: ' ' :: '=' :: ' ' :: cs) file with
      atLineStart := false }
  let letLexeme : Lexeme := ⟨.letWord, .text "let", 'l', ['e', 't']⟩
  let name : Lexeme := ⟨.identifier, .text "v", 'v', []⟩
  let assign : Lexeme := ⟨.assign, .text "=", '=', []⟩
  let s₁ : Scanner := s₀.behind letLexeme.chars [letLexeme.token (s₀.here.after [])]
    (' ' :: 'v' :: ' ' :: '=' :: ' ' :: cs)
  let s₂ : Scanner := s₁.behind (' ' :: name.chars) [name.token (s₁.here.after [' '])]
    (' ' :: '=' :: ' ' :: cs)
  let s₃ : Scanner := s₂.behind (' ' :: assign.chars) [assign.token (s₂.here.after [' '])]
    (' ' :: cs)
  have h₀ : s₀.outcome = .ok ts := (outcome_layout (start _ file)).trans h
  have hblank : ∀ x ∈ [' '], isGap x = true := by simp [isGap, isIndent]
  have h₁ : s₀.outcome = s₁.outcome :=
    outcome_eq_behind rfl (show s₀.rest = [] ++ 'l' :: s₀.rest.drop 1 from rfl) (by simp) rfl
      (by decide) rfl rfl rfl
  have h₂ : s₁.outcome = s₂.outcome :=
    outcome_eq_behind rfl (show s₁.rest = [' '] ++ 'v' :: s₁.rest.drop 2 from rfl) hblank rfl
      (by decide) rfl rfl rfl
  have h₃ : s₂.outcome = s₃.outcome :=
    outcome_eq_behind rfl (show s₂.rest = [' '] ++ '=' :: s₂.rest.drop 2 from rfl) hblank rfl
      (by decide) rfl rfl rfl
  obtain ⟨more, rfl⟩ := prefix_of_outcome_eq_ok (h₃.symm.trans (h₂.symm.trans (h₁.symm.trans h₀)))
  exact ⟨_, _, _, more, rfl, rfl, rfl, rfl, rfl⟩

end Scanner

/-! ## Postfix expressions as texts -/

namespace Program

/-- The definition of `v`. -/
def defining (value : String) : String := "let v = " ++ value

/-- A text that is a postfix expression and no lambda: as the value of `v` it is read by the rule for
    such expressions, up to the end of the file. -/
structure PostfixText (file : Option String) (text : String) where
  earlier : List Token
  last : Token
  ending : Token
  start : Cursor
  stop : Cursor
  value : Expr
  scanned : Token.scan (defining text) (some (sourceName file)) = .ok (earlier ++ [last, ending])
  written : last.kind.isContent = true
  whole : last.span.stop.offset = (defining text).length
  starts : Cursor.ofTokens? (earlier ++ [last, ending]) = some start
  noLambda : start.next.next.next.current.kind ≠ .fnWord
  read : (Grammar.postfixed (Grammar.rulesAt (Grammar.depthFor (earlier.length + 2)))).run
    start.next.next.next = .ok (value, stop)
  ended : stop.current.kind = .endOfFile

namespace PostfixText

variable {file : Option String} {text : String} (p : PostfixText file text)

/-- The tokens of a postfix expression and of a line behind it. -/
theorem scan_append {rest : List Char} {ts : List Token}
    (h : LineTokens p.last.kind.endsOperand p.last.span.stop rest ts) (hrest : Breaks rest)
    (hline : '\n' ∉ rest) :
    ∃ ending : Token, ending.kind = .endOfFile ∧
      Token.scan (defining (text ++ String.ofList rest)) (some (sourceName file)) =
        .ok (p.earlier ++ p.last :: (ts ++ [ending])) := by
  obtain ⟨s, hs⟩ := Token.exists_behind p.scanned p.written
  have hend : s.rest = [] := by
    have hlength := congrArg List.length hs.split
    rw [p.whole, List.length_append, List.length_take] at hlength
    refine List.eq_nil_of_length_eq_zero ?_
    have : (defining text).toList.length = (defining text).length := rfl
    omega
  have htake : (defining text).toList.take p.last.span.stop.offset = (defining text).toList := by
    have := hs.split
    rw [hend, List.append_nil] at this
    exact this.symm
  -- no block is open behind the expression
  have hlevels : s.levels = [] := by
    have hfinish := Except.ok.inj ((Scanner.outcome_of_rest_eq_nil hend).symm.trans hs.outcome)
    rw [Scanner.finish_eq, hs.tokens] at hfinish
    have hlength := congrArg List.length hfinish
    simp only [List.length_append, List.length_reverse, List.length_cons, List.length_nil,
      List.length_replicate] at hlength
    exact List.eq_nil_of_length_eq_zero (by omega)
  have hfork := hs.fork rest (hend ▸ Lexeme.breaks_nil) hrest
  have hscan := h.outcome_eq (s := s.withRest rest) hs.here hs.inLine (List.append_nil _).symm
    (by simp [Scanner.lastKind?, Scanner.withRest, hs.tokens]) hline (by simp [EndsLine])
  have hfinish : ((s.withRest rest).behind rest ts []).outcome = _ :=
    Scanner.outcome_of_rest_eq_nil rfl
  rw [htake, hscan, hfinish, Scanner.finish_eq] at hfork
  let stop := s.here.after rest
  refine ⟨⟨.endOfFile, .null, "", ⟨stop, stop⟩⟩, rfl, Token.scan_eq_ok.mpr ?_⟩
  rw [show (defining (text ++ String.ofList rest)).toList = (defining text).toList ++ rest by
    simp [defining], hfork]
  simp [stop, Scanner.behind, Scanner.withRest, hlevels, hs.tokens]

/-- The tokens of the definition: three in front of its value, and the end of the file. -/
theorem tokens_eq : ∃ t₀ t₁ t₂ t more,
    p.earlier ++ [p.last, p.ending] = t₀ :: t₁ :: t₂ :: t :: more ∧
      t₀.kind = .letWord ∧ t₁.kind = .identifier ∧ t₁.word = "v" ∧ t₂.kind = .assign := by
  have hscan := Token.scan_eq_ok.mp p.scanned
  rw [show (defining text).toList = "let v = ".toList ++ text.toList by simp [defining]] at hscan
  obtain ⟨t₀, t₁, t₂, rest, htokens, h₀, h₁, hword, h₂⟩ := Scanner.tokens_of_definition hscan
  cases rest with
  | nil =>
    -- the list ends with the end of the file, and not with an equals sign
    obtain ⟨body, ending, heq, hend, -⟩ := (tokens_laidOut p.scanned).eq_append
    rw [htokens, show [t₀, t₁, t₂] = [t₀, t₁] ++ [t₂] from rfl] at heq
    obtain ⟨-, hlast⟩ := List.append_inj' heq rfl
    cases hlast
    rw [h₂] at hend
    cases hend
  | cons t more => exact ⟨t₀, t₁, t₂, t, more, htokens, h₀, h₁, hword, h₂⟩

theorem kind_ending : p.ending.kind = .endOfFile := by
  obtain ⟨body, ending, heq, hend, -⟩ := (tokens_laidOut p.scanned).eq_append
  have hsplit : (p.earlier ++ [p.last]) ++ [p.ending] = body ++ [ending] := by simpa using heq
  obtain ⟨-, hlast⟩ := List.append_inj' hsplit rfl
  cases hlast
  exact hend

/-- Where the definition, its value and the end of its value are. -/
theorem stands : p.start.BeforeLet "v" ∧ p.start.At (p.earlier ++ [p.last, p.ending]) 0 ∧
    p.start.next.next.next.At (p.earlier ++ [p.last, p.ending]) 3 ∧
      p.stop.At (p.earlier ++ [p.last, p.ending]) (p.earlier.length + 1) := by
  have hlaid := tokens_laidOut p.scanned
  obtain ⟨body, ending, htokens, hended, -⟩ := hlaid.eq_append
  have hstart := Cursor.At.start ⟨body, ending, htokens, hended⟩ p.starts
  obtain ⟨t₀, t₁, t₂, t, rest, hall, hlet, hname, hword, hassign⟩ := p.tokens_eq
  have hbefore : p.start.BeforeLet "v" := hword ▸ .of_ofTokens? (hall ▸ p.starts) hlet hname hassign
  obtain ⟨-, -, hvalue⟩ := hbefore.stands hstart
  have hstop := hvalue.of_leads (Parse.leads _ p.read)
  -- the end of the file stands at the last place only
  have hend := hlaid.length_eq (List.getElem?_eq_some_iff.mp hstop.getElem?).1
    (hstop.kindAt.trans p.ended)
  rw [show (p.earlier ++ [p.last, p.ending]).length = _ from List.length_append] at hend
  refine ⟨hbefore, hstart, hvalue, ?_⟩
  rwa [show p.stop.passed = p.earlier.length + 1 from (Nat.succ.inj hend).symm] at hstop

/-- A postfix expression ends like an operand, or with the name of a property that is a reserved
    word. -/
theorem kind_last : p.last.kind.endsOperand = true ∨ p.last.kind.isKeyword = true := by
  obtain ⟨-, -, hvalue, hstop⟩ := p.stands
  have hends := Grammar.ends_postfixed (by rw [hvalue.kindAt]; exact p.noLambda) hvalue p.read
  rw [hstop.passed, Grammar.EndsPostfix, kindAt] at hends
  simpa using hends

/-- A token list that goes on with a minus or a number behind the expression. -/
def fork {next : Token} (hnext : next.kind ∈ [TokenKind.minus, .number]) (more : List Token) :
    Fork :=
  .behind p.earlier p.last [p.ending] (next :: more) fun k hk => by
    refine ⟨?_, ?_⟩ <;> rintro heq <;> cases heq
    · rw [p.kind_ending] at hk
      exact absurd hk (by decide)
    · revert hk hnext
      cases next.kind <;> decide

theorem ending_fork {next : Token} (hnext : next.kind ∈ [TokenKind.minus, .number])
    (more : List Token) : (p.fork hnext more).Ending where
  nothing := by
    have hplace : (p.fork hnext more).tokens[(p.fork hnext more).place]? = _ :=
      Fork.getElem?_behind p.earlier p.last [p.ending]
    rw [kindAt, hplace]
    exact congrArg TokenKind.isContent p.kind_ending
  operand := by
    have hplace : (p.fork hnext more).other[(p.fork hnext more).place]? = _ :=
      Fork.getElem?_behind p.earlier p.last (next :: more)
    rw [kindAt, hplace]
    exact hnext

/-- In such a list the expression is read as well, and as far. -/
theorem exists_run {next : Token} (hnext : next.kind ∈ [TokenKind.minus, .number])
    {more : List Token}
    (hlaid : LaidOut ((p.earlier ++ p.last :: next :: more).map Token.kind)) :
    ∃ c d, Cursor.ofTokens? (p.earlier ++ p.last :: next :: more) = some c ∧ c.BeforeLet "v" ∧
      (Grammar.postfixed (Grammar.rulesAt (2 * (p.earlier ++ p.last :: next :: more).length))).run
        c.next.next.next = .ok (p.value, d) ∧
      d.At (p.earlier ++ p.last :: next :: more) (p.earlier.length + 1) := by
  let f := p.fork hnext more
  obtain ⟨body, ending, hother, hended, -⟩ := hlaid.eq_append
  obtain ⟨d, hd⟩ : ∃ d, Cursor.ofTokens? f.other = some d := by
    rw [show f.other = _ from hother]
    cases body <;> exact ⟨_, rfl⟩
  have hd₀ : d.At f.other 0 := .start ⟨body, ending, hother, hended⟩ hd
  obtain ⟨hbefore, hstart, hvalue, hstop⟩ := p.stands
  obtain ⟨t₀, t₁, t₂, t, rest, hall, -⟩ := p.tokens_eq
  have hplace : 3 ≤ f.place := by
    have := congrArg List.length hall
    simp only [List.length_append, List.length_cons, List.length_nil] at this
    change 3 ≤ p.earlier.length + 1
    omega
  obtain ⟨hbefore', habreast⟩ := hbefore.abreast
    (Fork.Abreast.start (f := f) (by omega) hstart hd₀ p.starts hd) hstart hplace
  -- the expression is read up to the place where the lists part
  have hlength : f.tokens.length = p.earlier.length + 2 := List.length_append
  have hlength' : f.tokens.length ≤ f.other.length := by simp [f, fork, Fork.behind]
  have hread := p.read
  rw [← Grammar.run_postfixed_rulesAt hvalue
    (show _ ≤ Grammar.depthFor (p.earlier.length + 2) by
      unfold Grammar.depthFor
      simp only [List.length_append, List.length_cons, List.length_nil]
      omega)
    (show _ ≤ 2 * f.other.length by
      change 2 * (f.tokens.length - (3 + 1)) ≤ _
      omega)] at hread
  obtain ⟨d', hrun, hd'⟩ := Grammar.arrives_postfixed (p.ending_fork hnext more)
    (Grammar.forks_rulesAt _) (fun _ h => h) habreast p.noLambda hread (Nat.le_of_eq hstop.passed)
  refine ⟨d, d', hd, hbefore', hrun, ?_⟩
  have hreached := hd'.other
  rwa [hstop.passed] at hreached

end PostfixText

section

variable {file : Option String} {text : String} {gap gap' : List Char}

/-- The definition of `v` as an expression with a number subtracted from it, and with blanks around
    the minus. -/
def subtracting (text : String) (gap gap' : List Char) (n : Lexeme.Numeral) : String :=
  defining (text ++ String.ofList (gap ++ '-' :: (gap' ++ n.chars)))

/-- What follows a postfix expression here does not belong to its last token, nor to another line. -/
theorem breaks_subtracting (n : Lexeme.Numeral) (hgap : ∀ c ∈ gap, Scanner.isGap c = true)
    (hgap' : ∀ c ∈ gap', Scanner.isGap c = true) :
    Breaks (gap ++ '-' :: (gap' ++ n.chars)) ∧ '\n' ∉ gap ++ '-' :: (gap' ++ n.chars) := by
  have hblank : Scanner.isGap '\n' = false := by decide
  have hdigit : Char.isDigit '\n' = false := by decide
  refine ⟨?_, ?_⟩
  · cases gap with
    | nil => exact Lexeme.breaks_cons (by decide) _
    | cons c cs => exact Lexeme.breaks_cons (by simp [Lexeme.isBreak, hgap]) _
  · intro hmem
    rcases List.mem_append.mp hmem with hmem | hmem
    · rw [hgap _ hmem] at hblank
      cases hblank
    rcases List.mem_cons.mp hmem with hmem | hmem
    · exact absurd hmem (by decide)
    rcases List.mem_append.mp hmem with hmem | hmem
    · rw [hgap' _ hmem] at hblank
      cases hblank
    rcases List.mem_append.mp hmem with hmem | hmem
    · rw [n.isDigit_whole _ hmem] at hdigit
      cases hdigit
    · unfold Lexeme.Numeral.fraction at hmem
      split at hmem
      · cases hmem
      · rcases List.mem_cons.mp hmem with hmem | hmem
        · exact absurd hmem (by decide)
        · rw [n.isDigit_places _ hmem] at hdigit
          cases hdigit

theorem toOption_eq_some {ε α : Type} {x : Except ε α} {a : α} :
    x.toOption = some a ↔ x = .ok a := by
  cases x <;> simp [Except.toOption]

theorem compile_eq_of_run {source : String} {tokens : List Token} {c : Cursor}
    {r : Except Diagnostic (Program × Cursor)}
    (hscan : Token.scan source (some (sourceName file)) = .ok tokens)
    (hc : Cursor.ofTokens? tokens = some c)
    (hrun : (Grammar.program (Grammar.rulesAt (2 * tokens.length + 2))).run c = r) :
    compile source file = (r.map (·.1)).mapError (quoting source) := by
  rw [compile, hscan]
  change (ofTokens tokens).mapError (quoting source) = _
  rw [ofTokens, read_eq_run hc, ← hrun]
  rfl

/-- A minus behind a postfix expression subtracts the number behind it, if it does not touch that
    number or if the scanner takes the last token of the expression for the end of an operand.
    Otherwise that token is a reserved word that names a property, the minus is a sign, and the number
    is refused. -/
theorem compile_minus (p : PostfixText file text) (n : Lexeme.Numeral)
    (hgap : ∀ c ∈ gap, Scanner.isGap c = true) (hgap' : ∀ c ∈ gap', Scanner.isGap c = true) :
    (gap' ≠ [] ∨ p.last.kind.endsOperand = true → ∃ whole definition difference number,
      compile (subtracting text gap gap' n) file = .ok ⟨whole, [], [.letName definition "v"
        (.binary difference .minus p.value (.number number (n.value false)))]⟩) ∧
    (gap' = [] ∧ p.last.kind.endsOperand = false → p.last.kind.isKeyword = true ∧
      compile (subtracting text gap gap' n) file = .error (quoting (subtracting text gap gap' n)
        (.located (.unexpectedToken "newline or end of file" .number)
          ⟨p.last.span.stop.after gap, (p.last.span.stop.after gap).after ('-' :: n.chars)⟩))) := by
  obtain ⟨hbreaks, hline⟩ := breaks_subtracting n hgap hgap'
  -- the tokens behind the expression
  have hstands : ∀ {later : List Token} {c : Cursor} {k : Nat} {t : Token},
      c.At (p.earlier ++ p.last :: later) (p.earlier.length + 1 + k) → later[k]? = some t →
        c.current = t ∧ (t.kind ≠ .endOfFile →
          c.next.At (p.earlier ++ p.last :: later) (p.earlier.length + 1 + (k + 1))) := by
    intro later c k t hc ht
    have hcurrent : c.current = t := by
      have hplace : (p.earlier ++ p.last :: later)[p.earlier.length + 1 + k]? = later[k]? := by
        rw [List.getElem?_append_right (by omega)]
        simp [Nat.add_assoc, Nat.add_comm 1 k]
      exact Option.some.inj (hc.getElem?.symm.trans (hplace.trans ht))
    refine ⟨hcurrent, fun hkind => ?_⟩
    have hnext := hc.of_leads (.next c)
    rwa [hc.next (by rwa [hcurrent])] at hnext
  refine ⟨fun h => ?_, ?_⟩
  · obtain ⟨ending, hending, hscan⟩ := p.scan_append (.subtraction hgap hgap' h) hbreaks hline
    obtain ⟨c, d, hc, hlet, hrun, hd⟩ := p.exists_run (.head _) (tokens_laidOut hscan)
    obtain ⟨hminus, hd₁⟩ := hstands (k := 0) hd rfl
    obtain ⟨hnumber, hd₂⟩ := hstands (hd₁ nofun) rfl
    obtain ⟨hend, -⟩ := hstands (hd₂ nofun) rfl
    have hexpression := Grammar.run_expression_of_minus hrun (by rw [hminus]; rfl)
      (by rw [hnumber]; rfl) (by rw [hend, hending]; rfl)
    obtain ⟨span, hprogram⟩ := Grammar.run_program_let hlet hexpression (by rw [hend, hending])
    rw [hnumber] at hprogram
    exact ⟨_, _, _, _, compile_eq_of_run hscan hc hprogram⟩
  · rintro ⟨rfl, hkeyword⟩
    have hsign : LineTokens false p.last.span.stop _ _ := .negated (n := n) hgap
    rw [← hkeyword] at hsign
    obtain ⟨ending, hending, hscan⟩ := p.scan_append hsign hbreaks hline
    obtain ⟨c, d, hc, hlet, hrun, hd⟩ := p.exists_run (.tail _ (.head _)) (tokens_laidOut hscan)
    obtain ⟨hnumber, -⟩ := hstands (k := 0) hd rfl
    have hexpression := Grammar.run_expression_of_postfixed hrun (by rw [hnumber]; rfl)
    have hprogram := Grammar.run_program_let_number hlet hexpression (by rw [hnumber]; rfl)
    rw [hnumber] at hprogram
    exact ⟨p.kind_last.resolve_left (by simp [hkeyword]), compile_eq_of_run hscan hc hprogram⟩

/-- Behind a property whose name is a reserved word, `voxel.set`. -/
theorem compile_minus_keyword :
    (∃ program, compile "let v = voxel.set - 1" none = .ok program) ∧
      ∃ d, compile "let v = voxel.set -1" none = .error d ∧
        d.problem = .unexpectedToken "newline or end of file" .number := by
  have hchecks : ((Token.scan (defining "voxel.set") (some (sourceName none))).toOption.bind
      fun tokens => (Cursor.ofTokens? tokens).bind fun c =>
        ((Grammar.postfixed (Grammar.rulesAt (Grammar.depthFor tokens.length))).run
          c.next.next.next).toOption.map fun r =>
            (tokens.length, tokens[5]?.map (fun t => (t.kind, t.span.stop.offset)),
              c.next.next.next.current.kind, r.2.current.kind)) =
      some (7, some (.setWord, 17), .identifier, .endOfFile) := by decide +kernel
  obtain ⟨p, hp⟩ : ∃ p : PostfixText none "voxel.set", p.last.kind = .setWord := by
    obtain ⟨tokens, hscan, hcursor⟩ := Option.bind_eq_some_iff.mp hchecks
    obtain ⟨c, hc, hread⟩ := Option.bind_eq_some_iff.mp hcursor
    obtain ⟨⟨value, stop⟩, hrun, hends⟩ := Option.map_eq_some_iff.mp hread
    simp only [Prod.mk.injEq, Option.map_eq_some_iff] at hends
    obtain ⟨hlength, ⟨last, hlast, hkind, hoffset⟩, hname, hend⟩ := hends
    obtain ⟨earlier, ending, rfl⟩ : ∃ earlier ending, tokens = earlier ++ [last, ending] := by
      obtain ⟨h₅, rfl⟩ := List.getElem?_eq_some_iff.mp hlast
      have h₆ : 6 < tokens.length := by omega
      refine ⟨tokens.take 5, tokens[6], ?_⟩
      rw [← List.drop_of_length_le (l := tokens) (i := 7) (by omega),
        ← List.drop_eq_getElem_cons h₆, ← List.drop_eq_getElem_cons h₅, List.take_append_drop]
    have hlen : (earlier ++ [last, ending]).length = earlier.length + 2 := List.length_append
    rw [hlen] at hrun
    exact ⟨⟨earlier, last, ending, c, stop, value, toOption_eq_some.mp hscan, by rw [hkind]; rfl,
      by rw [hoffset]; decide +kernel, hc, by rw [hname]; nofun, toOption_eq_some.mp hrun, hend⟩,
      hkind⟩
  let one : Lexeme.Numeral := ⟨['1'], [], List.cons_ne_nil _ _, by simp [Char.isDigit], by simp⟩
  have hblank : ∀ c ∈ [' '], Scanner.isGap c = true := by simp [Scanner.isGap, Scanner.isIndent]
  have hnone : ∀ c ∈ ([] : List Char), Scanner.isGap c = true := by simp
  obtain ⟨_, _, _, _, hapart⟩ := (compile_minus p one hblank hblank).1 (.inl (List.cons_ne_nil _ _))
  obtain ⟨-, htouching⟩ := (compile_minus p one hblank hnone).2 ⟨rfl, by rw [hp]; rfl⟩
  exact ⟨⟨_, hapart⟩, _, htouching, rfl⟩

end

end Program

end EventScript
