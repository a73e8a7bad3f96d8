import EventScript.Diagnostic
import EventScript.Tree

/-! # Reading a token list

A cursor stands on a token and knows the tokens behind it, where the last token it passed ended,
and how many loops enclose it in the current function.  The end-of-file token is never passed.
`Parse` threads a cursor through a computation that ends at the first problem; a computation never
goes back (`Cursor.Leads`), which is part of what it is.

Besides its result a reading leaves a record of the constructs it went through.  No rule looks at
that record: it says where in the token list a construct was opened and closed.
-/

namespace EventScript

/-- The constructs that are written as indented lines. -/
inductive Construct
  | block | matchBody | schemaBody | schemaSection | instanceBody
  deriving Repr, DecidableEq

/-- What is kept of a reading besides its result.  A place is the number of tokens before it. -/
inductive Reading
  /-- An indented construct, with the places of the tokens that opened and closed it; at the end of
      the file there may be none to close it. -/
  | enclosed (construct : Construct) (opening : Nat) (closing : Option Nat)
  /-- A map literal or a map pattern, with the places of its braces and its part of the source. -/
  | braced (first last : Nat) (span : Span)
  /-- A token of layout that means nothing where it stands. -/
  | skipped (place : Nat)
  /-- A token that a schema body does not know. -/
  | unknown (place : Nat)

/-- A place in a token list. -/
structure Cursor where
  current : Token
  rest : List Token
  /-- The end of the last token passed; before the first step, of the first token. -/
  lastStop : Location
  /-- The loops around this place, within the current function. -/
  loops : Nat
  /-- How many tokens were passed. -/
  passed : Nat
  /-- What was read up to here, last first. -/
  readings : List Reading
  /-- The places up to here where line breaks mean nothing, last first. -/
  breaks : List Nat

namespace Cursor

/-- The cursor at the start of a token list; an empty one has nothing to stand on. -/
def ofTokens? : List Token → Option Cursor
  | [] => none
  | t :: rest => some ⟨t, rest, t.span.stop, 0, 0, [], []⟩

/-- The tokens that were not passed. -/
def left (c : Cursor) : List Token := c.current :: c.rest

/-- The number of tokens that were not passed. -/
def tokensLeft (c : Cursor) : Nat := c.rest.length + 1

/-- The cursor stands on the end of the file. -/
def atEnd (c : Cursor) : Bool := c.current.kind == .endOfFile

/-- Pass the current token; the end of the file stays. -/
def next (c : Cursor) : Cursor :=
  if c.atEnd then c
  else
    match c.rest with
    | [] => c
    | t :: rest =>
      { c with current := t, rest := rest, lastStop := c.current.span.stop, passed := c.passed + 1 }

/-- The kind of the token a number of places ahead, where there is one. -/
def kindAhead? (c : Cursor) : Nat → Option TokenKind
  | 0 => some c.current.kind
  | n + 1 => c.rest[n]?.map (·.kind)

/-- A cursor is further on than another one: it has passed more tokens and knows where the last of
    them ended, and it has added to the records nothing that lies before that one. -/
structure Leads (c c' : Cursor) : Prop where
  tokens : ∃ n, c'.passed = c.passed + n ∧ c'.left = c.left.drop n
  stop : c'.passed = c.passed ∧ c'.lastStop = c.lastStop ∨
    ∃ n t, c'.passed = c.passed + n + 1 ∧ c.left[n]? = some t ∧ c'.lastStop = t.span.stop
  readings : ∃ new, c'.readings = new ++ c.readings
  breaks : ∃ new, c'.breaks = new ++ c.breaks ∧ ∀ i ∈ new, c.passed ≤ i

namespace Leads

variable {c c' c'' : Cursor}

theorem refl (c : Cursor) : c.Leads c :=
  ⟨⟨0, rfl, rfl⟩, .inl ⟨rfl, rfl⟩, ⟨[], rfl⟩, ⟨[], rfl, by simp⟩⟩

theorem trans (h : c.Leads c') (h' : c'.Leads c'') : c.Leads c'' := by
  obtain ⟨⟨n, hn, hleft⟩, hstop, ⟨rs, hrs⟩, bs, hbs, hplaces⟩ := h
  obtain ⟨⟨n', hn', hleft'⟩, hstop', ⟨rs', hrs'⟩, bs', hbs', hplaces'⟩ := h'
  refine ⟨⟨n + n', by omega, by rw [hleft', hleft, List.drop_drop]⟩, ?_, ⟨rs' ++ rs, ?_⟩,
    bs' ++ bs, ?_, ?_⟩
  · rcases hstop' with ⟨hsame, hlast⟩ | ⟨m, t, hm, ht, hlast⟩
    · rw [hsame, hlast]
      exact hstop
    · rw [hleft, List.getElem?_drop] at ht
      exact .inr ⟨n + m, t, by omega, ht, hlast⟩
  · rw [hrs', hrs, List.append_assoc]
  · rw [hbs', hbs, List.append_assoc]
  · intro i hi
    rcases List.mem_append.mp hi with hi | hi
    · have := hplaces' i hi
      omega
    · exact hplaces i hi

theorem next (c : Cursor) : c.Leads c.next := by
  unfold Cursor.next
  split
  · exact .refl c
  · split
    · exact .refl c
    · rename_i t rest hrest
      refine ⟨⟨1, rfl, ?_⟩, .inr ⟨0, c.current, rfl, rfl, rfl⟩, ⟨[], rfl⟩, ⟨[], rfl, by simp⟩⟩
      rw [left, left, hrest]
      rfl

end Leads

end Cursor

/-- A computation that reads tokens: from a cursor on it leads to a result and a cursor that is
    further on, or to a problem. -/
structure Parse (α : Type) where
  run : Cursor → Except Diagnostic (α × Cursor)
  leads {c c' : Cursor} {a : α} : run c = .ok (a, c') → c.Leads c'

namespace Parse

variable {α β : Type}

/-- The result of a computation, which reads nothing. -/
protected def pure (a : α) : Parse α where
  run c := .ok (a, c)
  leads h := by
    cases h
    exact .refl _

/-- One computation, and then another one that may depend on the result of the first. -/
protected def bind (p : Parse α) (f : α → Parse β) : Parse β where
  run c :=
    match p.run c with
    | .ok (a, c') => (f a).run c'
    | .error d => .error d
  leads {c c'} b h := by
    split at h
    · rename_i hp
      exact (p.leads hp).trans ((f _).leads h)
    · cases h

instance : Monad Parse where
  pure := Parse.pure
  bind := Parse.bind

/-- Give up with a problem. -/
def fail (d : Diagnostic) : Parse α where
  run _ := .error d
  leads h := nomatch h

/-- Something about the cursor. -/
def ask (f : Cursor → α) : Parse α where
  run c := .ok (f c, c)
  leads h := by
    cases h
    exact .refl _

/-- Pass the current token and give it. -/
def advance : Parse Token where
  run c := .ok (c.current, c.next)
  leads {c} _ _ h := by
    cases h
    exact .next c

/-- Go on with another number of loops around. -/
def setLoops (f : Nat → Nat) : Parse Unit where
  run c := .ok ((), { c with loops := f c.loops })
  leads h := by
    cases h
    exact ⟨⟨0, rfl, rfl⟩, .inl ⟨rfl, rfl⟩, ⟨[], rfl⟩, ⟨[], rfl, by simp⟩⟩

/-- Put something on record. -/
def note (r : Reading) : Parse Unit where
  run c := .ok ((), { c with readings := r :: c.readings })
  leads h := by
    cases h
    exact ⟨⟨0, rfl, rfl⟩, .inl ⟨rfl, rfl⟩, ⟨[r], rfl⟩, ⟨[], rfl, by simp⟩⟩

/-- Put on record that line breaks mean nothing here. -/
def noteBreak : Parse Unit where
  run c := .ok ((), { c with breaks := c.passed :: c.breaks })
  leads {c} _ _ h := by
    cases h
    exact ⟨⟨0, rfl, rfl⟩, .inl ⟨rfl, rfl⟩, ⟨[], rfl⟩, ⟨[c.passed], rfl, by simp⟩⟩

/-- The place of the current token. -/
def place : Parse Nat := ask Cursor.passed

/-- The number of tokens left, which bounds every loop over them. -/
def tokensLeft : Parse Nat := ask Cursor.tokensLeft

/-- The current token. -/
def current : Parse Token := ask Cursor.current

/-- The kind of the current token. -/
def kind : Parse TokenKind := ask (·.current.kind)

/-- The current token is of a kind. -/
def atKind (k : TokenKind) : Parse Bool := ask (·.current.kind == k)

/-- The current token is of one of several kinds. -/
def atAny (ks : List TokenKind) : Parse Bool := ask (ks.contains ·.current.kind)

/-- The current token is an identifier with a given text. -/
def atWord (word : String) : Parse Bool :=
  ask fun c => c.current.kind == .identifier && c.current.word == word

/-- The token a number of places ahead is of a kind. -/
def isAhead (places : Nat) (k : TokenKind) : Parse Bool := ask (·.kindAhead? places == some k)

/-- Give up: something else was expected here. -/
def expected (what : String) : Parse α := do
  let t ← current
  fail (.located
    (if t.kind == .endOfFile then .unexpectedEnd what else .unexpectedToken what t.kind) t.span)

/-- Pass a token of a kind that must stand here. -/
def expect (k : TokenKind) (what : String) : Parse Token := do
  if ← atKind k then advance else expected what

/-- Pass a token of a kind if it stands here. -/
def accept (k : TokenKind) : Parse Bool := do
  if ← atKind k then
    let _ ← advance
    return true
  else return false

/-- What a token of a kind announces, if one stands here. -/
def optional (k : TokenKind) (p : Parse α) : Parse (Option α) := do
  if ← accept k then some <$> p else return none

/-- Pass tokens as long as their kinds satisfy a test, each in the same way; `bound` is at least the
    number of tokens left. -/
def skipFrom (test : TokenKind → Bool) (pass : Parse Token) : Nat → Parse Unit
  | 0 => expected "token"
  | bound + 1 => do
    if test (← kind) then
      let _ ← pass
      skipFrom test pass bound

/-- Pass the ends of empty statements. -/
def skipNewlines : Parse Unit := do
  skipFrom (· == .newline) advance (← tokensLeft)

/-- Pass a token of layout that means nothing. -/
def passLayout : Parse Token := do
  note (.skipped (← place))
  advance

/-- Pass a token that a schema body does not know. -/
def passUnknown : Parse Token := do
  note (.unknown (← place))
  advance

/-- Pass all layout: line breaks mean nothing between braces. -/
def skipLayout : Parse Unit := do
  skipFrom TokenKind.isLayout passLayout (← tokensLeft)
  noteBreak

/-- The kinds that end a statement by themselves. -/
def statementEnds : List TokenKind := [.newline, .dedent, .endOfFile]

/-- The kinds that may follow a statement on its line: they belong to a call or literal around the
    block lambda that the statement stands in. -/
def statementFollowers : List TokenKind := [.comma, .rightParen, .rightBracket, .rightBrace]

/-- The end of a statement, with the empty statements behind it. -/
def endStatement : Parse Unit := do
  -- a statement in a block lambda may be followed by what goes on around the lambda
  if ← atAny (statementEnds ++ statementFollowers) then skipNewlines
  else expected "newline or end of file"

/-- The span from the start of a token to the end of the last token passed. -/
def spanFrom (start : Token) : Parse Span := return ⟨start.span.start, ← ask Cursor.lastStop⟩

/-- Run a computation inside one more loop. -/
def insideLoop (p : Parse α) : Parse α := do
  setLoops (· + 1)
  let a ← p
  setLoops (· - 1)
  return a

/-- Run a computation outside of all loops: a function does not see the loops around it. -/
def outsideLoops (p : Parse α) : Parse α := do
  let loops ← ask Cursor.loops
  setLoops fun _ => 0
  let a ← p
  setLoops fun _ => loops
  return a

/-- The comma behind an item, which only the last one can do without. -/
def separator (close : TokenKind) (what : String) : Parse Unit := do
  if !(← atKind close) then
    let _ ← expect .comma what

/-- Items up to a closing token, which stays, with commas between them and an optional one at the
    end; `bound` is at least the number of tokens left. -/
def separatedFrom (close : TokenKind) (what : String) (item : Parse α) : Nat → Parse (List α)
  | 0 => expected what
  | bound + 1 => do
    if ← atKind close then return []
    let a ← item
    separator close what
    return a :: (← separatedFrom close what item bound)

/-- Items up to a closing token, which stays, with commas between them. -/
def separated (close : TokenKind) (what : String) (item : Parse α) : Parse (List α) := do
  separatedFrom close what item (← tokensLeft)

/-- Items up to the end of an indented block or of the file. -/
def itemsFrom (item : Parse α) : Nat → Parse (List α)
  | 0 => expected "indented block"
  | bound + 1 => do
    if ← atAny [.dedent, .endOfFile] then return []
    skipNewlines
    -- the empty statements may have been the last ones of the block
    if ← atKind .dedent then return []
    let a ← item
    return a :: (← itemsFrom item bound)

/-- The items of an indented construct, from the end of the line before it to its end. -/
def indented (construct : Construct) (item : Parse α) : Parse (List α) := do
  endStatement
  let opening ← place
  let _ ← expect .indent "indented block"
  let items ← itemsFrom item (← tokensLeft)
  let closing ← place
  let closed ← accept .dedent
  note (.enclosed construct opening (if closed then some closing else none))
  return items

end Parse

end EventScript
