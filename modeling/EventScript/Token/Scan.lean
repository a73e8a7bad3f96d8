import EventScript.Token.Lexeme

/-! # From a source to its tokens

The scanner walks over the source once.  At the start of a line it measures the leading blanks (a
tab counts as two) and opens or closes indented blocks; lines without content leave the blocks
alone.  A line feed ends a statement unless nothing stands before it.  Every other token is a
`Lexeme`, so every step shortens what is left (`length_rest_step_lt`), and the walk ends.
-/

namespace EventScript

/-- The state of the scanner. -/
structure Scanner where
  /-- What is left of the source. -/
  rest : List Char
  /-- Where that starts. -/
  here : Location
  /-- The widths of the open indented blocks, innermost first. -/
  levels : List Nat
  /-- Nothing of the current line has been looked at. -/
  atLineStart : Bool
  /-- The tokens found, last first. -/
  tokens : List Token

namespace Scanner

/-- The scanner at the start of a source. -/
def start (source : List Char) (file : Option String) : Scanner :=
  ⟨source, .start file, [], true, []⟩

/-- Move over `n` characters. -/
def advance (s : Scanner) (n : Nat) : Scanner :=
  { s with rest := s.rest.drop n, here := s.here.after (s.rest.take n) }

/-- Add a token that starts at a location and ends here. -/
def push (s : Scanner) (kind : TokenKind) (value : Literal) (lexeme : String)
    (start : Location) : Scanner :=
  { s with tokens := ⟨kind, value, lexeme, ⟨start, s.here⟩⟩ :: s.tokens }

/-- Add a layout token, which covers nothing. -/
def pushLayout (s : Scanner) (kind : TokenKind) : Scanner := s.push kind .null "" s.here

/-- Add several layout tokens of one kind. -/
def pushLayouts (s : Scanner) (kind : TokenKind) : Nat → Scanner
  | 0 => s
  | n + 1 => (s.pushLayout kind).pushLayouts kind n

/-- The kind of the last token. -/
def lastKind? (s : Scanner) : Option TokenKind := s.tokens.head?.map (·.kind)

/-- Blanks that count for the indentation. -/
def isIndent (c : Char) : Bool := c == ' ' || c == '\t'

/-- Blanks between the tokens of a line. -/
def isGap (c : Char) : Bool := isIndent c || c == '\r'

/-- The width of leading blanks. -/
def indentWidth (blanks : List Char) : Nat :=
  blanks.foldl (fun n c => n + if c == '\t' then 2 else 1) 0

/-- A line with nothing but blanks and a comment. -/
def isEmptyLine (rest : List Char) : Bool :=
  match rest with
  | [] => true
  | c :: _ => c == '\n' || c == '\r' || (c == '#' && !Lexeme.startsColor rest)

/-- Open a block when the line is further in than the innermost one, and close every block that it
    is not as far in as. -/
def indentTo (s : Scanner) (width : Nat) : Scanner :=
  if width > s.levels.head?.getD 0 then
    { s with levels := width :: s.levels }.pushLayout .indent
  else
    -- a width between two levels closes the inner one and opens none
    let closed := s.levels.takeWhile (· > width)
    { s with levels := s.levels.dropWhile (· > width) }.pushLayouts .dedent closed.length

/-- Look at the indentation of a line that was not looked at yet. -/
def layout (s : Scanner) : Scanner :=
  if s.atLineStart then
    let blanks := s.rest.takeWhile isIndent
    let s := { s.advance blanks.length with atLineStart := false }
    -- a line without content leaves the blocks alone, whatever its blanks are
    if isEmptyLine s.rest then s else s.indentTo (indentWidth blanks)
  else s

/-- Move over the blanks within a line. -/
def skipGap (s : Scanner) : Scanner := s.advance (s.rest.takeWhile isGap).length

/-- Move over a comment. -/
def skipComment (s : Scanner) : Scanner := s.advance (s.rest.takeWhile (· != '\n')).length

/-- Move over a line feed, which ends a statement if there is one. -/
def lineFeed (s : Scanner) : Scanner :=
  let next := { s.advance 1 with atLineStart := true }
  -- behind layout there is no statement to end
  match s.lastKind? with
  | none | some .newline | some .indent | some .dedent => next
  | some _ => next.push .newline .null "\\n" s.here

/-- Take a lexeme at the start of the rest. -/
def take (s : Scanner) (l : Lexeme) : Scanner :=
  (s.advance l.chars.length).push l.kind l.value (String.ofList l.chars) s.here

/-- Scan one token, one line feed or one comment, after the layout and the blanks before it. -/
def step (s : Scanner) : Except Diagnostic Scanner :=
  let s := s.layout.skipGap
  match s.rest with
  | [] => .ok s
  | c :: rest =>
    -- a comment stops before its line feed, which may still end a statement
    if c == '#' && !Lexeme.startsColor (c :: rest) then .ok s.skipComment
    else if c == '\n' then .ok s.lineFeed
    else
      match Lexeme.read (s.lastKind?.any TokenKind.endsOperand) c rest with
      | .ok l => .ok (s.take l)
      | .error (problem, covered) =>
        .error (.located problem ⟨s.here, s.here.after covered⟩)

@[simp] theorem rest_push (s : Scanner) (k : TokenKind) (v : Literal) (t : String) (l : Location) :
    (s.push k v t l).rest = s.rest := rfl

@[simp] theorem rest_pushLayout (s : Scanner) (k : TokenKind) : (s.pushLayout k).rest = s.rest := rfl

@[simp] theorem rest_pushLayouts (s : Scanner) (k : TokenKind) (n : Nat) :
    (s.pushLayouts k n).rest = s.rest := by
  induction n generalizing s with
  | zero => rfl
  | succ n ih => rw [pushLayouts, ih, rest_pushLayout]

@[simp] theorem rest_advance (s : Scanner) (n : Nat) : (s.advance n).rest = s.rest.drop n := rfl

@[simp] theorem rest_indentTo (s : Scanner) (width : Nat) : (s.indentTo width).rest = s.rest := by
  unfold indentTo; split <;> simp

/-- Looking at the layout never gives characters back. -/
theorem length_rest_layout_le (s : Scanner) : s.layout.rest.length ≤ s.rest.length := by
  unfold layout
  split
  · dsimp only
    split <;> simp
  · exact Nat.le_refl _

/-- A step over a source that is not at its end shortens it. -/
theorem length_rest_step_lt {s t : Scanner} (h : s.step = .ok t) (hne : s.rest ≠ []) :
    t.rest.length < s.rest.length := by
  have hpos : 0 < s.rest.length := List.length_pos_iff.mpr hne
  have hle : s.layout.skipGap.rest.length ≤ s.rest.length := by
    have := length_rest_layout_le s
    simp only [skipGap, rest_advance, List.length_drop]
    omega
  unfold step at h
  generalize s.layout.skipGap = u at h hle
  dsimp only at h
  split at h
  · rename_i hu
    injection h with h; subst h
    rw [hu]; exact hpos
  · rename_i c rest hu
    have hlen : u.rest.length = rest.length + 1 := by rw [hu]; rfl
    split at h
    · rename_i hc
      injection h with h; subst h
      have hc : c = '#' := by
        simp only [Bool.and_eq_true, beq_iff_eq] at hc; exact hc.1
      simp only [skipComment, rest_advance, List.length_drop, hu, List.takeWhile_cons, hc]
      simp only [bne_iff_ne, ne_eq, Char.reduceEq, not_false_eq_true, if_true, List.length_cons]
      omega
    · split at h
      · injection h with h; subst h
        have : u.lineFeed.rest = u.rest.drop 1 := by
          unfold lineFeed; dsimp only; split <;> rfl
        rw [this, List.length_drop]; omega
      · split at h
        · injection h with h; subst h
          simp only [take, rest_push, rest_advance, List.length_drop, Lexeme.chars,
            List.length_cons]
          omega
        · exact absurd h (by simp)

/-- Scan to the end of the source. -/
def run (s : Scanner) : Except Diagnostic Scanner :=
  if _hne : s.rest = [] then .ok s
  else
    match _h : s.step with
    | .error d => .error d
    | .ok t => t.run
termination_by s.rest.length
decreasing_by exact length_rest_step_lt _h _hne

/-- Close the open blocks and end the token list. -/
def finish (s : Scanner) : List Token :=
  (({ s with levels := [] }.pushLayouts .dedent s.levels.length).pushLayout .endOfFile).tokens.reverse

end Scanner

/-- The tokens of a source; the last one marks its end. -/
def Token.scan (source : String) (file : Option String) : Except Diagnostic (List Token) :=
  match (Scanner.start source.toList file).run with
  | .ok s => .ok s.finish
  | .error d => .error (d.quoting source)

end EventScript
