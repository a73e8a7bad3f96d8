import EventScript.Diagnostic

/-! # Lexemes

The forms of a single token: numbers, words, quoted strings, colours and operators.  A lexeme is a
non-empty run of characters at the start of a text together with the kind and the value that it
stands for, so that nothing is decoded that was not written.
-/

namespace EventScript

/-- A run of characters that makes a token; it is never empty. -/
structure Lexeme where
  kind : TokenKind
  value : Literal
  head : Char
  tail : List Char

namespace Lexeme

/-- The characters of a lexeme. -/
def chars (l : Lexeme) : List Char := l.head :: l.tail

/-- Digits in base sixteen, of either case. -/
def isHexDigit (c : Char) : Bool :=
  c.isDigit || ('a' ≤ c && c ≤ 'f') || ('A' ≤ c && c ≤ 'F')

/-- Identifiers start with a letter of the basic alphabet or an underscore. -/
def startsWord (c : Char) : Bool := c.isAlpha || c == '_'

/-- Identifiers go on with letters, digits and underscores. -/
def continuesWord (c : Char) : Bool := c.isAlphanum || c == '_'

/-- A hash directly before a digit in base sixteen starts a colour and no comment. -/
def startsColor : List Char → Bool
  | '#' :: c :: _ => isHexDigit c
  | _ => false

/-- A digit starts a number; so does a minus directly before a digit, unless an operand ends just
    before it. -/
def startsNumber (afterOperand : Bool) : List Char → Bool
  | '-' :: c :: _ => c.isDigit && !afterOperand
  | c :: _ => c.isDigit
  | [] => false

/-- The point and the digits of a fraction; a point without a digit behind it is none. -/
def fraction : List Char → List Char
  | '.' :: c :: rest => if c.isDigit then '.' :: (c :: rest).takeWhile Char.isDigit else []
  | _ => []

/-- The number that a run of digits stands for. -/
def digitsValue (digits : List Char) : Nat :=
  digits.foldl (fun n c => 10 * n + (c.toNat - '0'.toNat)) 0

/-- The value of a numeral with a whole part and a fraction that starts with its point. -/
def numeralValue (negative : Bool) (whole fraction : List Char) : Number :=
  match fraction with
  | [] =>
    let n : Int := digitsValue whole
    .int (if negative then -n else n)
  | _ :: places =>
    let digits := digitsValue (whole ++ places)
    let magnitude :=
      (Binary.nearest? digits (Nat.pow 10 places.length)).getD (1 / 0)
    .float (Binary.signed negative magnitude)

/-- The number at the start of a text that starts with a digit or a sign. -/
def number (c : Char) (rest : List Char) : Lexeme :=
  let negative := c == '-'
  let digits := (if negative then rest else c :: rest).takeWhile Char.isDigit
  let behind := (if negative then rest else c :: rest).dropWhile Char.isDigit
  let places := fraction behind
  ⟨.number, .number (numeralValue negative digits places), c,
    (if negative then digits else digits.drop 1) ++ places⟩

/-- The word at the start of a text. -/
def word (c : Char) (rest : List Char) : Lexeme :=
  let tail := rest.takeWhile continuesWord
  let text := String.ofList (c :: tail)
  let kind := TokenKind.ofWord text
  let value := match kind with
    | .boolean => .bool (text == "true")
    | .null => .null
    | _ => .text text
  ⟨kind, value, c, tail⟩

/-- The colour at the start of a text that starts with a hash; its value keeps the hash. -/
def color (rest : List Char) : Lexeme :=
  let tail := rest.takeWhile isHexDigit
  ⟨.string, .text (String.ofList ('#' :: tail)), '#', tail⟩

/-- What a backslash before a character stands for: the usual control characters, or else the
    character itself. -/
def unescape : Char → Char
  | 'n' => '\n'
  | 't' => '\t'
  | 'r' => '\r'
  | c => c

/-- The part of a quoted string behind its opening quote. -/
structure QuotedTail where
  written : List Char
  decoded : List Char
  closed : Bool

/-- Put a decoded character and the way it was written in front. -/
def QuotedTail.cons (written : List Char) (c : Char) (t : QuotedTail) : QuotedTail :=
  ⟨written ++ t.written, c :: t.decoded, t.closed⟩

/-- Read up to the closing quote.  A string that meets a line feed or the end of the text before
    is not closed; what was read then ends before the line feed. -/
def quotedTail (quote : Char) : List Char → QuotedTail
  | [] => ⟨[], [], false⟩
  | '\\' :: [] => ⟨['\\'], [], false⟩
  | '\\' :: c :: rest => (quotedTail quote rest).cons ['\\', c] (unescape c)
  | c :: rest =>
    if c == quote then ⟨[c], [], true⟩
    else if c == '\n' then ⟨[], [], false⟩
    else (quotedTail quote rest).cons [c] c

/-- The operators of two characters. -/
def pairOperator? : Char → Char → Option TokenKind
  | '-', '>' => some .arrow
  | '<', '=' => some .lessEqual
  | '>', '=' => some .greaterEqual
  | '=', '=' => some .equal
  | '!', '=' => some .notEqual
  | _, _ => none

/-- The operators and delimiters of one character. -/
def singleOperator? : Char → Option TokenKind
  | '(' => some .leftParen | ')' => some .rightParen
  | '[' => some .leftBracket | ']' => some .rightBracket
  | '\x7b' => some .leftBrace | '\x7d' => some .rightBrace
  | ':' => some .colon | ',' => some .comma | '.' => some .dot | '=' => some .assign
  | '+' => some .plus | '-' => some .minus | '*' => some .star | '/' => some .slash
  | '%' => some .percent | '<' => some .less | '>' => some .greater
  | '@' => some .atSign | '#' => some .hashSign | '$' => some .dollarSign
  | _ => none

/-- The operator at the start of a text: two characters where they make one. -/
def operator? (c : Char) (rest : List Char) : Option Lexeme :=
  match rest.head?.bind (fun d => (pairOperator? c d).map (·, d)) with
  | some (kind, d) => some ⟨kind, .text (String.ofList [c, d]), c, [d]⟩
  | none => (singleOperator? c).map fun kind => ⟨kind, .text (String.singleton c), c, []⟩

/-- What stands at the start of a text that is no layout, no comment and not empty: a lexeme, or
    the problem with the characters it covers. -/
def read (afterOperand : Bool) (c : Char) (rest : List Char) :
    Except (Problem × List Char) Lexeme :=
  -- the colour comes first: as an operator its hash would stand alone
  if startsColor (c :: rest) then .ok (color rest)
  else if startsNumber afterOperand (c :: rest) then .ok (number c rest)
  else if c == '"' || c == '\'' then
    let t := quotedTail c rest
    if t.closed then .ok ⟨.string, .text (String.ofList t.decoded), c, t.written⟩
    else .error (.unterminatedString, c :: t.written)
  else if startsWord c then .ok (word c rest)
  else
    match operator? c rest with
    | some l => .ok l
    | none => .error (.unexpectedCharacter c, [c])

end Lexeme

end EventScript
