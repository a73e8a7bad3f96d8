import EventScript.Yaml.Cursor
import EventScript.Yaml.Scalar

/-! # Scalars of YAML as they are written

Quoted scalars, where a line break counts as a blank and blank lines as line feeds, and scalars
without quotes, which go on over lines that stand further in.
-/

namespace EventScript

namespace Yaml

/-- The line breaks in front of the next text, with what stands behind the blanks after them. -/
def skipBreaks (breaks : Nat) : List Char → Nat × List Char
  | '\n' :: rest => skipBreaks (breaks + 1) rest
  | c :: rest => if c == ' ' || c == '\t' then skipBreaks breaks rest else (breaks, c :: rest)
  | [] => (breaks, [])

/-- What a number of line breaks count as: the only one is a blank, and otherwise the first one
    does not count. -/
def folded (breaks : Nat) : List Char :=
  if breaks = 1 then [' '] else List.replicate (breaks - 1) '\n'

/-- The character of an escape of one letter. -/
def escaped? (c : Char) : Option Char :=
  [('0', '\x00'), ('a', '\x07'), ('b', '\x08'), ('t', '\t'), ('\t', '\t'), ('n', '\n'),
   ('v', '\x0b'), ('f', '\x0c'), ('r', '\r'), ('e', '\x1b'), (' ', ' '), ('"', '"'), ('\\', '\\'),
   ('/', '/'), ('N', '\x85'), ('_', '\xa0'), ('L', '\u2028'), ('P', '\u2029')].lookup c

/-- The number of digits behind the letter of a numbered escape. -/
def escapeWidth? (c : Char) : Option Nat := [('x', 2), ('u', 4), ('U', 8)].lookup c

/-- The character of a numbered escape, from its digits. -/
def numbered? (width : Nat) (cs : List Char) : Option Char := do
  let digits ← (cs.take width).mapM hexValue?
  if digits.length < width then none
  let n := Numeral.ofDigits 16 digits
  if n.isValidChar then some (Char.ofNat n) else none

/-- The rest of a text between double quotes, with what stands behind it. -/
def doubleQuoted : Nat → List Char → List Char → Option (List Char × List Char)
  | 0, _, _ => none
  | bound + 1, acc, cs =>
    match cs with
    | [] => none
    | '"' :: rest => some (acc.reverse, rest)
    -- a line that ends with a backslash goes on without a blank
    | '\\' :: '\n' :: rest =>
      let (breaks, rest) := skipBreaks 0 rest
      doubleQuoted bound (List.replicate breaks '\n' ++ acc) rest
    | '\\' :: c :: rest =>
      match escaped? c, escapeWidth? c with
      | some d, _ => doubleQuoted bound (d :: acc) rest
      | none, some width => do
        let d ← numbered? width rest
        doubleQuoted bound (d :: acc) (rest.drop width)
      | none, none => none
    | c :: rest =>
      if c == ' ' || c == '\t' || c == '\n' then
        let blanks := cs.takeWhile fun c => c == ' ' || c == '\t'
        let (breaks, rest) := skipBreaks 0 cs
        -- blanks within a line stay; around a line break they do not count
        if breaks = 0 then doubleQuoted bound (blanks.reverse ++ acc) rest
        else doubleQuoted bound ((folded breaks).reverse ++ acc) rest
      else doubleQuoted bound (c :: acc) rest

/-- The rest of a text between single quotes, with what stands behind it. -/
def singleQuoted : Nat → List Char → List Char → Option (List Char × List Char)
  | 0, _, _ => none
  | bound + 1, acc, cs =>
    match cs with
    | [] => none
    | '\'' :: '\'' :: rest => singleQuoted bound ('\'' :: acc) rest
    | '\'' :: rest => some (acc.reverse, rest)
    | c :: rest =>
      if c == ' ' || c == '\t' || c == '\n' then
        let blanks := cs.takeWhile fun c => c == ' ' || c == '\t'
        let (breaks, rest) := skipBreaks 0 cs
        if breaks = 0 then singleQuoted bound (blanks.reverse ++ acc) rest
        else singleQuoted bound ((folded breaks).reverse ++ acc) rest
      else singleQuoted bound (c :: acc) rest

/-- The characters that set brackets and their items apart. -/
def isBracketMark (c : Char) : Bool :=
  c == ',' || c == '[' || c == ']' || c == '\x7b' || c == '\x7d'

/-- A colon in front of this ends an unquoted scalar. -/
def isAfterKey (inBrackets : Bool) (c : Option Char) : Bool :=
  isGap c || (inBrackets && (c.map isBracketMark).getD false)

/-- The characters of an unquoted scalar up to a blank or a mark. -/
def unquotedChunk (inBrackets : Bool) : List Char → List Char
  | [] => []
  | c :: rest =>
    if isGap (some c) || (c == ':' && isAfterKey inBrackets rest.head?) ||
        (inBrackets && (isBracketMark c || c == '?')) then []
    else c :: unquotedChunk inBrackets rest

/-- Characters that start no unquoted scalar. -/
def indicators : List Char :=
  ['-', '?', ':', ',', '[', ']', '\x7b', '\x7d', '#', '&', '*', '!', '|', '>', '\'', '"', '%', '@',
   '\x60']

/-- An unquoted scalar can start here. -/
def startsUnquoted (inBrackets : Bool) : List Char → Bool
  | [] => false
  | c :: rest =>
    !(isGap (some c) || indicators.contains c) ||
      (!isGap rest.head? && (c == '-' || (!inBrackets && (c == '?' || c == ':'))))

/-- An unquoted scalar from the text so far on, where lines that go on with it stand at least at a
    column, with the place behind it. -/
def unquotedFrom (inBrackets : Bool) (indent : Nat) :
    Nat → List Char → Cursor → List Char × Cursor
  | 0, acc, c => (acc, c)
  | bound + 1, acc, c =>
    let blanks := c.rest.takeWhile (· == ' ')
    let afterBlanks := c.skipBlanks
    let (breaks, _) := skipBreaks 0 (afterBlanks.rest.takeWhile fun x => x == ' ' || x == '\n')
    let there := c.moveTo (c.rest.dropWhile fun x => x == ' ' || x == '\n')
    let gap := if breaks = 0 then blanks else folded breaks
    -- the scalar ends at a mark, at a comment, or at a line that does not stand further in
    if gap.isEmpty || there.atMarker || there.rest.head? == some '#' ||
        (!inBrackets && there.column < indent) then (acc, there)
    else
      match unquotedChunk inBrackets there.rest with
      | [] => (acc, there)
      | chunk =>
        unquotedFrom inBrackets indent bound (acc ++ gap ++ chunk)
          (there.moveTo (there.rest.drop chunk.length))

/-- A scalar, with the place behind it. -/
def scalar (inBrackets : Bool) (indent : Nat) (c : Cursor) : Option (Literal × Cursor) :=
  match c.rest with
  | '"' :: rest =>
    (doubleQuoted (rest.length + 1) [] rest).map fun (t, rest) =>
      (.text (String.ofList t), c.moveTo rest)
  | '\'' :: rest =>
    (singleQuoted (rest.length + 1) [] rest).map fun (t, rest) =>
      (.text (String.ofList t), c.moveTo rest)
  | rest =>
    if startsUnquoted inBrackets rest then
      let chunk := unquotedChunk inBrackets rest
      let (t, behind) :=
        unquotedFrom inBrackets indent rest.length chunk (c.moveTo (rest.drop chunk.length))
      some (plainScalar t, behind)
    else none

end Yaml

end EventScript
