import EventScript.Number.Notation

/-! # JSON documents

A document with ordered members, and its printed forms: on one line, or with one item to a line.
Text is written in the basic alphabet; other characters become escapes of their 16-bit units.
-/

namespace EventScript

/-- A document. -/
inductive Json where
  | null
  | bool (b : Bool)
  | int (n : Int)
  | decimal (x : Float)
  | string (s : String)
  | array (items : List Json)
  | object (members : List (String × Json))
  deriving Inhabited

namespace Json

/-- The escape of a 16-bit unit. -/
def unitEscape (n : Nat) : List Char :=
  let digits := Nat.toDigits 16 n
  '\\' :: 'u' :: List.replicate (4 - digits.length) '0' ++ digits

/-- A character of a quoted text. -/
def quotedChar (c : Char) : List Char :=
  match c with
  | '"' => ['\\', '"']
  | '\\' => ['\\', '\\']
  | '\n' => ['\\', 'n']
  | '\r' => ['\\', 'r']
  | '\t' => ['\\', 't']
  | '\x08' => ['\\', 'b']
  | '\x0c' => ['\\', 'f']
  | c =>
    let n := c.toNat
    if 32 ≤ n && n < 127 then [c]
    else if n < 0x10000 then unitEscape n
    else unitEscape (0xD800 + (n - 0x10000) / 0x400) ++ unitEscape (0xDC00 + (n - 0x10000) % 0x400)

/-- A quoted text. -/
def quoted (s : String) : String := String.ofList ('"' :: s.toList.flatMap quotedChar ++ ['"'])

mutual

/-- The document on one line. -/
def compact : Json → String
  | null => "null"
  | bool b => if b then "true" else "false"
  | int n => toString n
  | decimal x => floatLiteral x
  | string s => quoted s
  | array items => "[" ++ ",".intercalate (compactItems items) ++ "]"
  | object members => "\x7b" ++ ",".intercalate (compactMembers members) ++ "\x7d"

/-- The items of an array, each on one line. -/
def compactItems : List Json → List String
  | [] => []
  | j :: rest => j.compact :: compactItems rest

/-- The members of an object, each on one line. -/
def compactMembers : List (String × Json) → List String
  | [] => []
  | (key, j) :: rest => (quoted key ++ ":" ++ j.compact) :: compactMembers rest

end

/-- Parts between brackets, one to a line and two blanks further in; no parts take no line. -/
def bracketed (left right : String) (indent : Nat) (parts : List String) : String :=
  if parts.isEmpty then left ++ right
  else
    let lineStart := "\n".pushn ' ' (2 * (indent + 1))
    left ++ ",".intercalate (parts.map (lineStart ++ ·)) ++ "\n".pushn ' ' (2 * indent) ++ right

mutual

/-- The document with one item to a line, at a depth of indentation. -/
def prettyAt (indent : Nat) : Json → String
  | null => "null"
  | bool b => if b then "true" else "false"
  | int n => toString n
  | decimal x => floatLiteral x
  | string s => quoted s
  | array items => bracketed "[" "]" indent (prettyItems (indent + 1) items)
  | object members => bracketed "\x7b" "\x7d" indent (prettyMembers (indent + 1) members)

/-- The items of an array, at a depth of indentation. -/
def prettyItems (indent : Nat) : List Json → List String
  | [] => []
  | j :: rest => j.prettyAt indent :: prettyItems indent rest

/-- The members of an object, at a depth of indentation. -/
def prettyMembers (indent : Nat) : List (String × Json) → List String
  | [] => []
  | (key, j) :: rest => (quoted key ++ ": " ++ j.prettyAt indent) :: prettyMembers indent rest

end

/-- The document with one item to a line. -/
def pretty (j : Json) : String := j.prettyAt 0

end Json

end EventScript
