/-! # A place in a YAML document

The rest of the document with the line and column where it starts.  Nodes are set apart by blanks,
line feeds and comments.
-/

namespace EventScript

namespace Yaml

/-- The rest of a document with the place where it starts, both counted from zero. -/
structure Cursor where
  rest : List Char
  line : Nat
  column : Nat

/-- A blank, a tab, a line feed or the end. -/
def isGap : Option Char → Bool
  | none => true
  | some c => c == ' ' || c == '\t' || c == '\n'

namespace Cursor

/-- The place behind some characters of the rest. -/
def behind (c : Cursor) : List Char → Cursor
  | [] => c
  | '\n' :: more => behind ⟨c.rest.drop 1, c.line + 1, 0⟩ more
  | _ :: more => behind ⟨c.rest.drop 1, c.line, c.column + 1⟩ more

/-- The place where a later rest starts. -/
def moveTo (c : Cursor) (rest : List Char) : Cursor :=
  c.behind (c.rest.take (c.rest.length - rest.length))

/-- The place behind the next character. -/
def next (c : Cursor) : Cursor := c.moveTo (c.rest.drop 1)

/-- What stands behind blanks, line feeds and comments. -/
def layoutEnd (inComment : Bool) : List Char → List Char
  | [] => []
  | '\n' :: rest => layoutEnd false rest
  | c :: rest =>
    if inComment then layoutEnd true rest
    else if c == '#' then layoutEnd true rest
    else if c == ' ' then layoutEnd false rest
    else c :: rest

/-- The place behind blanks, line feeds and comments. -/
def skipLayout (c : Cursor) : Cursor := c.moveTo (layoutEnd false c.rest)

/-- The place behind blanks. -/
def skipBlanks (c : Cursor) : Cursor := c.moveTo (c.rest.dropWhile (· == ' '))

/-- A dash that starts an item of a list. -/
def startsItem (c : Cursor) : Bool :=
  match c.rest with
  | '-' :: rest => isGap rest.head?
  | _ => false

/-- A colon that ends a key. -/
def endsKey (c : Cursor) : Bool :=
  match c.rest with
  | ':' :: rest => isGap rest.head?
  | _ => false

end Cursor

/-- Three dashes or points alone, which start or end a document. -/
def isMarker (mark : Char) : List Char → Bool
  | a :: b :: c :: rest => a == mark && b == mark && c == mark && isGap rest.head?
  | _ => false

namespace Cursor

/-- At the start of a line, a marker stands here. -/
def atMarker (c : Cursor) : Bool :=
  c.column == 0 && (isMarker '-' c.rest || isMarker '.' c.rest)

/-- Nothing more of the document is left. -/
def atEnd (c : Cursor) : Bool := c.rest.isEmpty || c.atMarker

end Cursor

end Yaml

end EventScript
