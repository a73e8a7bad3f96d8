import EventScript.Plain
import EventScript.Yaml.Quoted

/-! # YAML documents

A document is a node: a scalar, a list or map between brackets, or a list or map whose items or
keys stand below each other in one column.  Keys are scalars on one line.  A value stands behind
its key or further in below it; a list may also stand right below its key.  Anchors, tags, block
scalars and directives are not taken.
-/

namespace EventScript

namespace Yaml

/-- The key that a node makes; lists and maps make none. -/
def key? : Plain → Option Key
  | .literal l => some (Plain.key l)
  | _ => none

mutual

/-- A node between brackets. -/
def bracketed : Nat → Cursor → Option (Plain × Cursor)
  | 0, _ => none
  | bound + 1, c =>
    match c.rest with
    | '[' :: _ => bracketedItems bound [] c.next.skipLayout
    | '\x7b' :: _ => bracketedEntries bound [] c.next.skipLayout
    | _ => (scalar true 0 c).map fun (l, c) => (.literal l, c)

/-- The value behind the colon of a key between brackets, if the colon stands on the line of the
    key; without a value it is null. -/
def bracketedValue : Nat → (line : Nat) → Cursor → Option (Plain × Cursor)
  | 0, _, _ => none
  | bound + 1, line, c =>
    if c.line != line then none
    else
      let there := c.next.skipLayout
      match there.rest with
      | ',' :: _ | ']' :: _ | '\x7d' :: _ => some (.literal .null, there)
      | _ => bracketed bound there

/-- The items of a list from one of them on, behind those before it in reverse. -/
def bracketedItems : Nat → List Plain → Cursor → Option (Plain × Cursor)
  | 0, _, _ => none
  | bound + 1, before, c =>
    match c.rest with
    | ']' :: _ => some (.list before.reverse, c.next)
    | _ => do
      let (item, behind) ← bracketed bound c
      let behind := behind.skipLayout
      let (item, behind) ←
        if behind.rest.head? == some ':' then do
          let (v, behind) ← bracketedValue bound c.line behind
          let k ← key? item
          pure (Plain.ofEntries [(k, v)], behind.skipLayout)
        else pure (item, behind)
      match behind.rest with
      | ',' :: _ => bracketedItems bound (item :: before) behind.next.skipLayout
      | ']' :: _ => some (.list (item :: before).reverse, behind.next)
      | _ => none

/-- The entries of a map from one of them on, behind those before it in reverse. -/
def bracketedEntries : Nat → List (Key × Plain) → Cursor → Option (Plain × Cursor)
  | 0, _, _ => none
  | bound + 1, before, c =>
    match c.rest with
    | '\x7d' :: _ => some (Plain.ofEntries before.reverse, c.next)
    | _ => do
      let (k, behind) ← bracketed bound c
      let k ← key? k
      let behind := behind.skipLayout
      let (v, behind) ←
        if behind.rest.head? == some ':' then bracketedValue bound c.line behind
        else pure (.literal .null, behind)
      let behind := behind.skipLayout
      match behind.rest with
      | ',' :: _ => bracketedEntries bound ((k, v) :: before) behind.next.skipLayout
      | '\x7d' :: _ => some (Plain.ofEntries ((k, v) :: before).reverse, behind.next)
      | _ => none

end

/-- A scalar or a node between brackets, which goes on over lines from a column on. -/
def inline (bound indent : Nat) (c : Cursor) : Option (Plain × Cursor) :=
  match c.rest with
  | '[' :: _ | '\x7b' :: _ => bracketed bound c
  | _ => (scalar false indent c).map fun (l, c) => (.literal l, c)

/-- A key with the place of its colon, if a key stands here: a node on one line with a colon
    behind it. -/
def keyAt? (bound indent : Nat) (c : Cursor) : Option (Plain × Cursor) := do
  let (p, behind) ← inline bound indent c
  let behind := behind.skipBlanks
  if behind.line == c.line && behind.endsKey then some (p, behind) else none

mutual

/-- A node of any kind, which goes on over lines from a column on. -/
def node : Nat → Nat → Cursor → Option (Plain × Cursor)
  | 0, _, _ => none
  | bound + 1, indent, c =>
    if c.startsItem then listItems bound c.column [] c
    else
      match keyAt? bound indent c with
      | some (k, colon) => do mapEntries bound c.column [] (← key? k) colon
      | none => inline bound indent c

/-- The items of a list in a column, from the dash of one of them on, behind those before it in
    reverse. -/
def listItems : Nat → Nat → List Plain → Cursor → Option (Plain × Cursor)
  | 0, _, _, _ => none
  | bound + 1, column, before, dash => do
    let there := dash.next.skipLayout
    let (item, behind) ←
      if !there.atEnd && (there.line == dash.line || column < there.column) then
        node bound (column + 1) there
      else pure (.literal .null, there)
    let behind := behind.skipLayout
    if behind.atEnd || behind.column < column then some (.list (item :: before).reverse, behind)
    else if behind.column == column then
      if behind.startsItem then listItems bound column (item :: before) behind
      else some (.list (item :: before).reverse, behind)
    else none

/-- The entries of a map in a column, from the colon of one of them on, behind those before it in
    reverse. -/
def mapEntries : Nat → Nat → List (Key × Plain) → Key → Cursor → Option (Plain × Cursor)
  | 0, _, _, _, _ => none
  | bound + 1, column, before, k, colon => do
    let there := colon.next.skipLayout
    let (v, behind) ←
      if there.atEnd then pure (.literal .null, there)
      else if there.line == colon.line then inline bound (column + 1) there
      else if column < there.column then node bound (column + 1) there
      else if there.column == column && there.startsItem then listItems bound column [] there
      else pure (.literal .null, there)
    let behind := behind.skipLayout
    let entries := (k, v) :: before
    if behind.atEnd || behind.column < column then
      some (Plain.ofEntries entries.reverse, behind)
    else if behind.column == column then do
      let (next, colon) ← keyAt? bound (column + 1) behind
      mapEntries bound column entries (← key? next) colon
    else none

end

/-- Characters that a document may hold. -/
def isAllowed (c : Char) : Bool :=
  c == '\t' || c == '\n' || c == '\r' || (' ' ≤ c && c ≤ '~') || c == '\x85' ||
    ('\xa0' ≤ c && c.toNat != 0xfffe && c.toNat != 0xffff)

/-- Line breaks of every kind as line feeds. -/
def plainBreaks : List Char → List Char
  | '\r' :: '\n' :: rest => '\n' :: plainBreaks rest
  | c :: rest => (if c == '\r' || c == '\x85' then '\n' else c) :: plainBreaks rest
  | [] => []

/-- Nothing is left but perhaps the mark of the end. -/
def isFinished (c : Cursor) : Bool :=
  let c := c.skipLayout
  c.rest.isEmpty ||
    (c.column == 0 && isMarker '.' c.rest && (c.moveTo (c.rest.drop 3)).skipLayout.rest.isEmpty)

/-- The node of a document; an empty one is null. -/
def root (bound : Nat) (c : Cursor) : Option (Plain × Cursor) :=
  let start := c.skipLayout
  if start.column == 0 && isMarker '-' start.rest then
    let there := (start.moveTo (start.rest.drop 3)).skipLayout
    if there.atEnd then some (.literal .null, there)
    else if there.line == start.line then inline bound 0 there
    else node bound 0 there
  else if start.rest.isEmpty then some (.literal .null, start)
  else node bound 0 start

/-- Levels that are enough for a text: every level passes a character or is one of a few on its
    way to the next one. -/
def levelsFor (cs : List Char) : Nat := 4 * cs.length + 4

/-- A text without the mark of its byte order. -/
def withoutByteOrder : List Char → List Char
  | '\ufeff' :: rest => rest
  | cs => cs

end Yaml

/-- The datum of a YAML document. -/
def Plain.ofYaml? (text : String) : Option Plain := do
  let cs := Yaml.plainBreaks (Yaml.withoutByteOrder text.toList)
  if !cs.all Yaml.isAllowed then none
  let (p, behind) ← Yaml.root (Yaml.levelsFor cs) ⟨cs, 0, 0⟩
  if Yaml.isFinished behind then some p else none

end EventScript
