/-! # Searching, splitting and replacing

Occurrences of a pattern are found from left to right and do not overlap.  A text is split between
the occurrences of a separator, and replaced by joining the pieces with something else.
-/

namespace EventScript.Text

/-- Position of the first occurrence of a pattern; the empty pattern occurs at the start. -/
def indexOf? (pattern : List Char) : List Char → Option Nat
  | [] => if pattern.isEmpty then some 0 else none
  | c :: rest =>
    if pattern.isPrefixOf (c :: rest) then some 0 else (indexOf? pattern rest).map (· + 1)

/-- Position of the last occurrence of a pattern; the empty pattern occurs at the end. -/
def lastIndexOf? (pattern : List Char) : List Char → Option Nat
  | [] => if pattern.isEmpty then some 0 else none
  | c :: rest =>
    match lastIndexOf? pattern rest with
    | some i => some (i + 1)
    | none => if pattern.isPrefixOf (c :: rest) then some 0 else none

/-- The pieces between the occurrences of a separator, where `skip` characters belong to an
    occurrence already found and `piece` holds the current piece in reverse. -/
def splitFrom (separator : List Char) (skip : Nat) (piece : List Char) :
    List Char → List (List Char)
  | [] => [piece.reverse]
  | c :: rest =>
    match skip with
    | skip + 1 => splitFrom separator skip piece rest
    | 0 =>
      if separator.isPrefixOf (c :: rest) then
        piece.reverse :: splitFrom separator (separator.length - 1) [] rest
      else splitFrom separator 0 (c :: piece) rest

/-- The pieces of a text between the occurrences of a separator that is not empty. -/
def split (separator text : List Char) : List (List Char) := splitFrom separator 0 [] text

/-- The pieces with a separator between any two of them. -/
def join (separator : List Char) (pieces : List (List Char)) : List Char :=
  separator.intercalate pieces

/-- Write `replacement` for the first occurrence of a pattern. -/
def replaceFirst (pattern replacement text : List Char) : List Char :=
  match indexOf? pattern text with
  | some i => text.take i ++ replacement ++ text.drop (i + pattern.length)
  | none => text

/-- Write `replacement` for every occurrence of a pattern; the empty pattern occurs before each
    character and at the end. -/
def replaceAll (pattern replacement text : List Char) : List Char :=
  if pattern.isEmpty then text.foldr (fun c rest => replacement ++ c :: rest) replacement
  else join replacement (split pattern text)

/-- Whether a pattern occurs in a text. -/
def occursIn (pattern text : List Char) : Bool := (indexOf? pattern text).isSome

end EventScript.Text
