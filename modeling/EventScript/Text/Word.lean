import EventScript.Text.WordRanges
import EventScript.Text.Case

/-! # Words

A word is a longest run of letters, numbers and underscores.  Title case raises the first
character of each word and leaves the others alone.
-/

namespace EventScript.Text

/-- Letters, numbers and the underscore. -/
def isWordChar (c : Char) : Bool :=
  if c.toNat < 128 then c.isAlphanum || c == '_' else inRanges wordRanges c.toNat

/-- Title case of a text that stands inside a word or not. -/
def titleFrom (insideWord : Bool) : List Char → List Char
  | [] => []
  | c :: rest =>
    if isWordChar c then
      (if insideWord then [c] else upperChar c) ++ titleFrom true rest
    else c :: titleFrom false rest

/-- Raise the first character of each word. -/
def titleCase (cs : List Char) : List Char := titleFrom false cs

end EventScript.Text
