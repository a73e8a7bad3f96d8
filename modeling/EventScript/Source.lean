import EventScript.Text.Line

/-! # Positions in a source text

A location counts lines and columns from one and characters from zero; only the line feed starts a
new line.  A span runs from a location up to and excluding another.  The excerpt that accompanies
a diagnostic is a line in the sense of `Text.lines`.
-/

namespace EventScript

/-- A place between two characters of a source. -/
structure Location where
  line : Nat
  column : Nat
  offset : Nat
  file : Option String
  deriving Repr, DecidableEq, Inhabited

namespace Location

/-- The start of a source. -/
def start (file : Option String) : Location := ⟨1, 1, 0, file⟩

/-- The place behind one more character. -/
def next (l : Location) (c : Char) : Location :=
  if c == '\n' then { l with line := l.line + 1, column := 1, offset := l.offset + 1 }
  else { l with column := l.column + 1, offset := l.offset + 1 }

/-- The place behind a run of characters. -/
def after (l : Location) (cs : List Char) : Location := cs.foldl next l

@[simp] theorem after_nil (l : Location) : l.after [] = l := rfl

@[simp] theorem after_append (l : Location) (cs ds : List Char) :
    l.after (cs ++ ds) = (l.after cs).after ds := by simp [after]

@[simp] theorem offset_next (l : Location) (c : Char) : (l.next c).offset = l.offset + 1 := by
  unfold next; split <;> rfl

@[simp] theorem offset_after (l : Location) (cs : List Char) :
    (l.after cs).offset = l.offset + cs.length := by
  induction cs generalizing l with
  | nil => simp
  | cons c cs ih => simp [after, List.foldl_cons] at ih ⊢; rw [ih]; simp; omega

/-- File (where there is one), line and column. -/
def text (l : Location) : String :=
  match l.file with
  | none | some "" => s!"{l.line}:{l.column}"
  | some file => s!"{file}:{l.line}:{l.column}"

end Location

/-- The part of a source between two locations. -/
structure Span where
  start : Location
  stop : Location
  deriving Repr, DecidableEq, Inhabited

namespace Span

/-- File (where there is one), and line and column of both ends. -/
def text (s : Span) : String := s!"{s.start.text}-{s.stop.line}:{s.stop.column}"

end Span

/-- The line of a source with a given number, counted from one. -/
def sourceLine? (source : String) (line : Nat) : Option String :=
  match line with
  | 0 => none
  | n + 1 => (Text.lines source.toList)[n]?.map String.ofList

end EventScript
