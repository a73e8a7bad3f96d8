/-! # Lines of a text

A text is cut at every line boundary: line feed, carriage return (with a following line feed),
vertical tab, form feed, the three information separators, next line, and the Unicode line and
paragraph separators.  The boundary belongs to no line, and nothing after the last boundary makes
no line.
-/

namespace EventScript.Text

/-- The characters that end a line. -/
def isLineBoundary (c : Char) : Bool :=
  let n := c.toNat
  (10 ≤ n && n ≤ 13) || (28 ≤ n && n ≤ 30) || n == 0x85 || n == 0x2028 || n == 0x2029

/-- The lines of a text whose first line starts with `line`, kept in reverse. -/
def linesFrom (line : List Char) : List Char → List (List Char)
  | [] => if line.isEmpty then [] else [line.reverse]
  | '\r' :: '\n' :: rest => line.reverse :: linesFrom [] rest
  | c :: rest =>
    if isLineBoundary c then line.reverse :: linesFrom [] rest else linesFrom (c :: line) rest

/-- The lines of a text, without their boundaries. -/
def lines (cs : List Char) : List (List Char) := linesFrom [] cs

/-- A text without line boundaries is one line. -/
theorem linesFrom_of_forall_not_isLineBoundary (line : List Char) {cs : List Char}
    (h : ∀ c ∈ cs, isLineBoundary c = false) (hne : line ≠ [] ∨ cs ≠ []) :
    linesFrom line cs = [line.reverse ++ cs] := by
  induction cs generalizing line with
  | nil => simpa [linesFrom, List.isEmpty_iff] using hne
  | cons c rest ih =>
    have hc : isLineBoundary c = false := h c (by simp)
    have hr : c ≠ '\r' := by rintro rfl; exact absurd hc (by decide)
    rw [linesFrom]
    · simp only [hc, Bool.false_eq_true, if_false]
      rw [ih (c :: line) (fun d hd => h d (by simp [hd])) (by simp)]
      simp
    · rintro r rfl; exact absurd rfl hr

end EventScript.Text
