import EventScript.Text.CaseRanges

/-! # Upper and lower case

The full case mappings: a character may have several characters as its upper case, and a capital
sigma becomes a final sigma exactly at the end of a cased word.
-/

namespace EventScript.Text

/-- Membership of a code point in a table of ranges. -/
def inRanges (ranges : List (Nat × Nat)) (n : Nat) : Bool :=
  ranges.any fun r => r.1 ≤ n && n ≤ r.2

/-- The run covers the code point. -/
def CaseRun.covers (run : CaseRun) (n : Nat) : Bool :=
  run.first ≤ n && n ≤ run.last && (n - run.first) % run.step == 0

/-- The one-to-one mapping of a table of runs; a code point in no run stands for itself. -/
def mapOne (runs : List CaseRun) (c : Char) : Char :=
  match runs.find? (·.covers c.toNat) with
  | some run => Char.ofNat (c.toNat + run.shift).toNat
  | none => c

/-- The upper case of one character. -/
def upperChar (c : Char) : List Char :=
  match upperExpansions.find? (·.1 == c.toNat) with
  | some (_, cs) => cs.map Char.ofNat
  | none => [mapOne upperRuns c]

/-- The lower case of one character outside of any word. -/
def lowerChar (c : Char) : List Char :=
  if c.toNat == 0x130 then ['i', Char.ofNat 0x307] else [mapOne lowerRuns c]

/-- Letters that have a case, and count as part of a cased word. -/
def isCased (c : Char) : Bool := inRanges casedRanges c.toNat

/-- Characters that do not interrupt a cased word: marks, apostrophes, modifiers. -/
def isCaseIgnorable (c : Char) : Bool := inRanges caseIgnorableRanges c.toNat

/-- The text continues the cased word before it. -/
def continuesWord (cs : List Char) : Bool :=
  (cs.dropWhile isCaseIgnorable).head?.any isCased

/-- The lower case of a text that follows a cased word or not. -/
def lowerFrom (afterCased : Bool) : List Char → List Char
  | [] => []
  | c :: rest =>
    let small :=
      if c == 'Σ' then [if afterCased && !continuesWord rest then 'ς' else 'σ'] else lowerChar c
    small ++ lowerFrom (if isCaseIgnorable c then afterCased else isCased c) rest

/-- The upper case of a text. -/
def toUpper (cs : List Char) : List Char := cs.flatMap upperChar

/-- The lower case of a text. -/
def toLower (cs : List Char) : List Char := lowerFrom false cs

@[simp] theorem toUpper_append (cs ds : List Char) : toUpper (cs ++ ds) = toUpper cs ++ toUpper ds := by
  simp [toUpper]

end EventScript.Text
