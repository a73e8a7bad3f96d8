import EventScript.Token.Scan
import Mathlib

/-! # Where a lexeme ends

A lexeme is read from the characters at the start of a text, and nothing but those characters is
taken.  What stands behind a lexeme is looked at to find its end only, and a blank, a line feed, a
minus, a hash or a closing bracket always is an end, unless a quote is still open.

* `read_eq_append`        the characters of a lexeme are those at the start of the text
* `prefix_covered`        so are the characters that a problem covers
* `read_append`           what stands behind an end does not change what was read before it
* `read_of_read_append`   and what was read before it does not need what stands behind
-/

namespace EventScript

namespace Lexeme

/-! ## What is taken -/

theorem prefix_fraction (cs : List Char) : fraction cs <+: cs := by
  unfold fraction
  split
  · split
    · exact (List.prefix_cons_inj '.').mpr (List.takeWhile_prefix _)
    · exact List.nil_prefix
  · exact List.nil_prefix

/-- A character that is no backslash closes a string, breaks it off or belongs to it. -/
theorem quotedTail_cons (quote : Char) {c : Char} (hc : c ≠ '\\') (rest : List Char) :
    quotedTail quote (c :: rest) =
      if c == quote then ⟨[c], [], true⟩
      else if c == '\n' then ⟨[], [], false⟩
      else (quotedTail quote rest).cons [c] c := by
  rw [quotedTail.eq_4] <;> simp [hc]

theorem ne_backslash {c : Char} {rest : List Char} (hlast : c = '\\' → rest = [] → False)
    (hmore : ∀ d ds, c = '\\' → rest = d :: ds → False) : c ≠ '\\' := by
  intro h
  cases rest with
  | nil => exact hlast h rfl
  | cons d ds => exact hmore d ds h rfl

theorem prefix_written (quote : Char) (cs : List Char) :
    (quotedTail quote cs).written <+: cs := by
  induction cs using quotedTail.induct quote with
  | case1 => exact List.prefix_refl _
  | case2 => exact List.prefix_refl _
  | case3 c rest ih => exact (List.prefix_append_right_inj ['\\', c]).mpr ih
  | case4 => simp_all [quotedTail]
  | case5 => simp_all [quotedTail]
  | case6 c rest hlast hmore hquote hfeed ih =>
    rw [quotedTail_cons quote (ne_backslash hlast hmore), if_neg hquote, if_neg hfeed]
    exact (List.prefix_cons_inj c).mpr ih

/-- A number takes its sign, its digits and its fraction. -/
theorem prefix_chars_number {c : Char} {rest : List Char} {afterOperand : Bool}
    (h : startsNumber afterOperand (c :: rest) = true) : (number c rest).chars <+: c :: rest := by
  have hdigits : ∀ cs : List Char,
      cs.takeWhile Char.isDigit ++ fraction (cs.dropWhile Char.isDigit) <+: cs := by
    intro cs
    conv_rhs => rw [← List.takeWhile_append_dropWhile (p := Char.isDigit) (l := cs)]
    exact (List.prefix_append_right_inj _).mpr (prefix_fraction _)
  unfold Lexeme.chars number
  by_cases hsign : c = '-'
  · subst hsign
    simp only [beq_self_eq_true, if_true]
    exact (List.prefix_cons_inj _).mpr (hdigits rest)
  · have hdigit : c.isDigit = true := by
      unfold startsNumber at h
      split at h
      · rename_i heq
        exact absurd (List.cons.inj heq).1 hsign
      · rename_i heq
        cases heq
        exact h
      · rename_i heq
        cases heq
    have hfirst := hdigits (c :: rest)
    rw [List.takeWhile_cons_of_pos hdigit] at hfirst
    simpa [hsign, hdigit] using hfirst

theorem prefix_chars_operator? {c : Char} {rest : List Char} {l : Lexeme}
    (h : operator? c rest = some l) : l.chars <+: c :: rest := by
  unfold operator? at h
  split at h
  · rename_i kind d hd
    cases h
    obtain ⟨e, he, hk⟩ := Option.bind_eq_some_iff.mp hd
    obtain ⟨k, -, hkd⟩ := Option.map_eq_some_iff.mp hk
    cases hkd
    obtain ⟨more, rfl⟩ := List.head?_eq_some_iff.mp he
    exact ⟨more, rfl⟩
  · obtain ⟨k, -, rfl⟩ := Option.map_eq_some_iff.mp h
    exact ⟨rest, rfl⟩

/-- The characters of a lexeme are those at the start of the text that it was read from. -/
theorem prefix_chars {afterOperand : Bool} {c : Char} {rest : List Char} {l : Lexeme}
    (h : read afterOperand c rest = .ok l) : l.chars <+: c :: rest := by
  unfold read at h
  split at h
  · rename_i hcolor
    cases h
    have hc : c = '#' := by
      unfold startsColor at hcolor
      split at hcolor
      · rename_i heq
        exact (List.cons.inj heq).1
      · cases hcolor
    subst hc
    exact (List.prefix_cons_inj _).mpr (List.takeWhile_prefix _)
  split at h
  · rename_i hnumber
    cases h
    exact prefix_chars_number hnumber
  split at h
  · dsimp only at h
    split at h
    · cases h
      exact (List.prefix_cons_inj c).mpr (prefix_written c rest)
    · cases h
  split at h
  · cases h
    exact (List.prefix_cons_inj c).mpr (List.takeWhile_prefix _)
  split at h
  · rename_i hl
    cases h
    exact prefix_chars_operator? hl
  · cases h

theorem read_eq_append {afterOperand : Bool} {c : Char} {rest : List Char} {l : Lexeme}
    (h : read afterOperand c rest = .ok l) :
    ∃ more, c :: rest = l.chars ++ more ∧ rest = l.tail ++ more := by
  obtain ⟨more, hmore⟩ := prefix_chars h
  exact ⟨more, hmore.symm, (List.cons.inj hmore).2.symm⟩

/-- The characters that a problem covers are those at the start of the text. -/
theorem prefix_covered {afterOperand : Bool} {c : Char} {rest : List Char} {p : Problem}
    {covered : List Char} (h : read afterOperand c rest = .error (p, covered)) :
    covered <+: c :: rest := by
  unfold read at h
  split at h
  · cases h
  split at h
  · cases h
  split at h
  · dsimp only at h
    split at h
    · cases h
    · cases h
      exact (List.prefix_cons_inj c).mpr (prefix_written c rest)
  split at h
  · cases h
  split at h
  · cases h
  · cases h
    exact ⟨rest, rfl⟩

/-! ## What is only looked at -/

/-- A character that closes brackets. -/
def isClosing (c : Char) : Bool := c == ')' || c == ']' || c == '\x7d'

/-- A character that no lexeme goes on with, unless a quote is open: a blank, a line feed, a minus,
    a hash or a closing bracket. -/
def isBreak (c : Char) : Bool :=
  Scanner.isGap c || c == '\n' || c == '-' || c == '#' || isClosing c

/-- No lexeme goes on into this text, unless a quote is open. -/
def Breaks (cs : List Char) : Prop := ∀ c ∈ cs.head?, isBreak c = true

theorem breaks_nil : Breaks [] := nofun

theorem breaks_cons {c : Char} (hc : isBreak c = true) (cs : List Char) : Breaks (c :: cs) := by
  intro d hd
  cases hd
  exact hc

theorem isBreak_eq_true {c : Char} (h : isBreak c = true) :
    c = ' ' ∨ c = '\t' ∨ c = '\r' ∨ c = '\n' ∨ c = '-' ∨ c = '#' ∨ c = ')' ∨ c = ']' ∨
      c = '\x7d' := by
  simpa [isBreak, isClosing, Scanner.isGap, Scanner.isIndent, or_assoc] using h

variable {behind : List Char}

/-- A run that no break belongs to ends before it. -/
theorem takeWhile_append_of_breaks {p : Char → Bool} (hp : ∀ c, isBreak c = true → p c = false)
    (hbehind : Breaks behind) (cs : List Char) :
    (cs ++ behind).takeWhile p = cs.takeWhile p ∧
      (cs ++ behind).dropWhile p = cs.dropWhile p ++ behind := by
  induction cs with
  | nil =>
    cases behind with
    | nil => exact ⟨rfl, rfl⟩
    | cons d ds =>
      have hd := hp d (hbehind d rfl)
      exact ⟨List.takeWhile_cons_of_neg (by simp [hd]), List.dropWhile_cons_of_neg (by simp [hd])⟩
  | cons c cs ih =>
    simp only [List.cons_append, List.takeWhile_cons, List.dropWhile_cons]
    split
    · exact ⟨congrArg _ ih.1, ih.2⟩
    · exact ⟨rfl, rfl⟩

theorem isDigit_of_isBreak {c : Char} (h : isBreak c = true) : c.isDigit = false := by
  rcases isBreak_eq_true h with rfl | rfl | rfl | rfl | rfl | rfl | rfl | rfl | rfl <;> decide

theorem isHexDigit_of_isBreak {c : Char} (h : isBreak c = true) : isHexDigit c = false := by
  rcases isBreak_eq_true h with rfl | rfl | rfl | rfl | rfl | rfl | rfl | rfl | rfl <;> decide

theorem continuesWord_of_isBreak {c : Char} (h : isBreak c = true) : continuesWord c = false := by
  rcases isBreak_eq_true h with rfl | rfl | rfl | rfl | rfl | rfl | rfl | rfl | rfl <;> decide

theorem pairOperator?_of_isBreak (c : Char) {d : Char} (h : isBreak d = true) :
    pairOperator? c d = none := by
  unfold pairOperator?
  split <;> first | rfl | (exact absurd h (by decide))

theorem fraction_append (hbehind : Breaks behind) (cs : List Char) :
    fraction (cs ++ behind) = fraction cs := by
  have hother : ∀ {c : Char}, c ≠ '.' → ∀ ds, fraction (c :: ds) = [] := by
    intro c hc ds
    cases ds <;> simp [fraction, hc]
  cases cs with
  | nil =>
    cases behind with
    | nil => rfl
    | cons d ds => exact hother (fun h => absurd (hbehind d rfl) (by rw [h]; decide)) ds
  | cons c cs =>
    by_cases hc : c = '.'
    · subst hc
      cases cs with
      | nil =>
        cases behind with
        | nil => rfl
        | cons d ds => simp [fraction, isDigit_of_isBreak (hbehind d rfl)]
      | cons d ds =>
        have h := (takeWhile_append_of_breaks (fun _ => isDigit_of_isBreak) hbehind (d :: ds)).1
        simp only [List.cons_append] at h
        simp [fraction, h]
    · exact (hother hc _).trans (hother hc _).symm

theorem number_append (hbehind : Breaks behind) (c : Char) (cs : List Char) :
    number c (cs ++ behind) = number c cs := by
  have hruns := takeWhile_append_of_breaks (p := Char.isDigit) (fun _ => isDigit_of_isBreak)
    hbehind
  have hall : ∀ negative : Bool, (if negative then cs ++ behind else c :: (cs ++ behind)) =
      (if negative then cs else c :: cs) ++ behind := by
    intro negative
    cases negative <;> rfl
  unfold number
  simp only [hall, (hruns _).1, (hruns _).2, fraction_append hbehind]

theorem operator?_append (hbehind : Breaks behind) (c : Char) (cs : List Char) :
    operator? c (cs ++ behind) = operator? c cs := by
  cases cs with
  | nil =>
    cases behind with
    | nil => rfl
    | cons d ds => simp [operator?, pairOperator?_of_isBreak c (hbehind d rfl)]
  | cons d ds => rfl

theorem startsColor_append (hbehind : Breaks behind) (c : Char) (cs : List Char) :
    startsColor (c :: (cs ++ behind)) = startsColor (c :: cs) := by
  by_cases hc : c = '#'
  · subst hc
    cases cs with
    | nil =>
      cases behind with
      | nil => rfl
      | cons d ds => exact isHexDigit_of_isBreak (hbehind d rfl)
    | cons d ds => rfl
  · cases cs <;> cases behind <;> simp [startsColor, hc]

theorem startsNumber_append (hbehind : Breaks behind) (afterOperand : Bool) (c : Char)
    (cs : List Char) :
    startsNumber afterOperand (c :: (cs ++ behind)) = startsNumber afterOperand (c :: cs) := by
  by_cases hc : c = '-'
  · subst hc
    cases cs with
    | nil =>
      cases behind with
      | nil => rfl
      | cons d ds => simp [startsNumber, isDigit_of_isBreak (hbehind d rfl)]
    | cons d ds => rfl
  · cases cs <;> cases behind <;> simp [startsNumber, hc]

/-- Whether a string is closed, and what it stands for, is decided by what is written of it. -/
theorem quotedTail_written_append {quote : Char} {cs : List Char}
    (h : (quotedTail quote cs).closed = true) (behind : List Char) :
    quotedTail quote ((quotedTail quote cs).written ++ behind) = quotedTail quote cs := by
  induction cs using quotedTail.induct quote with
  | case1 => cases h
  | case2 => cases h
  | case3 c rest ih => exact congrArg (QuotedTail.cons ['\\', c] (unescape c)) (ih h)
  | case4 c rest hlast hmore hquote =>
    have hc := ne_backslash hlast hmore
    rw [quotedTail_cons quote hc, if_pos hquote]
    exact (quotedTail_cons quote hc behind).trans (if_pos hquote)
  | case5 c rest hlast hmore hquote hfeed =>
    rw [quotedTail_cons quote (ne_backslash hlast hmore), if_neg hquote, if_pos hfeed] at h
    cases h
  | case6 c rest hlast hmore hquote hfeed ih =>
    have hc := ne_backslash hlast hmore
    have htail : quotedTail quote (c :: rest) = (quotedTail quote rest).cons [c] c := by
      rw [quotedTail_cons quote hc, if_neg hquote, if_neg hfeed]
    rw [htail] at h ⊢
    have hagain : quotedTail quote (c :: ((quotedTail quote rest).written ++ behind)) =
        (quotedTail quote ((quotedTail quote rest).written ++ behind)).cons [c] c := by
      rw [quotedTail_cons quote hc, if_neg hquote, if_neg hfeed]
    exact hagain.trans (congrArg (QuotedTail.cons [c] c) (ih h))

/-- So it does not depend on what stands behind that. -/
theorem quotedTail_of_append {quote : Char} {cs behind : List Char}
    (hclosed : (quotedTail quote (cs ++ behind)).closed = true)
    (hlength : (quotedTail quote (cs ++ behind)).written.length ≤ cs.length)
    (behind' : List Char) : quotedTail quote (cs ++ behind') = quotedTail quote (cs ++ behind) := by
  have hwritten := quotedTail_written_append hclosed
  obtain ⟨more, hmore⟩ : (quotedTail quote (cs ++ behind)).written <+: cs :=
    List.prefix_of_prefix_length_le (prefix_written quote _) (List.prefix_append ..)
      hlength
  calc quotedTail quote (cs ++ behind')
      = quotedTail quote ((quotedTail quote (cs ++ behind)).written ++ (more ++ behind')) := by
        rw [← List.append_assoc, hmore]
    _ = quotedTail quote (cs ++ behind) := hwritten _

/-- What is read before a break is read there whatever else the text goes on with, if it does not
    go on into that text. -/
theorem read_of_read_append {afterOperand : Bool} {c : Char} {cs behind : List Char} {l : Lexeme}
    (hbehind : Breaks behind) (h : read afterOperand c (cs ++ behind) = .ok l)
    (hlength : l.tail.length ≤ cs.length) {behind' : List Char} (hbehind' : Breaks behind') :
    read afterOperand c (cs ++ behind') = .ok l := by
  have hword := fun {x : List Char} (hx : Breaks x) =>
    (takeWhile_append_of_breaks (p := continuesWord) (fun _ => continuesWord_of_isBreak) hx cs).1
  have hcolor := fun {x : List Char} (hx : Breaks x) =>
    (takeWhile_append_of_breaks (p := isHexDigit) (fun _ => isHexDigit_of_isBreak) hx cs).1
  unfold read at h ⊢
  simp only [startsColor_append hbehind, startsNumber_append hbehind, number_append hbehind,
    operator?_append hbehind, color, word, hword hbehind, hcolor hbehind] at h
  simp only [startsColor_append hbehind', startsNumber_append hbehind', number_append hbehind',
    operator?_append hbehind', color, word, hword hbehind', hcolor hbehind']
  by_cases hquote : (c == '"' || c == '\'') = true
  · -- only of a quoted string the characters behind a break are read
    simp only [if_pos hquote] at h ⊢
    split at h
    · rename_i hc
      rw [if_pos hc]
      exact h
    · rename_i hc
      rw [if_neg hc]
      split at h
      · rename_i hn
        rw [if_pos hn]
        exact h
      · rename_i hn
        rw [if_neg hn]
        split at h
        · rename_i hclosed
          cases h
          rw [quotedTail_of_append hclosed hlength, if_pos hclosed]
        · cases h
  · simp only [if_neg hquote] at h ⊢
    exact h

/-- What stands behind a break does not change what is read before it. -/
theorem read_append {afterOperand : Bool} {c : Char} {cs : List Char} {l : Lexeme}
    (h : read afterOperand c cs = .ok l) (hbehind : Breaks behind) :
    read afterOperand c (cs ++ behind) = .ok l := by
  have hlength : l.tail.length ≤ cs.length := by
    obtain ⟨more, -, rfl⟩ := read_eq_append h
    simp
  exact read_of_read_append breaks_nil (by rwa [List.append_nil]) hlength hbehind

end Lexeme

end EventScript
