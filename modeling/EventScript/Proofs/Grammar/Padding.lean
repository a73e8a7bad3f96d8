import EventScript.Proofs.Grammar.Keeps

/-! # Further layout where line breaks mean nothing

`Padded` compares two token lists: the second one has further layout in it, at places where line
breaks mean nothing.  `Walk.Beside` compares two cursors, one in each list, in the middle of a
reading of the first list whose end is known: they stand before the same token, or the second one
stands at further layout before it.  In the second case the reading of the first list does not pass
its token before it has found that line breaks mean nothing there (`Beside.facing_of_next`), for a
reading never goes back.
-/

namespace EventScript

theorem TokenKind.isLayout_of_isContent {k : TokenKind} (hk : k.isContent = true) :
    k.isLayout = false := by
  cases k <;> first | rfl | cases hk

theorem TokenKind.ne_endOfFile_of_isContent {k : TokenKind} (hk : k.isContent = true) :
    k ≠ .endOfFile := by
  rintro rfl
  cases hk

/-- Two tokens are the same but for where they stand. -/
structure Token.Same (t t' : Token) : Prop where
  kind : t'.kind = t.kind
  value : t'.value = t.value
  lexeme : t'.lexeme = t.lexeme

theorem Token.Same.refl (t : Token) : t.Same t := ⟨rfl, rfl, rfl⟩

theorem Token.Same.word {t t' : Token} (h : t.Same t') : t'.word = t.word := by
  simp only [Token.word, h.value, h.lexeme]

/-- The second token list is the first one with further layout in it, which stands before tokens
    that are written out, at some places of the first list; that one begins at a given place. -/
inductive Padded (breaks : List Nat) : Nat → List Token → List Token → Prop
  | nil (i : Nat) : Padded breaks i [] []
  | token {i : Nat} {t t' : Token} {ts ts' : List Token} (same : t.Same t')
      (rest : Padded breaks (i + 1) ts ts') : Padded breaks i (t :: ts) (t' :: ts')
  | layout {i : Nat} {t u : Token} {ts ts' : List Token} (place : i ∈ breaks)
      (before : t.kind.isContent = true) (further : u.kind.isLayout = true)
      (rest : Padded breaks i (t :: ts) ts') : Padded breaks i (t :: ts) (u :: ts')

namespace Padded

variable {breaks : List Nat} {i : Nat} {ts ts' : List Token}

theorem refl (breaks : List Nat) (i : Nat) (ts : List Token) : Padded breaks i ts ts := by
  induction ts generalizing i with
  | nil => exact .nil i
  | cons t ts ih => exact .token (.refl t) (ih (i + 1))

theorem length_le (h : Padded breaks i ts ts') : ts.length ≤ ts'.length := by
  induction h with
  | nil => exact Nat.le_refl _
  | token _ _ ih => exact Nat.succ_le_succ ih
  | layout _ _ _ _ ih => exact Nat.le_succ_of_le ih

theorem append {us us' : List Token} (h : Padded breaks i ts ts')
    (h' : Padded breaks (i + ts.length) us us') : Padded breaks i (ts ++ us) (ts' ++ us') := by
  induction h with
  | nil => simpa using h'
  | @token i t t' ts ts' same _ ih =>
    refine .token same (ih ?_)
    rwa [List.length_cons, ← Nat.add_assoc, Nat.add_right_comm] at h'
  | layout place before further _ ih => exact .layout place before further (ih h')

end Padded

/-- A reading that has come to its end: the tokens that it reads, and where it ends. -/
structure Walk where
  tokens : List Token
  last : Cursor

namespace Walk

variable {w : Walk} {c c' : Cursor}

/-- Two cursors stand before the same token. -/
def Facing (c c' : Cursor) : Prop := c.current.Same c'.current

/-- In the middle of a reading, a cursor in the tokens read stands beside one in a token list with
    further layout: the tokens left are the same but for that layout, of which none is left where it
    was found that line breaks mean nothing. -/
structure Beside (w : Walk) (c c' : Cursor) : Prop where
  stands : c.StandsIn w.tokens
  left : Padded w.last.breaks c.passed c.left c'.left
  loops : c'.loops = c.loops
  noted : ∀ i ∈ c.breaks, i ≤ c.passed
  faced : c.passed ∈ c.breaks → Facing c c'

/-- The second one of two cursors stands at further layout. -/
structure Behind (w : Walk) (c c' : Cursor) : Prop where
  content : c.current.kind.isContent = true
  layout : c'.current.kind.isLayout = true
  place : c.passed ∈ w.last.breaks
  rest : Padded w.last.breaks c.passed c.left c'.rest

/-- A reading that stands before this token does not pass it any more. -/
structure Blocked (w : Walk) (c : Cursor) : Prop where
  content : c.current.kind.isContent = true
  ahead : ¬ c.next.Leads w.last

theorem Facing.isLayout (h : Facing c c') : c'.current.kind.isLayout = c.current.kind.isLayout := by
  rw [h.kind]

namespace Beside

theorem facing_or_behind (h : w.Beside c c') : Facing c c' ∨ w.Behind c c' := by
  have hleft := h.left
  unfold Cursor.left at hleft
  cases hleft with
  | token same _ => exact .inl same
  | layout place before further rest => exact .inr ⟨before, further, place, rest⟩

/-- Behind a token that the reading passes there is no further layout: otherwise line breaks would
    mean nothing there, and that would have been found before. -/
theorem facing_of_next (h : w.Beside c c') (hnext : c.next.Leads w.last) : Facing c c' := by
  rcases h.facing_or_behind with hf | hb
  · exact hf
  obtain ⟨hpassed, hbreaks⟩ : c.next.passed = c.passed + 1 ∧ c.next.breaks = c.breaks := by
    have hrest := h.stands.rest_ne_nil (TokenKind.ne_endOfFile_of_isContent hb.content)
    unfold Cursor.next Cursor.atEnd
    rw [if_neg (by simpa using TokenKind.ne_endOfFile_of_isContent hb.content)]
    cases hr : c.rest with
    | nil => exact absurd hr hrest
    | cons t rest => exact ⟨rfl, rfl⟩
  obtain ⟨new, hnew, hplaces⟩ := hnext.breaks
  have hplace := hb.place
  rw [hnew, hbreaks] at hplace
  rcases List.mem_append.mp hplace with hmem | hmem
  · have := hplaces _ hmem
    omega
  · exact h.faced hmem

theorem blocked (h : w.Beside c c') (hb : w.Behind c c') : w.Blocked c := by
  refine ⟨hb.content, fun hnext => ?_⟩
  have hlayout := (h.facing_of_next hnext).isLayout
  rw [hb.layout, TokenKind.isLayout_of_isContent hb.content] at hlayout
  cases hlayout

theorem facing_of_not_content (h : w.Beside c c') (hk : c.current.kind.isContent = false) :
    Facing c c' :=
  h.facing_or_behind.resolve_right fun hb => by
    rw [hb.content] at hk
    cases hk

theorem facing_of_not_layout (h : w.Beside c c') (hk : c'.current.kind.isLayout = false) :
    Facing c c' :=
  h.facing_or_behind.resolve_right fun hb => by
    rw [hb.layout] at hk
    cases hk

theorem tokensLeft_le (h : w.Beside c c') : c.tokensLeft ≤ c'.tokensLeft := h.left.length_le

/-- Passing the same token. -/
theorem next (h : w.Beside c c') (hf : Facing c c') : w.Beside c.next c'.next := by
  by_cases hend : c.current.kind = .endOfFile
  · have hsame : c.next = c := by simp [Cursor.next, Cursor.atEnd, hend]
    have hsame' : c'.next = c' := by simp [Cursor.next, Cursor.atEnd, hf.kind, hend]
    rw [hsame, hsame']
    exact h
  have hrest : Padded w.last.breaks (c.passed + 1) c.rest c'.rest := by
    have hleft := h.left
    unfold Cursor.left at hleft
    cases hleft with
    | token _ rest => exact rest
    | layout _ before further _ =>
      rw [hf.isLayout, TokenKind.isLayout_of_isContent before] at further
      cases further
  have hne := h.stands.rest_ne_nil hend
  have hstands := h.stands.of_leads (.next c)
  revert hstands
  unfold Cursor.next Cursor.atEnd
  rw [if_neg (by simpa using hend), if_neg (by simpa [hf.kind] using hend)]
  cases hr : c.rest with
  | nil => exact absurd hr hne
  | cons t rest =>
    rw [hr] at hrest
    cases hr' : c'.rest with
    | nil =>
      rw [hr'] at hrest
      cases hrest
    | cons t' rest' =>
      rw [hr'] at hrest
      intro hstands
      refine ⟨hstands, hrest, h.loops, fun i hi => Nat.le_succ_of_le (h.noted i hi), fun hi => ?_⟩
      exact absurd (h.noted _ hi) (Nat.not_succ_le_self _)

/-- Passing further layout. -/
theorem next_behind (h : w.Beside c c') (hb : w.Behind c c') : w.Beside c c'.next := by
  have hrest := hb.rest
  have hend : c'.current.kind ≠ .endOfFile := by
    intro hk
    have := hb.layout
    rw [hk] at this
    cases this
  have hnot : c.passed ∉ c.breaks := by
    intro hi
    have hlayout := (h.faced hi).isLayout
    rw [hb.layout, TokenKind.isLayout_of_isContent hb.content] at hlayout
    cases hlayout
  unfold Cursor.next Cursor.atEnd
  rw [if_neg (by simpa using hend)]
  cases hr' : c'.rest with
  | nil =>
    rw [hr'] at hrest
    cases hrest
  | cons t' rest' =>
    rw [hr'] at hrest
    exact ⟨h.stands, hrest, h.loops, h.noted, fun hi => absurd hi hnot⟩

/-- Every token but the end of the file has one behind it. -/
theorem rest_ne_nil (h : w.Beside c c') (hk : c'.current.kind ≠ .endOfFile) : c'.rest ≠ [] := by
  intro hrest
  have hleft := h.left
  unfold Cursor.left at hleft
  rw [hrest] at hleft
  cases hleft with
  | token same rest =>
    have := h.stands.rest_ne_nil (by rwa [← same.kind])
    cases hr : c.rest with
    | nil => exact this hr
    | cons t ts =>
      rw [hr] at rest
      cases rest
  | layout _ _ _ rest => cases rest

/-- Passing a token makes the list left shorter. -/
theorem tokensLeft_next (h : w.Beside c c') (hk : c'.current.kind ≠ .endOfFile) :
    c'.next.tokensLeft < c'.tokensLeft := by
  have hne := h.rest_ne_nil hk
  unfold Cursor.next Cursor.atEnd
  rw [if_neg (by simpa using hk)]
  cases hr : c'.rest with
  | nil => exact absurd hr hne
  | cons t rest => simp [Cursor.tokensLeft, hr]

/-- What lies ahead of a token lies ahead of the one behind it. -/
theorem kindAhead?_succ (h : w.Beside c c') (hf : Facing c c') (hk : c.current.kind ≠ .endOfFile)
    (n : Nat) : c.kindAhead? (n + 1) = c.next.kindAhead? n ∧
      c'.kindAhead? (n + 1) = c'.next.kindAhead? n := by
  have hahead : ∀ {c : Cursor}, c.current.kind ≠ .endOfFile → c.rest ≠ [] →
      c.kindAhead? (n + 1) = c.next.kindAhead? n := by
    intro c hk hne
    unfold Cursor.next Cursor.atEnd
    rw [if_neg (by simpa using hk)]
    cases hr : c.rest with
    | nil => exact absurd hr hne
    | cons t rest => cases n <;> simp [Cursor.kindAhead?, hr]
  have hk' : c'.current.kind ≠ .endOfFile := by rwa [hf.kind]
  exact ⟨hahead hk (h.stands.rest_ne_nil hk), hahead hk' (h.rest_ne_nil hk')⟩

/-- One token ahead the kinds are the same if there is no further layout there. -/
theorem kindAhead?_one (h : w.Beside c c') (hf : Facing c c') (hk : c.current.kind ≠ .endOfFile)
    (hnext : Facing c.next c'.next) : c'.kindAhead? 1 = c.kindAhead? 1 := by
  obtain ⟨h₁, h₁'⟩ := h.kindAhead?_succ hf hk 0
  rw [h₁, h₁']
  exact congrArg some hnext.kind

/-- A token seen one token ahead is no further layout. -/
theorem facing_next (h : w.Beside c c') (hf : Facing c c') (hk : c.current.kind ≠ .endOfFile)
    {k : TokenKind} (hahead : c'.kindAhead? 1 = some k) (hlayout : k.isLayout = false) :
    Facing c.next c'.next ∧ c.next.current.kind = k := by
  rw [(h.kindAhead?_succ hf hk 0).2] at hahead
  have hkind : c'.next.current.kind = k := Option.some.inj hahead
  have hnext := (h.next hf).facing_of_not_layout (by rwa [hkind])
  exact ⟨hnext, hnext.kind.symm.trans hkind⟩

/-- Two tokens ahead the kinds are the same if there is no further layout there. -/
theorem kindAhead?_two (h : w.Beside c c') (hf : Facing c c') (hk : c.current.kind ≠ .endOfFile)
    (hnext : Facing c.next c'.next) (hk₁ : c.next.current.kind ≠ .endOfFile)
    (hnext₂ : Facing c.next.next c'.next.next) : c'.kindAhead? 2 = c.kindAhead? 2 := by
  obtain ⟨h₁, h₁'⟩ := h.kindAhead?_succ hf hk 1
  rw [h₁, h₁']
  exact (h.next hf).kindAhead?_one hnext hk₁ hnext₂

/-- Two tokens seen ahead are no further layout. -/
theorem facing_next_next (h : w.Beside c c') (hf : Facing c c') (hk : c.current.kind ≠ .endOfFile)
    {k k₂ : TokenKind} (hahead : c'.kindAhead? 1 = some k) (hcontent : k.isContent = true)
    (hahead₂ : c'.kindAhead? 2 = some k₂) (hlayout₂ : k₂.isLayout = false) :
    Facing c.next.next c'.next.next := by
  obtain ⟨hnext, rfl⟩ := h.facing_next hf hk hahead (TokenKind.isLayout_of_isContent hcontent)
  rw [(h.kindAhead?_succ hf hk 1).2] at hahead₂
  exact ((h.next hf).facing_next hnext (TokenKind.ne_endOfFile_of_isContent hcontent) hahead₂
    hlayout₂).1

/-- What is put on record makes no difference. -/
theorem of_readings (h : w.Beside c c') (rs rs' : List Reading) :
    w.Beside { c with readings := rs } { c' with readings := rs' } :=
  ⟨⟨h.stands.ended, h.stands.left⟩, h.left, h.loops, h.noted, h.faced⟩

end Beside

end Walk

end EventScript
