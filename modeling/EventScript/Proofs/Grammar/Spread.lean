import EventScript.Proofs.Grammar.Padding
import EventScript.Proofs.Grammar.Shape

/-! # How the entries of a map literal spread over its tokens

Between the braces of a map literal there is nothing but entries, commas and layout.  Where there is
no layout, the reading found before every token that does not go on with an entry, and before the
closing brace, that line breaks mean nothing there (`run_mapLiteral`).
-/

namespace EventScript

/-- The tokens from one place to another cover a part of the source. -/
structure Covers (tokens : List Token) (first last : Nat) (span : Span) : Prop where
  le : first ≤ last
  start : tokens[first]?.map (·.span.start) = some span.start
  stop : tokens[last]?.map (·.span.stop) = some span.stop

namespace Walk

/-- The tokens from one place to another belong to one of several entries. -/
def WithinEntry (w : Walk) (entries : List MapEntry) (i j : Nat) : Prop :=
  ∃ e ∈ entries, ∃ first last, Covers w.tokens first last e.span ∧ first ≤ i ∧ j ≤ last

/-- The tokens from one place on, up to a closing brace, are entries and commas.  Where a token does
    not go on with an entry, line breaks mean nothing before it, and it is no sign. -/
structure Spread (w : Walk) (first last : Nat) (entries : List MapEntry) : Prop where
  tokens (i : Nat) : first ≤ i → i < last →
    kindAt w.tokens i = .comma ∨ w.WithinEntry entries i i
  breaks (i : Nat) : first ≤ i → i ≤ last →
    i ∈ w.last.breaks ∧ kindAt w.tokens i ≠ .minus ∨
      first < i ∧ w.WithinEntry entries (i - 1) i

/-- What is known of a map literal that was read. -/
def OnRecord (w : Walk) (span : Span) (entries : List MapEntry) : Prop :=
  ∃ first last, kindAt w.tokens first = .leftBrace ∧ kindAt w.tokens last = .rightBrace ∧
    Covers w.tokens first last span ∧
      ((∀ i, first < i → i < last → (kindAt w.tokens i).isContent = true) →
        w.Spread (first + 1) last entries)

variable {w : Walk}

theorem WithinEntry.cons {e : MapEntry} {entries : List MapEntry} {i j : Nat}
    (h : w.WithinEntry entries i j) : w.WithinEntry (e :: entries) i j := by
  obtain ⟨e', he', h⟩ := h
  exact ⟨e', List.mem_cons_of_mem _ he', h⟩

end Walk

namespace Cursor.StandsIn

variable {tokens : List Token} {c d : Cursor}

theorem passed_le (hcd : c.Leads d) : c.passed ≤ d.passed := by
  obtain ⟨n, hn, -⟩ := hcd.tokens
  omega

/-- The end of the last token passed. -/
theorem lastStop (hc : c.StandsIn tokens) (hcd : c.Leads d) (hlt : c.passed < d.passed) :
    tokens[d.passed - 1]?.map (·.span.stop) = some d.lastStop := by
  rcases hcd.stop with ⟨hsame, -⟩ | ⟨n, t, hn, ht, hlast⟩
  · omega
  · rw [hc.left, List.getElem?_drop] at ht
    rw [show d.passed - 1 = c.passed + n by omega, ht, hlast]
    rfl

end Cursor.StandsIn

namespace Parse

variable {tokens : List Token} {c d : Cursor}

/-- What is skipped is layout. -/
theorem run_skipFrom_kindAt {bound i : Nat} (hc : c.StandsIn tokens)
    (h : (skipFrom TokenKind.isLayout passLayout bound).run c = .ok ((), d))
    (hi : c.passed ≤ i) (hid : i < d.passed) : (kindAt tokens i).isLayout = true := by
  induction bound generalizing c with
  | zero => exact absurd h (not_run_expected _ _ _)
  | succ bound ih =>
    rw [skipFrom] at h
    obtain ⟨k, _, hk, hafter⟩ := run_bind_eq_ok.mp h
    cases hk
    split at hafter
    · rename_i hlayout
      have hkind : c.current.kind.isLayout = true := hlayout
      obtain ⟨t, c₁, hpass, hrest⟩ := run_bind_eq_ok.mp hafter
      obtain rfl | hlt := Nat.eq_or_lt_of_le hi
      · rwa [hc.kindAt]
      · refine ih (hc.of_leads (passLayout.leads hpass)) hrest ?_
        cases hpass
        have hnoted : Cursor.StandsIn tokens { c with
            readings := .skipped c.passed :: c.readings } := ⟨hc.ended, hc.left⟩
        obtain ⟨hnext, -⟩ := hnoted.next (by
          intro hend
          rw [show c.current.kind = .endOfFile from hend] at hkind
          cases hkind)
        rw [hnext]
        exact hlt
    · cases hafter
      exact absurd hid (Nat.not_lt_of_le hi)

/-- Where there is no layout, none is skipped. -/
theorem run_skipLayout_still (hc : c.StandsIn tokens) (h : skipLayout.run c = .ok ((), d))
    {last : Nat} (hlast : d.passed ≤ last)
    (hcontent : ∀ i, c.passed ≤ i → i < last → (kindAt tokens i).isContent = true) :
    d.passed = c.passed := by
  obtain ⟨bound, _, hbound, hskip⟩ := run_bind_eq_ok.mp h
  cases hbound
  obtain ⟨_, e, hfrom, hnote⟩ := run_bind_eq_ok.mp hskip
  cases hnote
  by_contra hne
  have hle := Cursor.StandsIn.passed_le (skipLayout.leads h)
  have hlt : c.passed < e.passed := Nat.lt_of_le_of_ne hle (Ne.symm hne)
  have hlayout := run_skipFrom_kindAt hc hfrom (Nat.le_refl _) hlt
  rw [TokenKind.isLayout_of_isContent (hcontent _ (Nat.le_refl _) (Nat.lt_of_lt_of_le hlt hlast))]
    at hlayout
  cases hlayout

theorem run_skipLayout_mem {c d : Cursor} (h : skipLayout.run c = .ok ((), d)) :
    d.passed ∈ d.breaks := by
  obtain ⟨bound, _, hbound, hrun⟩ := run_bind_eq_ok.mp h
  obtain ⟨_, e, hskip, hrun⟩ := run_bind_eq_ok.mp hrun
  cases hrun
  exact List.mem_cons_self ..

end Parse

namespace Grammar

open Parse

variable {rules : Rules} {tokens : List Token} {c d : Cursor}

/-- An entry begins with a name, a string or a bracket. -/
theorem run_entryParts {start : Token} {parts : EntryKey × Expr}
    (h : (entryParts rules start).run c = .ok (parts, d)) :
    (c.current.kind = .identifier ∨ c.current.kind = .string ∨ c.current.kind = .leftBracket) ∧
      c.next.Leads d := by
  obtain ⟨found, c₁, hname, h₁⟩ := run_bind_eq_ok.mp h
  rcases run_accept hname with ⟨rfl, hk, rfl⟩ | ⟨rfl, -, rfl⟩
  · exact ⟨.inl hk, Parse.leads _ h₁⟩
  obtain ⟨found, c₂, hstring, h₂⟩ := run_bind_eq_ok.mp h₁
  rcases run_accept hstring with ⟨rfl, hk, rfl⟩ | ⟨rfl, -, rfl⟩
  · exact ⟨.inr (.inl hk), Parse.leads _ h₂⟩
  obtain ⟨found, c₃, hbracket, h₃⟩ := run_bind_eq_ok.mp h₂
  rcases run_accept hbracket with ⟨rfl, hk, rfl⟩ | ⟨rfl, -, rfl⟩
  · exact ⟨.inr (.inr hk), Parse.leads _ h₃⟩
  exact absurd h₃ (not_run_expected _ _ _)

/-- An entry covers the tokens that were passed for it. -/
theorem run_mapEntry {e : MapEntry} (hc : c.StandsIn tokens)
    (h : (mapEntry rules).run c = .ok (e, d)) :
    (c.current.kind = .identifier ∨ c.current.kind = .string ∨ c.current.kind = .leftBracket) ∧
      c.passed < d.passed ∧ Covers tokens c.passed (d.passed - 1) e.span := by
  obtain ⟨start, _, hstart, h⟩ := run_bind_eq_ok.mp h
  cases hstart
  obtain ⟨parts, c₁, hparts, h⟩ := run_bind_eq_ok.mp h
  cases h
  obtain ⟨hk, hnext⟩ := run_entryParts hparts
  have hend : c.current.kind ≠ .endOfFile := by
    rcases hk with hk | hk | hk <;> rw [hk] <;> decide
  have hlt : c.passed < d.passed := by
    have := Cursor.StandsIn.passed_le hnext
    rw [(hc.next hend).1] at this
    exact this
  refine ⟨hk, hlt, Nat.le_pred_of_lt hlt, ?_, hc.lastStop ((entryParts rules _).leads hparts) hlt⟩
  rw [hc.getElem?]
  rfl

/-- Behind an entry there is a comma or nothing, if there is no layout; line breaks mean nothing on
    both sides of it. -/
theorem run_bracedSeparator {last : Nat} (hc : c.StandsIn tokens)
    (h : bracedSeparator.run c = .ok ((), d)) (hlast : d.passed ≤ last)
    (hcontent : ∀ i, c.passed ≤ i → i < last → (kindAt tokens i).isContent = true) :
    c.passed ∈ d.breaks ∧ d.passed ∈ d.breaks ∧
      (d.passed = c.passed ∨ d.passed = c.passed + 1 ∧ kindAt tokens c.passed = .comma) := by
  obtain ⟨_, c₁, hskip, h₁⟩ := run_bind_eq_ok.mp h
  obtain ⟨found, c₂, haccept, h₂⟩ := run_bind_eq_ok.mp h₁
  have hle := Cursor.StandsIn.passed_le (Parse.leads _ h₁)
  have hc₁ := hc.of_leads (Parse.leads _ hskip)
  have hsame := run_skipLayout_still hc hskip (hle.trans hlast) hcontent
  have hmem := run_skipLayout_mem hskip
  rw [hsame] at hmem
  rcases run_accept haccept with ⟨rfl, hk, rfl⟩ | ⟨rfl, -, rfl⟩
  · have hafter : skipLayout.run c₁.next = .ok ((), d) := h₂
    have hnext := (hc₁.next (by rw [hk]; decide)).1
    have hstill := run_skipLayout_still (hc₁.of_leads (.next c₁)) hafter hlast
      fun i hi hlt => hcontent i (by omega) hlt
    refine ⟨?_, run_skipLayout_mem hafter, .inr ⟨by omega, ?_⟩⟩
    · obtain ⟨new, hnew, -⟩ := ((Cursor.Leads.next c₁).trans (skipLayout.leads hafter)).breaks
      rw [hnew]
      exact List.mem_append_right _ hmem
    · rw [← hsame, hc₁.kindAt, hk]
  · cases h₂
    exact ⟨hmem, run_skipLayout_mem hskip, .inl hsame⟩

/-- Between braces without layout, entries spread up to the closing one. -/
theorem run_bracedFrom {w : Walk} {bound : Nat} {entries : List MapEntry}
    (hc : c.StandsIn w.tokens) (hnoted : c.passed ∈ c.breaks)
    (h : (bracedFrom (mapEntry rules) bound).run c = .ok (entries, d)) (hlast : d.Leads w.last)
    (hbrace : d.current.kind = .rightBrace)
    (hcontent : ∀ i, c.passed ≤ i → i < d.passed → (kindAt w.tokens i).isContent = true) :
    w.Spread c.passed d.passed entries := by
  have hmono : ∀ {c : Cursor}, c.Leads w.last → ∀ i ∈ c.breaks, i ∈ w.last.breaks := by
    intro c hc i hi
    obtain ⟨new, hnew, -⟩ := hc.breaks
    rw [hnew]
    exact List.mem_append_right _ hi
  induction bound generalizing c entries with
  | zero => exact absurd h (not_run_expected _ _ _)
  | succ bound ih =>
    have hbreak := hmono ((Parse.leads _ h).trans hlast) _ hnoted
    obtain ⟨closed, _, hclosed, h₁⟩ := run_bind_eq_ok.mp h
    cases hclosed
    split at h₁
    · rename_i hfound
      cases h₁
      refine ⟨fun i hi hlt => absurd hlt (Nat.not_lt_of_le hi), fun i hi hle => .inl ?_⟩
      obtain rfl : i = d.passed := Nat.le_antisymm hle hi
      refine ⟨hbreak, ?_⟩
      rw [hc.kindAt, hbrace]
      decide
    -- an entry, from here to the token before `c₁`
    obtain ⟨e, c₁, hentry, h₂⟩ := run_bind_eq_ok.mp h₁
    obtain ⟨hk, hlt₁, hcovers⟩ := run_mapEntry hc hentry
    have hc₁ := hc.of_leads (Parse.leads _ hentry)
    obtain ⟨_, c₂, hseparator, h₃⟩ := run_bind_eq_ok.mp h₂
    obtain ⟨rest, c₃, hrest, h₄⟩ := run_bind_eq_ok.mp h₃
    cases h₄
    have hc₂ := hc₁.of_leads (Parse.leads _ hseparator)
    have hle₂ := Cursor.StandsIn.passed_le (Parse.leads _ hseparator)
    have hle₃ := Cursor.StandsIn.passed_le (Parse.leads _ hrest)
    have hleads₂ := (Parse.leads _ hrest).trans hlast
    obtain ⟨hbreak₁, hbreak₂, hcomma⟩ := run_bracedSeparator hc₁ hseparator hle₃
      fun i hi hid => hcontent i (by omega) hid
    have hspread := ih hc₂ hbreak₂ hrest fun i hi hid => hcontent i (by omega) hid
    have hentry : ∀ i j, c.passed ≤ i → j < c₁.passed → w.WithinEntry (e :: rest) i j :=
      fun i j hi hj => ⟨e, List.mem_cons_self .., _, _, hcovers, hi, Nat.le_pred_of_lt hj⟩
    refine ⟨fun i hi hid => ?_, fun i hi hid => ?_⟩
    · rcases Nat.lt_or_ge i c₁.passed with hlt | hge
      · exact .inr (hentry i i hi hlt)
      rcases Nat.lt_or_ge i c₂.passed with hlt | hge₂
      · obtain ⟨hnext, hkind⟩ := hcomma.resolve_left (by omega)
        obtain rfl : i = c₁.passed := by omega
        exact .inl hkind
      · exact (hspread.tokens i hge₂ hid).imp_right .cons
    · obtain rfl | hlt := Nat.eq_or_lt_of_le hi
      · refine .inl ⟨hbreak, ?_⟩
        rw [hc.kindAt]
        rcases hk with hk | hk | hk <;> rw [hk] <;> decide
      rcases Nat.lt_or_ge i c₁.passed with hlt₁ | hge
      · exact .inr ⟨hlt, hentry _ _ (by omega) hlt₁⟩
      rcases Nat.lt_or_ge i c₂.passed with hlt₂ | hge₂
      · obtain ⟨hnext, hkind⟩ := hcomma.resolve_left (by omega)
        obtain rfl : i = c₁.passed := by omega
        exact .inl ⟨hmono hleads₂ _ hbreak₁, by rw [hkind]; decide⟩
      · exact (hspread.breaks i hge₂ hid).imp_right fun ⟨_, hin⟩ => ⟨by omega, hin.cons⟩

/-- Every map literal that was read is on record. -/
theorem run_mapLiteral {w : Walk} {e : Expr} (hc : c.StandsIn w.tokens)
    (h : (mapLiteral rules).run c = .ok (e, d)) (hlast : d.Leads w.last) :
    ∃ span entries, e = .map span entries ∧ w.OnRecord span entries := by
  obtain ⟨start, _, hstart, h₁⟩ := run_bind_eq_ok.mp h
  cases hstart
  obtain ⟨entries, d', hbraced, h₂⟩ := run_bind_eq_ok.mp h₁
  cases h₂
  obtain ⟨first, _, hfirst, h₃⟩ := run_bind_eq_ok.mp hbraced
  cases hfirst
  obtain ⟨_, c₁, hopen, h₄⟩ := run_bind_eq_ok.mp h₃
  obtain ⟨hk, rfl, rfl⟩ := run_expect hopen
  obtain ⟨_, c₂, hskip, h₅⟩ := run_bind_eq_ok.mp h₄
  obtain ⟨bound, _, hbound, h₆⟩ := run_bind_eq_ok.mp h₅
  cases hbound
  obtain ⟨_, c₃, hitems, h₇⟩ := run_bind_eq_ok.mp h₆
  obtain ⟨last, _, hlast, h₈⟩ := run_bind_eq_ok.mp h₇
  cases hlast
  obtain ⟨_, c₄, hclose, h₉⟩ := run_bind_eq_ok.mp h₈
  obtain ⟨hk', rfl, rfl⟩ := run_expect hclose
  have hleads := Parse.leads _ h₉
  cases h₉
  have hc₁ := hc.of_leads (.next c)
  have hc₂ := hc₁.of_leads (Parse.leads _ hskip)
  have hc₃ := hc₂.of_leads (Parse.leads _ hitems)
  have hnext := (hc.next (by rw [hk]; decide)).1
  have hle₂ := Cursor.StandsIn.passed_le (Parse.leads _ hskip)
  have hle₃ := Cursor.StandsIn.passed_le (Parse.leads _ hitems)
  refine ⟨_, entries, rfl, c.passed, c₃.passed, ?_, ?_, ⟨by omega, ?_, ?_⟩, fun hcontent => ?_⟩
  · rw [hc.kindAt, hk]
  · rw [hc₃.kindAt, hk']
  · rw [hc.getElem?]
    rfl
  · rw [hc₃.getElem?]
    exact congrArg some (hc₃.next (by rw [hk']; decide)).2.1.symm
  · have hstill := run_skipLayout_still hc₁ hskip hle₃ fun i hi hid => hcontent i (by omega) hid
    have hspread := run_bracedFrom hc₂ (run_skipLayout_mem hskip) hitems
      ((Cursor.Leads.next c₃).trans (hleads.trans hlast)) hk'
      fun i hi hid => hcontent i (by omega) hid
    rwa [hstill, hnext] at hspread

end Grammar

end EventScript
