import EventScript.Proofs.Token.Scanned

/-! # Tokens and lines

Tokens come in the order of the source, and a block is opened or closed only where a line starts:
`scan_crosses_line` says that two tokens that are written out do not stand on one line if a block is
opened or closed between them.
-/

namespace EventScript

namespace Location

theorem line_le_next (l : Location) (c : Char) : l.line ≤ (l.next c).line := by
  unfold next
  split
  · exact Nat.le_succ _
  · exact Nat.le_refl _

theorem line_le_after (l : Location) (cs : List Char) : l.line ≤ (l.after cs).line := by
  induction cs generalizing l with
  | nil => exact Nat.le_refl _
  | cons c cs ih => exact Nat.le_trans (line_le_next l c) (ih _)

end Location

/-- A token comes after another one: it does not start on an earlier line than that one ends, and
    where it opens or closes a block, it is further down than what is written out before it. -/
structure Token.Follows (later earlier : Token) : Prop where
  lines : earlier.span.stop.line ≤ later.span.start.line
  layout : later.kind.weight ≠ 0 → earlier.kind.isContent = true →
    earlier.span.stop.line < later.span.start.line

namespace Scanner

/-- The tokens found so far are in the order of their lines, and where a line starts, nothing was
    written out on it. -/
structure InOrder (s : Scanner) : Prop where
  spans : ∀ t ∈ s.tokens, t.span.start.line ≤ t.span.stop.line ∧ t.span.stop.line ≤ s.here.line
  pairs : s.tokens.Pairwise Token.Follows
  fresh : s.atLineStart = true → ∀ t ∈ s.tokens, t.kind.isContent = true →
    t.span.stop.line < s.here.line

namespace InOrder

variable {s t : Scanner}

/-- Going on without finding a token. -/
theorem of_sameTokens (hs : s.InOrder) (htokens : t.tokens = s.tokens)
    (hhere : s.here.line ≤ t.here.line) (hstart : t.atLineStart = true → s.atLineStart = true) :
    t.InOrder := by
  refine ⟨fun x hx => ?_, htokens ▸ hs.pairs, fun h x hx hkind => ?_⟩
  · have := hs.spans x (htokens ▸ hx)
    omega
  · have := hs.fresh (hstart h) x (htokens ▸ hx) hkind
    omega

theorem advance (hs : s.InOrder) (n : Nat) : (s.advance n).InOrder :=
  hs.of_sameTokens rfl (Location.line_le_after ..) id

/-- Finding a token that starts where the last one has ended or later, and that is a token of layout
    only where a line starts. -/
theorem push (hs : s.InOrder) (k : TokenKind) (v : Literal) (lexeme : String) {start : Location}
    (hbefore : ∀ t ∈ s.tokens, t.span.stop.line ≤ start.line) (hstart : start.line ≤ s.here.line)
    (hlayout : k.weight ≠ 0 → ∀ t ∈ s.tokens, t.kind.isContent = true →
      t.span.stop.line < start.line)
    (hfresh : s.atLineStart = true → k.isContent = false) :
    (s.push k v lexeme start).InOrder := by
  refine ⟨?_, ?_, fun h => ?_⟩
  · exact List.forall_mem_cons.mpr ⟨⟨hstart, Nat.le_refl _⟩, hs.spans⟩
  · refine List.pairwise_cons.mpr ⟨fun t ht => ⟨hbefore t ht, fun hk => hlayout hk t ht⟩, hs.pairs⟩
  · refine List.forall_mem_cons.mpr ⟨fun hk => ?_, hs.fresh h⟩
    exact absurd ((hfresh h).symm.trans hk) (by decide)

theorem pushLayouts (hs : s.InOrder) {k : TokenKind} (hk : k.isContent = false)
    (hstart : ∀ t ∈ s.tokens, t.kind.isContent = true → t.span.stop.line < s.here.line) (n : Nat) :
    (s.pushLayouts k n).InOrder := by
  induction n generalizing s with
  | zero => exact hs
  | succ n ih =>
    refine ih (hs.push k .null "" (fun t ht => (hs.spans t ht).2) (Nat.le_refl _)
      (fun _ => hstart) fun _ => hk) ?_
    refine List.forall_mem_cons.mpr ⟨fun hcontent => ?_, hstart⟩
    exact absurd (hk.symm.trans hcontent) (by decide)

theorem indentTo (hs : s.InOrder)
    (hstart : ∀ t ∈ s.tokens, t.kind.isContent = true → t.span.stop.line < s.here.line)
    (width : Nat) : (s.indentTo width).InOrder := by
  have hlevels : ∀ levels, InOrder { s with levels := levels } := fun _ => ⟨hs.1, hs.2, hs.3⟩
  unfold Scanner.indentTo
  split
  · exact (hlevels (width :: s.levels)).pushLayouts (k := .indent) rfl hstart 1
  · exact (hlevels (s.levels.dropWhile (· > width))).pushLayouts (k := .dedent) rfl hstart _

theorem layout (hs : s.InOrder) : s.layout.InOrder := by
  unfold Scanner.layout
  split
  · rename_i hfresh
    have hmoved := (hs.advance (s.rest.takeWhile isIndent).length).of_sameTokens
      (t := { s.advance (s.rest.takeWhile isIndent).length with atLineStart := false })
      rfl (Nat.le_refl _) fun h => by cases h
    dsimp only
    split
    · exact hmoved
    · refine hmoved.indentTo (fun t ht hkind => ?_) _
      exact Nat.lt_of_lt_of_le (hs.fresh hfresh t ht hkind) (Location.line_le_after ..)
  · exact hs

theorem lineFeed (hs : s.InOrder) {rest : List Char} (hrest : s.rest = '\n' :: rest) :
    s.lineFeed.InOrder := by
  have hline : (s.advance 1).here.line = s.here.line + 1 := by
    simp [Scanner.advance, hrest, Location.after, Location.next]
  have hnext : InOrder { s.advance 1 with atLineStart := true } := by
    refine ⟨(hs.advance 1).spans, hs.pairs, fun _ t ht _ => ?_⟩
    have := (hs.spans t ht).2
    exact hline ▸ Nat.lt_succ_of_le this
  unfold Scanner.lineFeed
  dsimp only
  split
  · exact hnext
  · exact hnext
  · exact hnext
  · exact hnext
  · refine hnext.push .newline .null "\\n" (fun t ht => (hs.spans t ht).2) ?_ ?_ fun _ => rfl
    · exact Location.line_le_after ..
    · exact fun h => absurd rfl h

theorem take (hs : s.InOrder) (l : Lexeme) (hl : l.kind.isContent = true)
    (hstart : s.atLineStart = false) : (s.take l).InOrder := by
  refine (hs.advance l.chars.length).push l.kind l.value _ (fun t ht => (hs.spans t ht).2)
    (Location.line_le_after ..) (fun h => ?_) fun h => ?_
  · exact absurd (TokenKind.weight_of_isContent hl) h
  · exact absurd (hstart.symm.trans h) (by decide)

theorem step (hs : s.InOrder) (hbetween : s.Between) (h : s.step = .ok t) : t.InOrder := by
  obtain ⟨-, hstart, -⟩ := hbetween.layout
  have hu : s.layout.skipGap.InOrder := hs.layout.advance _
  have hmoves := moves_of_step h
  generalize s.layout.skipGap = u at hstart hu hmoves
  cases hmoves with
  | ended => exact hu
  | comment => exact hu.advance _
  | lineFeed hrest => exact hu.lineFeed hrest
  | lexeme _ _ _ hl => exact hu.take _ (Lexeme.isContent_read hl) hstart

end InOrder

variable {source : List Char} {file : Option String}

theorem Passes.inOrder {s : Scanner} (hs : Passes source file s) : s.InOrder := by
  induction hs with
  | start => exact ⟨by simp [Scanner.start], List.Pairwise.nil, by simp [Scanner.start]⟩
  | step before _ taken ih => exact ih.step before.between taken

/-- What ends the token list is not written out. -/
theorem exists_finish_eq (s : Scanner) :
    ∃ ending : List Token, s.finish = s.tokens.reverse ++ ending ∧
      ∀ t ∈ ending, t.kind.isContent = false := by
  refine ⟨_, s.finish_eq, List.forall_mem_append.mpr ⟨fun t ht => ?_, by simp; rfl⟩⟩
  rw [List.eq_of_mem_replicate ht]
  rfl

end Scanner

/-- Two tokens that are written out do not stand on one line if a block is opened or closed between
    them. -/
theorem scan_crosses_line {source : String} {file : Option String} {tokens : List Token}
    (h : Token.scan source file = .ok tokens) {i k j : Nat} {first between last : Token}
    (hfirst : tokens[i]? = some first) (hbetween : tokens[k]? = some between)
    (hlast : tokens[j]? = some last) (hik : i < k) (hkj : k < j)
    (hcontent : first.kind.isContent = true) (hlayout : between.kind.weight ≠ 0)
    (hcontent' : last.kind.isContent = true) :
    first.span.start.line < last.span.stop.line := by
  unfold Token.scan at h
  split at h
  · rename_i s hrun
    cases h
    have hs := ((Scanner.Passes.start).run hrun).1.inOrder
    obtain ⟨ending, hfinish, hending⟩ := s.exists_finish_eq
    -- the last of the three is written out, so all of them were found by the scan
    have hmem : ∀ {n : Nat} {t : Token}, n ≤ j → s.finish[n]? = some t →
        s.tokens.reverse[n]? = some t := by
      intro n t hn ht
      rw [hfinish] at ht hlast
      have hj : j < s.tokens.reverse.length := by
        by_contra hlong
        rw [List.getElem?_append_right (Nat.le_of_not_lt hlong)] at hlast
        have := hending last (List.mem_of_getElem? hlast)
        exact absurd (this.symm.trans hcontent') (by decide)
      rwa [List.getElem?_append_left (Nat.lt_of_le_of_lt hn hj)] at ht
    have hpairs := List.pairwise_reverse.mpr hs.pairs
    rw [List.pairwise_iff_getElem] at hpairs
    obtain ⟨hi, rfl⟩ := List.getElem?_eq_some_iff.mp (hmem (by omega) hfirst)
    obtain ⟨hk, rfl⟩ := List.getElem?_eq_some_iff.mp (hmem (by omega) hbetween)
    obtain ⟨hj, rfl⟩ := List.getElem?_eq_some_iff.mp (hmem (by omega) hlast)
    have hup := (hpairs i k hi hk hik).layout hlayout hcontent
    have hdown := (hpairs k j hk hj hkj).lines
    have hspan : ∀ {n : Nat} (hn : n < s.tokens.reverse.length),
        (s.tokens.reverse[n]).span.start.line ≤ (s.tokens.reverse[n]).span.stop.line :=
      fun hn => (hs.spans _ (List.mem_reverse.mp (List.getElem_mem hn))).1
    have := hspan hi
    have := hspan hk
    have := hspan hj
    omega
  · cases h

end EventScript
