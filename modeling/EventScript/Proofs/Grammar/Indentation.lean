import EventScript.Proofs.Grammar.Rules
import EventScript.Proofs.Token.Lines

/-! # Blocks follow the indentation

A source that compiles is read in such a way that every token that opens a block opens one
construct, and the token that the layout pairs with it closes that construct; so a statement stands
in the tree as deep as it is indented in the source (`Program.compile_follows`).

The rules by themselves do not see to that: a schema body passes over what it does not know, a
construct may be closed by the end of the file, and layout between braces means nothing.  But
whatever layout is passed over leaves the number of open blocks too high, and there are none left at
the end of a file.

* `FollowsIndentation`           what is said of a program and the way it was read
* `Program.compile_follows`      it holds of every program without braces over several lines
-/

namespace EventScript

/-- No map literal and no map pattern that was read spans a line break. -/
def Cursor.OneLineBraces (c : Cursor) : Prop :=
  ∀ first last span, .braced first last span ∈ c.readings → span.start.line = span.stop.line

/-- A program, and the record of its reading, follow the indentation of a token list: every token of
    indentation opens or closes exactly one construct, the two tokens of a construct are the ones
    that are paired by the layout, none is passed over in another way, and a statement stands in the
    tree as deep as it is indented. -/
structure FollowsIndentation (tokens : List Token) (readings : List Reading) (program : Program) :
    Prop where
  opened (i : Nat) :
    (marks .indent readings).count i = if kindAt tokens i = .indent then 1 else 0
  closed (i : Nat) :
    (marks .dedent readings).count i = if kindAt tokens i = .dedent then 1 else 0
  paired (construct : Construct) (opening : Nat) (closing : Option Nat) :
    .enclosed construct opening closing ∈ readings →
      ∃ last, closing = some last ∧ Paired tokens opening last
  kept (i : Nat) : .skipped i ∈ readings ∨ .unknown i ∈ readings →
    kindAt tokens i ≠ .indent ∧ kindAt tokens i ≠ .dedent
  placed (n : Nat) (s : Stmt) : program.Contains n s → Begins tokens n s.span.start

/-! ## From the first token to the end of the file -/

namespace Grammar

open Parse

variable {rules : Rules}

/-- Reading statements ends at the end of the file. -/
theorem atEnd_of_statementsFrom {bound : Nat} {c c' : Cursor} {ss : List Stmt}
    (h : (statementsFrom rules bound).run c = .ok (ss, c')) : c'.current.kind = .endOfFile := by
  induction bound generalizing c ss with
  | zero => exact absurd h (not_run_expected _ _ _)
  | succ bound ih =>
    obtain ⟨_, c₁, -, h⟩ := run_bind_eq_ok.mp h
    obtain ⟨found, _, hfound, h⟩ := run_bind_eq_ok.mp h
    cases hfound
    split at h
    · rename_i hend
      cases h
      exact beq_iff_eq.mp hend
    · obtain ⟨s, c₂, -, h⟩ := run_bind_eq_ok.mp h
      obtain ⟨rest, c₃, hrest, h⟩ := run_bind_eq_ok.mp h
      cases h
      exact ih hrest

/-- Reading a program ends at the end of the file. -/
theorem atEnd_of_program {c c' : Cursor} {p : Program} (h : (program rules).run c = .ok (p, c')) :
    c'.current.kind = .endOfFile := by
  obtain ⟨start, _, hcurrent, h⟩ := run_bind_eq_ok.mp h
  cases hcurrent
  obtain ⟨bound, _, hbound, h⟩ := run_bind_eq_ok.mp h
  cases hbound
  obtain ⟨ss, c₁, hss, h⟩ := run_bind_eq_ok.mp h
  cases h
  exact atEnd_of_statementsFrom hss

end Grammar

section

variable {tokens : List Token}

/-- The end of the file is the last token. -/
theorem LaidOut.eq_append (h : LaidOut (tokens.map Token.kind)) :
    ∃ body last, tokens = body ++ [last] ∧ last.kind = .endOfFile ∧
      ∀ t ∈ body, t.kind ≠ .endOfFile := by
  obtain ⟨kinds, hkinds, hnone⟩ := h.ended
  obtain ⟨body, ending, rfl, rfl, hending⟩ := List.map_eq_append_iff.mp hkinds
  obtain ⟨last, rfl, hlast⟩ := List.map_eq_singleton_iff.mp hending
  refine ⟨body, last, rfl, hlast, fun t ht hkind => ?_⟩
  exact hnone (hkind ▸ List.mem_map_of_mem ht)

/-- There is one end of the file, behind which there is nothing. -/
theorem LaidOut.length_eq (h : LaidOut (tokens.map Token.kind)) {i : Nat} (hi : i < tokens.length)
    (hend : kindAt tokens i = .endOfFile) : tokens.length = i + 1 := by
  obtain ⟨body, last, rfl, hlast, hbody⟩ := h.eq_append
  rw [List.length_append, List.length_singleton] at hi ⊢
  by_contra hne
  have hlt : i < body.length := by omega
  rw [kindAt, List.getElem?_append_left hlt, List.getElem?_eq_getElem hlt] at hend
  exact hbody _ (List.getElem_mem hlt) hend

theorem LaidOut.kindAt_eq_endOfFile (h : LaidOut (tokens.map Token.kind)) {i j : Nat}
    (hi : i < tokens.length) (hend : kindAt tokens i = .endOfFile) (hj : i ≤ j) :
    kindAt tokens j = .endOfFile := by
  have hlength := h.length_eq hi hend
  obtain rfl | hlt := Nat.eq_or_lt_of_le hj
  · exact hend
  · rw [kindAt, List.getElem?_eq_none (by omega)]
    rfl

/-- At the end of the file no block is open. -/
theorem LaidOut.depthAt_end (h : LaidOut (tokens.map Token.kind)) {i : Nat}
    (hi : i < tokens.length) (hend : kindAt tokens i = .endOfFile) : depthAt tokens i = 0 := by
  have hlength := h.length_eq hi hend
  obtain ⟨body, last, rfl, hlast, hbody⟩ := h.eq_append
  have hplace : i = body.length := by
    rw [List.length_append, List.length_singleton] at hlength
    omega
  have hbalanced := h.balanced
  rw [depthAt_eq_count, hplace, List.take_left]
  simp only [List.map_append, List.map_cons, List.map_nil, hlast, List.count_append] at hbalanced
  simp at hbalanced
  omega

end

/-- What was read, from the first token to the end of the file, nests. -/
theorem Program.read_nests {tokens : List Token} (hlaid : LaidOut (tokens.map Token.kind))
    {program : Program} {c : Cursor} (h : Program.read tokens = .ok (program, c)) :
    Nests tokens false 0 c.passed c.readings ∧ c.passed < tokens.length ∧
      kindAt tokens c.passed = .endOfFile ∧
      ((∀ r ∈ c.readings, r.Sound tokens) →
        ∀ (n : Nat) (s : Stmt), program.Contains n s → Begins tokens n s.span.start) := by
  unfold Program.read at h
  cases tokens with
  | nil => cases h
  | cons t rest =>
    obtain ⟨body, last, hbody, hlast, -⟩ := hlaid.eq_append
    have hstart : Cursor.StandsIn (t :: rest) ⟨t, rest, t.span.stop, 0, 0, [], []⟩ :=
      ⟨⟨body, last, hbody, hlast⟩, rfl⟩
    have hkeeps : Parse.Keeps (t :: rest) false 0 (fun _ => True) _ _ :=
      Grammar.keeps_program (Grammar.keeps_rulesAt (Grammar.depthFor (t :: rest).length))
    obtain ⟨rs, hrs, hnests, hplaced⟩ := hkeeps hstart trivial h
    have hc := hstart.of_leads ((Grammar.program _).leads h)
    have hkind := Grammar.atEnd_of_program h
    rw [List.append_nil] at hrs
    rw [hrs]
    refine ⟨hnests, ?_, hc.kindAt.trans hkind, fun hsound n s hs => ?_⟩
    · exact (List.getElem?_eq_some_iff.mp hc.getElem?).1
    · simpa using hplaced hsound rfl n s hs

/-- Between braces on one line no layout is skipped. -/
theorem skipped_weight {source : String} {file : Option String} {tokens : List Token}
    (hscan : Token.scan source file = .ok tokens) {j : Nat} {rs : List Reading}
    (h : Nests tokens false 0 j rs)
    (hbraces : ∀ first last span, .braced first last span ∈ rs → span.start.line = span.stop.line)
    {k : Nat} (hk : .skipped k ∈ rs) : (kindAt tokens k).weight = 0 := by
  by_contra hweight
  obtain ⟨first, last, span, hmem, hfirst, hlast⟩ := h.skipped_braced hk rfl
  obtain ⟨hopen, hstart, hclose, hstop⟩ := h.braced_span hmem
  obtain ⟨t, ht, hstart⟩ := Option.map_eq_some_iff.mp hstart
  obtain ⟨u, hu, hstop⟩ := Option.map_eq_some_iff.mp hstop
  rw [kindAt, ht] at hopen
  rw [kindAt, hu] at hclose
  cases hx : tokens[k]? with
  | none => simp [kindAt, hx, TokenKind.weight] at hweight
  | some x =>
    rw [kindAt, hx] at hweight
    have hline := scan_crosses_line hscan ht hx hu hfirst hlast
      (by rw [show t.kind = _ from hopen]; rfl) hweight (by rw [show u.kind = _ from hclose]; rfl)
    have := hbraces first last span hmem
    rw [hstart, hstop] at hline
    omega

/-- What compiles was scanned and read. -/
theorem Program.read_of_compile {source : String} {file : Option String} {program : Program}
    (h : Program.compile source file = .ok program) :
    ∃ tokens c, Token.scan source (some (sourceName file)) = .ok tokens ∧
      Program.read tokens = .ok (program, c) := by
  unfold Program.compile at h
  cases hscan : Token.scan source (some (sourceName file)) with
  | error d =>
    rw [hscan] at h
    cases h
  | ok tokens =>
    rw [hscan] at h
    change (Program.ofTokens tokens).mapError (quoting source) = .ok program at h
    unfold Program.ofTokens at h
    cases hread : Program.read tokens with
    | error d =>
      rw [hread] at h
      cases h
    | ok result =>
      rw [hread] at h
      cases h
      exact ⟨tokens, result.2, rfl, hread⟩

/-- What was scanned and read compiles. -/
theorem Program.compile_of_read {source : String} {file : Option String} {tokens : List Token}
    {program : Program} {c : Cursor} (hscan : Token.scan source (some (sourceName file)) = .ok tokens)
    (hread : Program.read tokens = .ok (program, c)) :
    Program.compile source file = .ok program := by
  change (Token.scan source (some (sourceName file)) >>= _) = _
  rw [hscan]
  change (Program.ofTokens tokens).mapError _ = _
  rw [Program.ofTokens, hread]
  rfl

/-- A source that compiles was read along its indentation, if no map literal and no map pattern in
    it spans a line break. -/
theorem Program.compile_follows {source : String} {file : Option String} {program : Program}
    (h : Program.compile source file = .ok program) :
    ∃ tokens c, Token.scan source (some (sourceName file)) = .ok tokens ∧
      Program.read tokens = .ok (program, c) ∧
        (c.OneLineBraces → FollowsIndentation tokens c.readings program) := by
  obtain ⟨tokens, c, hscan, hread⟩ := Program.read_of_compile h
  refine ⟨tokens, c, hscan, hread, fun hbraces => ?_⟩
  have hlaid : LaidOut (tokens.map Token.kind) := tokens_laidOut hscan
  obtain ⟨hnests, hlast, hend, hplaced⟩ := Program.read_nests hlaid hread
  -- nothing was skipped, and no block is open at the end, so nothing was passed over
  have hsound : ∀ r ∈ c.readings, r.Sound tokens := by
    refine hnests.sound_of_depthAt_eq (fun k hk => skipped_weight hscan hnests hbraces hk) ?_
    rw [hlaid.depthAt_end hlast hend, depthAt_zero]
  have hcount : ∀ mark, mark = .indent ∨ mark = .dedent → ∀ i,
      (marks mark c.readings).count i = if kindAt tokens i = mark then 1 else 0 := by
    intro mark hmark i
    rw [hnests.count_marks hsound hmark i]
    by_cases hi : kindAt tokens i = mark
    · -- no token but the end of the file is at the last place
      have hpassed : i < c.passed := by
        by_contra hlong
        have hnot : mark ≠ .endOfFile := by rcases hmark with rfl | rfl <;> decide
        exact hnot (hi.symm.trans (hlaid.kindAt_eq_endOfFile hlast hend (Nat.le_of_not_lt hlong)))
      simp [hi, hpassed]
    · simp [hi]
  refine ⟨hcount _ (.inl rfl), hcount _ (.inr rfl), ?_, ?_, hplaced hsound⟩
  · exact fun construct opening closing hr => hnests.paired hsound hr
  · rintro i (hi | hi)
    · exact TokenKind.weight_eq_zero.mp (hsound _ hi)
    · exact TokenKind.weight_eq_zero.mp (hsound _ hi)

/-- A source with every kind of construct: a schema with a section and a method, an instance, a match
    with a map pattern, and a block lambda in a call. -/
def nestedSource : String :=
  "schema Door:\n  required:\n    id: string\n  fn ring():\n    return 1\n" ++
    "Door front:\n  id: \"x\"\n" ++
    "match \x7bkind: 1\x7d:\n  \x7bkind: k\x7d when k:\n    call(fn():\n      ring()\n    )\n"

theorem compile_follows_nestedSource :
    ∃ tokens program c, Program.compile nestedSource none = .ok program ∧
      Program.read tokens = .ok (program, c) ∧
      (c.readings.countP fun | .enclosed .. => true | _ => false) = 7 ∧
        FollowsIndentation tokens c.readings program := by
  have hchecks : (match Token.scan nestedSource (some "<input>") with
      | .ok tokens =>
        match Program.read tokens with
        | .ok (_, c) =>
          (c.readings.countP fun | .enclosed .. => true | _ => false) == 7 &&
            c.readings.all fun
              | .braced _ _ span => span.start.line == span.stop.line
              | _ => true
        | .error _ => false
      | .error _ => false) = true := by decide +kernel
  cases hscan : Token.scan nestedSource (some "<input>") with
  | error d => simp [hscan] at hchecks
  | ok tokens =>
    cases hread : Program.read tokens with
    | error d => simp [hscan, hread] at hchecks
    | ok result =>
      obtain ⟨program, c⟩ := result
      simp only [hscan, hread, Bool.and_eq_true, beq_iff_eq, List.all_eq_true] at hchecks
      have hcompile : Program.compile nestedSource none = .ok program :=
        Program.compile_of_read hscan hread
      obtain ⟨tokens', c', hscan', hread', hfollows⟩ := Program.compile_follows hcompile
      cases hscan.symm.trans hscan'
      cases hread.symm.trans hread'
      refine ⟨tokens, program, c, hcompile, hread, hchecks.1, hfollows fun first last span hr => ?_⟩
      simpa using hchecks.2 _ hr

end EventScript
