import EventScript.Proofs.Grammar.Forking

/-! # A bracket does not end a block

Behind a statement that ends with its line a block ends at the token that returns to the indentation
around it, and nowhere else: in a token list that is the same up to that line and goes on with a
bracket that closes, the reading is refused at the bracket.

* `Nests.eq_of_endsAt`     at most one construct ends at a place
* `Program.read_bracket`   what is read where a bracket stands behind the last statement of a block
-/

namespace EventScript

/-! ## The construct that ends at a place -/

namespace Nests

variable {tokens : List Token} {braces : Bool} {i j place : Nat} {rs : List Reading}

theorem countP_endsAt_le (h : Nests tokens braces i j rs) (place : Nat) :
    rs.countP (Reading.endsAt place) ≤ if i ≤ place ∧ place < j then 1 else 0 := by
  induction h with
  | stay | pass | unknown | atEnd => simp [Reading.endsAt]
  | trans first second ih ih' =>
    have := first.le
    have := second.le
    rw [List.countP_append]
    split_ifs at ih ih' ⊢ <;> omega
  | @enclosed _ construct i j rs _ inside _ ih =>
    have := inside.le
    by_cases hj : j = place
    · rw [List.countP_cons_of_pos (by simp [Reading.endsAt, hj])]
      split_ifs at ih ⊢ <;> omega
    · rw [List.countP_cons_of_neg (by simp [Reading.endsAt, hj])]
      split_ifs at ih ⊢ <;> omega
  | unclosed =>
    rename_i ih
    rw [List.countP_cons_of_neg (by simp [Reading.endsAt])]
    split_ifs at ih ⊢ <;> omega
  | skipped i =>
    by_cases hi : i = place
    · rw [List.countP_cons_of_pos (by simp [Reading.endsAt, hi]), List.countP_nil, if_pos (by omega)]
    · rw [List.countP_cons_of_neg (by simp [Reading.endsAt, hi]), List.countP_nil]
      exact Nat.zero_le _
  | @braced _ i j rs span _ inside _ _ _ ih =>
    have := inside.le
    rw [List.countP_cons_of_neg (by simp [Reading.endsAt])]
    split_ifs at ih ⊢ <;> omega

/-- A construct is closed where a block ends. -/
theorem kindAt_closing (h : Nests tokens braces i j rs) {construct : Construct} {opening : Nat}
    (hr : .enclosed construct opening (some place) ∈ rs) : kindAt tokens place = .dedent := by
  induction h with
  | stay | pass | unknown | atEnd | skipped => simp at hr
  | trans _ _ ih ih' => exact (List.mem_append.mp hr).elim ih' ih
  | enclosed _ _ _ _ closes ih =>
    rcases List.mem_cons.mp hr with heq | hr
    · cases heq
      exact closes
    · exact ih hr
  | unclosed _ _ _ _ ih | braced _ _ _ _ _ _ ih => exact ih (by simpa using hr)

/-- At most one construct ends at a place. -/
theorem eq_of_endsAt (h : Nests tokens braces i j rs) {r r' : Reading} (hr : r ∈ rs) (hr' : r' ∈ rs)
    (hends : r.endsAt place = true) (hends' : r'.endsAt place = true) : r = r' := by
  have hcount : (rs.filter (Reading.endsAt place)).length ≤ 1 := by
    rw [← List.countP_eq_length_filter]
    refine Nat.le_trans (h.countP_endsAt_le place) ?_
    split_ifs <;> omega
  have hmem := List.mem_filter.mpr ⟨hr, hends⟩
  have hmem' := List.mem_filter.mpr ⟨hr', hends'⟩
  match hfilter : rs.filter (Reading.endsAt place) with
  | [] => rw [hfilter] at hmem; cases hmem
  | [x] =>
    rw [hfilter, List.mem_singleton] at hmem hmem'
    rw [hmem, hmem']
  | _ :: _ :: _ => rw [hfilter] at hcount; simp at hcount

end Nests

/-! ## A whole file -/

namespace Grammar

open Parse Fork

variable {f : Fork} {goal : Option f.Closing} {ended : Bool} {rules : Rules}

section

variable (hr : rules.Forks f goal)

include hr

theorem notAtDedent_statementsRound : NotAtDedent (statementsRound rules) := by
  refine ⟨fun ss c r hk hrun => ?_, fun {ss c c' b} hrun hk => ?_⟩
  · rw [statementsRound, run_bind_of_ok (run_skipNewlines_of_ne (by simp [hk])), atKind,
      run_bind_of_ok (run_ask _ _), if_neg (by simp [hk])] at hrun
    obtain ⟨_, _, hstatement, -⟩ := run_bind_eq_ok.mp hrun
    exact hr.notAtDedent c _ hk hstatement
  · -- the loop is left at the end of the file
    obtain ⟨_, c₁, -, hrun⟩ := run_bind_eq_ok.mp hrun
    obtain ⟨_, _, hask, hrun⟩ := run_bind_eq_ok.mp hrun
    cases hask
    split at hrun
    · rename_i hend
      cases hrun
      simp [hk] at hend
    · obtain ⟨_, _, -, hagain⟩ := run_bind_eq_ok.mp hrun
      cases hagain

theorem forks_statementsRound (ss : List Stmt) :
    Forks f goal true Wherever (statementsRound rules ss) := by
  refine .bindEnd (q := InLine) forks_skipNewlines (fun c d _ tokens i hc => run_skipNewlines hc)
    (fun _ c r hk hrun => ?_) fun _ => ?_
  · refine (notAtDedent_statementsRound hr).goesOn ss r hk ?_
    rwa [statementsRound, run_bind_of_ok (run_skipNewlines_of_ne (by simp [hk]))]
  refine .ask (fun c d hc h => by rw [hc.current (hc.lt_of_kind h)]) fun _ =>
    .ite (fun _ => .pure) fun _ => ?_
  exact .bindStay ((hr.reads .statement).weaken fun _ _ => trivial) fun s =>
    ⟨fun _ => .again (ss ++ [s]), fun _ => rfl⟩

/-- A file is read alike, or comes to where two token lists part. -/
theorem forks_program : Forks f goal ended (fun c => c.passed < f.place) (program rules) := by
  have hstatements : Forks f goal false Wherever (tokensLeft >>= statementsFrom rules) := by
    have h : Forks f goal false Wherever _ := forks_loopAt .fileStatements hr.spans hr.spansOther
      (forks_statementsRound hr) (fun _ => notAtDedent_statementsRound hr) []
    simp only [List.nil_append, id_map'] at h
    exact h
  refine .ask (fun c d hc h => hc.current h) fun start => ?_
  refine .bindLoop (hstatements.weaken fun _ _ => trivial) fun ss => ?_
  exact .bind (forks_spanFrom _) fun _ => .pure

end

end Grammar

/-- Where a token list that spells a program goes on with a bracket that closes, behind the last line
    of a block, it is refused at that bracket. -/
theorem Program.read_bracket {f : Fork} {program : Program} (k : f.Closing) (hplace : 0 < f.place)
    (hlaid : LaidOut (f.tokens.map Token.kind)) (hlaid' : LaidOut (f.other.map Token.kind))
    (hread : Program.read f.tokens = .ok (program, k.last)) :
    Program.read f.other = .error k.problem := by
  obtain ⟨body, last, htokens, hlast, -⟩ := hlaid.eq_append
  obtain ⟨body', last', hother, hlast', -⟩ := hlaid'.eq_append
  obtain ⟨c, hc⟩ : ∃ c, Cursor.ofTokens? f.tokens = some c := by
    rw [htokens]
    cases body <;> exact ⟨_, rfl⟩
  obtain ⟨d, hd⟩ : ∃ d, Cursor.ofTokens? f.other = some d := by
    rw [hother]
    cases body' <;> exact ⟨_, rfl⟩
  have hc₀ := Cursor.At.start ⟨body, last, htokens, hlast⟩ hc
  have hd₀ := Cursor.At.start ⟨body', last', hother, hlast'⟩ hd
  have hbeside : f.Beside (some k) c d := ⟨.start hplace hc₀ hd₀ hc hd, fun _ => rfl⟩
  -- both readings have levels enough
  have hrun := Program.run_rulesAbove ⟨body, last, htokens, hlast⟩ hc
    (fun _ => Parse.expected "expression") (Nat.le_max_left _ (Grammar.depthFor f.other.length))
  have hrun' := Program.run_rulesAbove ⟨body', last', hother, hlast'⟩ hd
    (fun _ => Parse.expected "expression") (Nat.le_max_right (Grammar.depthFor f.tokens.length) _)
  rw [← Grammar.rulesAt_eq_rulesAbove] at hrun hrun'
  rw [hread] at hrun
  have hforks : Parse.Forks f (some k) false _ _ := Grammar.forks_program (Grammar.forks_rulesAt
    (max (Grammar.depthFor f.tokens.length) (Grammar.depthFor f.other.length)))
  rcases hforks hbeside (by simpa [hc₀.passed] using hplace) hrun (.refl _) with
    ⟨d', -, hend⟩ | hparted | ⟨hfalse, -⟩
  · -- the first reading ends at the end of the file, which is behind the end of the block
    have hle := hend.le
    have hlt := (List.getElem?_eq_some_iff.mp hend.stands.getElem?).1
    have hkind : kindAt f.tokens k.last.passed = .endOfFile :=
      hend.stands.kindAt.trans (Grammar.atEnd_of_program hrun)
    have := hlaid.kindAt_eq_endOfFile hlt hkind (Nat.le_trans hle (Nat.le_succ _))
    rw [k.dedent] at this
    cases this
  · rw [← hrun']
    exact hparted
  · cases hfalse

/-- A token list that spells a program, and one that goes on with a bracket behind the last token of a
    line at which a block ends. -/
theorem Program.read_append_bracket {earlier later more : List Token} {last b : Token}
    {program : Program} {c : Cursor} (hlaid : LaidOut ((earlier ++ last :: later).map Token.kind))
    (hlaid' : LaidOut ((earlier ++ last :: b :: more).map Token.kind))
    (hread : Program.read (earlier ++ last :: later) = .ok (program, c)) {opening : Nat}
    (hblock : .enclosed .block opening (some (earlier.length + 2)) ∈ c.readings)
    (hline : later.head?.map Token.kind = some .newline) (hb : b.kind ∈ TokenKind.closingBrackets) :
    Program.read (earlier ++ last :: b :: more) =
      .error (.located (.unexpectedToken "expression" b.kind) b.span) := by
  obtain ⟨hnests, -⟩ := read_nests hlaid hread
  let f : Fork := .behind earlier last later (b :: more) (by
    rw [hline]
    refine fun k hk => ⟨?_, ?_⟩ <;> rintro heq <;> cases heq
    · exact absurd hk (by decide)
    · revert hk hb
      cases b.kind <;> decide)
  have hnewline : kindAt f.tokens f.place = .newline := by
    rw [kindAt, show f.tokens[f.place]? = _ from Fork.getElem?_behind earlier last later, hline]
    rfl
  let closing : f.Closing :=
    { last := c
      bracket := b
      newline := hnewline
      dedent := hnests.kindAt_closing hblock
      found := Fork.getElem?_behind _ _ _
      closes := hb
      block := fun r hr hends =>
        ⟨opening, hnests.eq_of_endsAt hr hblock hends (by simp [Reading.endsAt, f, Fork.behind])⟩ }
  exact read_bracket closing (Nat.succ_pos _) hlaid hlaid' hread

end EventScript
