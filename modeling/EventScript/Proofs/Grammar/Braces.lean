import EventScript.Proofs.Grammar.Agreement
import EventScript.Proofs.Grammar.Indentation

/-! # Layout in braces

Reading a program that compiles finds places where line breaks mean nothing.  A source with further
layout in those places, and in no others, compiles to the same program, spans aside; and between the
braces of a map literal on one line these are all the places but those in the middle of an entry
(`Program.compile_padded`).

Nothing more is promised: a block that the further layout opens between the braces and closes only
behind them is in the way there.
-/

namespace EventScript

section

open Grammar Outline

variable {onRecord : Span → List MapEntry → Prop}

theorem importFile_of_shape {s : Stmt} {i : Import}
    (h : (Node.stmt (.importFile i)).shape = (Node.stmt s).shape) : ∃ i', s = .importFile i' := by
  cases s with
  | importFile i' => exact ⟨i', rfl⟩
  | function f => cases f; simp [ofImport] at h
  | ifThen s => cases s; simp [ofImport] at h
  | _ => simp [ofImport] at h

/-- Two statements that are alike are both imports, or both stay in the body of the program. -/
theorem Node.Alike.sorted {s s' : Stmt} (h : Alike onRecord (stmt s) (stmt s')) :
    (∃ i i', s = .importFile i ∧ s' = .importFile i' ∧
      (ofImport i).withoutSpans = (ofImport i').withoutSpans) ∨
    (importsOf [s] = [] ∧ bodyOf [s] = [s]) ∧ importsOf [s'] = [] ∧ bodyOf [s'] = [s'] := by
  have hkept : ∀ s : Stmt, (∀ i, s ≠ .importFile i) → importsOf [s] = [] ∧ bodyOf [s] = [s] := by
    intro s hs
    cases s <;> first | exact ⟨rfl, rfl⟩ | exact absurd rfl (hs _)
  by_cases himport : ∃ i, s = .importFile i
  · obtain ⟨i, rfl⟩ := himport
    obtain ⟨i', rfl⟩ := importFile_of_shape h.shape
    exact .inl ⟨i, i', rfl, rfl, h.shape⟩
  · refine .inr ⟨hkept s fun i hi => himport ⟨i, hi⟩, hkept s' ?_⟩
    rintro i' rfl
    exact himport (importFile_of_shape h.shape.symm)

theorem importsOf_cons (s : Stmt) (ss : List Stmt) :
    importsOf (s :: ss) = importsOf [s] ++ importsOf ss :=
  List.filterMap_append (l := [s])

theorem bodyOf_cons (s : Stmt) (ss : List Stmt) : bodyOf (s :: ss) = bodyOf [s] ++ bodyOf ss :=
  List.filter_append [s] ss

/-- The programs made of statements that are alike have the same shape. -/
theorem Node.AlikeAll.program {ss ss' : List Stmt} (h : AlikeAll onRecord stmt ss ss')
    (span span' : Span) :
    (⟨span, importsOf ss, bodyOf ss⟩ : Program).shape =
      (⟨span', importsOf ss', bodyOf ss'⟩ : Program).shape := by
  suffices hparts : itemsWithoutSpans ((importsOf ss).map ofImport) =
      itemsWithoutSpans ((importsOf ss').map ofImport) ∧
      AlikeAll onRecord stmt (bodyOf ss) (bodyOf ss') by
    simp [Program.shape, ofProgram, hparts.1, hparts.2.stmts]
  induction h with
  | nil => exact ⟨rfl, .nil⟩
  | @cons s s' ss ss' hs _ ih =>
    rw [importsOf_cons s ss, importsOf_cons s' ss', bodyOf_cons s ss, bodyOf_cons s' ss']
    rcases hs.sorted with ⟨i, i', rfl, rfl, hi⟩ | ⟨⟨himports, hbody⟩, himports', hbody'⟩
    · refine ⟨?_, ih.2⟩
      rw [List.map_append, List.map_append, itemsWithoutSpans_append, itemsWithoutSpans_append,
        ih.1]
      simp [importsOf, hi]
    · rw [himports, hbody, himports', hbody']
      exact ⟨ih.1, .cons hs ih.2⟩

end

/-- A token list with further layout where line breaks mean nothing is read to the same program. -/
theorem Program.read_padded {tokens tokens' : List Token} {program : Program} {c : Cursor}
    (hlaid : LaidOut (tokens.map Token.kind)) (hread : Program.read tokens = .ok (program, c))
    (hpadded : Padded c.breaks 0 tokens tokens') :
    ∃ program' c', Program.read tokens' = .ok (program', c') ∧ program'.shape = program.shape ∧
      ∀ span entries, program.HasMap span entries →
        Walk.OnRecord ⟨tokens, c⟩ span entries := by
  obtain ⟨body, last, hbody, hlast, -⟩ := hlaid.eq_append
  cases tokens with
  | nil => simp at hbody
  | cons t rest =>
    cases tokens' with
    | nil => cases hpadded
    | cons t' rest' =>
      have hstands : Cursor.StandsIn (t :: rest) ⟨t, rest, t.span.stop, 0, 0, [], []⟩ :=
        ⟨⟨body, last, hbody, hlast⟩, rfl⟩
      have hbeside : Walk.Beside ⟨t :: rest, c⟩ ⟨t, rest, t.span.stop, 0, 0, [], []⟩
          ⟨t', rest', t'.span.stop, 0, 0, [], []⟩ :=
        ⟨hstands, hpadded, rfl, by simp, by simp⟩
      have hdepth :
          Grammar.depthFor (t :: rest).length ≤ Grammar.depthFor (t' :: rest').length := by
        have := hpadded.length_le
        unfold Grammar.depthFor
        omega
      obtain ⟨start, _, hstart, hrun⟩ := Parse.run_bind_eq_ok.mp hread
      cases hstart
      obtain ⟨bound, _, hbound, hrun⟩ := Parse.run_bind_eq_ok.mp hrun
      cases hbound
      obtain ⟨ss, d, hss, hrun⟩ := Parse.run_bind_eq_ok.mp hrun
      cases hrun
      have hagrees : Parse.Agrees ⟨t :: rest, c⟩ Parse.Never Parse.Anywhere _ _ _ :=
        Grammar.agrees_statementsFrom (Grammar.agrees_rulesAt hdepth) hbeside.tokensLeft_le
      obtain ⟨ss', d', hss', halike, -⟩ :=
        (hagrees hbeside trivial hss (.refl _)).resolve_left id
      refine ⟨_, d', Parse.run_bind_eq_ok.mpr ⟨t', _, rfl, Parse.run_bind_eq_ok.mpr
        ⟨_, _, rfl, Parse.run_bind_eq_ok.mpr ⟨ss', d', hss', rfl⟩⟩⟩,
        (Node.AlikeAll.program halike _ _).symm, fun span entries hmap => ?_⟩
      obtain ⟨s, hs, hpart⟩ := hmap
      exact Node.AlikeAll.maps halike s (List.mem_of_mem_filter hs) span entries hpart

/-- A program that compiles was read from a token list in such a way that every map literal in it is
    on record, and every source with the same tokens and further layout where line breaks mean
    nothing compiles to the same program, spans aside. -/
theorem Program.compile_padded {source : String} {file : Option String} {program : Program}
    (h : Program.compile source file = .ok program) :
    ∃ tokens c, Token.scan source (some (sourceName file)) = .ok tokens ∧
      Program.read tokens = .ok (program, c) ∧
      (∀ span entries, program.HasMap span entries → Walk.OnRecord ⟨tokens, c⟩ span entries) ∧
      ∀ source' file' tokens', Token.scan source' (some (sourceName file')) = .ok tokens' →
        Padded c.breaks 0 tokens tokens' →
          ∃ program', Program.compile source' file' = .ok program' ∧
            program'.shape = program.shape := by
  obtain ⟨tokens, c, hscan, hread⟩ := Program.read_of_compile h
  have hlaid : LaidOut (tokens.map Token.kind) := tokens_laidOut hscan
  refine ⟨tokens, c, hscan, hread, ?_, fun source' file' tokens' hscan' hpadded => ?_⟩
  · obtain ⟨_, _, -, -, hmaps⟩ := Program.read_padded hlaid hread (.refl _ _ _)
    exact hmaps
  · obtain ⟨program', c', hread', hshape, -⟩ := Program.read_padded hlaid hread hpadded
    exact ⟨program', Program.compile_of_read hscan' hread', hshape⟩

/-! ## A map literal spread over several lines -/

/-- Two tokens without numbers in them are the same but for where they stand. -/
def Token.same? (t t' : Token) : Bool :=
  t'.kind == t.kind && t'.lexeme == t.lexeme &&
    match t.value, t'.value with
    | .null, .null => true
    | .bool b, .bool b' => b' == b
    | .text s, .text s' => s' == s
    | _, _ => false

theorem Token.Same.of_same? {t t' : Token} (h : t.same? t' = true) : t.Same t' := by
  simp only [Token.same?, Bool.and_eq_true, beq_iff_eq] at h
  obtain ⟨⟨hkind, hlexeme⟩, hvalue⟩ := h
  refine ⟨hkind, ?_, hlexeme⟩
  split at hvalue <;> simp_all

/-- Find out where the second token list has further layout. -/
def padded? (breaks : List Nat) : Nat → List Token → List Token → Bool
  | _, [], [] => true
  | i, t :: ts, t' :: ts' =>
    if t.kind.isContent && t'.kind.isLayout then
      breaks.contains i && padded? breaks i (t :: ts) ts'
    else t.same? t' && padded? breaks (i + 1) ts ts'
  | _, _, _ => false

theorem Padded.of_padded? {breaks : List Nat} {i : Nat} {ts ts' : List Token}
    (h : padded? breaks i ts ts' = true) : Padded breaks i ts ts' := by
  induction ts' generalizing i ts with
  | nil =>
    cases ts with
    | nil => exact .nil i
    | cons t ts => cases h
  | cons t' ts' ih =>
    cases ts with
    | nil => cases h
    | cons t ts =>
      unfold padded? at h
      split at h
      · rename_i hlayout
        simp only [Bool.and_eq_true, List.contains_iff_mem] at hlayout h
        exact .layout h.1 hlayout.1 hlayout.2 (ih h.2)
      · rw [Bool.and_eq_true] at h
        exact .token (.of_same? h.1) (ih h.2)

/-- A map literal on one line, and over four lines, two of which are indented. -/
def oneLineMap : String := "let m = \x7ba: true, b: m\x7d\nf(m)\n"
def spreadMap : String := "let m = \x7b\n  a: true,\n\n  b: m\n\x7d\nf(m)\n"

theorem compile_padded_spreadMap :
    ∃ program program', Program.compile oneLineMap none = .ok program ∧
      Program.compile spreadMap none = .ok program' ∧ program'.shape = program.shape := by
  have hchecks : (match Token.scan oneLineMap (some "<input>"),
      Token.scan spreadMap (some "<input>") with
      | .ok tokens, .ok tokens' =>
        match Program.read tokens with
        | .ok (_, c) => padded? c.breaks 0 tokens tokens'
        | .error _ => false
      | _, _ => false) = true := by decide +kernel
  cases hscan : Token.scan oneLineMap (some "<input>") with
  | error d => simp [hscan] at hchecks
  | ok tokens =>
    cases hscan' : Token.scan spreadMap (some "<input>") with
    | error d => simp [hscan, hscan'] at hchecks
    | ok tokens' =>
      cases hread : Program.read tokens with
      | error d => simp [hscan, hscan', hread] at hchecks
      | ok result =>
        obtain ⟨program, c⟩ := result
        simp only [hscan, hscan', hread] at hchecks
        have hcompile : Program.compile oneLineMap none = .ok program :=
          Program.compile_of_read hscan hread
        obtain ⟨tokens₁, c₁, hscan₁, hread₁, -, hpadded⟩ := Program.compile_padded hcompile
        cases hscan.symm.trans hscan₁
        cases hread.symm.trans hread₁
        obtain ⟨program', hcompile', hshape⟩ := hpadded _ none _ hscan' (.of_padded? hchecks)
        exact ⟨program, program', hcompile, hcompile', hshape⟩

end EventScript
