import EventScript.Proofs.Law.Dispatch
import EventScript.Proofs.Loops.Grammar

/-! # How statements complete

A statement completes with a `break` or `continue` only where it stands in the body of a loop, and
every loop takes such a completion of its body for itself.  So the body of a function or handler
never completes in this way, nor does a statement at the top level of a file.

* `completesAs_bounded`        how statements complete, whatever the bound of the run
* `forEach_of_round`, `whileLoop_of_round`   what a loop makes of the completion of its body
* `mayRun`                     the law that sessions keep confined code only
* `loop_ends_confined`         all of it together
-/

namespace EventScript

open Evaluate

/-- The completion is meant for a loop. -/
def Completion.isForLoop : Completion → Bool
  | .broke | .continued => true
  | .normal | .returned _ => false

namespace Eval

variable {α β : Type}

/-- Whatever the world is, what a computation gives satisfies a condition. -/
def Gives (P : α → Prop) (act : Eval α) : Prop := ∀ v a w, act v = .ok a w → P a

variable {P : α → Prop}

theorem gives_pure {a : α} (h : P a) : Gives P (pure a) := by
  intro v b w hrun
  rwa [(pure_eq_ok hrun).1]

theorem gives_throw (e : Failure) : Gives P (throw e) := by
  intro v a w hrun
  rw [run_throw] at hrun
  cases hrun

theorem gives_bind {act : Eval β} {next : β → Eval α} (h : ∀ b, Gives P (next b)) :
    Gives P (act >>= next) := by
  intro v a w hrun
  obtain ⟨b, u, -, hnext⟩ := bind_eq_ok hrun
  exact h b u a w hnext

/-- What the first computation gives is known of the second one. -/
theorem gives_bindOf {Q : β → Prop} {act : Eval β} {next : β → Eval α} (hact : Gives Q act)
    (h : ∀ b, Q b → Gives P (next b)) : Gives P (act >>= next) := by
  intro v a w hrun
  obtain ⟨b, u, hb, hnext⟩ := bind_eq_ok hrun
  exact h b (hact v b u hb) u a w hnext

/-- The computation completes with what is meant for a loop only where there is one around. -/
def Completes (inLoop : Bool) (act : Eval Completion) : Prop :=
  Gives (fun c => c.isForLoop = true → inLoop = true) act

end Eval

open Eval

/-! ## Statements -/

section

variable {run : Runner} {inLoop : Bool}

/-- What is known of the statements and loops that a statement comes back to. -/
structure Runner.CompletesAs (run : Runner) : Prop where
  exec : ∀ {inLoop s}, (Node.stmt s).Confined inLoop → ∀ scope,
    Completes inLoop (run (.exec s scope))
  whileLoop : ∀ span test body scope rounds,
    Completes false (run (.whileLoop span test body scope rounds))

theorem completes_pure {c : Completion} (hc : c.isForLoop = false) : Completes inLoop (pure c) :=
  gives_pure fun h => absurd (hc.symm.trans h) nofun

theorem Eval.Completes.inside {act : Eval Completion} (h : Completes false act) :
    Completes inLoop act := fun v c w hrun hc => absurd (h v c w hrun hc) nofun

theorem completes_block (hrun : run.CompletesAs) {b : Block} (hb : (Node.block b).Confined inLoop)
    (scope : ScopeRef) : Completes inLoop (block run b scope) := by
  have hss : ∀ s ∈ b.statements, (Node.stmt s).Confined inLoop := by simpa using hb.child
  unfold block
  generalize b.statements = ss at hss
  induction ss with
  | nil => exact completes_pure rfl
  | cons s rest ih =>
    obtain ⟨hs, hrest⟩ := List.forall_mem_cons.mp hss
    refine gives_bindOf (hrun.exec hs scope) fun c hc => ?_
    split
    · exact ih hrest
    · exact gives_pure hc

/-- Whatever its body is, a loop over items takes a `break` or `continue` for itself. -/
theorem completes_forEach (run : Runner) (span : Span) (item : String) (body : Block)
    (scope : ScopeRef) (rounds : Nat) (vs : List Value) :
    Completes false (forEach run span item body scope rounds vs) := by
  induction vs generalizing rounds with
  | nil => exact completes_pure rfl
  | cons v rest ih =>
    refine gives_bind fun _ => gives_bind fun inner => gives_bind fun _ => gives_bind fun c => ?_
    split
    · exact completes_pure rfl
    · exact completes_pure rfl
    · exact ih _

theorem completes_whileLoop (hrun : run.CompletesAs) (span : Span) (test : Expr) (body : Block)
    (scope : ScopeRef) (rounds : Nat) :
    Completes false (whileLoop run span test body scope rounds) := by
  refine gives_bind fun v => gives_bind fun holds => ?_
  split
  · refine gives_bind fun _ => gives_bind fun inner => gives_bind fun c => ?_
    split
    · exact completes_pure rfl
    · exact completes_pure rfl
    · exact hrun.whileLoop _ _ _ _ _
  · exact completes_pure rfl

theorem completes_matchCases (hrun : run.CompletesAs) (scope : ScopeRef) (v : Value)
    {cases : List MatchCase} (hcases : ∀ c ∈ cases, (Node.matchCase c).Confined inLoop) :
    Completes inLoop (matchCases run scope v cases) := by
  induction cases with
  | nil => exact completes_pure rfl
  | cons c rest ih =>
    obtain ⟨hc, hrest⟩ := List.forall_mem_cons.mp hcases
    refine gives_bind fun inner => gives_bind fun fits => ?_
    split
    · refine gives_bind fun holds => ?_
      split
      · exact completes_block hrun (hc.child (0, .block c.body) (by simp)) inner
      · exact ih hrest
    · exact ih hrest

theorem completes_ifThen (hrun : run.CompletesAs) (scope : ScopeRef) {s : IfStmt}
    (hs : (Node.ifStmt s).Confined inLoop) : Completes inLoop (statement run scope (.ifThen s)) := by
  have hchild := hs.child
  simp only [Node.children, List.forall_mem_cons] at hchild
  obtain ⟨-, hyes, hno, -⟩ := hchild
  refine gives_bind fun v => gives_bind fun holds => ?_
  split
  · exact gives_bind fun inner => completes_block hrun hyes inner
  · replace hno : (Node.alternate s.alternate).Confined inLoop := hno
    split
    · exact completes_pure rfl
    · rename_i b hb
      rw [hb] at hno
      exact gives_bind fun inner => completes_block hrun (hno.child (0, .block b) (by simp)) inner
    · rename_i s' hs'
      rw [hs'] at hno
      have hnext : (Node.stmt (.ifThen s')).Confined inLoop :=
        .of_children rfl (by simpa using hno.child)
      exact hrun.exec hnext scope

theorem completes_statement (hrun : run.CompletesAs) (scope : ScopeRef) {s : Stmt}
    (hs : (Node.stmt s).Confined inLoop) : Completes inLoop (statement run scope s) := by
  cases s with
  | ifThen s => exact completes_ifThen hrun scope (hs.child (0, .ifStmt s) (by simp))
  | forIn span item iterable body =>
    refine gives_bind fun v => ?_
    split
    · exact gives_bind fun items => (completes_forEach run span item body scope 0 _).inside
    · exact gives_throw _
  | whileLoop span test body => exact (hrun.whileLoop span test body scope 0).inside
  | matchOn span discriminant cases =>
    refine gives_bind fun v => completes_matchCases hrun scope v fun c hc => ?_
    exact hs.child (1, .matchCase c) (by simpa using hc)
  | returnValue span argument =>
    cases argument with
    | none => exact completes_pure rfl
    | some e => exact gives_bind fun v => completes_pure rfl
  | breakLoop span => exact gives_pure fun _ => hs.ends rfl
  | continueLoop span => exact gives_pure fun _ => hs.ends rfl
  | emit span event data =>
    cases data with
    | none => exact gives_bind fun _ => gives_bind fun _ => completes_pure rfl
    | some e =>
      exact gives_bind fun _ => gives_bind fun _ => gives_bind fun _ => completes_pure rfl
  | importFile i => exact completes_pure rfl
  | letName | assign | function | on | schema | instanceOf | expression =>
    repeat first | exact completes_pure rfl | refine gives_bind fun _ => ?_

end

/-- How statements and loops complete, whatever the bound of the run is. -/
theorem completesAs_bounded (bound : Nat) : Runner.CompletesAs (bounded bound) := by
  induction bound with
  | zero => exact ⟨fun _ _ => gives_throw _, fun _ _ _ _ _ => gives_throw _⟩
  | succ bound ih =>
    exact ⟨fun hs scope => completes_statement ih scope hs,
      fun span test body scope rounds => completes_whileLoop ih span test body scope rounds⟩

/-! ## Rounds of loops -/

/-- A round of a loop over items, of which a number were made before. -/
def forRound (run : Runner) (span : Span) (item : String) (body : Block) (scope : ScopeRef)
    (rounds : Nat) (v : Value) : Eval Completion := do
  checkRounds (rounds + 1) span
  let inner ← childScope scope
  define inner item v
  block run body inner

/-- A round of a loop whose condition holds, of which a number were made before. -/
def whileRound (run : Runner) (span : Span) (body : Block) (scope : ScopeRef) (rounds : Nat) :
    Eval Completion := do
  checkRounds (rounds + 1) span
  block run body (← childScope scope)

/-- What a loop makes of the completion of a round: a `break` ends it, a `return` is handed on, and
    else the loop goes on. -/
def afterRound (next : Eval Completion) : Completion → Eval Completion
  | .broke => pure .normal
  | .returned v => pure (.returned v)
  | .normal | .continued => next

section

variable {run : Runner} {span : Span} {item : String} {test : Expr} {body : Block}
  {scope : ScopeRef} {rounds : Nat} {v : Value} {rest : List Value} {w u w' : World}

/-- What a loop over items goes on with after a round. -/
theorem forEach_of_round {c : Completion}
    (h : forRound run span item body scope rounds v w = .ok c w') :
    forEach run span item body scope rounds (v :: rest) w =
      afterRound (forEach run span item body scope (rounds + 1) rest) c w' := by
  unfold forRound at h
  obtain ⟨_, w₁, hcheck, h⟩ := bind_eq_ok h
  obtain ⟨inner, w₂, hscope, h⟩ := bind_eq_ok h
  obtain ⟨_, w₃, hdefine, hblock⟩ := bind_eq_ok h
  rw [forEach, run_bind_of_ok hcheck, run_bind_of_ok hscope, run_bind_of_ok hdefine,
    run_bind_of_ok hblock]
  cases c <;> rfl

/-- What a loop with a condition goes on with after a round. -/
theorem whileLoop_of_round {c : Completion}
    (htest : (run (.eval test scope) >>= truth) w = .ok true u)
    (h : whileRound run span body scope rounds u = .ok c w') :
    whileLoop run span test body scope rounds w =
      afterRound (run (.whileLoop span test body scope (rounds + 1))) c w' := by
  obtain ⟨v, w₁, heval, htruth⟩ := bind_eq_ok htest
  unfold whileRound at h
  obtain ⟨_, w₂, hcheck, h⟩ := bind_eq_ok h
  obtain ⟨inner, w₃, hscope, hblock⟩ := bind_eq_ok h
  rw [whileLoop, run_bind_of_ok heval, run_bind_of_ok htruth, if_pos rfl, run_bind_of_ok hcheck,
    run_bind_of_ok hscope, run_bind_of_ok hblock]
  cases c <;> rfl

end

/-! ## The code of a session -/

/-- A part of a tree may run: it is confined, and the body of a function needs no loop around it. -/
def Node.MayRun : Node → Prop
  | body b => (body b).Confined false
  | x => x.Confined true

namespace Node

variable {x : Node}

theorem mayRun_of_confined (h : x.Confined false) : x.MayRun := by
  cases x <;> first | exact h | exact h.inside

theorem MayRun.confined (h : x.MayRun) : x.Confined true := by
  cases x <;> first | exact h | exact Confined.inside h

theorem MayRun.child (h : x.MayRun) : ∀ child ∈ x.children, child.2.MayRun := by
  rintro ⟨n, y⟩ hchild
  have hy := h.confined.child _ hchild
  cases y with
  | body b => exact hy
  | _ => exact hy.mono fun _ => rfl

end Node

/-- What may run is all that a world keeps. -/
def mayRun : Law where
  code := Node.MayRun
  done v w := v.CodeIn Node.MayRun → w.CodeIn Node.MayRun
  failed _ v w := v.CodeIn Node.MayRun → w.CodeIn Node.MayRun
  drained v w := v.CodeIn Node.MayRun → w.CodeIn Node.MayRun
  cut _ v w := v.CodeIn Node.MayRun → w.CodeIn Node.MayRun
  refl _ := id
  trans huv hvw := hvw ∘ huv
  failed_of_done _ h := h
  trans_failed huv hvw := hvw ∘ huv
  reported h := h
  change _ h _ := h
  executing h hv := (h (hv.congr rfl rfl rfl rfl)).congr rfl rfl rfl rfl
  executing_failed h hv := (h (hv.congr rfl rfl rfl rfl)).congr rfl rfl rfl rfl
  calling h hv := (h (hv.congr rfl rfl rfl rfl)).congr rfl rfl rfl rfl
  calling_failed h hv := (h (hv.congr rfl rfl rfl rfl)).congr rfl rfl rfl rfl
  waiting _ _ hv := hv.congr rfl rfl rfl rfl
  processed _ _ h hv := (h (hv.congr rfl rfl rfl rfl)).congr rfl rfl rfl rfl
  processed_failed _ _ h hv := (h (hv.congr rfl rfl rfl rfl)).congr rfl rfl rfl rfl
  inside h := h.child
  declared {f} h := .of_children rfl (by simpa using h.confined.child (0, .block f.body) (by simp))
  handled {_ _ _ body} h :=
    .of_children rfl (by simpa using h.confined.child (0, .block body) (by simp))
  chained h := .of_children rfl (by simpa using h.confined)
  sourced h s hs := Node.mayRun_of_confined (Program.confined_of_compile h s hs)
  other h hv := absurd hv h
  other_failed h hv := absurd hv h

theorem indifferent_mayRun : mayRun.Indifferent where
  recorded _ _ hv := hv.congr rfl rfl rfl rfl
  taken _ _ hv := hv.congr rfl rfl rfl rfl
  spent _ := id
  drained_iff := Iff.rfl
  cut_iff := Iff.rfl

/-- A program that the host brings along is one that some source compiles to. -/
def Request.Accepted : Request → Prop
  | execute program _ => ∃ source file, Program.compile source file = .ok program
  | _ => True

/-- Whatever a host asks of a fresh session, all code that is kept may run. -/
theorem codeIn_serve (settings : Settings) (hostFunctions : List (String × HostFunction))
    {rs : List Request} (hrs : ∀ r ∈ rs, r.Accepted) :
    (Session.serve (Session.start settings hostFunctions) rs).CodeIn Node.MayRun := by
  have hstart : (Session.start settings hostFunctions).CodeIn Node.MayRun :=
    (Law.obeyed_bindGlobals (L := mayRun)).perform (fun h => h) (fun h => h)
      (.bareWorld (.of_children rfl (by simpa using .of_children rfl (by simp))) _ _)
  generalize Session.start settings hostFunctions = w at hstart
  unfold Session.serve
  induction rs generalizing w with
  | nil => exact hstart
  | cons r rest ih =>
    obtain ⟨hr, hrest⟩ := List.forall_mem_cons.mp hrs
    have hcode : r.CodeIn Node.MayRun := by
      cases r with
      | execute program file =>
        obtain ⟨source, name, hcompile⟩ := hr
        exact fun s hs => Node.mayRun_of_confined (Program.confined_of_compile hcompile s hs)
      | _ => trivial
    have hact : mayRun.Obeyed r.act := Law.obeyed_request indifferent_mayRun.runs hcode
    exact ih hrest _ (hact.perform (fun h => h) (fun h => h) hstart)

/-! ## No end of a loop escapes -/

/-- The computation never completes with a `break` or `continue`. -/
def Eval.NeverEndsLoop (act : Eval Completion) : Prop :=
  Gives (fun c => c ≠ .broke ∧ c ≠ .continued) act

theorem Eval.Completes.never {act : Eval Completion} (h : Completes false act) :
    NeverEndsLoop act := by
  intro v c w hrun
  have := h v c w hrun
  cases c <;> simp_all [Completion.isForLoop]

theorem never_of_mayRun {b : Block} (h : (Node.body (.block b)).MayRun) (bound : Nat)
    (scope : ScopeRef) : NeverEndsLoop (block (bounded bound) b scope) := by
  have hb : (Node.block b).Confined false := Node.Confined.child h (0, .block b) (by simp)
  exact (completes_block (completesAs_bounded bound) hb scope).never

/-- `break` and `continue` never escape.

    In a program that compiles each of them has a loop around it in its own function, method, lambda
    or handler.  A file, and a body of one of these, whose statements would be read in a loop, is
    read just so if this holds of it, and else one that has no loop around it is refused.

    So a statement at the top level of a file never completes with a `break` or `continue`, nor does
    the body of a function that a session keeps, or of a handler that it ever registered, in no
    scope, no world and with no bound of the run.  Nor does a loop, whatever its body is: a `break`
    of the body ends the loop, and with a `continue` it goes on. -/
theorem loop_ends_confined :
    (∀ source file program, Program.compile source file = .ok program →
      program.Confined ∧
        ∀ s ∈ program.body, ∀ bound scope, NeverEndsLoop (bounded bound (.exec s scope))) ∧
    (∀ source file tokens c program d,
      Token.scan source (some (Program.sourceName file)) = .ok tokens →
      Cursor.ofTokens? tokens = some c →
      (Grammar.program (Grammar.rulesAt (Grammar.depthFor tokens.length))).run (c.within 1) =
        .ok (program, d) →
      (program.Confined ∧ Program.compile source file = .ok program) ∨
        ∃ s ∈ program.body, ∃ t word e, (Node.stmt s).Stray t ∧
          Program.compile source file = .error e ∧ e.problem = .outsideLoop word ∧
            e.span = some t.span) ∧
    (∀ levels c b d, (Grammar.rulesAt levels .block).run (c.within 1) = .ok (b, d) →
      ((Node.block b).Confined false ∧
          (Grammar.functionBody (Grammar.rulesAt levels)).run c = .ok (b, d.within c.loops)) ∨
        ∃ t word, (Node.block b).Stray t ∧
          (Grammar.functionBody (Grammar.rulesAt levels)).run c =
            .error (.located (.outsideLoop word) t.span)) ∧
    (∀ settings hostFunctions rs, (∀ r ∈ rs, Request.Accepted r) →
      let w := Session.serve (Session.start settings hostFunctions) rs
      (∀ r b, (w.store.function r).body = .block b →
        ∀ bound scope, NeverEndsLoop (block (bounded bound) b scope)) ∧
      ∀ h, .registered h ∈ w.ledger →
        ∀ bound scope, NeverEndsLoop (block (bounded bound) h.body scope)) ∧
    (∀ run span item body scope rounds vs,
      NeverEndsLoop (forEach run span item body scope rounds vs)) ∧
    (∀ run span item body scope rounds v rest w c w',
      forRound run span item body scope rounds v w = .ok c w' →
        forEach run span item body scope rounds (v :: rest) w =
          afterRound (forEach run span item body scope (rounds + 1) rest) c w') ∧
    (∀ bound span test body scope rounds,
      NeverEndsLoop (bounded bound (.whileLoop span test body scope rounds))) ∧
    ∀ run span test body scope rounds w u c w',
      (run (.eval test scope) >>= truth) w = .ok true u →
      whileRound run span body scope rounds u = .ok c w' →
        whileLoop run span test body scope rounds w =
          afterRound (run (.whileLoop span test body scope (rounds + 1))) c w' := by
  refine ⟨?_, ?_, ?_, ?_, ?_, ?_, ?_, ?_⟩
  · intro source file program hcompile
    have hconfined := Program.confined_of_compile hcompile
    exact ⟨hconfined, fun s hs bound scope =>
      ((completesAs_bounded bound).exec (hconfined s hs) scope).never⟩
  · exact fun _ _ _ _ _ _ hscan hc hrun => Program.compile_of_run hscan hc hrun
  · exact fun levels _ _ _ hrun => Grammar.run_functionBody levels hrun
  · intro settings hostFunctions rs hrs
    have hcode := codeIn_serve settings hostFunctions hrs
    refine ⟨fun r b hb bound scope => ?_, fun h hh bound scope => ?_⟩
    · exact never_of_mayRun (hb ▸ (hcode.function r).body) bound scope
    · exact never_of_mayRun (hcode.registered h hh).body bound scope
  · exact fun run span item body scope rounds vs =>
      (completes_forEach run span item body scope rounds vs).never
  · exact fun _ _ _ _ _ _ _ _ _ _ _ h => forEach_of_round h
  · exact fun bound span test body scope rounds =>
      ((completesAs_bounded bound).whileLoop span test body scope rounds).never
  · exact fun _ _ _ _ _ _ _ _ _ _ htest h => whileLoop_of_round htest h

/-- A loop with a `break`, and in it a handler with a loop with a `continue`. -/
def loopingSource : String :=
  "for i in [1, 2]:\n  if i == 2:\n    break\n  on \"step\":\n    while i == 1:\n      continue\n"

/-- A session in which that file is loaded. -/
def looped : World := Session.serve (Session.start {} []) [.load loopingSource "loops"]

/-- A `break` without any loop. -/
def strayingSource : String := "if 1 < 2:\n  break\n"

theorem loop_ends_confined_loopingSource :
    (∃ program, Program.compile loopingSource none = .ok program ∧ program.Confined) ∧
    (looped.ledger.length = 1 ∧ ∀ h, .registered h ∈ looped.ledger →
      ∀ bound scope, NeverEndsLoop (block (bounded bound) h.body scope)) ∧
    ∃ e, Program.compile strayingSource none = .error e ∧ ∃ word, e.problem = .outsideLoop word := by
  refine ⟨?_, ⟨by decide +kernel, ?_⟩, ?_⟩
  · have hok : (Program.compile loopingSource none).toOption.isSome = true := by decide +kernel
    cases h : Program.compile loopingSource none with
    | error e => simp [h, Except.toOption] at hok
    | ok program => exact ⟨program, rfl, (loop_ends_confined.1 _ _ _ h).1⟩
  · exact (loop_ends_confined.2.2.2.1 {} [] [.load loopingSource "loops"]
      (by simp [Request.Accepted])).2
  · have hread : ((Token.scan strayingSource (some "<input>")).toOption.bind fun tokens =>
        (Cursor.ofTokens? tokens).bind fun c =>
          ((Grammar.program (Grammar.rulesAt (Grammar.depthFor tokens.length))).run
            (c.within 1)).toOption).isSome = true := by decide +kernel
    have hfails : (Program.compile strayingSource none).toOption.isSome = false := by
      decide +kernel
    cases hscan : Token.scan strayingSource (some "<input>") with
    | error e => simp [hscan, Except.toOption] at hread
    | ok tokens =>
      cases hc : Cursor.ofTokens? tokens with
      | none => simp [hscan, hc, Except.toOption] at hread
      | some c =>
        cases hrun : (Grammar.program (Grammar.rulesAt (Grammar.depthFor tokens.length))).run
            (c.within 1) with
        | error e => simp [hscan, hc, hrun, Except.toOption] at hread
        | ok result =>
          rcases loop_ends_confined.2.1 strayingSource none _ _ result.1 result.2 hscan hc hrun with
            ⟨-, hcompile⟩ | ⟨s, -, t, word, e, -, hcompile, hproblem, -⟩
          · simp [hcompile, Except.toOption] at hfails
          · exact ⟨e, hcompile, word, hproblem⟩

end EventScript
