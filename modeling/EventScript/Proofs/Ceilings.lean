import EventScript.Proofs.Asked

/-! # Runs that come to an end

A run goes in circles in two ways only: through a loop, which makes a limited number of rounds, and
through a call of a function, which makes one more call be in progress.  So in a session with a
ceiling on loops every run ends that leaves natives and the queue of events alone.  The induction is
on the calls that may still come, inside of it on the syntax of what is run, with expressions before
statements, and for a loop on the rounds that are left.

* `settles_eval`, `settles_exec`   expressions and statements, when calls settle
* `settles_call`                   calls
* `ends_below_ceilings`            executions and calls come to an end
-/

namespace EventScript

open Evaluate

/-! ## Runs that are left alone -/

/-- The work belongs to natives or to the queue of events, not to the program. -/
def Task.isForeign : Task → Bool
  | eval _ _ | exec _ _ | whileLoop _ _ _ _ _ | call _ _ _ => false
  | native _ _ | drain | visit _ _ _ _ _ | count _ _ _ _ _ => true

/-- A run with a bound in which another runner does what belongs to natives and to the queue. -/
def boundedBeside (foreign : Runner) : Nat → Runner
  | 0, _ => throw .outOfFuel
  | bound + 1, t => if t.isForeign then foreign t else step (boundedBeside foreign bound) t

/-- The computation neither calls a native nor dispatches an event: whatever these would do, the
    outcome is the same. -/
def Alone {α : Type} (act : Runner → Eval α) (w : World) : Prop :=
  ∀ foreign bound, act (boundedBeside foreign bound) w = act (bounded bound) w

/-- The outcome is a value or an error of the program, and not the end of the bound. -/
def IsOutcome {α : Type} : EStateM.Result Failure World α → Prop
  | .ok _ _ => True
  | .error e _ => e ≠ .outOfFuel

/-- The computation ends: from some bound on the outcome is the same. -/
def Ends {α : Type} (act : Runner → Eval α) (w : World) : Prop :=
  ∃ bound r, IsOutcome r ∧ ∀ m ≥ bound, act (bounded m) w = r

/-! ## Runs beside natives and the queue of events -/

section

variable {α : Type} {settings : Settings} {depth : Nat} {foreign : Runner}

/-- The work that does not belong to the expression or statement at hand settles: calls of
    functions, natives, and the queue of events. -/
structure OutwardSettles (settings : Settings) (depth : Nat) (runs : Nat → Runner) : Prop where
  call : ∀ f args span, TaskSettles settings depth runs (.call f args span)
  native : ∀ f args, TaskSettles settings depth runs (.native f args)
  drain : TaskSettles settings depth runs .drain

/-- Expressions settle when calls, natives and the queue do. -/
theorem settles_eval (houtward : OutwardSettles settings depth (boundedBeside foreign)) (e : Expr) :
    ∀ scope, TaskSettles settings depth (boundedBeside foreign) (.eval e scope) := by
  suffices h : ∀ x : Node, x.EvalAllowed (TaskSettles settings depth (boundedBeside foreign)) from
    h (.expr e)
  intro x
  induction x using Node.inductionOnChildren with
  | step x ih =>
    cases x with
    | expr e =>
      exact fun scope => .later (asks_expression ⟨houtward.call, houtward.native⟩ ih scope).settles
    | entry x =>
      obtain ⟨span, key, value⟩ := x
      refine ⟨?_, ih (0, .expr value) (by cases key <;> simp)⟩
      rintro e rfl
      exact ih (0, .expr e) (by simp)
    | _ => trivial

section Loops

variable {limit : Nat} (hlimit : settings.maxLoopIterations = some limit)

include hlimit

/-- A loop settles, by induction on the rounds that it may still make. -/
theorem settles_whileLoop
    (heval : ∀ e scope, TaskSettles settings depth (boundedBeside foreign) (.eval e scope))
    {body : Block} (hbody : BlockAsks (TaskSettles settings depth (boundedBeside foreign)) body)
    (span : Span) (test : Expr) (scope : ScopeRef) (rounds : Nat) :
    TaskSettles settings depth (boundedBeside foreign)
      (.whileLoop span test body scope rounds) := by
  induction hleft : limit - rounds generalizing rounds with
  | zero =>
    refine .later (.bind (heval test scope) fun v => .bind (.leaf (Law.obeyed_truth v)) fun b => ?_)
    refine .ite ?_ (.leaf (Law.obeyed_pure _))
    -- one more round is refused
    have hrefused : ∀ w, Stands settings depth w →
        checkRounds (rounds + 1) span w =
          .error (.diagnostic ⟨.loopLimit limit, some span, none⟩) w := by
      intro w hw
      have hmore : rounds + 1 > limit := by omega
      simp only [checkRounds, Eval.run_get_bind, hw.settings, hlimit, if_pos hmore]
      rfl
    intro w hw
    exact .of_eq (fun m => Eval.run_bind_of_error (hrefused w hw)) ⟨nofun, hw⟩
  | succ left ih =>
    refine .later (.bind (heval test scope) fun v => .bind (.leaf (Law.obeyed_truth v)) fun b => ?_)
    refine .ite ?_ (.leaf (Law.obeyed_pure _))
    refine .bind (.leaf (Law.obeyed_checkRounds _ span)) fun _ => ?_
    refine .bind (.leaf (Law.obeyed_childScope scope)) fun inner => ?_
    refine .bind (hbody inner).settles fun c => ?_
    cases c with
    | broke | returned _ => exact .leaf (Law.obeyed_pure _)
    | normal | continued => exact ih (rounds + 1) (by omega)

/-- Statements settle when calls, natives and the queue do. -/
theorem settles_exec (houtward : OutwardSettles settings depth (boundedBeside foreign)) (s : Stmt) :
    ∀ scope, TaskSettles settings depth (boundedBeside foreign) (.exec s scope) := by
  have heval := settles_eval houtward
  suffices h : ∀ x : Node, x.ExecAllowed (TaskSettles settings depth (boundedBeside foreign)) from
    h (.stmt s)
  intro x
  induction x using Node.inductionOnChildren with
  | step x ih =>
    cases x with
    | stmt s =>
      by_cases hs : ∃ t, s = .ifThen t
      · obtain ⟨t, rfl⟩ := hs
        exact ih (0, .ifStmt t) (by simp)
      · exact fun scope => .later (asks_statement heval houtward.drain
          (fun hbody span test scope => settles_whileLoop hlimit heval hbody span test scope 0) ih
          (fun t ht => hs ⟨t, ht⟩) scope).settles
    | block b =>
      exact asks_statements fun s hs => ih (1, .stmt s) (List.mem_map_of_mem hs)
    | matchCase c => exact ih (0, .block c.body) (by simp)
    | ifStmt s => exact fun scope => .later (asks_ifThen heval ih scope).settles
    | alternate a =>
      cases a with
      | nothing => trivial
      | elseBlock b => exact ih (0, .block b) (by simp)
      | elseIf t => exact ih (0, .ifStmt t) (by simp)
    | _ => trivial

omit hlimit in
/-- A call is refused where as many are in progress as may be. -/
theorem callFunction_of_full (run : Runner) (f : FunctionRef) (args : List Value)
    (span : Option Span) {w : World} (h : w.settings.maxCallDepth ≤ w.callDepth) :
    callFunction run f args span w =
      .error (.diagnostic ⟨.callDepth w.settings.maxCallDepth, span, none⟩) w := by
  simp [callFunction, h, Eval.problem]

omit hlimit in
/-- Otherwise it counts while its body runs. -/
theorem callFunction_of_not_full (run : Runner) (f : FunctionRef) (args : List Value)
    (span : Option Span) {w : World} (h : ¬ w.settings.maxCallDepth ≤ w.callDepth) :
    callFunction run f args span w =
      Eval.ensuring (invoke run (w.store.function f) args)
        (fun v => { v with callDepth := v.callDepth - 1 })
        { w with callDepth := w.callDepth + 1 } := by
  unfold callFunction
  rw [Eval.run_get_bind]
  simp only [ge_iff_le, h, if_false]
  rfl

/-- Calls settle beside natives and a queue that do, by induction on the calls that may still come
    inside of them. -/
theorem settles_call (hforeign : ∀ t, concluding.Obeyed (foreign t)) (depth : Nat) :
    OutwardSettles settings depth (boundedBeside foreign) := by
  induction hleft : settings.maxCallDepth - depth using Nat.strongRecOn generalizing depth with
  | _ left ih =>
    refine ⟨fun f args span => .later fun w hw => ?_, fun f args => .later (.leaf (hforeign _)),
      .later (.leaf (hforeign _))⟩
    by_cases hfull : w.settings.maxCallDepth ≤ w.callDepth
    · exact .of_eq (fun m => callFunction_of_full _ f args span hfull) ⟨nofun, hw⟩
    · -- the body runs with one more call in progress, and is counted off behind it
      have hentered : Stands settings (depth + 1) { w with callDepth := w.callDepth + 1 } :=
        ⟨hw.settings, congrArg (· + 1) hw.callDepth⟩
      have hfewer : settings.maxCallDepth - (depth + 1) < left := by
        have := hw.settings ▸ hfull
        have := hw.callDepth
        omega
      have hinner := ih _ hfewer (depth + 1) rfl
      have hbody := (asks_invoke (settles_eval hinner) (settles_exec hlimit hinner)
        (w.store.function f) args).settles _ hentered
      have hleave : ∀ v, Stands settings (depth + 1) v →
          Stands settings depth { v with callDepth := v.callDepth - 1 } := fun v hv =>
        ⟨hv.settings, by simp [hv.callDepth]⟩
      obtain ⟨bound, r, hr, hbound⟩ := hbody.ensuring hleave
      exact ⟨bound, r, hr, fun m hm =>
        (callFunction_of_not_full _ f args span hfull).trans (hbound m hm)⟩

end Loops

/-- A runner that refuses everything. -/
def refusing : Runner := fun _ => Eval.fault .noMember

/-- What settles beside a runner that refuses everything ends where it is left alone. -/
theorem Ends.of_settles {act : Runner → Eval α} {w : World}
    (hact : Settles w.settings w.callDepth fun n => act (boundedBeside refusing n))
    (halone : Alone act w) : Ends act w := by
  obtain ⟨bound, r, hr, hbound⟩ := hact w ⟨rfl, rfl⟩
  refine ⟨bound, r, ?_, fun m hm => ?_⟩
  · cases r with
    | ok a v => trivial
    | error e v => exact hr.1
  · rw [← halone refusing m]
    exact hbound m hm

end

/-- The ceilings make executions end.  In a session with a ceiling on the rounds of loops, the
    execution of a program and the call of a function come to an end, with a value or with an error,
    whatever loops, functions and values there are, whenever they neither call a native nor dispatch
    an event. -/
theorem ends_below_ceilings {w : World} {limit : Nat}
    (hlimit : w.settings.maxLoopIterations = some limit) :
    (∀ program file, Alone (fun run => execute run program file) w →
      Ends (fun run => execute run program file) w) ∧
    ∀ f args span, Alone (fun run => run (.call f args span)) w →
      Ends (fun run => run (.call f args span)) w := by
  have houtward : OutwardSettles w.settings w.callDepth (boundedBeside refusing) :=
    settles_call hlimit (fun _ => Law.obeyed_fault _) w.callDepth
  refine ⟨fun program file halone => ?_, fun f args span halone => ?_⟩
  · exact .of_settles (asks_execute (settles_exec hlimit houtward) program file).settles halone
  · exact .of_settles (houtward.call f args span) halone

/-- A program that loops for ever. -/
def endlessLoop : Program :=
  ⟨default, [], [.whileLoop default (.boolean default true)
    ⟨default, [.letName default "x" (.null default)]⟩]⟩

/-- The loop calls no native and emits no event. -/
theorem alone_endlessLoop (w : World) : Alone (fun run => execute run endlessLoop none) w := by
  intro foreign bound
  have htest : ∀ n scope, boundedBeside foreign n (.eval (.boolean default true) scope) =
      bounded n (.eval (.boolean default true) scope) := fun n scope => by cases n <;> rfl
  have hnull : ∀ n scope, boundedBeside foreign n (.eval (.null default) scope) =
      bounded n (.eval (.null default) scope) := fun n scope => by cases n <;> rfl
  have hlet : ∀ n scope,
      boundedBeside foreign n (.exec (.letName default "x" (.null default)) scope) =
        bounded n (.exec (.letName default "x" (.null default)) scope) := by
    intro n scope
    cases n with
    | zero => rfl
    | succ n => simp [boundedBeside, Task.isForeign, bounded, step, statement, hnull]
  have hloop : ∀ n rounds,
      boundedBeside foreign n (.whileLoop default (.boolean default true)
          ⟨default, [.letName default "x" (.null default)]⟩ globalScope rounds) =
        bounded n (.whileLoop default (.boolean default true)
          ⟨default, [.letName default "x" (.null default)]⟩ globalScope rounds) := by
    intro n
    induction n with
    | zero => exact fun _ => rfl
    | succ n ih =>
      simp [boundedBeside, Task.isForeign, bounded, step, whileLoop, block, statements, htest, hlet,
        ih]
  cases bound with
  | zero => rfl
  | succ n =>
    simp [execute, topLevel, endlessLoop, boundedBeside, Task.isForeign, bounded, step, statement,
      hloop]

/-- With a ceiling on loops it ends. -/
theorem endlessLoop_ends :
    (Session.start { maxLoopIterations := some 3 } []).settings.maxLoopIterations = some 3 ∧
    Ends (fun run => execute run endlessLoop none)
      (Session.start { maxLoopIterations := some 3 } []) :=
  have hlimit : (Session.start { maxLoopIterations := some 3 } []).settings.maxLoopIterations =
      some 3 := by decide +kernel
  ⟨hlimit, (ends_below_ceilings hlimit).1 endlessLoop none (alone_endlessLoop _)⟩

end EventScript
