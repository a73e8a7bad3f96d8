import EventScript.Evaluate.Call
import EventScript.Evaluate.Dispatch
import EventScript.Library.Core

/-! # Runs

One step of evaluation does every task in terms of a runner, and a run repeats the step.  The number
of steps that lie inside of each other is bounded, so that every run is a total function; the bound
is beyond every run that a computer can finish, and a run that reaches it says so.
-/

namespace EventScript

namespace Evaluate

open Eval

/-- Call a native. -/
def native (run : Runner) (n : Native) (args : List Value) : Eval Value := do
  match n with
  | .builtin b => b.apply run args
  | .made r =>
    match ← read fun s => s.native r with
    | .listMember items member => member.apply run items args
    | .stringMember text member => member.apply text args
    | .callback f _ => run (.call f args none)
    | .host _ f => perform run (f args)

/-- Every task, in terms of a runner. -/
@[inline] def step (run : Runner) : Runner
  | .eval e scope => expression run scope e
  | .exec s scope => statement run scope s
  | .whileLoop span test body scope rounds => whileLoop run span test body scope rounds
  | .call f args span => callFunction run f args span
  | .native n args => native run n args
  | .drain => drain run
  | .visit v f source place found => Library.visitNext run v f source place found
  | .count i stop step upward found => Library.countNext run i stop step upward found

/-- A run with a bound on the steps inside of each other. -/
def bounded : Nat → Runner
  | 0, _ => throw .outOfFuel
  | bound + 1, t => step (bounded bound) t

/-- The bound of a run. -/
def runBound : Nat := 1 <<< 62

/-- A run. -/
def run : Runner := bounded runBound

end Evaluate

end EventScript
