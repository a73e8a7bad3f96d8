import EventScript.Evaluate.Expression

/-! # Matching patterns

A pattern is tried from left to right and binds the names that it meets on the way; the names that
a pattern bound before it failed stay bound in the scope of its case, which is then left.
-/

namespace EventScript

namespace Evaluate

open Eval

mutual

/-- Whether a value fits a pattern. -/
def fits (run : Runner) (scope : ScopeRef) : Pattern → Value → Eval Bool
  | .wildcard _, _ => return true
  | .name _ name, v => do
    define scope name v
    return true
  | .literal _ e, v => do
    let w ← run (.eval e scope)
    read fun s => s.equal w v
  | .list _ elements, v => do
    match v with
    | .list r =>
      let vs ← read fun s => s.list r
      -- a list fits only with its full length, a map with some of its entries
      if vs.size = elements.length then allFit run scope elements vs.toList else return false
    | _ => return false
  | .map _ entries, v => do
    match v with
    | .map r => entriesFit run scope r entries
    | _ => return false

/-- Whether values fit the patterns of a list. -/
def allFit (run : Runner) (scope : ScopeRef) : List Pattern → List Value → Eval Bool
  | p :: ps, v :: vs => do
    if ← fits run scope p v then allFit run scope ps vs else return false
  | _, _ => return true

/-- Whether the entries of a map fit the patterns under their keys. -/
def entriesFit (run : Runner) (scope : ScopeRef) (r : MapRef) :
    List (String × Pattern) → Eval Bool
  | [] => return true
  | (key, p) :: rest => do
    match (← read fun s => s.map r).get? (.text key) with
    | none => return false
    | some v =>
      if ← fits run scope p v then entriesFit run scope r rest else return false

end

end Evaluate

end EventScript
