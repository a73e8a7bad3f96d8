import EventScript.Library.Operand

/-! # Sorting

Stable sorting by insertion: the leading run is taken as it is (turned around if it falls), and
each further item is put behind the last one that it is not below, which is found by halving.  The
order may be any computation.
-/

namespace EventScript.Library.Sorting

variable {α : Type}

/-- The place of an item in a sorted array, between two places: behind every item that it is not
    below. -/
def placeOf (below : α → α → Eval Bool) (sorted : Array α) (a : α) : Nat → Nat → Nat → Eval Nat
  | 0, lo, _ => return lo
  | bound + 1, lo, hi => do
    let mid := lo + (hi - lo) / 2
    match (if lo < hi then sorted[mid]? else none) with
    | none => return lo
    | some b =>
      if ← below a b then placeOf below sorted a bound lo mid
      else placeOf below sorted a bound (mid + 1) hi

/-- Insert items one after the other. -/
def insertAll (below : α → α → Eval Bool) (sorted : Array α) : List α → Eval (Array α)
  | [] => return sorted
  | a :: rest => do
    let place ← placeOf below sorted a (sorted.size + 1) 0 sorted.size
    insertAll below (sorted.insertIdxIfInBounds place a) rest

/-- The longest run at the start in which every item is below the one before it, behind a first
    item; the run comes in rising order, with what is left. -/
def fallingRun (below : α → α → Eval Bool) (last : α) (run : List α) :
    List α → Eval (List α × List α)
  | [] => return (last :: run, [])
  | a :: rest => do
    if ← below a last then fallingRun below a (last :: run) rest
    else return (last :: run, a :: rest)

/-- The longest run at the start in which no item is below the one before it, behind a first item;
    the run comes in reverse, with what is left. -/
def risingRun (below : α → α → Eval Bool) (last : α) (run : List α) :
    List α → Eval (List α × List α)
  | [] => return (last :: run, [])
  | a :: rest => do
    if ← below a last then return (last :: run, a :: rest)
    else risingRun below a (last :: run) rest

/-- The items in order. -/
def sorted (below : α → α → Eval Bool) : List α → Eval (List α)
  | a :: b :: rest => do
    if ← below b a then
      let (run, rest) ← fallingRun below b [a] rest
      return (← insertAll below run.toArray rest).toList
    else
      let (run, rest) ← risingRun below b [a] rest
      return (← insertAll below run.reverse.toArray rest).toList
  | short => return short

end EventScript.Library.Sorting
