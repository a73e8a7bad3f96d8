import EventScript.Library.Sorting
import EventScript.Library.Strings

/-! # Functions on lists

The functions of the namespace `list`, which never change their arguments, and the members of
lists, some of which do.  Functions given as arguments are called with an item and its place.
-/

namespace EventScript

namespace Library

open Eval

/-- Call a value as natives do: they know no functions of the language. -/
def callValue (run : Runner) (f : Value) (args : List Value) : Eval Value :=
  match f with
  | .native n => run (.native n args)
  | _ => refuse

/-- Start to visit a value. -/
def visited (v : Value) : Eval Visited := do
  match v with
  | .list r => return .items r
  | .map r =>
    let t ← read fun s => s.map r
    return .keys r t.size (t.keys.map Key.value)
  | v => return .fixed (← items v)

/-- The next item to be visited, with what comes behind it. -/
def nextVisited (place : Nat) : Visited → Eval (Option (Value × Visited))
  -- a list is read anew for every item, so what is added meanwhile is visited too
  | .items r => return (← read fun s => s.list r)[place]?.map (·, .items r)
  | .fixed [] => return none
  | .fixed (v :: rest) => return some (v, .fixed rest)
  | .keys r size rest => do
    -- the keys of a map are visited only as long as their number stays
    if (← read fun s => s.map r).size != size then fault .changedMeanwhile
    match rest with
    | [] => return none
    | v :: rest => return some (v, .keys r size rest)

/-- The outcome of a visit that came to the end. -/
def visitEnd (v : Visit) (found : List Value) : Eval Value :=
  match v with
  | .collect | .keep => listOf found.reverse
  | .find => return .null
  | .findIndex => return .int (-1)
  | .every => return .bool true
  | .any => return .bool false

/-- Visit the next item and go on. -/
def visitNext (run : Runner) (v : Visit) (f : Value) (source : Visited) (place : Nat)
    (found : List Value) : Eval Value := do
  match ← nextVisited place source with
  | none => visitEnd v found
  | some (item, rest) =>
    let answer ← callValue run f [item, .int place]
    let yes ← truth answer
    match v, yes with
    | .collect, _ => run (.visit v f rest (place + 1) (answer :: found))
    | .keep, true => run (.visit v f rest (place + 1) (item :: found))
    | .find, true => return item
    | .findIndex, true => return .int place
    | .every, false => return .bool false
    | .any, true => return .bool true
    | _, _ => run (.visit v f rest (place + 1) found)

/-- Visit all items of a value. -/
def visitAll (run : Runner) (v : Visit) (value f : Value) : Eval Value := do
  run (.visit v f (← visited value) 0 [])

/-- Count on from a number, while it has not passed the end.  It is inlined into the step of a run,
    where counting on is then the last call, so that long ranges need no deep stack. -/
@[inline] def countNext (run : Runner) (i stop step : Value) (upward : Bool) (found : Array Value) :
    Eval (Array Value) := do
  if ← (if upward then below i stop else below stop i) then
    let next ← ofNumber (← ofExcept ((← number i).add (← number step)))
    run (.count next stop step upward (found.push i))
  else return found

/-- Numbers from a start towards an end, which is left out. -/
def range (run : Runner) (start stop step : Value) : Eval Value := do
  if ← below (.int 0) step then newList (← run (.count start stop step true #[]))
  else if ← below step (.int 0) then newList (← run (.count start stop step false #[]))
  else newList #[]

/-- Fold a function over items from the left. -/
def foldItems (run : Runner) (f : Value) : Value → Nat → List Value → Eval Value
  | acc, _, [] => return acc
  | acc, place, v :: rest => do
    foldItems run f (← callValue run f [acc, v, .int place]) (place + 1) rest

/-- The items of items that are lists, and the other items. -/
def flattened (s : Store) (vs : List Value) : List Value :=
  vs.flatMap fun
    | .list r => (s.list r).toList
    | v => [v]

/-- Flatten one level of nesting. -/
def flatten (v : Value) : Eval Value := do
  let vs ← items v
  listOf (← read fun s => flattened s vs)

/-- The place of the first item that is equal to a value. -/
def placeOf? (s : Store) (vs : List Value) (wanted : Value) : Option Nat :=
  vs.findIdx? fun v => s.equal v wanted

/-- The place of the first item that is equal to a value, or else -1. -/
def indexOf (v wanted : Value) : Eval Value := do
  let vs ← items v
  return .int (← read fun s => ((placeOf? s vs wanted).map Int.ofNat).getD (-1))

/-- Some item is equal to a value. -/
def includes (s : Store) (vs : List Value) (wanted : Value) : Bool := (placeOf? s vs wanted).isSome

/-- The first of each group of equal items, behind some that were kept (in reverse). -/
def uniqueFrom (s : Store) (kept : List Value) : List Value → List Value
  | [] => kept.reverse
  | v :: rest =>
    if includes s kept.reverse v then uniqueFrom s kept rest else uniqueFrom s (v :: kept) rest

/-- The first of each group of equal items. -/
def unique (s : Store) (vs : List Value) : List Value := uniqueFrom s [] vs

/-- The key of the natural order: numbers come first, by size, and then all else by its display. -/
inductive NaturalKey
  | number (n : Number)
  | display (t : String)

/-- The key of a value. -/
def naturalKey (s : Store) (v : Value) : NaturalKey :=
  match v.number? with
  | some n => .number n
  | none => .display (s.display v)

/-- The order of the keys. -/
def NaturalKey.below : NaturalKey → NaturalKey → Bool
  | number m, number n => m.lt n
  | number _, display _ => true
  | display _, number _ => false
  | display a, display b => a < b

/-- A sorted copy, by a function that gives a negative number for what comes first, or in the
    natural order. -/
def sort (run : Runner) (v compare : Value) : Eval Value := do
  let vs ← items v
  match compare with
  | .null =>
    let keyed ← read fun s => vs.map fun v => (naturalKey s v, v)
    let keyed ← Sorting.sorted (fun a b => return a.1.below b.1) keyed
    listOf (keyed.map (·.2))
  | f => do
    listOf (← Sorting.sorted (fun a b => do below (← callValue run f [a, b]) (.int 0)) vs)

/-- A copy with some items replaced by others. -/
def splice (v start count : Value) (inserted : List Value) : Eval Value := do
  let vs ← items v
  let start := clampIndex vs.length (← integer start)
  -- a negative count takes nothing out
  let count := (← integer count).toNat
  listOf (vs.take start ++ inserted ++ vs.drop (start + count))

/-- The item at a place, counted from the end where the place is negative. -/
def itemFromEither (v index : Value) : Eval Value := do
  let i ← integer index
  let n : Int ← size v
  if -n ≤ i && i < n then itemAt v (if i < 0 then i + n else i).toNat else return .null

/-- The last item. -/
def lastItem (v : Value) : Eval Value := do
  let n ← size v
  match v with
  | .map _ => fault .noEntry
  | v => itemAt v (n - 1)

/-- The mean of some numbers. -/
def average (v : Value) : Eval Value := do
  if !(← isSomething v) then return .int 0
  let vs ← items v
  let total ← totalFrom (.int 0) vs
  ofNumber (← ofExcept (total.div (.int vs.length)))

/-- A shuffled copy. -/
def shuffled (v : Value) : Eval Value := do
  let vs ← items v
  newList (← draw (Generator.shuffle vs.toArray))

/-- Take an item out of a list that has one. -/
def takeOut (r : ListRef) (v : Option Value) (rest : Array Value → Array Value) :
    Eval Value := do
  match v with
  | none => return .null
  | some v =>
    modifyList r rest
    return v

end Library

open Library Eval

/-- What a function on lists does. -/
def ListFunction.apply (run : Runner) (f : ListFunction) (args : List Value) : Eval Value := do
  match f, args with
  | .range, [stop] | .range, [stop, .null] => Library.range run (.int 0) stop (.int 1)
  | .range, [stop, .null, step] => Library.range run (.int 0) stop step
  | .range, [start, stop] => Library.range run start stop (.int 1)
  | .range, [start, stop, step] => Library.range run start stop step
  | .fill, [v, count] => do listOf (← repeated [v] (← integer count))
  | .map, [v, f] => visitAll run .collect v f
  | .filter, [v, f] => visitAll run .keep v f
  | .reduce, [v, f] => do
    match ← items v with
    | [] => return .null
    | start :: rest => foldItems run f start 1 rest
  | .reduce, [v, f, start] => do foldItems run f start 0 (← items v)
  | .flatMap, [v, f] => do Library.flatten (← visitAll run .collect v f)
  | .flatten, [v] => Library.flatten v
  | .find, [v, f] => visitAll run .find v f
  | .findIndex, [v, f] => visitAll run .findIndex v f
  | .indexOf, [v, wanted] => Library.indexOf v wanted
  | .includes, [v, wanted] => do
    let vs ← items v
    return .bool (← read fun s => Library.includes s vs wanted)
  | .every, [v, f] => visitAll run .every v f
  | .any, [v, f] => visitAll run .any v f
  | .concat, vs => do listOf (← read fun s => flattened s vs)
  | .slice, [v] => Library.slice v .null .null
  | .slice, [v, start] => Library.slice v start .null
  | .slice, [v, start, stop] => Library.slice v start stop
  | .splice, v :: start :: count :: inserted => Library.splice v start count inserted
  | .reverse, [v] => do listOf (← items v).reverse
  | .sort, [v] => Library.sort run v .null
  | .sort, [v, compare] => Library.sort run v compare
  | .shuffle, [v] => shuffled v
  | .sum, [v] => do ofNumber (← totalFrom (.int 0) (← items v))
  | .product, [v] => do (← items v).foldlM times (.int 1)
  | .min, [v] => do if ← isSomething v then smallest (← items v) else return infinity false
  | .max, [v] => do if ← isSomething v then largest (← items v) else return infinity true
  | .average, [v] => Library.average v
  | .unique, [v] => do
    let vs ← items v
    listOf (← read fun s => Library.unique s vs)
  | .union, [a, b] => do
    let vs := (← items a) ++ (← items b)
    listOf (← read fun s => Library.unique s vs)
  | .intersection, [a, b] => do
    let vs ← items a
    if vs.isEmpty then listOf []
    else
      let ws ← items b
      listOf (← read fun s => vs.filter fun v => Library.includes s ws v)
  | .difference, [a, b] => do
    let vs ← items a
    if vs.isEmpty then listOf []
    else
      let ws ← items b
      listOf (← read fun s => vs.filter fun v => !Library.includes s ws v)
  | .first, [v] => do if ← isSomething v then itemAt v 0 else return .null
  | .last, [v] => do if ← isSomething v then lastItem v else return .null
  | .item, [v, index] => itemFromEither v index
  | .isEmpty, [v] => return .bool ((← size v) == 0)
  | _, _ => refuse

/-- What a member of a list does. -/
def ListMember.apply (run : Runner) (m : ListMember) (r : ListRef) (args : List Value) :
    Eval Value := do
  match m, args with
  | .push, [v] => do
    modifyList r (·.push v)
    return .int (← read fun s => (s.list r).size)
  | .pop, [] => do takeOut r (← read fun s => s.list r).back? (·.pop)
  | .shift, [] => do takeOut r (← read fun s => s.list r)[0]? fun vs => vs.extract 1 vs.size
  | .unshift, [v] => do
    modifyList r fun vs => #[v] ++ vs
    return .int (← read fun s => (s.list r).size)
  | .slice, [] => Library.slice (.list r) .null .null
  | .slice, [start] => Library.slice (.list r) start .null
  | .slice, [start, stop] => Library.slice (.list r) start stop
  | .concat, [.list q] => do newList ((← read fun s => s.list r) ++ (← read fun s => s.list q))
  | .concat, [v] => do newList ((← read fun s => s.list r).push v)
  | .indexOf, [v] => Library.indexOf (.list r) v
  | .includes, [v] => ListFunction.apply run .includes [.list r, v]
  | .join, [] => do joined "," (← read fun s => s.list r).toList
  | .join, [separator] => do
    let separator ← member separator
    joined separator (← read fun s => s.list r).toList
  | .reverse, [] => do listOf (← read fun s => s.list r).toList.reverse
  | .sort, [] => Library.sort run (.list r) .null
  | .sort, [compare] => Library.sort run (.list r) compare
  | _, _ => refuse

end EventScript
