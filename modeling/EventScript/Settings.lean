import EventScript.Plain

/-! # Settings

The ceilings of a session and the seed of its random generator, and how they are read from a plain
map.  A name that is no setting is refused, and so is everything but an integer; null leaves a
ceiling on loops and a seed out, and only these.  A refusal is a fault where its message cannot be
made: unknown keys are named in their order, which keys of several kinds do not have, and an integer
of too many digits is not printed.
-/

namespace EventScript

/-- The settings of a session. -/
structure Settings where
  /-- The most rounds that one execution of a loop may make; unbounded where there is none. -/
  maxLoopIterations : Option Nat := none
  /-- The most calls of functions of the language that may be in progress at a time. -/
  maxCallDepth : Nat := 1000
  /-- The seed of the random generator. -/
  randomSeed : Option Int := none
  deriving Inhabited

namespace Settings

/-- Why a plain datum gives no settings. -/
inductive Refusal
  | notMapping (kind : String)
  | unknownKeys (keys : List String)
  /-- Several unknown keys are of kinds without a common order. -/
  | unorderedKeys
  | notInteger (key shown : String)
  | notPositive (key : String) (given : Int)
  /-- An integer of the message has too many digits. -/
  | unprintable
  deriving Repr, DecidableEq

/-- The message of a refusal. -/
def Refusal.message : Refusal → String
  | notMapping kind => s!"configuration must be a mapping, got {kind}"
  | unknownKeys keys => "unknown configuration key(s): " ++ ", ".intercalate keys
  | unorderedKeys => "unknown configuration keys of several kinds"
  | notInteger key shown => s!"{key} must be an integer, got {shown}"
  | notPositive key given => s!"{key} must be positive, got {given}"
  | unprintable => "an integer has too many digits to be shown"

/-- The fault in place of a refusal whose message cannot be made. -/
def Refusal.fault? : Refusal → Option Fault
  | unorderedKeys => some .wrongKind
  | unprintable => some .wrongValue
  | _ => none

/-- The name of the ceiling on loops. -/
def loopKey : String := "max_loop_iterations"

/-- The name of the ceiling on calls. -/
def callKey : String := "max_call_depth"

/-- The name of the seed. -/
def seedKey : String := "random_seed"

/-- The key is the name of a setting. -/
def isKnown : Key → Bool
  | .text s => s == loopKey || s == callKey || s == seedKey
  | _ => false

/-- Texts come by code point and numbers by size; null has an order with nothing. -/
def keyBelow : Key → Key → Option Bool
  | .text a, .text b => some (decide (a < b))
  | k, l =>
    match k.counted?, l.counted? with
    | some m, some n => some (m.lt n)
    | _, _ => none

/-- The keys have an order with each other. -/
def areOrdered : List Key → Bool
  | [] => true
  | k :: rest => rest.all (fun l => (keyBelow k l).isSome) && areOrdered rest

/-- Keys in their order. -/
def sortedKeys (keys : List Key) : List Key :=
  keys.mergeSort fun k l => keyBelow l k != some true

/-- Refuse keys that name no setting. -/
def checkKeys (keys : List Key) : Except Refusal Unit :=
  match keys.filter (!isKnown ·) with
  | [] => pure ()
  | unknown =>
    if !areOrdered unknown then throw .unorderedKeys
    else if !unknown.all Key.isPrintable then throw .unprintable
    else throw (.unknownKeys ((sortedKeys unknown).map Key.display))

/-- The integer of a setting; null is like a missing one. -/
def integerAt? (entries : List (Key × Plain)) (name : String) : Except Refusal (Option Int) :=
  match entries.lookup (.text name) with
  | none | some (.literal .null) => pure none
  | some (.literal (.number (.int n))) => pure (some n)
  | some p => throw (if p.isPrintable then .notInteger name p.outline else .unprintable)

/-- A ceiling must be positive. -/
def ceiling (name : String) : Option Int → Except Refusal (Option Nat)
  | none => pure none
  | some n =>
    if n ≤ 0 then throw (if Numeral.isPrintable n then .notPositive name n else .unprintable)
    else pure (some n.toNat)

/-- The ceiling on calls cannot be left out by null. -/
def checkCalls (entries : List (Key × Plain)) : Except Refusal Unit :=
  match entries.lookup (.text callKey) with
  | some (.literal .null) => throw (.notInteger callKey Literal.null.outline)
  | _ => pure ()

/-- The settings that a plain datum gives; null gives the defaults. -/
def ofPlain : Plain → Except Refusal Settings
  | .literal .null => pure {}
  | .map entries => do
    checkKeys (entries.map (·.1))
    let loops ← integerAt? entries loopKey
    let calls ← integerAt? entries callKey
    let seed ← integerAt? entries seedKey
    checkCalls entries
    let loops ← ceiling loopKey loops
    let calls ← ceiling callKey calls
    return { maxLoopIterations := loops, maxCallDepth := calls.getD 1000, randomSeed := seed }
  | p => throw (.notMapping p.kindName)

end Settings

end EventScript
