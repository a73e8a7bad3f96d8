/-! # Arguments

How a row of arguments is read against the options of a command.  An option has short and long
spellings; a long one may be shortened as long as it stays the only one.  A value stands behind its
option, or in the same argument: behind `=`, or right behind a short spelling.  Short spellings
without values can be joined.  Behind `--` there are no options, and negative numbers are none.
-/

namespace EventScript

namespace CommandLine

/-- An option of a command. -/
structure Choice where
  /-- What the option is called when it is found. -/
  name : String
  spellings : List String
  takesValue : Bool
  deriving Repr, DecidableEq

/-- What an argument is. -/
inductive Look
  | plain
  /-- The first `--`. -/
  | separator
  /-- An option, with what stands behind its spelling in the same argument. -/
  | choice (c : Choice) (spelling : String) (joined : Option String)
  | unknown
  deriving Repr, DecidableEq

/-- An argument with what it is. -/
structure Argument where
  text : String
  look : Look
  deriving Repr, DecidableEq

/-- What was found among the arguments. -/
inductive Found
  | choice (name : String) (value : Option String)
  | plain (texts : List String)
  /-- An argument that the command has no use for. -/
  | stray
  deriving Repr, DecidableEq

/-- The option with a spelling. -/
def spelled? (choices : List Choice) (spelling : String) : Option Choice :=
  choices.find? fun c => c.spellings.contains spelling

/-- An argument cut at its first `=`. -/
def cutAtEquals? (cs : List Char) : Option (String × String) :=
  match cs.dropWhile (· != '=') with
  | '=' :: value => some (String.ofList (cs.takeWhile (· != '=')), String.ofList value)
  | _ => none

/-- All spellings of all options. -/
def allSpellings (choices : List Choice) : List (Choice × String) :=
  choices.flatMap fun c => c.spellings.map (c, ·)

/-- The options that an argument may mean without being one of their spellings. -/
def candidates (choices : List Choice) (cs : List Char) : List Look :=
  let startsWith (text : List Char) (e : Choice × String) : Bool := text.isPrefixOf e.2.toList
  match cs with
  | '-' :: '-' :: _ =>
    let (start, value) := match cutAtEquals? cs with
      | some (start, value) => (start.toList, some value)
      | none => (cs, none)
    ((allSpellings choices).filter (startsWith start)).map fun e => .choice e.1 e.2 value
  | '-' :: c :: value =>
    (allSpellings choices).filterMap fun e =>
      if e.2 == String.ofList ['-', c] then some (.choice e.1 e.2 (some (String.ofList value)))
      else if startsWith cs e then some (.choice e.1 e.2 none)
      else none
  | _ => []

/-- A negative number: a minus sign and digits, perhaps with a point. -/
def isNegativeNumber : List Char → Bool
  | '-' :: cs =>
    match cs.dropWhile Char.isDigit with
    | [] => !cs.isEmpty
    | '.' :: fraction => !fraction.isEmpty && fraction.all Char.isDigit
    | _ => false
  | _ => false

/-- What an argument in front of any separator is; an abbreviation of several options is refused. -/
def lookOf? (choices : List Choice) (text : String) : Option Look :=
  let cs := text.toList
  if cs.head? != some '-' then some .plain
  else
    match spelled? choices text with
    | some c => some (.choice c text none)
    | none =>
      if cs.length == 1 then some .plain
      else
        match (cutAtEquals? cs).bind fun e => (spelled? choices e.1).map fun c => (c, e) with
        | some (c, spelling, value) => some (.choice c spelling (some value))
        | none =>
          match candidates choices cs with
          | [look] => some look
          | _ :: _ :: _ => none
          -- a text with a blank is no option that someone mistyped
          | [] => some (if isNegativeNumber cs || cs.contains ' ' then .plain else .unknown)

/-- What each argument is. -/
def looks? (choices : List Choice) : List String → Option (List Argument)
  | [] => some []
  | "--" :: rest => some (⟨"--", .separator⟩ :: rest.map (⟨·, .plain⟩))
  | text :: rest => do
    let look ← lookOf? choices text
    return ⟨text, look⟩ :: (← looks? choices rest)

/-- The options joined behind a short spelling without a value, and the value that the last one has
    in the argument. -/
def unjoin? (choices : List Choice) (c : Choice) (spelling : String) :
    List Char → Option (List Found × Option Choice)
  | [] => some ([], some c)
  | x :: rest => do
    if c.takesValue then some ([.choice c.name (some (String.ofList (x :: rest)))], none)
    else if "--".isPrefixOf spelling then none
    else
      let spelling := String.ofList ['-', x]
      let c' ← spelled? choices spelling
      let (found, last) ← unjoin? choices c' spelling rest
      some (.choice c.name none :: found, last)

/-- What an option argument says: options that are complete, and one that may need a value behind
    the argument. -/
def open? (choices : List Choice) (c : Choice) (spelling : String) :
    Option String → Option (List Found × Option Choice)
  | none => some ([], some c)
  | some "" => if c.takesValue then some ([.choice c.name (some "")], none) else none
  | some value => unjoin? choices c spelling value.toList

/-- How many plain arguments a command takes. -/
inductive Arity
  | one | some
  deriving Repr, DecidableEq

/-- The plain arguments that a command takes from the front of a row without options, as texts
    without the separator, and how many arguments these are. -/
def takePlain? (arity : Arity) (row : List Argument) : Option (List String × Nat) :=
  let isPlain (a : Argument) : Bool := a.look == .plain
  let texts (taken : List Argument) : List String := (taken.filter isPlain).map (·.text)
  if !row.any isPlain then none
  else
    match arity with
    | .some => Option.some (texts row, row.length)
    | .one =>
      let before := (row.takeWhile fun a => !isPlain a).length
      let after := ((row.drop (before + 1)).takeWhile fun a => !isPlain a).length
      Option.some (texts (row.take (before + 1)), before + 1 + after)

/-- What is found among arguments, and whether all of them make sense; `filled` once the plain
    arguments were taken. -/
def collect (choices : List Choice) (arity : Arity) :
    Nat → Bool → List Argument → List Found × Bool
  | 0, _, _ => ([], false)
  | _, _, [] => ([], true)
  | bound + 1, filled, a :: rest =>
    let behind (found : List Found) (filled : Bool) (rest : List Argument) : List Found × Bool :=
      let (more, ok) := collect choices arity bound filled rest
      (found ++ more, ok)
    match a.look with
    | .unknown => behind [.stray] filled rest
    | .choice c spelling joined =>
      match open? choices c spelling joined with
      | none => ([], false)
      | some (found, none) => behind found filled rest
      | some (found, some last) =>
        if last.takesValue then
          match rest with
          -- what looks like an option is no value
          | ⟨value, .plain⟩ :: rest => behind (found ++ [.choice last.name (some value)]) filled rest
          | _ => ([], false)
        else behind (found ++ [.choice last.name none]) filled rest
    | _ =>
      let isRow (a : Argument) : Bool := a.look == .plain || a.look == .separator
      let row := (a :: rest).takeWhile isRow
      -- plain arguments are taken once, as one row; what comes later is in the way
      match filled, takePlain? arity row with
      | false, some (texts, n) => behind [.plain texts] true ((a :: rest).drop n)
      | _, _ => behind [.stray] filled ((a :: rest).dropWhile isRow)

/-- What is found among arguments, in order, and whether all of them make sense. -/
def findings (choices : List Choice) (arity : Arity) (texts : List String) : List Found × Bool :=
  match looks? choices texts with
  | none => ([], false)
  | some arguments => collect choices arity (arguments.length + 1) false arguments

end CommandLine

end EventScript
