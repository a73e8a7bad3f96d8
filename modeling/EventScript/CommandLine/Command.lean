import EventScript.CommandLine.Argument
import EventScript.Number.Numeral

/-! # Commands

The three commands: `check` files, print the tree of one, or `run` files and drive the session.
-/

namespace EventScript

namespace CommandLine

/-- How a session is driven. -/
structure Drive where
  files : List String
  /-- The event that is emitted when all files are loaded. -/
  emit : Option String := none
  /-- The data of the event, as a YAML document. -/
  data : Option String := none
  ticks : Int := 0
  /-- The length of a tick. -/
  dt : Float := 0.016
  /-- The file of the settings. -/
  config : Option String := none
  /-- The globals that are printed in the end. -/
  shown : List String := []

/-- A command. -/
inductive Command
  | check (files : List String) (json : Bool)
  | ast (file : String)
  | run (drive : Drive)

/-- What the arguments ask for. -/
inductive Request
  | command (c : Command)
  | help
  /-- The arguments make no sense. -/
  | mistaken

/-- The option that asks for help. -/
def helpChoice : Choice := ⟨"help", ["-h", "--help"], false⟩

/-- The options in front of a command. -/
def leadingChoices : List Choice := [helpChoice, ⟨"verbose", ["-v", "--verbose"], false⟩]

/-- The options of `check`. -/
def checkChoices : List Choice := [helpChoice, ⟨"json", ["--json"], false⟩]

/-- The options of `run`. -/
def runChoices : List Choice :=
  [helpChoice, ⟨"emit", ["-e", "--emit"], true⟩, ⟨"data", ["-d", "--data"], true⟩,
   ⟨"ticks", ["-t", "--ticks"], true⟩, ⟨"dt", ["--dt"], true⟩,
   ⟨"config", ["-c", "--config"], true⟩, ⟨"show", ["-s", "--show"], true⟩]

/-- A request from what was found, where `use` takes in one thing after the other; help comes before
    all that is behind it. -/
def requestFrom {α : Type} (use : α → Found → Option α) (finish : α → Option Command)
    (complete : Bool) : α → List Found → Request
  | a, [] => if complete then (finish a).elim .mistaken .command else .mistaken
  | _, .choice "help" _ :: _ => .help
  | a, found :: rest =>
    match use a found with
    | some a => requestFrom use finish complete a rest
    | none => .mistaken

/-- Take in what was found for `check`: the files, and whether the answer is JSON. -/
def useForCheck (c : List String × Bool) : Found → Option (List String × Bool)
  | .choice "json" _ => some (c.1, true)
  | .plain files => some (files, c.2)
  | _ => none

/-- Take in what was found for `ast`: the file. -/
def useForAst (files : List String) : Found → Option (List String)
  | .plain found => some (files ++ found)
  | _ => none

/-- Take in what was found for `run`. -/
def useForRun (d : Drive) : Found → Option Drive
  | .plain files => some { d with files := files }
  | .choice "emit" value => some { d with emit := value }
  | .choice "data" value => some { d with data := value }
  | .choice "config" value => some { d with config := value }
  | .choice "show" (some name) => some { d with shown := d.shown ++ [name] }
  | .choice "ticks" (some text) => (Numeral.integer? text.toList).map fun n => { d with ticks := n }
  | .choice "dt" (some text) => (Numeral.decimal? text.toList).map fun x => { d with dt := x }
  | _ => none

/-- The request of a command by its name. -/
def commandRequest (name : String) (arguments : List String) : Request :=
  match name with
  | "check" =>
    let (found, complete) := strayed (findings checkChoices .some arguments)
    requestFrom useForCheck (fun c => if c.1.isEmpty then none else some (.check c.1 c.2)) complete
      ([], false) found
  | "ast" =>
    let (found, complete) := strayed (findings [helpChoice] .one arguments)
    requestFrom useForAst (fun files => files.head?.map .ast) complete [] found
  | "run" =>
    let (found, complete) := strayed (findings runChoices .some arguments)
    requestFrom useForRun (fun d => if d.files.isEmpty then none else some (.run d)) complete
      { files := [] } found
  | _ => .mistaken
where
  /-- Arguments without use are a mistake, but one that is noticed last. -/
  strayed (r : List Found × Bool) : List Found × Bool :=
    (r.1.filter (· != .stray), r.2 && !r.1.contains .stray)

/-- A request that is mistaken unless it is one for help. -/
def Request.unlessHelp : Request → Request
  | help => help
  | _ => mistaken

/-- What was found in an argument in front of the command that is an option. -/
def leadingFound? (c : Choice) (spelling : String) (joined : Option String) :
    Option (List Found) :=
  (open? leadingChoices c spelling joined).map fun r =>
    r.1 ++ (r.2.map fun last => .choice last.name none).toList

/-- The request of a row of arguments: options, the name of a command, and the arguments of the
    command. -/
def Request.ofArguments : List String → Request
  | [] => mistaken
  | "--" :: _ => mistaken
  | text :: rest =>
    match lookOf? leadingChoices text with
    | some .plain => commandRequest text rest
    | some (.choice c spelling joined) =>
      match leadingFound? c spelling joined with
      | none => mistaken
      | some found =>
        if found.any fun f => f == .choice helpChoice.name none then help else ofArguments rest
    | some _ => (ofArguments rest).unlessHelp
    | none => mistaken

end CommandLine

end EventScript
