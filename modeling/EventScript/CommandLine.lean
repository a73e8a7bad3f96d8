import EventScript.CommandLine.Command
import EventScript.Session
import EventScript.Tree.Outline
import EventScript.Yaml.Document

/-! # The command line

What the commands do with a tree of files: the text that they print and their exit code.
-/

namespace EventScript

namespace CommandLine

/-- How a command ends. -/
inductive Outcome
  /-- With an exit code, and what was printed as output and as errors. -/
  | exit (code : Nat) (out err : String)
  /-- The arguments make no sense, or ask for help. -/
  | usage (wanted : Bool)
  /-- A program broke off without a diagnostic. -/
  | broken (f : Fault)

/-- A line of output. -/
def line (text : String) : String := text ++ "\n"

/-- The text of a fault about a file. -/
def fileFault (path : String) (problem : FileProblem) : String :=
  s!"[Errno {problem.number}] {problem.message}: {Text.quoted path}"

/-- A command that ends with an error, which `what` names. -/
def failing (out what : String) : Outcome := .exit 1 out (line s!"Error: {what}")

/-- What a check of files has found. -/
structure Findings where
  summaries : List String := []
  diagnostics : List Diagnostic := []

namespace Findings

/-- The number of diagnostics of a severity. -/
def count (f : Findings) (severity : Severity) : Nat :=
  (f.diagnostics.filter fun d => d.problem.severity == severity).length

/-- The findings as a document. -/
def json (f : Findings) : Json :=
  .object [("diagnostics", .array (f.diagnostics.map Diagnostic.json)),
    ("error_count", .int (f.count .error)), ("warning_count", .int (f.count .warning))]

/-- The diagnostics for the reader, with their numbers. -/
def format (f : Findings) : String :=
  "\n\n".intercalate (f.diagnostics.map (·.format true) ++
    [s!"{f.count .error} error(s), {f.count .warning} warning(s)"])

/-- Add what a file has: its diagnostic, or its imports and a summary. -/
def add (f : Findings) (path source : String) : Findings :=
  match Program.compile source (some (Files.plainPath path)) with
  | .error d => { f with diagnostics := f.diagnostics ++ [d] }
  | .ok program =>
    { summaries := f.summaries ++
        [s!"OK: {Files.fileName path} - {program.body.length} statement(s), " ++
          s!"{program.imports.length} import(s)"]
      diagnostics := f.diagnostics ++
        program.imports.map fun i => .located (.importNotExecuted i.source) i.span }

/-- How a check with these findings ends. -/
def outcome (f : Findings) (json : Bool) : Outcome :=
  let code := if f.count .error = 0 then 0 else 1
  if json then .exit code (line f.json.pretty) ""
  else
    .exit code (String.join (f.summaries.map line))
      (if f.diagnostics.isEmpty then "" else line f.format)

end Findings

/-- Refuse a path with nothing there, and break off at one that is no file. -/
def readChecked (files : Files) (path : String) : Except Outcome String :=
  match files.read path with
  | .ok source => pure source
  | .error f =>
    if files.holds path then throw (.broken f)
    else throw (failing "" s!"File not found: {Files.plainPath path}")

/-- Check files, onto what was found before. -/
def check (files : Files) (json : Bool) (f : Findings) : List String → Outcome
  | [] => f.outcome json
  | path :: rest =>
    match readChecked files path with
    | .error outcome => outcome
    | .ok source => check files json (f.add path source) rest

/-- Print the tree of a file. -/
def ast (files : Files) (path : String) : Outcome :=
  match readChecked files path with
  | .error outcome => outcome
  | .ok source =>
    match Program.compile source (some (Files.plainPath path)) with
    | .error d => .exit 1 "" (line (d.format true))
    | .ok program => .exit 0 (Outline.ofProgram program).print ""

/-- An option that is given with a text that is not empty. -/
def given? (value : Option String) : Option String := value.filter fun text => !text.isEmpty

/-- The settings of a run. -/
def settings (files : Files) (config : Option String) : Except Outcome Settings :=
  match given? config with
  | none => pure {}
  | some path =>
    match files.read path with
    | .error (.unreadable path problem) => throw (failing "" (fileFault path problem))
    | .error f => throw (.broken f)
    | .ok text =>
      match Plain.ofYaml? text with
      | none => throw (failing "" s!"invalid YAML in {path}")
      | some p =>
        match Settings.ofPlain p with
        | .ok s => pure s
        | .error refusal =>
          match refusal.fault? with
          | some f => throw (.broken f)
          | none => throw (failing "" refusal.message)

/-- The event data of a run. -/
def eventData (data : Option String) : Except Outcome Plain :=
  match given? data with
  | none => pure (.map [])
  | some text =>
    match Plain.ofYaml? text with
    | none => throw (failing "" "invalid --data")
    | some (.map entries) => pure (.map entries)
    | some _ => throw (failing "" "--data must be a mapping")

open Eval

/-- Load files one after the other. -/
def loadFiles (files : Files) : List String → Eval Unit
  | [] => return
  | path :: rest => do
    Session.loadFile files path
    loadFiles files rest

/-- Emit ticks of a length. -/
def emitTicks (dt : Float) : Nat → Eval Unit
  | 0 => return
  | n + 1 => do
    Session.tick (← ofFloat dt)
    emitTicks dt n

/-- The fields of an instance that hold no functions of the language, as map entries. -/
def plainFields (i : Instance) : Table Key Value :=
  Table.ofList ((i.data.entries.filter fun e => e.2.kind != .function).map fun e => (.text e.1, e.2))

/-- A global for the reader: an instance with its fields, and else its display. -/
def described (v : Value) : Eval String := do
  match v with
  | .inst r =>
    let i ← read fun s => s.inst r
    let fields ← newMap (plainFields i)
    read fun s => s!"{i.schema} {s.display (.map fields)}"
  | v => read fun s => s.display v

/-- Print globals. -/
def showGlobals : List String → Eval Unit
  | [] => return
  | name :: rest => do
    let text ← described (← Session.get name)
    modify fun w => { w with output := w.output ++ line s!"{name} = {text}" }
    showGlobals rest

/-- Drive a session. -/
def drive (files : Files) (d : Drive) (data : Plain) : Eval Unit := do
  loadFiles files d.files
  match given? d.emit with
  | some event => do Session.emit (.text event) (← Session.build data.datum)
  | none => pure ()
  emitTicks d.dt d.ticks.toNat
  showGlobals d.shown

/-- Run files and drive the session. -/
def run (files : Files) (d : Drive) : Outcome :=
  match settings files d.config, eventData d.data with
  | .error outcome, _ => outcome
  | _, .error outcome => outcome
  | .ok settings, .ok data =>
    match Session.perform (drive files d data) (Session.start settings []) with
    | (.ok _, w) => .exit 0 w.output ""
    | (.error (.diagnostic problem), w) => .exit 1 w.output (line (problem.format true))
    | (.error (.fault (.unreadable path problem)), w) => failing w.output (fileFault path problem)
    | (.error (.fault f), _) => .broken f
    | (.error .outOfFuel, w) => failing w.output "the run takes too many steps"

/-- Carry out a command. -/
def Command.outcome (files : Files) : Command → Outcome
  | check paths json => CommandLine.check files json {} paths
  | ast path => CommandLine.ast files path
  | run d => CommandLine.run files d

/-- Carry out what arguments ask for. -/
def outcome (files : Files) (arguments : List String) : Outcome :=
  match Request.ofArguments arguments with
  | .command c => c.outcome files
  | .help => .usage true
  | .mistaken => .usage false

/-- The paths that a command reads. -/
def Command.paths : Command → List String
  | check paths _ => paths
  | ast path => [path]
  | run d => d.config.toList ++ d.files

end CommandLine

end EventScript
