import EventScript.CommandLine

/-! # The program

Reads the files that the arguments name, and prints what the command line gives.
-/

namespace EventScript

/-- The text that explains the commands. -/
def usage : String :=
  "usage: eventscript [-h] [-v] check FILE... [--json]\n" ++
  "       eventscript [-h] [-v] ast FILE\n" ++
  "       eventscript [-h] [-v] run FILE... [-e EVENT] [-d YAML] [-t TICKS] [--dt DT]\n" ++
  "                   [-c PATH] [-s NAME]...\n"

/-- Read the files at some paths; what cannot be read is left out. -/
def readFiles : List String → IO (List (String × String))
  | [] => return []
  | path :: rest => do
    let found ← try pure [(path, ← IO.FS.readFile path)] catch _ => pure []
    return found ++ (← readFiles rest)

/-- Print how a command ended, and give the exit code. -/
def report : CommandLine.Outcome → IO UInt32
  | .exit code out err => do
    IO.print out
    IO.eprint err
    return UInt32.ofNat code
  | .usage true => do
    IO.print usage
    return 0
  | .usage false => do
    IO.eprint usage
    return 2
  | .broken f => do
    IO.eprintln s!"Error: {repr f}"
    return 1

end EventScript

open EventScript in
/-- The program. -/
def main (arguments : List String) : IO UInt32 := do
  let paths := match CommandLine.Request.ofArguments arguments with
    | .command c => c.paths
    | _ => []
  report (CommandLine.outcome (.ofList (← readFiles paths)) arguments)
