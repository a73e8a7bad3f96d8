import EventScript.Fault

/-! # Files

A tree of text files that a session can be given, by paths from its root.  Paths are compared in
their plain form, without repeated slashes and without `.` parts.  Every line break of a file reads
as a line feed.
-/

namespace EventScript

namespace Files

/-- The parts of a path: what stands between slashes, but for nothing and `.`. -/
def pathParts (path : String) : List (List Char) :=
  let rec go (part : List Char) : List Char → List (List Char)
    | [] => [part.reverse]
    | '/' :: rest => part.reverse :: go [] rest
    | c :: rest => go (c :: part) rest
  (go [] path.toList).filter fun part => !(part == [] || part == ['.'])

/-- The slashes that a path starts with and keeps: two stay two, and more count as one. -/
def rootOf : List Char → List Char
  | '/' :: '/' :: '/' :: _ => ['/']
  | '/' :: '/' :: _ => ['/', '/']
  | '/' :: _ => ['/']
  | _ => []

/-- The plain form of a path. -/
def plainPath (path : String) : String :=
  match rootOf path.toList, pathParts path with
  | [], [] => "."
  | root, parts => String.ofList (root ++ List.intercalate ['/'] parts)

/-- The last part of a path; a path without parts has none. -/
def fileName (path : String) : String := String.ofList ((pathParts path).getLast?.getD [])

/-- Read every line break as a line feed. -/
def plainBreaks : List Char → List Char
  | '\r' :: '\n' :: rest => '\n' :: plainBreaks rest
  | '\r' :: rest => '\n' :: plainBreaks rest
  | c :: rest => c :: plainBreaks rest
  | [] => []

end Files

/-- Text files by their plain paths. -/
structure Files where
  entries : List (String × String)
  deriving Inhabited

namespace Files

/-- No files. -/
def empty : Files := ⟨[]⟩

/-- Write a file. -/
def write (files : Files) (path text : String) : Files :=
  ⟨(plainPath path, text) :: files.entries⟩

/-- Files written one after the other. -/
def ofList (es : List (String × String)) : Files :=
  es.foldl (fun files e => files.write e.1 e.2) empty

/-- Some parts are those of a path, with more parts behind them. -/
def leadsTo (parts : List (List Char)) (path : String) : Bool :=
  parts.isPrefixOf (pathParts path) && parts.length < (pathParts path).length

/-- The path is one of a directory: the root, or one that leads to a file. -/
def isDirectory (files : Files) (path : String) : Bool :=
  plainPath path == "." || files.entries.any fun e => leadsTo (pathParts path) e.1

/-- The path leads through a file. -/
def isBelowFile (files : Files) (path : String) : Bool :=
  files.entries.any fun e => leadsTo (pathParts e.1) (plainPath path)

/-- There is a file or a directory at the path. -/
def holds (files : Files) (path : String) : Bool :=
  (files.entries.lookup (plainPath path)).isSome || files.isDirectory path

/-- Read a file. -/
def read (files : Files) (path : String) : Except Fault String :=
  match files.entries.lookup (plainPath path) with
  | some text => pure (String.ofList (plainBreaks text.toList))
  | none =>
    if files.isDirectory path then throw (.unreadable (plainPath path) .directory)
    else if files.isBelowFile path then throw (.unreadable (plainPath path) .belowFile)
    else throw (.unreadable (plainPath path) .missing)

end Files

end EventScript
