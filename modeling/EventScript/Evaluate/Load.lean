import EventScript.Evaluate.Statement
import EventScript.Grammar.Program

/-! # Loading and reloading files

A file is executed once against the globals.  Reloading a file replaces what its last program
declared: its handlers are dropped and its instances unbound, the new program is executed, and then
the fields that were assigned since an instance was made are written to the instance that has its
name now.  Fields that hold functions in the new instance stay.
-/

namespace EventScript

namespace Evaluate

open Eval

/-- Execute statements of a file, up to a `return`. -/
def topLevel (run : Runner) : List Stmt → Eval Unit
  | [] => return
  | s :: rest => do
    match ← run (.exec s globalScope) with
    | .returned _ => return
    | _ => topLevel run rest

/-- Record the imports of a program for a file, if it has any. -/
def recordImports (program : Program) (file : Option String) (w : World) : World :=
  match recordedFile? file with
  | none => w
  | some file =>
    { w with
      importsByFile :=
        if program.imports.isEmpty then w.importsByFile
        else w.importsByFile.put file program.imports
      importChanges := .executed file program.imports :: w.importChanges }

/-- Execute a program against the globals as the content of a file.  Imports are only recorded. -/
def execute (run : Runner) (program : Program) (file : Option String) : Eval Unit := do
  let outer := (← get).currentFile
  modify fun w => { w with currentFile := file }
  ensuring
    (do
      modify (recordImports program file)
      topLevel run program.body)
    fun w => { w with currentFile := outer }

/-- An execution that succeeds has a body that does, behind the record of the imports. -/
theorem execute_eq_ok {run : Runner} {program : Program} {file : Option String} {w u : World}
    (h : execute run program file w = .ok () u) :
    ∃ v, topLevel run program.body (recordImports program file { w with currentFile := file }) =
        .ok () v ∧ u = { v with currentFile := w.currentFile } := ensuring_eq_ok h

/-- The program of a source; a failure is the diagnostic. -/
def compiled (source : String) (file : Option String) : Eval Program :=
  match Program.compile source file with
  | .ok program => return program
  | .error d => throw (.diagnostic d)

/-- The world with the source of a file. -/
def withSource (file source : String) (w : World) : World :=
  { w with sources := w.sources.put file source }

/-- Load a source under a file name. -/
def load (run : Runner) (source file : String) : Eval Unit := do
  let program ← compiled source file
  modify (withSource file source)
  execute run program file

/-- The world without the handlers that a file registered, and without its imports. -/
def dropHandlers (file : String) (w : World) : World :=
  let dropped := w.handlersByFile.getD file []
  { w with
    handlers := dropped.foldl
      (fun t h => t.put h.event ((t.getD h.event []).filter (·.serial != h.serial))) w.handlers
    handlersByFile := w.handlersByFile.erase file
    ledger := .withdrawn file w.processing w.history :: w.ledger
    importsByFile := w.importsByFile.erase file
    importChanges := .dropped file :: w.importChanges }

/-- What is kept of an instance: its assigned fields with their values, and the names of all fields
    that were assigned. -/
structure Kept where
  values : List (String × Value)
  mutated : List String

/-- What is to be kept of an instance. -/
def Kept.ofInstance (i : Instance) : Kept :=
  ⟨i.mutated.filterMap fun name => (i.data.get? name).map (name, ·), i.mutated⟩

/-- Unbind global names, and give what is to be kept of those that name instances. -/
def unbind (kept : Table String Kept) : List String → Eval (Table String Kept)
  | [] => return kept
  | name :: rest => do
    let found ← global? name
    modifyStore fun s => s.undefine globalScope name
    match found with
    | some (.inst r) => do
      let i ← read fun s => s.inst r
      unbind (kept.put name (.ofInstance i)) rest
    | _ => unbind kept rest

/-- The world without the record of the instances that a file declared. -/
def dropInstances (file : String) (w : World) : World :=
  { w with
    instancesByFile := w.instancesByFile.erase file
    declarations := .dropped file :: w.declarations }

/-- Unbind the instances that a file declared, and drop the record of them. -/
def unbindInstances (file : String) : Eval (Table String Kept) := do
  let names := (← get).instancesByFile.getD file []
  modify (dropInstances file)
  unbind .empty names

/-- An instance with the kept fields of the one that it replaces. -/
def Kept.restore (kept : Kept) (i : Instance) : Instance :=
  { i with
    -- functions are those of the new program
    data := kept.values.foldl
      (fun t e => if ((t.get? e.1).any Value.isCallable) then t else t.put e.1 e.2) i.data
    mutated := kept.mutated
    changes := .restored kept.mutated :: i.changes }

/-- Write kept fields to the instances that have the names now. -/
def restoreAll : List (String × Kept) → Eval Unit
  | [] => return
  | (name, kept) :: rest => do
    match ← global? name with
    | some (.inst r) => modifyInstance r kept.restore
    | _ => pure ()
    restoreAll rest

/-- Drop the handlers, imports and instances of a file, and give what is to be kept of the
    instances. -/
def withdraw (file : String) : Eval (Table String Kept) := do
  modify (dropHandlers file)
  unbindInstances file

/-- Exchange what a file declared for what a new program declares. -/
def exchange (run : Runner) (program : Program) (file : String) : Eval Unit := do
  -- what is dropped here stays dropped, even when the new program fails
  let kept ← withdraw file
  execute run program file
  restoreAll kept.entries

/-- Tell everyone that a file was reloaded. -/
def announce (run : Runner) (file : String) : Eval Unit := do
  emit run reloadEvent (← newMap (Table.empty.put (.text "filename") (.text file)))

/-- Replace what a file declared by what a new program declares, and tell everyone. -/
def replace (run : Runner) (program : Program) (file : String) : Eval Unit := do
  exchange run program file
  announce run file

/-- Reload a source under a file name; one that was never loaded is loaded. -/
def reload (run : Runner) (source file : String) : Eval Unit := do
  if (← get).sources.contains file then
    -- a source that does not compile changes nothing
    let program ← compiled source file
    modify (withSource file source)
    replace run program file
  else load run source file

end Evaluate

end EventScript
