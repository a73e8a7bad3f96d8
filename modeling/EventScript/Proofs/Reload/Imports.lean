import EventScript.Proofs.Registry

/-! # The record of imports

The imports of a program are recorded for its file when the program is started, but only if there
are any, and a withdrawal drops the record.  A reload of a known file withdraws it, so the record is
that of the new program behind it.  A load does not, so a program without imports leaves the imports
of an earlier program of its file on record.

* `importsSince`                          what happened to a file says what is on record for it
* `ImportsTracked`                        the record is what happened says
* `execute_started`                       what an execution adds to what happened
* `load_started`, `reload_started`        what a load and a reload add
* `Arises.recordedImports_current_iff`    when the record is that of the program that was started
-/

namespace EventScript

open Evaluate

/-! ## What happened to the record -/

/-- The file that a change is about. -/
def ImportChange.file : ImportChange → String
  | executed file _ => file
  | dropped file => file

/-- The imports of the last program of a file that had some, unless the record was dropped since
    that program was started. -/
def importsSince (file : String) : List ImportChange → Option (List Import)
  | [] => none
  | .executed f imports :: earlier =>
    if f = file ∧ imports ≠ [] then some imports else importsSince file earlier
  | .dropped f :: earlier => if f = file then none else importsSince file earlier

/-- No change is about a file. -/
def NoneAbout (file : String) (changes : List ImportChange) : Prop :=
  ∀ c ∈ changes, c.file ≠ file

instance (file : String) (changes : List ImportChange) : Decidable (NoneAbout file changes) :=
  inferInstanceAs (Decidable (∀ c ∈ changes, c.file ≠ file))

/-- What happens to other files leaves the record of a file as it is. -/
theorem importsSince_append {file : String} {later : List ImportChange}
    (hlater : NoneAbout file later) (earlier : List ImportChange) :
    importsSince file (later ++ earlier) = importsSince file earlier := by
  induction later with
  | nil => rfl
  | cons c rest ih =>
    have hc : c.file ≠ file := hlater c List.mem_cons_self
    have hrest := ih fun c hc => hlater c (List.mem_cons_of_mem _ hc)
    cases c with
    | executed f imports =>
      have hf : f ≠ file := hc
      simpa [importsSince, hf] using hrest
    | dropped f =>
      have hf : f ≠ file := hc
      simpa [importsSince, hf] using hrest

/-- The imports of a program as they are to be on record for its file. -/
def Program.importRecord (program : Program) : Option (List Import) :=
  if program.imports = [] then none else some program.imports

/-- Where a program is started, its imports are put in place of what was on record, if it has
    any. -/
theorem importsSince_executed (file : String) (program : Program) (earlier : List ImportChange) :
    importsSince file (.executed file program.imports :: earlier) =
      program.importRecord.or (importsSince file earlier) := by
  rw [importsSince, Program.importRecord]
  by_cases hnone : program.imports = []
  · simp [hnone]
  · simp [hnone]

/-! ## The record in a session -/

/-- The imports on record for each file are what happened to the file says. -/
def ImportsTracked (w : World) : Prop :=
  ∀ file, w.importsByFile.get? file = importsSince file w.importChanges

namespace ImportsTracked

variable {v w : World}

theorem congr (hv : ImportsTracked v) (himports : w.importsByFile = v.importsByFile)
    (hchanges : w.importChanges = v.importChanges) : ImportsTracked w := by
  intro file
  rw [himports, hchanges]
  exact hv file

theorem recordImports (hv : ImportsTracked v) (program : Program) (file : Option String) :
    ImportsTracked (recordImports program file v) := by
  unfold Evaluate.recordImports
  split
  · exact hv
  · rename_i current _
    intro name
    have hbefore := hv name
    by_cases hnone : program.imports = []
    · simpa [importsSince, hnone] using hbefore
    · by_cases hname : name = current
      · subst hname
        simp [importsSince, hnone]
      · simp [importsSince, hnone, Ne.symm hname, Table.get?_put_of_ne _ _ hname, hbefore]

theorem dropHandlers (hv : ImportsTracked v) (file : String) : ImportsTracked (dropHandlers file v) := by
  intro name
  by_cases hname : name = file
  · subst hname
    simp [Evaluate.dropHandlers, importsSince]
  · simp only [Evaluate.dropHandlers, importsSince, if_neg (Ne.symm hname),
      Table.get?_erase_of_ne _ hname]
    exact hv name

end ImportsTracked

/-- A single change starts a program, drops the record of a file, or leaves all records as they
    are. -/
theorem Change.imports {v w : World} (h : Change v w) :
    (∃ program file, w = recordImports program file v) ∨ (∃ file, w = dropHandlers file v) ∨
      (w.importsByFile = v.importsByFile ∧ w.importChanges = v.importChanges) := by
  cases h with
  | importsRecorded program file => exact .inl ⟨program, file, rfl⟩
  | handlersDropped file => exact .inr (.inl ⟨file, rfl⟩)
  | instanceDeclared scope name r =>
    unfold withInstance
    split <;> exact .inr (.inr ⟨rfl, rfl⟩)
  | unsubscribed event r =>
    unfold unsubscribe
    split <;> exact .inr (.inr ⟨rfl, rfl⟩)
  | _ => exact .inr (.inr ⟨rfl, rfl⟩)

/-- The record goes on to be what happened says. -/
theorem steady_importsTracked : Steady fun v w : World => ImportsTracked v → ImportsTracked w where
  same h hv := by
    rw [h]
    exact hv.congr rfl rfl
  trans huv hvw hu := hvw (huv hu)
  change h hv := by
    rcases h.imports with ⟨program, file, rfl⟩ | ⟨file, rfl⟩ | ⟨himports, hchanges⟩
    · exact hv.recordImports program file
    · exact hv.dropHandlers file
    · exact hv.congr himports hchanges

theorem Arises.importsTracked {w : World} (hw : Arises w) : ImportsTracked w :=
  hw.of_steady steady_importsTracked fun _ _ _ => rfl

/-- Nothing is taken back of what happened. -/
theorem steady_importChanges : Steady fun v w : World => v.importChanges <:+ w.importChanges where
  same h := ⟨[], (congrArg World.importChanges h).symm⟩
  trans := List.IsSuffix.trans
  change {v w} h := by
    rcases h.imports with ⟨program, file, rfl⟩ | ⟨file, rfl⟩ | ⟨-, hchanges⟩
    · unfold recordImports
      split
      · exact List.suffix_rfl
      · exact List.suffix_cons _ _
    · exact List.suffix_cons _ _
    · exact ⟨[], hchanges.symm⟩

/-! ## Loads and reloads -/

/-- A program is started as the content of a file, and then other things may happen. -/
def Started (program : Program) (file : String) (before later : List ImportChange) (u : World) :
    Prop :=
  u.importChanges = later ++ .executed file program.imports :: before

variable {bound : Nat} {source file : String} {program : Program} {v w u : World}

/-- Where a single change was made, nothing happened behind the start of the program. -/
theorem Started.later_eq_nil {before later : List ImportChange}
    (h : Started program file before later u)
    (hlength : u.importChanges.length = before.length + 1) : later = [] := by
  rw [Started] at h
  rw [h, List.length_append, List.length_cons] at hlength
  exact List.length_eq_zero_iff.mp (by omega)

theorem execute_started (hfile : file ≠ "")
    (hok : execute (bounded bound) program (some file) v = .ok () u) :
    ∃ later, Started program file v.importChanges later u := by
  let begun : World := recordImports program (some file) { v with currentFile := some file }
  have hbegun : begun.importChanges = .executed file program.imports :: v.importChanges := by
    simp [begun, recordImports, recordedFile?, hfile]
  obtain ⟨t, hrun, rfl⟩ := execute_eq_ok hok
  have hgrows := Law.bounded_steady steady_importChanges bound
  obtain ⟨later, hlater⟩ := (Law.obeyed_topLevel hgrows fun _ _ => trivial).of_ok hrun
  rw [hbegun] at hlater
  exact ⟨later, hlater.symm⟩

/-- A load that succeeds executes the program of its source. -/
theorem load_eq_ok {run : Runner} (hok : load run source file w = .ok () u) :
    ∃ program, Program.compile source (some file) = .ok program ∧
      execute run program (some file) (withSource file source w) = .ok () u := by
  obtain ⟨program, v, hcompiled, hrest⟩ := Eval.bind_eq_ok hok
  obtain ⟨_, v', hkept, hexecute⟩ := Eval.bind_eq_ok hrest
  cases hkept
  unfold compiled at hcompiled
  cases hcompile : Program.compile source (some file) with
  | error d => rw [hcompile] at hcompiled; cases hcompiled
  | ok program =>
    rw [hcompile] at hcompiled
    cases hcompiled
    exact ⟨program, rfl, hexecute⟩

theorem load_started (hfile : file ≠ "") (hok : load (bounded bound) source file w = .ok () u) :
    ∃ program later, Program.compile source (some file) = .ok program ∧
      Started program file w.importChanges later u := by
  obtain ⟨program, hcompile, hexecute⟩ := load_eq_ok hok
  obtain ⟨later, hlater⟩ := execute_started hfile hexecute
  exact ⟨program, later, hcompile, hlater⟩

theorem importChanges_withdrawn (file : String) (w : World) :
    (withdrawn file w).importChanges = .dropped file :: w.importChanges := by
  obtain ⟨scopes, -, hwithdrawn⟩ := withdrawn_eq file w
  rw [hwithdrawn]
  rfl

/-- A reload of a known file drops the record before it starts the new program. -/
theorem reload_started (hfile : file ≠ "") (hknown : w.sources.contains file = true)
    (hok : reload (bounded bound) source file w = .ok () u) :
    ∃ program later, Program.compile source (some file) = .ok program ∧
      Started program file (.dropped file :: w.importChanges) later u := by
  cases hcompile : Program.compile source (some file) with
  | error d =>
    rw [reload_of_refused _ hknown hcompile] at hok
    cases hok
  | ok program =>
    rw [reload_of_compiled _ hknown hcompile] at hok
    obtain ⟨_, t, -, hexchange, hannounce⟩ := replace_eq_ok _ hok
    obtain ⟨v, instances, hexecute, rfl⟩ := exchange_eq_ok _ hexchange
    obtain ⟨ran, hran⟩ := execute_started hfile hexecute
    have hgrows := Law.bounded_steady steady_importChanges bound
    -- writing the kept fields leaves the record alone, but whoever hears of the reload may load
    have hsame : (v.withInstances instances).importChanges = v.importChanges := rfl
    obtain ⟨told, htold⟩ := (Law.obeyed_announce hgrows file).of_ok hannounce
    refine ⟨program, told ++ ran, rfl, ?_⟩
    rw [Started, ← htold, hsame, hran, importChanges_withdrawn, List.append_assoc]
    rfl

/-- When the imports on record are those of the program that was started.  In every world that comes
    up in a session, whatever was loaded before and whatever failed, a load that completes records
    the imports of its program if there are any, and else leaves what is on record for the file: so
    the record is that of the program exactly if the program has imports or nothing was on record.
    A reload of a known file records them in any case, and a file that is not known is loaded.
    Where the program makes the host load or reload the same file, or a listener does when it hears
    of the reload, the record is what happened since says. -/
theorem Arises.recordedImports_current_iff (hw : Arises w) (hfile : file ≠ "") :
    (∀ u, load (bounded bound) source file w = .ok () u →
      u.importsByFile.get? file = importsSince file u.importChanges ∧
      ∃ program later, Program.compile source (some file) = .ok program ∧
        Started program file w.importChanges later u ∧
        (NoneAbout file later →
          u.importsByFile.get? file = program.importRecord.or (w.importsByFile.get? file) ∧
          (u.importsByFile.get? file = program.importRecord ↔
            program.imports ≠ [] ∨ w.importsByFile.get? file = none))) ∧
    (w.sources.contains file = true → ∀ u, reload (bounded bound) source file w = .ok () u →
      u.importsByFile.get? file = importsSince file u.importChanges ∧
      ∃ program later, Program.compile source (some file) = .ok program ∧
        Started program file (.dropped file :: w.importChanges) later u ∧
        (NoneAbout file later → u.importsByFile.get? file = program.importRecord)) ∧
    (w.sources.contains file = false →
      reload (bounded bound) source file w = load (bounded bound) source file w) := by
  have hruns := Law.bounded_steady steady_leads bound
  refine ⟨fun u hok => ?_, fun hknown u hok => ?_, fun hunknown => ?_⟩
  · have hu := (hw.leads ((Law.obeyed_load hruns source file).of_ok hok)).importsTracked file
    obtain ⟨program, later, hcompile, hstarted⟩ := load_started hfile hok
    refine ⟨hu, program, later, hcompile, hstarted, fun hlater => ?_⟩
    have hrecord : u.importsByFile.get? file =
        program.importRecord.or (w.importsByFile.get? file) := by
      rw [hu, hstarted, importsSince_append hlater, importsSince_executed, hw.importsTracked file]
    refine ⟨hrecord, ?_⟩
    rw [hrecord, Program.importRecord]
    by_cases hnone : program.imports = []
    · simp [hnone]
    · simp [hnone]
  · have hu := (hw.leads ((Law.obeyed_reload hruns source file).of_ok hok)).importsTracked file
    obtain ⟨program, later, hcompile, hstarted⟩ := reload_started hfile hknown hok
    refine ⟨hu, program, later, hcompile, hstarted, fun hlater => ?_⟩
    rw [hu, hstarted, importsSince_append hlater, importsSince_executed]
    simp [importsSince]
  · rw [reload, Eval.run_get_bind, hunknown]
    rfl

/-- A session with a file that imports another one. -/
def importingHall : World :=
  Session.serve (Session.start {} []) [.load "import \"lib.forge\"\nlet a = 1\n" "hall"]

/-- A program without imports. -/
def plainSource : String := "let a = 2\n"

/-- The hall is loaded again without its import, which stays on record; a reload with the same
    source takes it away. -/
theorem recordedImports_current_iff_importingHall :
    ∃ u u', Arises importingHall ∧ "hall" ≠ "" ∧ importingHall.sources.contains "hall" = true ∧
      load (bounded runBound) plainSource "hall" importingHall = .ok () u ∧
      reload (bounded runBound) plainSource "hall" importingHall = .ok () u' ∧
      (Program.compiled plainSource "hall").imports = [] ∧
      (u.importsByFile.get? "hall").map (·.map Import.source) = some ["lib.forge"] ∧
      u'.importsByFile.get? "hall" = none := by
  have hw : Arises importingHall := ((Reached.start {} []).serve _).arises
  let loading := Session.perform (load (bounded runBound) plainSource "hall") importingHall
  let reloading := Session.perform (reload (bounded runBound) plainSource "hall") importingHall
  obtain ⟨hloads, hreloads, hknown, hcompiles, hplain⟩ :
      loading.1.isOk = true ∧ reloading.1.isOk = true ∧
      importingHall.sources.contains "hall" = true ∧
      (Program.compile plainSource (some "hall")).isOk = true ∧
      (Program.compiled plainSource "hall").imports = [] := by
    decide +kernel
  obtain ⟨himported, hbefore, hloaded, hreloaded⟩ :
      (importingHall.importsByFile.get? "hall").map (·.map Import.source) = some ["lib.forge"] ∧
      importingHall.importChanges.length = 1 ∧ loading.2.importChanges.length = 2 ∧
      reloading.2.importChanges.length = 3 := by
    decide +kernel
  obtain ⟨hload, hreload, -⟩ :=
    @Arises.recordedImports_current_iff runBound plainSource "hall" _ hw (by decide)
  have hload_ok := Session.perform_of_isOk hloads
  have hreload_ok := Session.perform_of_isOk hreloads
  have hcompiled := Program.compile_of_isOk hcompiles
  refine ⟨_, _, hw, by decide, hknown, hload_ok, hreload_ok, hplain, ?_, ?_⟩
  · obtain ⟨-, program, later, hcompile, hstarted, hrecord⟩ := hload _ hload_ok
    obtain rfl : Program.compiled plainSource "hall" = program :=
      Except.ok.inj (hcompiled.symm.trans hcompile)
    obtain rfl : later = [] := hstarted.later_eq_nil (by rw [hloaded, hbefore])
    obtain ⟨hkept, -⟩ := hrecord nofun
    rw [hkept, Program.importRecord, if_pos hplain, Option.none_or, himported]
  · obtain ⟨-, program, later, hcompile, hstarted, hrecord⟩ := hreload hknown _ hreload_ok
    obtain rfl : Program.compiled plainSource "hall" = program :=
      Except.ok.inj (hcompiled.symm.trans hcompile)
    obtain rfl : later = [] :=
      hstarted.later_eq_nil (by rw [hreloaded, List.length_cons, hbefore])
    rw [hrecord nofun, Program.importRecord, if_pos hplain]

end EventScript
