import EventScript.Proofs.Law
import EventScript.Proofs.Work

/-! # The library obeys every law

Each step of the library is a single change of the world, or none, and otherwise the library goes
back to the runner it was given.  So it obeys every law that the runner obeys.

* `Runs.obeyed_work`   work of the library
* `obeyed_quiet`       work that goes back to no runner
-/

namespace EventScript

open Evaluate Library

namespace Law

variable {α : Type} {L : Law} {run : Runner} {act : Eval α}

/-- Work of the library obeys a law when what it goes back for does. -/
theorem obeyed_of_work (hnative : ∀ n args, L.Obeyed (run (.native n args)))
    (hvisit : ∀ v f source place found, L.Obeyed (run (.visit v f source place found)))
    (hcount : ∀ i stop step upward found, L.Obeyed (run (.count i stop step upward found)))
    (h : Work run act) : L.Obeyed act := by
  induction h with
  | pure a => exact obeyed_pure a
  | bind _ _ hact hnext => exact obeyed_bind hact hnext
  | read _ ih => exact fun w => ih w.store w
  | fault hf => exact obeyed_fault _
  | problem p span => exact obeyed_problem p span
  | newList items => exact obeyed_newList items
  | newMap entries => exact obeyed_newMap entries
  | modifyList r f => exact obeyed_modifyList r f
  | ofNumber n => exact obeyed_ofNumber n
  | draw d =>
    exact fun w => L.change (.drawn (d w.generator).2) (fun h => h.congr rfl rfl rfl rfl)
      (.of_scopes rfl)
  | print vs =>
    exact obeyed_bind (obeyed_read _) fun _ =>
      obeyed_bind
        (obeyed_modify (fun _ => .printed _) (fun _ h => h.congr rfl rfl rfl rfl)
          fun _ => .of_scopes rfl)
        fun _ => obeyed_pure _
  | native n args => exact hnative n args
  | visit v f source place found => exact hvisit v f source place found
  | count i stop step upward found => exact hcount i stop step upward found

theorem Runs.obeyed_work (hrun : L.Runs run) (h : Work run act) : L.Obeyed act :=
  obeyed_of_work hrun.native hrun.visit hrun.count h

/-- Work that is the same for every runner obeys every law. -/
theorem obeyed_quiet (h : ∀ run, Work run act) : L.Obeyed act :=
  -- a runner that refuses everything obeys the law too
  obeyed_of_work (fun _ _ => obeyed_fault .wrongKind) (fun _ _ _ _ _ => obeyed_fault .wrongKind)
    (fun _ _ _ _ _ => obeyed_fault .wrongKind) (h fun _ => Eval.fault .wrongKind)

end Law

end EventScript
