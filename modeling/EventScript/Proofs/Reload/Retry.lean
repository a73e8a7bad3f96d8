import EventScript.Proofs.Law.Steady
import EventScript.Proofs.Reload.Announce

/-! # Reloading again after a failed reload

A reload that fails because its source does not compile changes nothing, so the next one restores
every assigned field.  One whose program fails has withdrawn the file already: what was assigned
before is gone, and the next reload restores what the failed program left behind.

* `FailedEdit.reload_eq`             what a failed reload leaves
* `retried_reload_restores_iff`      which fields the next reload restores
-/

namespace EventScript

open Evaluate

/-- The world behind a reload of a known file that fails before it announces anything. -/
inductive FailedEdit (source file : String) (w : World) : Failure → World → Prop
  /-- The source does not compile. -/
  | refused {d : Diagnostic} (hcompile : Program.compile source (some file) = .error d) :
    FailedEdit source file w (.diagnostic d) w
  /-- The program fails while it is executed. -/
  | broken {program : Program} {e : Failure} {v : World}
      (hcompile : Program.compile source (some file) = .ok program)
      (hexecute : execute Evaluate.run program (some file)
        (withdrawn file (withSource file source w)) = .error e v) :
    FailedEdit source file w e v

section FailedEdit

variable {source file : String} {w v : World} {e : Failure}

theorem FailedEdit.reload_eq (h : FailedEdit source file w e v)
    (hknown : w.sources.contains file = true) :
    reload Evaluate.run source file w = .error e v := by
  cases h with
  | refused hcompile => exact reload_of_refused _ hknown hcompile
  | broken hcompile hexecute =>
    rw [reload_of_compiled _ hknown hcompile]
    exact replace_of_failed _ hexecute

/-- A file that is known stays known when its reload fails. -/
theorem FailedEdit.known (h : FailedEdit source file w e v)
    (hknown : w.sources.contains file = true) : v.sources.contains file = true := by
  have hkept := Law.obeyed_reload (Law.runs_steady steady_known) source file w
  rw [h.reload_eq hknown] at hkept
  exact hkept file hknown

end FailedEdit

/-- After a failed reload of a file another one succeeds and declares the same instances.  A field
    that was assigned before the first one has its value back behind the restoring of the second
    one exactly if the first source did not compile, or if the failed program had assigned this very
    value to the field of an instance of the name, or had left the field alone and the second
    program gives it the value.  Where nobody listens, this is how the instances remain. -/
theorem retried_reload_restores_iff {source source' file : String} {program : Program}
    {e : Failure} {w w₁ v : World} (hknown : w.sources.contains file = true)
    (hfailed : FailedEdit source file w e w₁)
    (hcompile : Program.compile source' (some file) = .ok program)
    (hexecute : execute Evaluate.run program (some file)
      (withdrawn file (withSource file source' w₁)) = .ok () v)
    (hdistinct : v.Distinct (w.tracked file ++ w₁.tracked file)) :
    ∃ instances,
      reload Evaluate.run source file w = .error e w₁ ∧
      reload Evaluate.run source' file w₁ =
        announce Evaluate.run file (v.withInstances instances) ∧
      (Idle v → Unheard v → ∀ u, reload Evaluate.run source' file w₁ = .ok () u →
        u.store.instances = instances) ∧
      ∀ n ∈ w.tracked file, ∀ old new, w.Names n old → v.Names n new →
        ∀ k ∈ (w.store.inst old).mutated, ∀ x, (w.store.inst old).data.get? k = some x →
          ((v.store.inst new).data.get? k).any Value.isCallable = false →
          ((instances.get new).data.get? k = some x ↔
            (∃ d, Program.compile source (some file) = .error d) ∨
              (w₁.keptField? file n k).or ((v.store.inst new).data.get? k) = some x) := by
  obtain ⟨instances, hexchange, -, hfield⟩ := exchange_field Evaluate.run program file hexecute
    hdistinct fun n hn => List.mem_append_right _ hn
  have hsecond : reload Evaluate.run source' file w₁ =
      announce Evaluate.run file (v.withInstances instances) := by
    rw [reload_of_compiled _ (hfailed.known hknown) hcompile]
    exact replace_of_exchanged _ hexchange
  refine ⟨instances, hfailed.reload_eq hknown, hsecond, ?_, ?_⟩
  · intro hidle hunheard u hu
    obtain ⟨data, hstore⟩ := announce_unheard (w := v.withInstances instances)
      ⟨hidle.queue, hidle.processing⟩
      ⟨hunheard.handlers, hunheard.listeners, hunheard.wildcard⟩ (hsecond.symm.trans hu)
    rw [hstore]
    rfl
  · intro n hn old new hold hnew k hk x hx hcall
    rw [hfield n (List.mem_append_left _ hn) new hnew k, hcall]
    -- the source of the file is not what is kept
    have hkept : (withSource file source' w₁).keptField? file n k = w₁.keptField? file n k := rfl
    rw [hkept, if_neg Bool.false_ne_true]
    refine ⟨Or.inr, fun h => h.elim (fun hrefused => ?_) id⟩
    obtain ⟨d, hrefused⟩ := hrefused
    cases hfailed with
    | broken hcompiled _ => simp [hcompiled] at hrefused
    | refused _ =>
      have hkeptOld : w.keptField? file n k = some x := by
        simp [World.keptField?, hn, hold.1, hk, hx]
      rw [hkeptOld, Option.some_or]

/-- The door was opened, and its file is reloaded with a program that fails at once.  Reloading what
    was there before closes the door. -/
theorem retried_reload_closes_opened_door :
    ∃ e w₁ v instances,
      FailedEdit "boom()\n" "door" openedDoor e w₁ ∧
      execute Evaluate.run (Program.compiled doorSource "door") (some "door")
        (withdrawn "door" (withSource "door" doorSource w₁)) = .ok () v ∧
      reload Evaluate.run doorSource "door" w₁ =
        announce Evaluate.run "door" (v.withInstances instances) ∧
      openedDoor.Names "door" ⟨0⟩ ∧ v.Names "door" ⟨1⟩ ∧
      (openedDoor.store.inst ⟨0⟩).text? "state" = some "open" ∧
      (instances.get ⟨1⟩).text? "state" ≠ some "open" := by
  let broken := execute Evaluate.run (Program.compiled "boom()\n" "door") (some "door")
  let edited := withdrawn "door" (withSource "door" "boom()\n" openedDoor)
  let w₁ := (Session.perform broken edited).2
  let again := execute Evaluate.run (Program.compiled doorSource "door") (some "door")
  let v := (Session.perform again (withdrawn "door" (withSource "door" doorSource w₁))).2
  obtain ⟨hcompiles, hcompiles', hfails, hok, hknown, htracked, hlost, hold, hnew, hopen, hmutated,
      hclosed⟩ :
      (Program.compile "boom()\n" (some "door")).isOk = true ∧
      (Program.compile doorSource (some "door")).isOk = true ∧
      (Session.perform broken edited).1.isOk = false ∧
      (Session.perform again (withdrawn "door" (withSource "door" doorSource w₁))).1.isOk = true ∧
      openedDoor.sources.contains "door" = true ∧
      openedDoor.tracked "door" = ["door"] ∧ w₁.tracked "door" = [] ∧
      openedDoor.Names "door" ⟨0⟩ ∧ v.Names "door" ⟨1⟩ ∧
      (openedDoor.store.inst ⟨0⟩).text? "state" = some "open" ∧
      "state" ∈ (openedDoor.store.inst ⟨0⟩).mutated ∧
      (v.store.inst ⟨1⟩).text? "state" = some "closed" := by decide +kernel
  have hboom : Program.compile "boom()\n" (some "door") =
      .ok (Program.compiled "boom()\n" "door") := Program.compile_of_isOk hcompiles
  obtain ⟨e, hbroken⟩ : ∃ e, broken edited = .error e w₁ := Session.perform_of_not_isOk hfails
  have hfailed : FailedEdit "boom()\n" "door" openedDoor e w₁ := .broken hboom hbroken
  have hexecute : again (withdrawn "door" (withSource "door" doorSource w₁)) = .ok () v :=
    Session.perform_of_isOk hok
  have hdistinct : v.Distinct (openedDoor.tracked "door" ++ w₁.tracked "door") := by
    intro m hm n hn r _ _
    rw [htracked, hlost, List.append_nil, List.mem_singleton] at hm hn
    rw [hm, hn]
  obtain ⟨instances, -, hsecond, -, hrestored⟩ := retried_reload_restores_iff
    hknown hfailed (Program.compile_of_isOk hcompiles') hexecute hdistinct
  refine ⟨e, w₁, v, instances, hfailed, hexecute, hsecond, hold, hnew, hopen, ?_⟩
  rw [Instance.text?_eq_some] at hopen hclosed
  rw [Ne, Instance.text?_eq_some, hrestored "door" (by simp [htracked]) _ _ hold hnew "state"
    hmutated _ hopen (by rw [hclosed]; rfl)]
  -- the source compiles, and nothing is kept of what the failed program did not declare
  simp [hboom, World.keptField?, hlost, hclosed]

end EventScript
