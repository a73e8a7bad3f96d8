import EventScript.Proofs.Asked.Step
import EventScript.Proofs.Ceilings
import EventScript.Proofs.Quiescence

/-! # Calls in progress

A world counts the calls in progress.  There is another count, which needs no world: a call is in
progress for just those pieces of work that are done inside of it.  A run that goes by this count
does all that runs do, so both counts are always the same.

* `boundedWithin`         runs that count by how pieces of work lie inside of each other
* `agree_boundedWithin`   they do what runs do
* `Request.via_counted`   this holds of every request to a session
-/

namespace EventScript

open Evaluate

/-! ## Counted runs -/

/-- The call of a function that lies inside of a number of calls. -/
def callWithin (run : Runner) (calls : Nat) (r : FunctionRef) (args : List Value)
    (span : Option Span) : Eval Value := do
  let limit := (← get).settings.maxCallDepth
  if calls = limit then Eval.problem (.callDepth limit) span
  else
    modify fun w => { w with callDepth := calls + 1 }
    let f ← Eval.read fun s => s.function r
    Eval.ensuring (invoke run f args) fun w => { w with callDepth := calls }

/-- A step that lies inside of a number of calls: only what is done in a call lies inside of one
    more. -/
def stepWithin (run : Nat → Runner) (calls : Nat) : Runner
  | .call f args span => callWithin (run (calls + 1)) calls f args span
  | t => step (run calls) t

/-- A run with a bound that lies inside of a number of calls.  It goes astray when a piece of work
    starts in a world that counts another number of calls, or inside of more than there may be. -/
def boundedWithin (astray : Runner) : Nat → Nat → Runner
  | 0, _, _ => throw .outOfFuel
  | bound + 1, calls, t => fun w =>
    if w.callDepth = calls ∧ calls ≤ w.settings.maxCallDepth then
      stepWithin (boundedWithin astray bound) calls t w
    else astray t w

section

variable {astray : Runner} {settings : Settings} {calls : Nat}

theorem callWithin_of_full (run : Runner) (f : FunctionRef) (args : List Value)
    (span : Option Span) {w : World} (h : calls = w.settings.maxCallDepth) :
    callWithin run calls f args span w =
      .error (.diagnostic ⟨.callDepth w.settings.maxCallDepth, span, none⟩) w := by
  simp [callWithin, h, Eval.problem]

theorem callWithin_of_not_full (run : Runner) (f : FunctionRef) (args : List Value)
    (span : Option Span) {w : World} (h : calls ≠ w.settings.maxCallDepth) :
    callWithin run calls f args span w =
      Eval.ensuring (invoke run (w.store.function f) args) (fun v => { v with callDepth := calls })
        { w with callDepth := calls + 1 } := by
  unfold callWithin
  rw [Eval.run_get_bind]
  simp only [h, if_false]
  rfl

/-- Both counts refuse the same calls, and agree on the others if they do so inside of them. -/
theorem agree_callWithin {run run' : Runner} (hcalls : calls ≤ settings.maxCallDepth)
    (hrun : calls < settings.maxCallDepth → ∀ t,
      Agree (Stands settings (calls + 1)) (run t) (run' t))
    (f : FunctionRef) (args : List Value) (span : Option Span) :
    Agree (Stands settings calls) (callFunction run f args span)
      (callWithin run' calls f args span) := by
  rintro w ⟨rfl, rfl⟩
  by_cases hfull : w.settings.maxCallDepth ≤ w.callDepth
  · have hrefused := callFunction_of_full run f args span hfull
    refine ⟨?_, by rw [hrefused]; exact ⟨rfl, rfl⟩⟩
    rw [hrefused, callWithin_of_full run' f args span (Nat.le_antisymm hcalls hfull)]
  · have hasks : Asks (fun _ => True) fun run => invoke run (w.store.function f) args :=
      asks_invoke (fun _ _ => trivial) (fun _ _ => trivial) _ args
    have hentered : Stands w.settings (w.callDepth + 1) { w with callDepth := w.callDepth + 1 } :=
      ⟨rfl, rfl⟩
    -- behind the body one count goes back by one, and the other one to what it was before
    have hleave : ∀ v, Stands w.settings (w.callDepth + 1) v →
        { v with callDepth := w.callDepth } = { v with callDepth := v.callDepth - 1 } ∧
          Stands w.settings w.callDepth { v with callDepth := v.callDepth - 1 } :=
      fun v hv => ⟨by simp [hv.callDepth], hv.settings, by simp [hv.callDepth]⟩
    obtain ⟨hsame, hleaves⟩ :=
      (hasks.agree (fun t _ => hrun (Nat.lt_of_not_le hfull) t) _ hentered).ensuring hleave
    rw [← callFunction_of_not_full run f args span hfull] at hsame hleaves
    rw [← callWithin_of_not_full run' f args span (Nat.ne_of_lt (Nat.lt_of_not_le hfull))] at hsame
    exact ⟨hsame, hleaves⟩

/-- A counted run does what runs do. -/
theorem agree_boundedWithin (astray : Runner) (bound : Nat) (hcalls : calls ≤ settings.maxCallDepth)
    (t : Task) :
    Agree (Stands settings calls) (bounded bound t) (boundedWithin astray bound calls t) := by
  induction bound generalizing calls t with
  | zero => exact fun w hw => ⟨rfl, hw⟩
  | succ bound ih =>
    have hstep : Agree (Stands settings calls) (step (bounded bound) t)
        (stepWithin (boundedWithin astray bound) calls t) := by
      cases hcall : t.isCall with
      | true =>
        cases t with
        | call f args span => exact agree_callWithin hcalls (fun hmore t => ih hmore t) f args span
        | _ => cases hcall
      | false =>
        have hasks : Asks (fun _ => True) fun run => step run t :=
          asks_step (fun _ => trivial) hcall
        have hsame : stepWithin (boundedWithin astray bound) calls t =
            step (boundedWithin astray bound calls) t := by
          cases t <;> first | rfl | cases hcall
        rw [hsame]
        exact hasks.agree fun t _ => ih hcalls t
    intro w hw
    have hcounted : w.callDepth = calls ∧ calls ≤ w.settings.maxCallDepth :=
      ⟨hw.callDepth, hw.settings ▸ hcalls⟩
    obtain ⟨hsame, hleaves⟩ := hstep w hw
    exact ⟨(if_pos hcounted).trans hsame, hleaves⟩

/-! ## Requests -/

/-- Load several sources in order, each given behind its file name. -/
def loadEach (run : Runner) : List (String × String) → Eval Unit
  | [] => return
  | (file, source) :: rest => do
    Evaluate.load run source file
    loadEach run rest

/-- Call a function, as a host does. -/
def callByHost (run : Runner) (f : Value) (args : List Value) : Eval Value := do
  match f with
  | .function r => run (.call r args none)
  | .native n =>
    let name ← Eval.read fun s => (s.nativeName? n).getD Session.namelessNative
    Evaluate.callNative run n args name none
  | v => Eval.problem (.notCallable v.typeName) none

/-- A request in terms of a runner. -/
def Request.via (run : Runner) : Request → Eval Unit
  | execute program file => Evaluate.execute run program file
  | load source file => Evaluate.load run source file
  | loadAll sources => loadEach run sources
  | reload source file => Evaluate.reload run source file
  | loadFile files path => do
    Evaluate.load run (← Eval.ofExcept (files.read path)) (Files.plainPath path)
  | reloadFile files path => do
    Evaluate.reload run (← Eval.ofExcept (files.read path)) (Files.plainPath path)
  | emit event data => Evaluate.emitValues run event data
  | tick dt => do
    Evaluate.emit run Evaluate.tickEvent (← Eval.newMap (Table.empty.put (.text "dt") dt))
  | call f args => do
    let _ ← callByHost run f args
  -- the others ask for nothing
  | r => r.act

theorem loadEach_run (sources : List (String × String)) :
    loadEach Evaluate.run sources = Session.loadAll sources := by
  induction sources with
  | nil => rfl
  | cons entry rest ih => rw [loadEach, Session.loadAll, ih]; rfl

/-- Requests go by runs. -/
theorem Request.via_run (r : Request) : r.via Evaluate.run = r.act := by
  cases r with
  | loadAll sources => exact loadEach_run sources
  | call f args => cases f <;> rfl
  | _ => rfl

theorem asks_loadEach (sources : List (String × String)) :
    Asks (fun _ => True) fun run => loadEach run sources := by
  induction sources with
  | nil => exact .leaf (Law.obeyed_pure _)
  | cons entry rest ih => exact .bind (asks_load (fun _ => trivial) _ _) fun _ => ih

theorem asks_callByHost (f : Value) (args : List Value) :
    Asks (fun _ => True) fun run => callByHost run f args := by
  cases f with
  | function r => exact .task trivial
  | native n => exact .bind (.leaf (Law.obeyed_read _)) fun _ => .reporting _ _ (.task trivial)
  | _ => exact .leaf (Law.obeyed_problem _ _)

theorem asks_via (r : Request) : Asks (fun _ => True) fun run => r.via run := by
  have hall : ∀ t : Task, (fun _ : Task => True) t := fun _ => trivial
  cases r with
  | execute program file => exact asks_execute (fun _ _ => trivial) program file
  | load source file => exact asks_load hall source file
  | loadAll sources => exact asks_loadEach sources
  | reload source file => exact asks_reload hall source file
  | loadFile files path =>
    exact .bind (.leaf (Law.obeyed_ofExcept _)) fun source => asks_load hall source _
  | reloadFile files path =>
    exact .bind (.leaf (Law.obeyed_ofExcept _)) fun source => asks_reload hall source _
  | emit event data => exact asks_emitValues trivial event data
  | tick dt => exact .bind (.leaf (Law.obeyed_newMap _)) fun data => asks_emit trivial _ data
  | call f args => exact .bind (asks_callByHost f args) fun _ => .leaf (Law.obeyed_pure _)
  | set name v => exact .leaf (Law.obeyed_define trivial v)
  | build d => exact .leaf (Law.obeyed_discard (Law.obeyed_build d))
  | newListener listener =>
    have hstored : concluding.Obeyed (Eval.modifyStore fun s =>
        { s with listeners := s.listeners.push listener }) := fun _ => ⟨rfl, rfl⟩
    have hmade : concluding.Obeyed (Session.newListener listener) :=
      Law.obeyed_bind (Law.obeyed_read _) fun _ =>
        Law.obeyed_bind hstored fun _ => Law.obeyed_pure _
    exact .leaf (Law.obeyed_discard hmade)
  | subscribe event listener => exact .modify fun _ => ⟨rfl, rfl⟩
  | unsubscribe event listener => exact .modify (sameCeilings_unsubscribe event listener)

/-- Whatever a host asks of a session, the run counts the calls that it lies inside of. -/
theorem Request.via_counted {w : World} (hw : Reached w) (r : Request) (astray : Runner) :
    r.via (boundedWithin astray runBound 0) w = r.act w ∧
      LeavesIn (fun v => v.callDepth = 0) (r.act w) := by
  have hrest : Stands w.settings 0 w := ⟨rfl, hw.atRest.1⟩
  obtain ⟨hsame, hleaves⟩ := (asks_via r).agree
    (fun t _ => agree_boundedWithin astray runBound (Nat.zero_le _) t) w hrest
  have hact : r.via (bounded runBound) = r.act := r.via_run
  rw [hact] at hsame hleaves
  exact ⟨hsame, hleaves.imp fun _ h => h.callDepth⟩

end

end EventScript
