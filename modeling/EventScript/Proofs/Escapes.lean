import EventScript.Proofs.Hostless.Execution

/-! # Faults that leave a session

A session that reads no files, and whose host has no functions and listens to nothing, is told off
with a diagnostic for whatever goes wrong in it, but for six faults.

* `hostless_serve`         nothing of a host comes into such a session
* `Session.letsOut_iff`    the faults that leave it
-/

namespace EventScript

open Evaluate Fault

/-- The request is not about files and listeners. -/
def Request.IsHostless : Request → Prop
  | loadFile _ _ | reloadFile _ _ | newListener _ | subscribe _ _ => False
  | _ => True

/-- A session without functions of a host breaks off with a fault, behind some requests that are not
    about files and listeners and in another one. -/
def Session.LetsOut (f : Fault) : Prop :=
  ∃ settings rs r, (∀ q ∈ r :: rs, q.IsHostless) ∧
    (Session.perform r.act (Session.serve (Session.start settings []) rs)).1 = .error (.fault f)

/-! ## Requests -/

theorem raises_loadAll (sources : List (String × String)) :
    Raises Escapes (Session.loadAll sources) := by
  induction sources with
  | nil => exact raises_pure _
  | cons entry rest ih => exact raises_bind (raises_load tame_run _ _) fun _ => ih

theorem raises_sessionCall (f : Value) (args : List Value) :
    Raises Escapes (Session.call f args) := by
  unfold Session.call
  split
  · exact tame_run.call _ args none
  · exact raises_bind (raises_read _) fun name => raises_callNative tame_run _ args name none
  · exact raises_problem _ _

theorem hostless_unsubscribe {w : World} (hw : w.Hostless) (event : String)
    (listener : ListenerRef) : (unsubscribe event listener w).Hostless := by
  have hnone : w.listeners.get? event = none := by rw [hw.listeners]; rfl
  unfold unsubscribe
  rw [hnone]
  exact hw

/-- A request that is not about files and listeners breaks off with the faults that pass through a
    program. -/
theorem raises_act {r : Request} (hr : r.IsHostless) : Raises Escapes r.act := by
  cases r with
  | execute program file => exact raises_execute tame_run program file
  | load source file => exact raises_load tame_run source file
  | loadAll sources => exact raises_loadAll sources
  | reload source file => exact raises_reload tame_run source file
  | loadFile files path => exact hr.elim
  | reloadFile files path => exact hr.elim
  | emit event data => exact raises_emitValues tame_run event data
  | tick dt => exact raises_bind (raises_newMap _) fun data => raises_emit tame_run _ data
  | call f args => exact raises_map _ (raises_sessionCall f args)
  | set name v => exact raises_define globalScope name v
  | build d => exact raises_map _ (raises_build d)
  | newListener listener => exact hr.elim
  | subscribe event listener => exact hr.elim
  | unsubscribe event listener =>
    exact raises_modify fun _ hw => hostless_unsubscribe hw event listener

/-! ## Sessions -/

section Sessions

variable {α : Type} {F : Fault → Prop} {act : Eval α} {w : World}

theorem Raises.hostless_perform (h : Raises F act) (hw : w.Hostless) :
    (Session.perform act w).2.Hostless := by
  have hbehind := h w hw
  unfold Session.perform
  cases ha : act w with
  | ok a v =>
    rw [ha] at hbehind
    exact hbehind
  | error e v =>
    rw [ha] at hbehind
    exact hbehind.1

theorem Raises.fault_perform (h : Raises F act) (hw : w.Hostless) {f : Fault}
    (hf : (Session.perform act w).1 = .error (.fault f)) : F f := by
  have hbehind := h w hw
  unfold Session.perform at hf
  cases ha : act w with
  | ok a v =>
    rw [ha] at hf
    cases hf
  | error e v =>
    rw [ha] at hf hbehind
    cases hf
    exact hbehind.2 f rfl

end Sessions

theorem raises_bindGlobals : Raises OfNative Library.bindGlobals :=
  raises_bind (tame_run.raises_work work_namespaces) fun _ =>
    raises_bind (raises_newScope _ _) fun _ => raises_pure _

theorem hostless_start (settings : Settings) : (Session.start settings []).Hostless :=
  raises_bindGlobals.hostless_perform
    ⟨rfl, rfl, fun r => by
      -- no native was made so far
      have hnone : ¬ Store.empty.natives.Holds r := by simp [Store.empty, Heap.Holds, Heap.empty]
      rw [Session.bareWorld, Store.native, Heap.get_of_not_holds _ hnone]
      exact fun _ => rfl⟩

theorem hostless_serve {w : World} (hw : w.Hostless) {rs : List Request}
    (hrs : ∀ r ∈ rs, r.IsHostless) : (Session.serve w rs).Hostless := by
  induction rs generalizing w with
  | nil => exact hw
  | cons r rest ih =>
    obtain ⟨hr, hrest⟩ := List.forall_mem_cons.mp hrs
    exact ih ((raises_act hr).hostless_perform hw) hrest

/-- The fault that a request breaks off with. -/
def Session.fault? : Except Failure Unit → Option Fault
  | .error (.fault f) => some f
  | _ => none

theorem Session.eq_error_of_fault? {outcome : Except Failure Unit} {f : Fault}
    (h : fault? outcome = some f) : outcome = .error (.fault f) := by
  unfold fault? at h
  split at h <;> cases h
  rfl

/-- A source that breaks off with a fault lets it out. -/
theorem Session.letsOut_of_load (source : String) {f : Fault}
    (h : fault? (perform (load source "main") (start {} [])).1 = some f) : LetsOut f :=
  ⟨{}, [], .load source "main", by simp [Request.IsHostless], eq_error_of_fault? h⟩

/-- Six faults leave a session without a host, and no others. -/
theorem Session.letsOut_iff (f : Fault) : Session.LetsOut f ↔ f.Escapes := by
  constructor
  · rintro ⟨settings, rs, r, hrs, hf⟩
    obtain ⟨hr, hrest⟩ := List.forall_mem_cons.mp hrs
    exact (raises_act hr).fault_perform (hostless_serve (hostless_start settings) hrest) hf
  · intro hf
    cases hf with
    | noMember => exact letsOut_of_load "string.toUpperCase(5)" (by decide +kernel)
    | noEntry => exact letsOut_of_load "list.first({a: 1})" (by decide +kernel)
    | changedMeanwhile =>
      exact letsOut_of_load "let m = {a: 1}\nfn f(x):\n  set m.b: 2\nlist.map(m, f)"
        (by decide +kernel)
    | outOfMemory => exact letsOut_of_load "list.repeat(0, 4294967296)" (by decide +kernel)
    | overflow =>
      exact letsOut_of_load
        "let a = 10000000000\nlet b = a * a * a * a * a * a\nb * b * b * b * b * b / 1"
        (by decide +kernel)
    | wrongValue => exact letsOut_of_load "math.INFINITY % 2" (by decide +kernel)

end EventScript
