import EventScript.Proofs.Delivery
import EventScript.Proofs.Reload.Restore

/-! # Announcing a reload

A reload ends by telling everyone about it.  Where nobody listens to that, the announcement is
dispatched without a trace in the objects that a program can see.

* `reload_of_compiled`     a reload of a known file is an exchange and an announcement
* `replace_eq_ok`          the parts of one that succeeds
* `announce_unheard`       what an announcement changes when nobody listens
-/

namespace EventScript

open Evaluate

/-! ## Reloading a known file -/

/-- A source that does not compile changes nothing. -/
theorem reload_of_refused (run : Runner) {source file : String} {w : World} {d : Diagnostic}
    (hknown : w.sources.contains file = true)
    (hcompile : Program.compile source (some file) = .error d) :
    reload run source file w = .error (.diagnostic d) w := by
  have hcompiled : compiled source (some file) w = .error (.diagnostic d) w := by
    simp [compiled, hcompile]
  rw [reload, Eval.run_get_bind, if_pos hknown]
  exact Eval.run_bind_of_error hcompiled

theorem reload_of_compiled (run : Runner) {source file : String} {w : World} {program : Program}
    (hknown : w.sources.contains file = true)
    (hcompile : Program.compile source (some file) = .ok program) :
    reload run source file w = replace run program file (withSource file source w) := by
  have hcompiled : compiled source (some file) w = .ok program w := by
    simp [compiled, hcompile]
  rw [reload, Eval.run_get_bind, if_pos hknown, Eval.run_bind_of_ok hcompiled,
    Eval.run_modify_bind]

/-- A program that fails leaves its file withdrawn. -/
theorem replace_of_failed (run : Runner) {program : Program} {file : String} {w v : World}
    {e : Failure} (hexecute : execute run program (some file) (withdrawn file w) = .error e v) :
    replace run program file w = .error e v := by
  obtain ⟨kept, hwithdraw, -⟩ := withdraw_eq file w
  have hexchange : exchange run program file w = .error e v := by
    rw [exchange, Eval.run_bind_of_ok hwithdraw, Eval.run_bind_of_error hexecute]
  rw [replace, Eval.run_bind_of_error hexchange]

/-- The parts of a reload that succeeds. -/
theorem replace_eq_ok (run : Runner) {program : Program} {file : String} {w u : World}
    (hok : replace run program file w = .ok () u) :
    ∃ v t, execute run program (some file) (withdrawn file w) = .ok () v ∧
      exchange run program file w = .ok () t ∧ announce run file t = .ok () u := by
  obtain ⟨_, t, hexchanged, hannounced⟩ := Eval.bind_eq_ok hok
  obtain ⟨v, _, hexecute, -⟩ := exchange_eq_ok run hexchanged
  exact ⟨v, t, hexecute, hexchanged, hannounced⟩

/-- Nothing waits when a reload of a host is announced. -/
theorem Reached.idle_exchanged {source file : String} {program : Program} {w t : World}
    (hw : Reached w)
    (hexchanged : exchange Evaluate.run program file (withSource file source w) = .ok () t) :
    Idle t := by
  obtain ⟨hreg, hidle⟩ := hw.idle
  have hdone := (Law.obeyed_exchange runs_delivery (fun _ _ => trivial) _).of_ok hexchanged
  exact ((hdone ⟨hreg.inOrder, hreg.past⟩).2 ⟨hidle.queue, hidle.processing⟩).idle

/-! ## An announcement that nobody hears -/

/-- Nobody listens to reloads. -/
structure Unheard (w : World) : Prop where
  handlers : w.handlers.getD reloadEvent [] = []
  listeners : w.listeners.getD reloadEvent [] = []
  wildcard : w.listeners.getD wildcard [] = []

instance (w : World) : Decidable (Unheard w) :=
  decidable_of_iff ((w.handlers.getD reloadEvent []).isEmpty ∧
      (w.listeners.getD reloadEvent []).isEmpty ∧ (w.listeners.getD wildcard []).isEmpty)
    ⟨fun ⟨h, h', h''⟩ =>
      ⟨List.isEmpty_iff.mp h, List.isEmpty_iff.mp h', List.isEmpty_iff.mp h''⟩,
    fun h => ⟨List.isEmpty_iff.mpr h.handlers, List.isEmpty_iff.mpr h.listeners,
      List.isEmpty_iff.mpr h.wildcard⟩⟩

/-- The dispatch of an event without an audience. -/
theorem dispatch_unheard (run : Runner) (e : QueuedEvent) {w : World}
    (hhandlers : w.handlers.getD e.name [] = []) (hlisteners : w.listeners.getD e.name [] = [])
    (hwildcard : w.listeners.getD wildcard [] = []) :
    dispatch run e w = .ok () ((w.record (.begun e w.handlers)).record (.ended e)) := by
  have hdeliver : deliver run e [] (w.record (.begun e w.handlers)) =
      .ok () (w.record (.begun e w.handlers)) := by
    simp [deliver, listenersFor, tellAll, tellEach, handleAll, World.record, hlisteners, hwildcard]
  rw [dispatch_eq, hhandlers, Eval.run_bind_of_ok hdeliver]
  rfl

/-- A queue with one event without an audience is dispatched, unless there are no steps left. -/
theorem drain_unheard {bound : Nat} {e : QueuedEvent} {w u : World} (hqueue : w.queue = [e])
    (hhandlers : w.handlers.getD e.name [] = []) (hlisteners : w.listeners.getD e.name [] = [])
    (hwildcard : w.listeners.getD wildcard [] = []) (hok : bounded bound .drain w = .ok () u) :
    u.store = w.store := by
  cases bound with
  | zero => cases hok
  | succ bound =>
    change drain (bounded bound) w = .ok () u at hok
    rw [drain_of_cons hqueue] at hok
    have hfirst := dispatch_unheard (bounded bound) e (w := { w with queue := [] }) hhandlers
      hlisteners hwildcard
    rw [Eval.run_bind_of_ok hfirst] at hok
    cases bound with
    | zero => cases hok
    | succ bound =>
      change drain (bounded bound) _ = .ok () u at hok
      rw [drain_of_nil rfl] at hok
      cases hok
      rfl

/-- Where nobody listens, an announcement that ends well leaves behind nothing but the map with the
    name of the file. -/
theorem announce_unheard {bound : Nat} {file : String} {w u : World} (hidle : Idle w)
    (hunheard : Unheard w) (hok : announce (bounded bound) file w = .ok () u) :
    ∃ data, u.store = { w.store with maps := w.store.maps.push data } := by
  let data : Table Key Value := Table.empty.put (.text "filename") (.text file)
  let told : World := { w with store := { w.store with maps := w.store.maps.push data } }
  let waiting : World :=
    { enqueue ⟨reloadEvent, w.store.maps.next⟩ told with processing := true }
  have hemit := @Law.emit_of_not_processing (bounded bound) reloadEvent w.store.maps.next told
    hidle.processing
  have hok' := hemit.symm.trans hok
  refine ⟨data, ?_⟩
  cases hd : bounded bound .drain waiting with
  | error e v => rw [hd] at hok'; cases hok'
  | ok a v =>
    rw [hd] at hok'
    cases hok'
    have hqueue : waiting.queue = [⟨reloadEvent, w.store.maps.next⟩] := by
      simp [waiting, enqueue, told, hidle.queue]
    exact drain_unheard (w := waiting) (u := v) hqueue hunheard.handlers hunheard.listeners
      hunheard.wildcard hd

end EventScript
