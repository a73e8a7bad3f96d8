import EventScript.Proofs.Reached

/-! # Laws that are not about events

A law that takes no notice of the queue and of what is recorded about events is obeyed by the
dispatch of events like by everything else, and so by every run.

* `Indifferent`        such a law
* `Indifferent.runs`   runs obey it
-/

namespace EventScript

open Evaluate

namespace Law

/-- The law is not about events: what is recorded and what waits is of no matter to it, and a
    dispatch of the queue is a computation like any other. -/
structure Indifferent (L : Law) : Prop where
  recorded : ∀ happening w, L.done w (w.record happening)
  taken : ∀ (rest : List QueuedEvent) (w : World), L.done w { w with queue := rest }
  spent : ∀ w, L.failed .outOfFuel w w
  drained_iff : ∀ {v w}, L.drained v w ↔ L.done v w
  cut_iff : ∀ {e v w}, L.cut e v w ↔ L.failed e v w

namespace Indifferent

variable {L : Law} (hL : L.Indifferent)

include hL

theorem obeyed_record (happening : Happening) : L.Obeyed (Eval.record happening) :=
  fun w => hL.recorded happening w

theorem obeyed_take (rest : List QueuedEvent) :
    L.Obeyed (modify fun w : World => { w with queue := rest }) := fun w => hL.taken rest w

/-- A dispatch of the queue is related by the law exactly if it obeys the law. -/
theorem relates_iff {act : Eval Unit} : Relates L.drained L.cut act ↔ L.Obeyed act := by
  refine forall_congr' fun w => ?_
  cases act w with
  | ok _ v => exact hL.drained_iff
  | error e v => exact hL.cut_iff

section Runner

variable {run : Runner} (hrun : L.Runs run)

include hrun

theorem obeyed_handle (data : MapRef) {h : Handler} (hh : h.CodeIn L.code) :
    L.Obeyed (handle run data h) := by
  refine obeyed_bind (obeyed_guardHolds hrun hh data) fun holds => ?_
  refine obeyed_bind (hL.obeyed_record _) fun _ => ?_
  split
  · exact obeyed_bind (hL.obeyed_record _) fun _ => obeyed_handlerBody hrun hh data
  · exact obeyed_pure _

theorem obeyed_handleAll (data : MapRef) {hs : List Handler} (hhs : ∀ h ∈ hs, h.CodeIn L.code) :
    L.Obeyed (handleAll run data hs) := by
  induction hs with
  | nil => exact obeyed_pure _
  | cons h rest ih =>
    obtain ⟨hh, hrest⟩ := List.forall_mem_cons.mp hhs
    exact obeyed_bind (hL.obeyed_handle hrun data hh) fun _ => ih hrest

theorem obeyed_dispatch (e : QueuedEvent) : L.Obeyed (dispatch run e) := by
  have hdeliver : ∀ {hs : List Handler}, (∀ h ∈ hs, h.CodeIn L.code) →
      L.Obeyed (deliver run e hs) := fun hhs =>
    obeyed_bind (obeyed_listenersFor _) fun _ =>
      obeyed_bind (obeyed_tellAll hrun _ _) fun _ =>
        obeyed_bind (obeyed_listenersFor _) fun _ =>
          obeyed_bind (obeyed_tellEach hrun _ _ _) fun _ => hL.obeyed_handleAll hrun _ hhs
  refine obeyed_of_code fun w hw => ?_
  exact obeyed_bind (hL.obeyed_record (.begun e w.handlers)) (fun _ =>
    obeyed_bind (hdeliver (hw.handler e.name)) fun _ => hL.obeyed_record _) w

theorem obeyed_drain : L.Obeyed (drain run) := by
  refine obeyed_bind obeyed_get fun w => ?_
  split
  · exact obeyed_pure _
  · exact obeyed_bind (hL.obeyed_take _) fun _ =>
      obeyed_bind (hL.obeyed_dispatch hrun _) fun _ => hL.relates_iff.mp hrun.drain

end Runner

/-- Runs obey every law that is not about events, whatever their bound is. -/
theorem runs_bounded (bound : Nat) : L.Runs (bounded bound) :=
  Law.runs_bounded ⟨hL.spent, fun w => hL.cut_iff.mpr (hL.spent w)⟩
    (fun _ hrun => hL.relates_iff.mpr (hL.obeyed_drain hrun)) bound

theorem runs : L.Runs Evaluate.run := hL.runs_bounded runBound

end Indifferent

end Law

end EventScript
