import EventScript.Proofs.Delivery
import EventScript.Proofs.Law.Dispatch

/-! # Quiescence

Calls of functions and executions of files lie inside of each other, and each puts back behind it
what it found: the number of calls in progress and the file in execution.  Together with the law of
delivery this leaves nothing in progress between two requests, whether those before succeeded or
failed, and wherever in the middle they did.

* `framed`              the law of what is put back
* `Reached.quiescent`   nothing is in progress between requests
-/

namespace EventScript

open Evaluate

/-- As many calls are in progress, and the same file is being executed. -/
structure SameFrame (v w : World) : Prop where
  callDepth : w.callDepth = v.callDepth
  currentFile : w.currentFile = v.currentFile

theorem SameFrame.refl (w : World) : SameFrame w w := ⟨rfl, rfl⟩

theorem SameFrame.trans {u v w : World} (huv : SameFrame u v) (hvw : SameFrame v w) :
    SameFrame u w :=
  ⟨hvw.callDepth.trans huv.callDepth, hvw.currentFile.trans huv.currentFile⟩

/-- The file in execution is put back, whatever it was meanwhile. -/
theorem SameFrame.executing {v w : World} {file : Option String}
    (h : SameFrame { v with currentFile := file } w) :
    SameFrame v { w with currentFile := v.currentFile } := ⟨h.callDepth, rfl⟩

/-- A call that ends is no longer in progress. -/
theorem SameFrame.calling {v w : World} (h : SameFrame { v with callDepth := v.callDepth + 1 } w) :
    SameFrame v { w with callDepth := w.callDepth - 1 } := by
  refine ⟨?_, h.currentFile⟩
  have hdepth : w.callDepth = v.callDepth + 1 := h.callDepth
  simp [hdepth]

/-- The law of what is put back: it is the same behind a computation that fails. -/
def framed : Law where
  done := SameFrame
  failed _ := SameFrame
  drained := SameFrame
  cut _ := SameFrame
  refl := .refl
  trans := .trans
  failed_of_done _ h := h
  trans_failed := .trans
  reported h := h
  change h _ _ := ⟨h.sameMoment.callDepth, h.sameMoment.currentFile⟩
  executing := .executing
  executing_failed := .executing
  calling := .calling
  calling_failed := .calling
  waiting _ _ := ⟨rfl, rfl⟩
  processed _ _ h := ⟨h.callDepth, h.currentFile⟩
  processed_failed _ _ h := ⟨h.callDepth, h.currentFile⟩

instance : framed.Open := ⟨fun _ => trivial⟩

/-- The frame is of no matter to events. -/
theorem indifferent_framed : framed.Indifferent where
  recorded _ _ := ⟨rfl, rfl⟩
  taken _ _ := ⟨rfl, rfl⟩
  spent := .refl
  drained_iff := Iff.rfl
  cut_iff := Iff.rfl

/-- No call is in progress between two requests, and no file is being executed. -/
theorem Reached.atRest {w : World} (hw : Reached w) : w.callDepth = 0 ∧ w.currentFile = none := by
  have hkept : ∀ {v w}, SameFrame v w → v.callDepth = 0 ∧ v.currentFile = none →
      w.callDepth = 0 ∧ w.currentFile = none :=
    fun h hv => ⟨h.callDepth.trans hv.1, h.currentFile.trans hv.2⟩
  exact Reached.of_law (P := fun w => w.callDepth = 0 ∧ w.currentFile = none)
    indifferent_framed.runs (fun _ _ => ⟨rfl, rfl⟩) hkept hkept hw

/-- Quiescence.  Whatever a host asks of a fresh session, and whether its requests succeed or fail,
    after each of them no event waits and none is dispatched, no call is in progress, and no file is
    being executed. -/
theorem Reached.quiescent {w : World} (hw : Reached w) :
    w.queue = [] ∧ w.processing = false ∧ w.callDepth = 0 ∧ w.currentFile = none := by
  obtain ⟨-, hidle⟩ := hw.idle
  obtain ⟨hdepth, hfile⟩ := hw.atRest
  exact ⟨hidle.queue, hidle.processing, hdepth, hfile⟩

/-- A file with a handler that emits an event, calls a function, and fails in the call. -/
def stumblingSource : String :=
  "fn stumble():\n  let x = missing\non \"walk\":\n  emit \"rest\"\n  stumble()\n"

/-- A session in which a file is loaded whose top level fails in a call in a dispatch. -/
def stumbled : World :=
  Session.serve (Session.start {} []) [.load (stumblingSource ++ "emit \"walk\"\n") "walk"]

/-- The request fails with an event waiting, in a dispatch, in a call, in a file: nothing of that is
    left. -/
theorem quiescent_stumbled :
    (Session.perform (Session.load (stumblingSource ++ "emit \"walk\"\n") "walk")
      (Session.start {} [])).1.isOk = false ∧
    Reached stumbled ∧
    stumbled.queue = [] ∧ stumbled.processing = false ∧ stumbled.callDepth = 0 ∧
      stumbled.currentFile = none := by
  have hreached : Reached stumbled := (Reached.start {} []).serve _
  refine ⟨by decide +kernel, hreached, ?_⟩
  exact hreached.quiescent

end EventScript
