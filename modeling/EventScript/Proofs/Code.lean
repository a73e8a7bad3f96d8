import EventScript.Proofs.Node
import EventScript.Session

/-! # The code that a world keeps

Functions, schemas and handlers carry parts of the programs that they were written in.
`World.CodeIn` says of what kind all this code is.  It is brought into a world by three changes
only: making a function, making a schema, and registering a handler.

* `getD_dropHandlers`                     what is left of a registry without the handlers of a file
* `CodeIn.functionMade`, `CodeIn.schemaMade`, `CodeIn.withHandler`   the three changes
* `CodeIn.dropHandlers`                   dropping handlers brings no code
-/

namespace EventScript

open Evaluate

/-! ## Registries without some of their handlers -/

/-- Handlers that are taken out one after the other, by their serial numbers, are those that are
    missing behind it. -/
theorem getD_takenOut (dropped : List Handler) (t : Table String (List Handler)) (name : String) :
    (dropped.foldl
        (fun t h => t.put h.event ((t.getD h.event []).filter (·.serial != h.serial))) t).getD
      name [] =
      (t.getD name []).filter fun h => ∀ d ∈ dropped, d.event = name → h.serial ≠ d.serial := by
  induction dropped generalizing t with
  | nil => exact (List.filter_eq_self.mpr (by simp)).symm
  | cons d rest ih =>
    rw [List.foldl_cons, ih]
    by_cases hname : d.event = name
    · subst hname
      rw [Table.getD_put_self, List.filter_filter]
      refine List.filter_congr fun h _ => ?_
      rw [Bool.eq_iff_iff]
      simp [and_comm]
    · rw [Table.getD_put_of_ne _ _ _ (Ne.symm hname)]
      refine List.filter_congr fun h _ => ?_
      simp [hname]

/-- Dropping the handlers of a file takes those out of the registry that are recorded for it. -/
theorem getD_dropHandlers (file : String) (w : World) (name : String) :
    (dropHandlers file w).handlers.getD name [] =
      (w.handlers.getD name []).filter fun h =>
        ∀ d ∈ w.handlersByFile.getD file [], d.event = name → h.serial ≠ d.serial :=
  getD_takenOut (w.handlersByFile.getD file []) w.handlers name

/-- Dropping the handlers of a file takes handlers out of the registry. -/
theorem dropHandlers_sublist (file : String) (w : World) (name : String) :
    ((dropHandlers file w).handlers.getD name []).Sublist (w.handlers.getD name []) := by
  rw [getD_dropHandlers]
  exact List.filter_sublist

/-! ## Kinds of code -/

variable {C : Node → Prop}

/-- The code of a function is of some kind. -/
structure Closure.CodeIn (C : Node → Prop) (f : Closure) : Prop where
  params : ∀ p ∈ f.params, C (.param p)
  body : C (.body f.body)

@[grind ←]
theorem Closure.codeIn_mk {params : List Param} {body : Body} (hparams : ∀ p ∈ params, C (.param p))
    (hbody : C (.body body)) (scope : ScopeRef) (name : Option String) :
    Closure.CodeIn C ⟨params, body, scope, name⟩ := ⟨hparams, hbody⟩

/-- The code of a handler is of some kind. -/
structure Handler.CodeIn (C : Node → Prop) (h : Handler) : Prop where
  condition : ∀ e ∈ h.condition, C (.expr e)
  body : C (.body (.block h.body))

theorem Handler.CodeIn.of_forall (hC : ∀ x, C x) (h : Handler) : h.CodeIn C :=
  ⟨fun _ _ => hC _, hC _⟩

/-- All code that a world keeps is of some kind. -/
structure World.CodeIn (C : Node → Prop) (w : World) : Prop where
  function : ∀ r, (w.store.function r).CodeIn C
  field : ∀ r, ∀ f ∈ (w.store.schema r).fields, C (.field f)
  /-- This is about the handlers that are registered now. -/
  handler : ∀ event, ∀ h ∈ w.handlers.getD event [], h.CodeIn C
  /-- This is about all handlers that ever were. -/
  registered : ∀ h, .registered h ∈ w.ledger → h.CodeIn C

namespace World.CodeIn

/-- Worlds that keep the same functions, schemas and handlers keep code of the same kind. -/
theorem congr {v w : World} (hv : v.CodeIn C) (hfunctions : w.store.functions = v.store.functions)
    (hschemas : w.store.schemas = v.store.schemas) (hhandlers : w.handlers = v.handlers)
    (hledger : w.ledger = v.ledger) : w.CodeIn C where
  function r := by
    unfold Store.function
    rw [hfunctions]
    exact hv.function r
  field r := by
    unfold Store.schema
    rw [hschemas]
    exact hv.field r
  handler := by
    rw [hhandlers]
    exact hv.handler
  registered := by
    rw [hledger]
    exact hv.registered

theorem of_forall (hC : ∀ x, C x) (w : World) : w.CodeIn C where
  function _ := ⟨fun _ _ => hC _, hC _⟩
  field _ _ _ := hC _
  handler _ h _ := .of_forall hC h
  registered h _ := .of_forall hC h

/-- A function that no world has is an empty one, and this is all the code that a fresh world
    keeps. -/
theorem bareWorld (h : C (.body (.block ⟨default, []⟩))) (settings : Settings)
    (hostFunctions : List (String × HostFunction)) :
    (Session.bareWorld settings hostFunctions).CodeIn C where
  function _ := ⟨nofun, h⟩
  field _ := nofun
  handler _ := nofun
  registered _ := nofun

variable {w : World} (hw : w.CodeIn C)

include hw

theorem functionMade {f : Closure} (hf : f.CodeIn C) :
    World.CodeIn C { w with store :=
      { w.store with functions := w.store.functions.push f } } :=
  ⟨Heap.forall_push hw.function hf, hw.field, hw.handler, hw.registered⟩

theorem schemaMade {schema : Schema} (hfields : ∀ f ∈ schema.fields, C (.field f)) :
    World.CodeIn C { w with store :=
      { w.store with schemas := w.store.schemas.push schema } } :=
  ⟨hw.function,
    Heap.forall_push (P := fun s : Schema => ∀ f ∈ s.fields, C (.field f)) hw.field hfields,
    hw.handler, hw.registered⟩

theorem withHandler (event : String) {condition : Option Expr} {body : Block}
    (hcondition : ∀ e ∈ condition, C (.expr e)) (hbody : C (.body (.block body)))
    (scope : ScopeRef) : World.CodeIn C (withHandler event condition body scope w) := by
  refine ⟨hw.function, hw.field, fun name h hh => ?_, fun h hh => ?_⟩
  · -- a new handler goes behind those of its event
    have hnew := Table.getD_pushTo w.handlers event name
      ⟨w.nextSerial, event, condition, body, scope, w.currentFile⟩
    replace hh := hnew ▸ hh
    split at hh
    · rcases List.mem_append.mp hh with hh | hh
      · exact hw.handler name h hh
      · rw [List.mem_singleton.mp hh]
        exact ⟨hcondition, hbody⟩
    · exact hw.handler name h hh
  · rcases List.mem_cons.mp hh with hh | hh
    · cases hh
      exact ⟨hcondition, hbody⟩
    · exact hw.registered h hh

theorem dropHandlers (file : String) : World.CodeIn C (dropHandlers file w) := by
  refine ⟨hw.function, hw.field, fun name h hh => ?_, fun h hh => ?_⟩
  · exact hw.handler name h ((dropHandlers_sublist file w name).subset hh)
  · rcases List.mem_cons.mp hh with hh | hh
    · cases hh
    · exact hw.registered h hh

theorem withInstance (scope : ScopeRef) (name : String) (r : InstanceRef) :
    World.CodeIn C (withInstance scope name r w) := by
  unfold Evaluate.withInstance
  split <;> exact ⟨hw.function, hw.field, hw.handler, hw.registered⟩

theorem recordImports (program : Program) (file : Option String) :
    World.CodeIn C (recordImports program file w) := by
  unfold Evaluate.recordImports
  split <;> exact ⟨hw.function, hw.field, hw.handler, hw.registered⟩

theorem unsubscribe (event : String) (r : ListenerRef) :
    World.CodeIn C (unsubscribe event r w) := by
  unfold Evaluate.unsubscribe
  split <;> exact ⟨hw.function, hw.field, hw.handler, hw.registered⟩

end World.CodeIn

end EventScript
