import EventScript.Proofs.Law.Dispatch

/-! # Steady preorders

A preorder on worlds that no single change leaves, and that does not look at the bookkeeping of a
run, relates the world before every run to the world behind it.

* `steady`                 the law of such a preorder
* `runs_steady`            runs obey it
* `Leads`, `Arises`        the worlds that a run goes through
* `steady_known`           files that are known stay known
* `Reached.schemasHeld`    schemas that are registered were made
-/

namespace EventScript

open Evaluate

/-- Two worlds differ at most in the bookkeeping of a run: the file in execution, the calls in
    progress, and the events. -/
def SameContent (v w : World) : Prop :=
  w = { v with
    currentFile := w.currentFile, callDepth := w.callDepth, queue := w.queue,
    processing := w.processing, history := w.history }

/-- A preorder on worlds that every single change goes along with, and all bookkeeping. -/
structure Steady (R : World → World → Prop) : Prop where
  same : ∀ {v w}, SameContent v w → R v w
  trans : ∀ {u v w}, R u v → R v w → R u w
  change : ∀ {v w}, Change v w → R v w

namespace Steady

variable {R : World → World → Prop} (hR : Steady R)

include hR

/-- What holds between two worlds holds between others with the same content. -/
theorem congr {v v' w w' : World} (h : R v' w') (hv : SameContent v v') (hw : SameContent w' w) :
    R v w := hR.trans (hR.same hv) (hR.trans h (hR.same hw))

end Steady

namespace Law

/-- The law of a steady preorder. -/
def steady {R : World → World → Prop} (hR : Steady R) : Law where
  done := R
  failed _ := R
  drained := R
  cut _ := R
  refl _ := hR.same rfl
  trans := hR.trans
  failed_of_done _ h := h
  trans_failed := hR.trans
  reported h := h
  change h _ _ := hR.change h
  executing h := hR.congr h rfl rfl
  executing_failed h := hR.congr h rfl rfl
  calling h := hR.congr h rfl rfl
  calling_failed h := hR.congr h rfl rfl
  waiting _ _ := hR.same rfl
  processed _ _ h := hR.congr h rfl rfl
  processed_failed _ _ h := hR.congr h rfl rfl

instance {R : World → World → Prop} (hR : Steady R) : (steady hR).Open := ⟨fun _ => trivial⟩

theorem indifferent_steady {R : World → World → Prop} (hR : Steady R) :
    (steady hR).Indifferent where
  recorded _ _ := hR.same rfl
  taken _ _ := hR.same rfl
  spent _ := hR.same rfl
  drained_iff := Iff.rfl
  cut_iff := Iff.rfl

/-- Runs obey the law of every steady preorder, whatever their bound is. -/
theorem bounded_steady {R : World → World → Prop} (hR : Steady R) (bound : Nat) :
    (steady hR).Runs (bounded bound) := (indifferent_steady hR).runs_bounded bound

theorem runs_steady {R : World → World → Prop} (hR : Steady R) :
    (steady hR).Runs Evaluate.run := (indifferent_steady hR).runs

end Law

/-! ## Worlds on the way -/

/-- One world comes out of another by single changes and bookkeeping: this is the least steady
    preorder, so it relates any two worlds that a run goes through. -/
inductive Leads : World → World → Prop
  | same {v w : World} (h : SameContent v w) : Leads v w
  | changed {v w : World} (h : Change v w) : Leads v w
  | trans {u v w : World} (huv : Leads u v) (hvw : Leads v w) : Leads u w

theorem steady_leads : Steady Leads where
  same := .same
  trans := .trans
  change := .changed

/-- Every steady preorder holds where one world leads to another. -/
theorem Leads.of_steady {R : World → World → Prop} (hR : Steady R) {v w : World}
    (h : Leads v w) : R v w := by
  induction h with
  | same h => exact hR.same h
  | changed h => exact hR.change h
  | trans _ _ huv hvw => exact hR.trans huv hvw

/-- The worlds that come up in a session, between two requests and in the middle of them. -/
def Arises (w : World) : Prop :=
  ∃ settings hostFunctions, Leads (Session.bareWorld settings hostFunctions) w

theorem Arises.leads {v w : World} (hv : Arises v) (h : Leads v w) : Arises w := by
  obtain ⟨settings, hostFunctions, hbare⟩ := hv
  exact ⟨settings, hostFunctions, hbare.trans h⟩

theorem Leads.perform {α : Type} {act : Eval α} (hact : (Law.steady steady_leads).Obeyed act)
    (w : World) : Leads w (Session.perform act w).2 := by
  have h := hact w
  unfold Session.perform
  cases ha : act w with
  | ok a v => rwa [ha] at h
  | error e v => rwa [ha] at h

/-- A session goes on from the world in which its requests are made. -/
theorem Leads.serve (w : World) (rs : List Request) : Leads w (Session.serve w rs) := by
  induction rs generalizing w with
  | nil => exact .same rfl
  | cons r rest ih =>
    exact .trans (.perform (Law.obeyed_act (Law.runs_steady steady_leads) r) w) (ih _)

theorem Reached.arises {w : World} (hw : Reached w) : Arises w :=
  hw.of_law (P := Arises) (Law.runs_steady steady_leads)
    (fun settings hostFunctions => ⟨settings, hostFunctions, .same rfl⟩)
    (fun h hv => hv.leads h) (fun h hv => hv.leads h)

/-- What a steady preorder carries over from the beginning holds of every world that comes up. -/
theorem Arises.of_steady {P : World → Prop} (hP : Steady fun v w => P v → P w)
    (hbare : ∀ settings hostFunctions, P (Session.bareWorld settings hostFunctions)) {w : World}
    (hw : Arises w) : P w := by
  obtain ⟨settings, hostFunctions, hleads⟩ := hw
  exact hleads.of_steady hP (hbare settings hostFunctions)

/-! ## Registers that stay -/

/-- Files that are known stay known. -/
theorem steady_known : Steady fun v w : World =>
    ∀ file, v.sources.contains file = true → w.sources.contains file = true where
  same h file hv := by rw [h]; exact hv
  trans huv hvw file hu := hvw file (huv file hu)
  change h file hv := by
    cases h with
    | sourceKept name source =>
      by_cases hname : file = name
      · subst hname
        simp [withSource, Table.contains]
      · simpa [withSource, Table.contains, Table.get?_put_of_ne _ _ hname] using hv
    | instanceDeclared scope name r =>
      unfold withInstance
      split <;> exact hv
    | importsRecorded program file =>
      unfold recordImports
      split <;> exact hv
    | unsubscribed event r =>
      unfold unsubscribe
      split <;> exact hv
    | _ => exact hv

/-- Every schema that is registered was made. -/
def World.SchemasHeld (w : World) : Prop :=
  ∀ name r, w.schemas.get? name = some r → w.store.schemas.Holds r

/-- Schemas that are registered were made. -/
theorem steady_schemasHeld : Steady fun v w : World => v.SchemasHeld → w.SchemasHeld where
  same h hv := by rw [h]; exact hv
  trans huv hvw hu := hvw (huv hu)
  change {v w} h hv := by
    cases h with
    | schemaMade schema =>
      exact fun name r hr => (v.store.schemas.extends_push schema).holds (hv name r hr)
    | schemaDeclared name r hr =>
      intro n q hq
      by_cases hname : n = name
      · subst hname
        obtain rfl : r = q := by simpa using hq
        exact hr
      · exact hv n q (by simpa [Table.get?_put_of_ne _ _ hname] using hq)
    | instanceDeclared scope name r =>
      unfold withInstance
      split <;> exact hv
    | importsRecorded program file =>
      unfold recordImports
      split <;> exact hv
    | unsubscribed event r =>
      unfold unsubscribe
      split <;> exact hv
    | _ => exact hv

theorem Reached.schemasHeld {w : World} (hw : Reached w) : w.SchemasHeld :=
  hw.arises.of_steady steady_schemasHeld fun _ _ _ _ h => (nomatch h)

end EventScript
