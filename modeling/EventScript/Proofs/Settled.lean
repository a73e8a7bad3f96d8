import EventScript.Proofs.Law.Execution

/-! # Settled computations

A run with a bound may break off at its bound.  A computation settles if from some bound on its
outcome is the same, and not that the bound is reached.  This carries over to whatever is made of
computations, and a computation that goes back to no runner has an outcome at once.

* `concluding`     the law of computations that have an outcome, and keep to the ceilings
* `Settles.leaf`   they settle
* `Settles.bind`   computations settle one after the other
-/

namespace EventScript

open Evaluate

/-! ## The law of outcomes -/

/-- The settings and the calls in progress are the same. -/
structure SameCeilings (v w : World) : Prop where
  settings : w.settings = v.settings
  callDepth : w.callDepth = v.callDepth

theorem SameCeilings.trans {u v w : World} (huv : SameCeilings u v) (hvw : SameCeilings v w) :
    SameCeilings u w :=
  ⟨hvw.settings.trans huv.settings, hvw.callDepth.trans huv.callDepth⟩

/-- No single change is one of the settings. -/
theorem Change.settings {v w : World} (h : Change v w) : w.settings = v.settings := by
  cases h with
  | instanceDeclared scope name r => unfold withInstance; split <;> rfl
  | importsRecorded program file => unfold recordImports; split <;> rfl
  | unsubscribed event r => unfold unsubscribe; split <;> rfl
  | _ => rfl

/-- A call that ends is no longer in progress. -/
theorem SameCeilings.calling {v w : World}
    (h : SameCeilings { v with callDepth := v.callDepth + 1 } w) :
    SameCeilings v { w with callDepth := w.callDepth - 1 } := by
  refine ⟨h.settings, ?_⟩
  have hdepth : w.callDepth = v.callDepth + 1 := h.callDepth
  simp [hdepth]

/-- The law of computations that have an outcome, and keep to the ceilings. -/
def concluding : Law where
  done := SameCeilings
  failed e v w := e ≠ .outOfFuel ∧ SameCeilings v w
  drained := SameCeilings
  cut e v w := e ≠ .outOfFuel ∧ SameCeilings v w
  refl _ := ⟨rfl, rfl⟩
  trans := .trans
  failed_of_done he h := ⟨he, h⟩
  trans_failed h hfailed := ⟨hfailed.1, h.trans hfailed.2⟩
  reported h := ⟨nofun, h.2⟩
  change h _ _ := ⟨h.settings, h.sameMoment.callDepth⟩
  executing h := ⟨h.settings, h.callDepth⟩
  executing_failed h := ⟨h.1, h.2.settings, h.2.callDepth⟩
  calling := .calling
  calling_failed h := ⟨h.1, h.2.calling⟩
  waiting _ _ := ⟨rfl, rfl⟩
  processed _ _ h := ⟨h.settings, h.callDepth⟩
  processed_failed _ _ h := ⟨h.1, h.2.settings, h.2.callDepth⟩

/-! ## Settled computations -/

/-- A world has these settings and so many calls in progress. -/
structure Stands (settings : Settings) (depth : Nat) (w : World) : Prop where
  settings : w.settings = settings
  callDepth : w.callDepth = depth

/-- An outcome that leaves the settings and the calls in progress as they are. -/
def Concluded {α : Type} (settings : Settings) (depth : Nat) :
    EStateM.Result Failure World α → Prop
  | .ok _ w => Stands settings depth w
  | .error e w => e ≠ .outOfFuel ∧ Stands settings depth w

/-- From some bound on the computations have the same outcome in a world. -/
def SettlesAt {α : Type} (settings : Settings) (depth : Nat) (act : Nat → Eval α) (w : World) :
    Prop :=
  ∃ bound r, Concluded settings depth r ∧ ∀ m ≥ bound, act m w = r

/-- From some bound on the computations have the same outcome, in every world with these settings
    and so many calls in progress. -/
def Settles {α : Type} (settings : Settings) (depth : Nat) (act : Nat → Eval α) : Prop :=
  ∀ w, Stands settings depth w → SettlesAt settings depth act w

section Settling

variable {α β : Type} {settings : Settings} {depth : Nat}

theorem SettlesAt.of_eq {act : Nat → Eval α} {w : World} {r : EStateM.Result Failure World α}
    (h : ∀ m, act m w = r) (hr : Concluded settings depth r) : SettlesAt settings depth act w :=
  ⟨0, r, hr, fun m _ => h m⟩

/-- A repair may count another number of calls in progress. -/
theorem SettlesAt.ensuring {depth' : Nat} {act : Nat → Eval α} {repair : World → World} {w : World}
    (hact : SettlesAt settings depth act w)
    (hrepair : ∀ w, Stands settings depth w → Stands settings depth' (repair w)) :
    SettlesAt settings depth' (fun n => Eval.ensuring (act n) repair) w := by
  obtain ⟨bound, r, hr, hbound⟩ := hact
  cases r with
  | ok a v =>
    exact ⟨bound, .ok a (repair v), hrepair v hr, fun m hm => by
      simp only [Eval.ensuring, hbound m hm]⟩
  | error e v =>
    exact ⟨bound, .error e (repair v), ⟨hr.1, hrepair v hr.2⟩, fun m hm => by
      simp only [Eval.ensuring, hbound m hm]⟩

namespace Settles

/-- A computation that asks nothing of a runner has an outcome at once. -/
theorem leaf {act : Eval α} (hact : concluding.Obeyed act) :
    Settles settings depth fun _ => act := by
  intro w hw
  refine .of_eq (fun _ => rfl) ?_
  have h := hact w
  cases ha : act w with
  | ok a v =>
    rw [ha] at h
    exact ⟨h.settings.trans hw.settings, h.callDepth.trans hw.callDepth⟩
  | error e v =>
    rw [ha] at h
    exact ⟨h.1, h.2.settings.trans hw.settings, h.2.callDepth.trans hw.callDepth⟩

theorem bind {act : Nat → Eval α} {next : Nat → α → Eval β} (hact : Settles settings depth act)
    (hnext : ∀ a, Settles settings depth fun n => next n a) :
    Settles settings depth fun n => act n >>= next n := by
  intro w hw
  obtain ⟨bound, r, hr, hbound⟩ := hact w hw
  cases r with
  | ok a v =>
    obtain ⟨bound', r', hr', hbound'⟩ := hnext a v hr
    refine ⟨max bound bound', r', hr', fun m hm => ?_⟩
    exact (Eval.run_bind_of_ok (hbound m (by omega))).trans (hbound' m (by omega))
  | error e v =>
    exact ⟨bound, .error e v, hr, fun m hm => Eval.run_bind_of_error (hbound m hm)⟩

theorem ite {p : Prop} [Decidable p] {act act' : Nat → Eval α}
    (hact : Settles settings depth act) (hact' : Settles settings depth act') :
    Settles settings depth fun n => if p then act n else act' n := by
  split <;> assumption

/-- The first bound does not matter. -/
theorem later {act : Nat → Eval α} (h : Settles settings depth fun n => act (n + 1)) :
    Settles settings depth act := by
  intro w hw
  obtain ⟨bound, r, hr, hbound⟩ := h w hw
  refine ⟨bound + 1, r, hr, fun m hm => ?_⟩
  obtain ⟨n, rfl⟩ : ∃ n, m = n + 1 := ⟨m - 1, by omega⟩
  exact hbound n (by omega)

/-- A repair that leaves the ceilings alone. -/
theorem ensuring {act : Nat → Eval α} {repair : World → World}
    (hact : Settles settings depth act)
    (hrepair : ∀ w, Stands settings depth w → Stands settings depth (repair w)) :
    Settles settings depth fun n => Eval.ensuring (act n) repair :=
  fun w hw => (hact w hw).ensuring hrepair

theorem onFailure {act : Nat → Eval α} {repair : World → World}
    (hact : Settles settings depth act)
    (hrepair : ∀ w, Stands settings depth w → Stands settings depth (repair w)) :
    Settles settings depth fun n => Eval.onFailure (act n) repair := by
  intro w hw
  obtain ⟨bound, r, hr, hbound⟩ := hact w hw
  cases r with
  | ok a v =>
    exact ⟨bound, .ok a v, hr, fun m hm => by simp only [Eval.onFailure, hbound m hm]⟩
  | error e v =>
    exact ⟨bound, .error e (repair v), ⟨hr.1, hrepair v hr.2⟩, fun m hm => by
      simp only [Eval.onFailure, hbound m hm]⟩

theorem reporting {act : Nat → Eval α} (name : String) (span : Option Span)
    (hact : Settles settings depth act) :
    Settles settings depth fun n => Eval.reporting name span (act n) := by
  intro w hw
  obtain ⟨bound, r, hr, hbound⟩ := hact w hw
  refine ⟨bound, Eval.reporting name span (fun _ => r) w, ?_, fun m hm => by
    simp only [Eval.reporting, hbound m hm]⟩
  unfold Eval.reporting
  cases r with
  | ok a v => exact hr
  | error e v =>
    cases e with
    | fault f =>
      dsimp only
      split
      · exact ⟨nofun, hr.2⟩
      · exact hr
    | _ => exact hr

end Settles

end Settling

end EventScript
