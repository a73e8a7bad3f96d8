import EventScript.World

/-! # Computations that agree

Two computations agree on worlds of some kind if they have the same outcome there and leave a world
of that kind behind.  This carries over to what is made of computations, so that two ways to carry
out a piece of work can be compared part by part.
-/

namespace EventScript

/-- The world behind a computation satisfies a condition, whether it succeeded or not. -/
def LeavesIn {α : Type} (P : World → Prop) : EStateM.Result Failure World α → Prop
  | .ok _ w | .error _ w => P w

theorem LeavesIn.imp {α : Type} {P Q : World → Prop} {r : EStateM.Result Failure World α}
    (h : LeavesIn P r) (hPQ : ∀ w, P w → Q w) : LeavesIn Q r := by
  cases r <;> exact hPQ _ h

/-- Two computations have the same outcome in a world, and the world behind it satisfies a
    condition. -/
structure AgreeAt {α : Type} (P : World → Prop) (act act' : Eval α) (w : World) : Prop where
  same : act' w = act w
  leaves : LeavesIn P (act w)

/-- Two computations agree in every world that satisfies a condition, and keep it. -/
def Agree {α : Type} (P : World → Prop) (act act' : Eval α) : Prop :=
  ∀ w, P w → AgreeAt P act act' w

section

variable {α β : Type} {P Q : World → Prop} {act act' : Eval α}

/-- Behind a repair another condition may hold. -/
theorem AgreeAt.ensuring {repair repair' : World → World} {w : World}
    (hact : AgreeAt P act act' w) (hrepair : ∀ v, P v → repair' v = repair v ∧ Q (repair v)) :
    AgreeAt Q (Eval.ensuring act repair) (Eval.ensuring act' repair') w := by
  obtain ⟨hsame, hleaves⟩ := hact
  cases ha : act w with
  | ok a v | error e v =>
    rw [ha] at hsame hleaves
    obtain ⟨hrepaired, hQ⟩ := hrepair v hleaves
    refine ⟨by simp only [Eval.ensuring, ha, hsame, hrepaired], ?_⟩
    simp only [Eval.ensuring, ha]
    exact hQ

namespace Agree

theorem refl (hact : ∀ w, P w → LeavesIn P (act w)) : Agree P act act :=
  fun w hw => ⟨rfl, hact w hw⟩

theorem bind {next next' : α → Eval β} (hact : Agree P act act')
    (hnext : ∀ a, Agree P (next a) (next' a)) : Agree P (act >>= next) (act' >>= next') := by
  intro w hw
  obtain ⟨hsame, hleaves⟩ := hact w hw
  cases ha : act w with
  | ok a v =>
    rw [ha] at hsame hleaves
    obtain ⟨hrest, hend⟩ := hnext a v hleaves
    exact ⟨(Eval.run_bind_of_ok hsame).trans (hrest.trans (Eval.run_bind_of_ok ha).symm),
      by rwa [Eval.run_bind_of_ok ha]⟩
  | error e v =>
    rw [ha] at hsame hleaves
    exact ⟨(Eval.run_bind_of_error hsame).trans (Eval.run_bind_of_error ha).symm,
      by rwa [Eval.run_bind_of_error ha]⟩

theorem ite {p : Prop} [Decidable p] {other other' : Eval α} (hact : Agree P act act')
    (hother : Agree P other other') :
    Agree P (if p then act else other) (if p then act' else other') := by
  split <;> assumption

theorem onFailure {repair : World → World} (hact : Agree P act act')
    (hrepair : ∀ v, P v → P (repair v)) :
    Agree P (Eval.onFailure act repair) (Eval.onFailure act' repair) := by
  intro w hw
  obtain ⟨hsame, hleaves⟩ := hact w hw
  refine ⟨by simp only [Eval.onFailure, hsame], ?_⟩
  simp only [Eval.onFailure]
  cases ha : act w with
  | ok a v => rwa [ha] at hleaves
  | error e v =>
    rw [ha] at hleaves
    exact hrepair v hleaves

theorem reporting (name : String) (span : Option Span) (hact : Agree P act act') :
    Agree P (Eval.reporting name span act) (Eval.reporting name span act') := by
  intro w hw
  obtain ⟨hsame, hleaves⟩ := hact w hw
  refine ⟨by simp only [Eval.reporting, hsame], ?_⟩
  simp only [Eval.reporting]
  cases ha : act w with
  | ok a v => rwa [ha] at hleaves
  | error e v =>
    rw [ha] at hleaves
    cases e with
    | fault f =>
      dsimp only
      split <;> exact hleaves
    | _ => exact hleaves

end Agree

end

end EventScript
