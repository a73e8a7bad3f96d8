import EventScript.Proofs.Asked.Step
import EventScript.Proofs.Ceilings

/-! # What a run yields

The bound on the steps of a run is there to make it a function, and no part of what a program does.
So we say of a computation what it yields with every bound that is large enough, and put this
together from what its parts yield.

* `Yields.bind`, `Yields.task`           a chain of computations, and a task
* `YieldsIn.bind`                      a chain in worlds that keep a property
* `bounded_outlasts`                   a larger bound changes nothing where a run comes to an end
* `Yields.of_bounded`, `Yields.of_run`   what is yielded with one bound
-/

namespace EventScript

open Evaluate

/-- The computation has this outcome with every bound from some bound on. -/
def Yields {α : Type} (act : Runner → Eval α) (w : World) (r : EStateM.Result Failure World α) :
    Prop :=
  ∃ bound, ∀ m ≥ bound, act (bounded m) w = r

section

variable {α β : Type} {act : Runner → Eval α} {next : Runner → α → Eval β} {a : α} {t : Task}
  {w u : World} {e : Failure}

namespace Yields

theorem of_eq {r : EStateM.Result Failure World α} (h : ∀ run, act run w = r) : Yields act w r :=
  ⟨0, fun m _ => h (bounded m)⟩

/-- Computations that do the same have the same outcome. -/
theorem congr {act' : Runner → Eval α} {r : EStateM.Result Failure World α}
    (h : Yields act' u r) (hsame : ∀ run, act run w = act' run u) : Yields act w r := by
  obtain ⟨bound, hbound⟩ := h
  exact ⟨bound, fun m hm => (hsame (bounded m)).trans (hbound m hm)⟩

theorem task {r : EStateM.Result Failure World t.Result}
    (h : Yields (fun run => step run t) w r) : Yields (fun run => run t) w r := by
  obtain ⟨bound, hbound⟩ := h
  refine ⟨bound + 1, fun m hm => ?_⟩
  obtain ⟨l, rfl⟩ : ∃ l, m = l + 1 := ⟨m - 1, by omega⟩
  exact hbound l (by omega)

theorem bind {r : EStateM.Result Failure World β} (hact : Yields act w (.ok a u))
    (hnext : Yields (fun run => next run a) u r) :
    Yields (fun run => act run >>= next run) w r := by
  obtain ⟨bound, hbound⟩ := hact
  obtain ⟨bound', hbound'⟩ := hnext
  refine ⟨max bound bound', fun m hm => ?_⟩
  exact (Eval.run_bind_of_ok (hbound m (by omega))).trans (hbound' m (by omega))

theorem bind_error (hact : Yields act w (.error e u)) :
    Yields (fun run => act run >>= next run) w (.error e u) := by
  obtain ⟨bound, hbound⟩ := hact
  exact ⟨bound, fun m hm => Eval.run_bind_of_error (hbound m hm)⟩

theorem ensuring {repair : World → World} (hact : Yields act w (.ok a u)) :
    Yields (fun run => Eval.ensuring (act run) repair) w (.ok a (repair u)) := by
  obtain ⟨bound, hbound⟩ := hact
  exact ⟨bound, fun m hm => by simp only [Eval.ensuring, hbound m hm]⟩

theorem reporting {name : String} {span : Option Span} (hact : Yields act w (.ok a u)) :
    Yields (fun run => Eval.reporting name span (act run)) w (.ok a u) := by
  obtain ⟨bound, hbound⟩ := hact
  exact ⟨bound, fun m hm => by simp only [Eval.reporting, hbound m hm]⟩

/-- There is one outcome only. -/
theorem unique {r r' : EStateM.Result Failure World α} (h : Yields act w r) (h' : Yields act w r') :
    r = r' := by
  obtain ⟨bound, hbound⟩ := h
  obtain ⟨bound', hbound'⟩ := h'
  have hleft := hbound _ (Nat.le_max_left bound bound')
  have hright := hbound' _ (Nat.le_max_right bound bound')
  exact hleft.symm.trans hright

end Yields

/-- A computation ends where it yields an outcome that is not the end of the bound. -/
theorem ends_iff_yields : Ends act w ↔ ∃ r, IsOutcome r ∧ Yields act w r :=
  ⟨fun ⟨bound, r, hr, h⟩ => ⟨r, hr, bound, h⟩, fun ⟨r, hr, bound, h⟩ => ⟨bound, r, hr, h⟩⟩

end

/-! ## Properties of what is yielded -/

/-- A computation yields something with a property, and the world behind it has a property too. -/
def YieldsIn {α : Type} (I : World → Prop) (act : Runner → Eval α) (w : World) (p : α → Prop) :
    Prop :=
  ∃ a u, p a ∧ I u ∧ Yields act w (.ok a u)

namespace YieldsIn

variable {α β : Type} {I : World → Prop} {act : Runner → Eval α} {next : Runner → α → Eval β}
  {w : World} {p : α → Prop} {q : β → Prop}

theorem pure {a : α} (hp : p a) (hw : I w) : YieldsIn I (fun _ => Pure.pure a) w p :=
  ⟨a, w, hp, hw, .of_eq fun _ => rfl⟩

theorem bind (h : YieldsIn I act w p)
    (hnext : ∀ a u, p a → I u → YieldsIn I (fun run => next run a) u q) :
    YieldsIn I (fun run => act run >>= next run) w q := by
  obtain ⟨a, u, hp, hu, hact⟩ := h
  obtain ⟨b, v, hq, hv, hact'⟩ := hnext a u hp hu
  exact ⟨b, v, hq, hv, hact.bind hact'⟩

end YieldsIn

/-! ## Larger bounds -/

/-- Where one computation comes to an end, another one has the same outcome. -/
def Outlasts {α : Type} (act act' : Eval α) : Prop := ∀ w, IsOutcome (act w) → act' w = act w

section

variable {α β : Type} {act act' : Eval α} {repair : World → World}

namespace Outlasts

theorem bind {next next' : α → Eval β} (hact : Outlasts act act')
    (hnext : ∀ a, Outlasts (next a) (next' a)) : Outlasts (act >>= next) (act' >>= next') := by
  intro w hw
  cases ha : act w with
  | ok a u =>
    rw [Eval.run_bind_of_ok ha] at hw ⊢
    have ha' : act' w = .ok a u := by rw [hact w (by rw [ha]; trivial), ha]
    rw [Eval.run_bind_of_ok ha']
    exact hnext a u hw
  | error e u =>
    rw [Eval.run_bind_of_error ha] at hw ⊢
    have ha' : act' w = .error e u := by rw [hact w (by rw [ha]; exact hw), ha]
    exact Eval.run_bind_of_error ha'

/-- A repair behind a computation does not make it come to an end. -/
theorem ensuring (hact : Outlasts act act') :
    Outlasts (Eval.ensuring act repair) (Eval.ensuring act' repair) := by
  intro w hw
  have hact' : act' w = act w := by
    refine hact w ?_
    unfold Eval.ensuring at hw
    cases ha : act w <;> rw [ha] at hw <;> exact hw
  simp only [Eval.ensuring, hact']

theorem onFailure (hact : Outlasts act act') :
    Outlasts (Eval.onFailure act repair) (Eval.onFailure act' repair) := by
  intro w hw
  have hact' : act' w = act w := by
    refine hact w ?_
    unfold Eval.onFailure at hw
    cases ha : act w <;> rw [ha] at hw <;> exact hw
  simp only [Eval.onFailure, hact']

theorem reporting (name : String) (span : Option Span) (hact : Outlasts act act') :
    Outlasts (Eval.reporting name span act) (Eval.reporting name span act') := by
  intro w hw
  have hact' : act' w = act w := by
    refine hact w ?_
    unfold Eval.reporting at hw
    cases ha : act w with
    | ok a u => trivial
    | error e u =>
      rw [ha] at hw
      intro he
      subst he
      exact hw rfl
  simp only [Eval.reporting, hact']

end Outlasts

/-- A computation comes to an end later at most than the tasks that it asks for. -/
theorem Asks.outlasts {allowed : Task → Prop} {run run' : Runner} {act : Runner → Eval α}
    (h : Asks allowed act) (hallowed : ∀ t, allowed t → Outlasts (run t) (run' t)) :
    Outlasts (act run) (act run') := by
  induction h with
  | leaf hact => exact fun _ _ => rfl
  | task ht => exact hallowed _ ht
  | bind _ _ ihact ihnext => exact .bind ihact ihnext
  | ensuring _ _ ih => exact .ensuring ih
  | onFailure _ _ ih => exact .onFailure ih
  | reporting name span _ ih => exact .reporting name span ih

/-- Steps come to an end with a runner where they do with one that it outlasts. -/
theorem step_outlasts {run run' : Runner} (h : ∀ t, Outlasts (run t) (run' t)) (t : Task) :
    Outlasts (step run t) (step run' t) := by
  -- a call is no chain of tasks: it counts, and only its body asks for them
  cases ht : t.isCall with
  | false => exact (asks_step (fun _ => trivial) ht).outlasts fun t _ => h t
  | true =>
    obtain ⟨f, args, span, rfl⟩ : ∃ f args span, t = .call f args span := by
      cases t <;> first | exact ⟨_, _, _, rfl⟩ | cases ht
    have hasks : ∀ g, Asks (fun _ => True) fun run => invoke run g args :=
      fun g => asks_invoke (fun _ _ => trivial) (fun _ _ => trivial) g args
    have hinvoke : ∀ g, Outlasts (invoke run g args) (invoke run' g args) := fun g =>
      (hasks g).outlasts fun t _ => h t
    intro w
    show IsOutcome (callFunction run f args span w) →
      callFunction run' f args span w = callFunction run f args span w
    by_cases hfull : w.settings.maxCallDepth ≤ w.callDepth
    · intro _
      rw [callFunction_of_full run f args span hfull, callFunction_of_full run' f args span hfull]
    · rw [callFunction_of_not_full run f args span hfull,
        callFunction_of_not_full run' f args span hfull]
      exact Outlasts.ensuring (hinvoke _) _

/-- A larger bound changes nothing where a run comes to an end. -/
theorem bounded_outlasts {n m : Nat} (h : n ≤ m) (t : Task) :
    Outlasts (bounded n t) (bounded m t) := by
  induction n generalizing m t with
  | zero => exact fun w hw => absurd rfl hw
  | succ n ih =>
    obtain ⟨l, rfl⟩ : ∃ l, m = l + 1 := ⟨m - 1, by omega⟩
    exact step_outlasts (fun t => ih (by omega) t) t

/-- What a computation yields with one bound, it yields with every larger one. -/
theorem Yields.of_bounded {allowed : Task → Prop} {act : Runner → Eval α} (hact : Asks allowed act)
    {n : Nat} {w : World} {r : EStateM.Result Failure World α} (h : act (bounded n) w = r)
    (hr : IsOutcome r) : Yields act w r := by
  refine ⟨n, fun m hm => ?_⟩
  rw [hact.outlasts (fun t _ => bounded_outlasts hm t) w (by rwa [h]), h]

theorem Yields.of_run {t : Task} {n : Nat} {w : World} {r : EStateM.Result Failure World t.Result}
    (h : bounded n t w = r) (hr : IsOutcome r) : Yields (fun run => run t) w r := by
  have hasks : Asks (fun _ => True) fun run => run t := .task trivial
  exact .of_bounded hasks h hr

end

end EventScript
