import EventScript.Number

/-! # Kinds of faults

A native that is called by a program has its refusals reported, and its other faults pass through
the program; so do the faults of operators.  Operations on numbers break off when a result is too
large or undefined, and a division also when the divisor is zero.

* `Fault.Escapes`    the faults that pass through a program
* `Fault.OfNative`   the faults of natives
* `Fails`           a computation on numbers breaks off with certain faults only
-/

namespace EventScript

/-- The faults that pass through a program.  Of natives only refusals are reported, which the first
    four are not; the other two are refusals, but operators break off with them too. -/
@[grind intro]
inductive Fault.Escapes : Fault → Prop
  | noMember : Escapes .noMember
  | noEntry : Escapes .noEntry
  | changedMeanwhile : Escapes .changedMeanwhile
  | outOfMemory : Escapes .outOfMemory
  | overflow : Escapes .overflow
  | wrongValue : Escapes .wrongValue

/-- Natives of the language's own break off with refusals, or else with faults that pass through. -/
def Fault.OfNative (f : Fault) : Prop := f.isRefusal = true ∨ f.Escapes

namespace Fault

@[grind ←]
theorem Escapes.ofNative {f : Fault} (h : f.Escapes) : f.OfNative := .inr h

@[grind ←]
theorem ofNative_wrongKind : OfNative .wrongKind := .inl rfl

@[grind ←]
theorem ofNative_zeroDivisor : OfNative .zeroDivisor := .inl rfl

theorem OfNative.escapes {f : Fault} (h : f.OfNative) (hf : f.isRefusal = false) : f.Escapes :=
  h.resolve_left (by simp [hf])

end Fault

open Fault

/-! ## Computations on numbers -/

section Numbers

variable {α β : Type} {F : Fault → Prop}

/-- The computation breaks off with such faults only. -/
def Fails (F : Fault → Prop) (x : Except Fault α) : Prop := ∀ f, x = .error f → F f

@[grind ←]
theorem Fails.ofNative {x : Except Fault α} (h : Fails Escapes x) :
    Fails OfNative x := fun f hf => (h f hf).ofNative

@[grind ←]
theorem fails_pure (a : α) : Fails F (pure a) := nofun

@[grind ←]
theorem fails_throw {f : Fault} (hf : F f) : Fails F (throw f : Except Fault α) := by
  rintro g ⟨⟩
  exact hf

@[grind ←]
theorem fails_bind {x : Except Fault α} {next : α → Except Fault β} (hx : Fails F x)
    (hnext : ∀ a, Fails F (next a)) : Fails F (x >>= next) := by
  cases x with
  | ok a => exact hnext a
  | error f => exact fails_throw (hx f rfl)

/-- A number that would be too large is none. -/
theorem fails_elim (o : Option α) (g : α → β) :
    Fails Escapes (o.elim (throw .overflow) fun a => pure (g a)) := by
  cases o with
  | none => exact fails_throw .overflow
  | some a => exact fails_pure (g a)

@[grind ←]
theorem fails_toFloat (a : Number) : Fails Escapes a.toFloat := by
  cases a with
  | int n => exact fails_elim _ id
  | float x => exact fails_pure x

theorem fails_arithmetic (f : Int → Int → Int) (g : Float → Float → Float) (a b : Number) :
    Fails Escapes (Number.arithmetic f g a b) := by
  unfold Number.arithmetic
  split <;> grind

@[grind ←]
theorem fails_add (a b : Number) : Fails Escapes (a.add b) := fails_arithmetic _ _ a b

@[grind ←]
theorem fails_sub (a b : Number) : Fails Escapes (a.sub b) := fails_arithmetic _ _ a b

@[grind ←]
theorem fails_mul (a b : Number) : Fails Escapes (a.mul b) := fails_arithmetic _ _ a b

/-- A divisor that is not zero is no reason to break off. -/
theorem fails_div_of_isZero (a : Number) {b : Number} (hb : b.isZero = false) :
    Fails Escapes (a.div b) := by
  unfold Number.div
  rw [if_neg (by simp [hb])]
  split
  · exact fails_elim _ _
  · grind

@[grind ←]
theorem fails_div (a b : Number) : Fails OfNative (a.div b) := by
  cases hb : b.isZero with
  | true =>
    unfold Number.div
    rw [if_pos hb]
    exact fails_throw ofNative_zeroDivisor
  | false => exact (fails_div_of_isZero a hb).ofNative

@[grind ←]
theorem fails_rem (a b : Number) : Fails Escapes (a.rem b) := by
  have hfloats : ∀ x y, Fails Escapes (Number.floatRemainder x y) := by
    intro x y
    unfold Number.floatRemainder
    grind
  unfold Number.rem
  refine fails_bind (fails_toFloat a) fun x => fails_bind (fails_toFloat b) fun y => ?_
  refine fails_bind (hfloats x y) fun r => ?_
  split <;> exact fails_pure _

theorem fails_rounded (round : Binary → Int) (a : Number) :
    Fails Escapes (Number.rounded round a) := by
  unfold Number.rounded
  grind

@[grind ←]
theorem fails_floor (a : Number) : Fails Escapes a.floor := fails_rounded _ a

@[grind ←]
theorem fails_ceiling (a : Number) : Fails Escapes a.ceiling := fails_rounded _ a

@[grind ←]
theorem fails_truncate (a : Number) : Fails Escapes a.truncate := fails_rounded _ a

@[grind ←]
theorem fails_roundHalfUp (a : Number) : Fails Escapes a.roundHalfUp := by
  unfold Number.roundHalfUp
  grind

end Numbers

end EventScript
