import EventScript.Proofs.Patterns.Literals
import Mathlib.Data.Finset.Card

/-! # How deep a value can be

Lists and maps hold values, among them other lists and maps.  A value that does not contain itself
goes through each list and each map of the store at most once on the way down, so that it has no
more levels than there are lists and maps.

* `Store.Contains`               a value is another one, or is somewhere inside of it
* `Acyclic.not_contains`         nothing inside of a value contains it again
* `Acyclic.levelsWithin`         as many levels as there are lists and maps are enough
-/

namespace EventScript

namespace Store

/-- The values that a list or a map holds. -/
def contents (s : Store) : Value → List Value
  | .list r => (s.list r).toList
  | .map r => (s.map r).values
  | _ => []

/-- The number of a list or a map among all of the store: the lists come first. -/
def cell? (s : Store) : Value → Option Nat
  | .list r => some r.index
  | .map r => some (s.lists.size + r.index)
  | _ => none

/-- The first value is the second, or holds it at some depth. -/
inductive Contains (s : Store) : Value → Value → Prop
  | refl (v : Value) : Contains s v v
  | step {v x y : Value} (hx : x ∈ s.contents v) (hy : Contains s x y) : Contains s v y

/-- Lists and maps are nested in the value for at most a number of levels. -/
def LevelsWithin (s : Store) : Nat → Value → Prop
  | 0, v => s.cell? v = none
  | n + 1, v => ∀ x ∈ s.contents v, LevelsWithin s n x

variable {s : Store}

theorem Contains.trans {v x y : Value} (hx : s.Contains v x) (hy : s.Contains x y) :
    s.Contains v y := by
  induction hx with
  | refl _ => exact hy
  | step hmem _ ih => exact .step hmem (ih hy)

theorem item_mem_contents {r : ListRef} {i : Nat} {v : Value} (hv : (s.list r)[i]? = some v) :
    v ∈ s.contents (.list r) :=
  Array.mem_toList_iff.mpr (Array.mem_of_getElem? hv)

theorem entry_mem_contents {r : MapRef} {k : Key} {v : Value} (hv : (k, v) ∈ (s.map r).entries) :
    v ∈ s.contents (.map r) :=
  List.mem_map_of_mem (f := Prod.snd) hv

theorem contents_eq_nil {v : Value} (hv : s.cell? v = none) : s.contents v = [] := by
  cases v <;> first | rfl | cases hv

theorem levelsWithin_of_cell?_eq_none {v : Value} (hv : s.cell? v = none) :
    ∀ n, s.LevelsWithin n v
  | 0 => hv
  | _ + 1 => by simp [LevelsWithin, contents_eq_nil hv]

/-- More levels are within reach if fewer are. -/
theorem LevelsWithin.mono {n : Nat} : ∀ {m : Nat} {v : Value}, s.LevelsWithin n v → n ≤ m →
    s.LevelsWithin m v := by
  induction n with
  | zero => exact fun h _ => levelsWithin_of_cell?_eq_none h _
  | succ n ih =>
    intro m v h hle
    cases m with
    | zero => omega
    | succ m => exact fun x hx => ih (h x hx) (by omega)

namespace Acyclic

theorem of_mem_contents {v x : Value} (h : s.Acyclic v) (hx : x ∈ s.contents v) :
    s.Acyclic x := by
  cases v with
  | list r => exact h.list_inv.2 x hx
  | map r =>
    obtain ⟨e, he, rfl⟩ := List.mem_map.mp hx
    exact h.map_inv.2 e he
  | _ => cases hx

/-- What holds of a value whenever it holds of all that the value holds is true of every value that
    does not contain itself. -/
theorem inductionOn {P : Value → Prop} {v : Value} (h : s.Acyclic v)
    (ih : ∀ v, s.Acyclic v → (∀ x ∈ s.contents v, P x) → P v) : P v := by
  induction h with
  | @plain v hlist hmap =>
    refine ih v (.plain hlist hmap) fun x hx => ?_
    cases v with
    | list r => exact absurd rfl hlist
    | map r => exact absurd rfl hmap
    | _ => cases hx
  | list held items hitems => exact ih _ (.list held items) hitems
  | map held values hvalues =>
    refine ih _ (.map held values) fun x hx => ?_
    obtain ⟨e, he, rfl⟩ := List.mem_map.mp hx
    exact hvalues e he

theorem of_contains {v x : Value} (h : s.Acyclic v) (hx : s.Contains v x) : s.Acyclic x := by
  induction hx with
  | refl _ => exact h
  | step hmem _ ih => exact ih (h.of_mem_contents hmem)

/-- Nothing that a value holds contains the value again. -/
theorem not_contains {v : Value} (h : s.Acyclic v) : ∀ x ∈ s.contents v, ¬ s.Contains x v := by
  refine h.inductionOn (P := fun v => ∀ x ∈ s.contents v, ¬ s.Contains x v)
    fun v _ ih x hx hback => ?_
  -- the way back from `x` to `v` would go on to `x`, and so would be one from `x` to itself
  cases hback with
  | refl _ => exact ih v hx v hx (.refl v)
  | step hy hrest => exact ih x hx _ hy (hrest.trans (.step hx (.refl x)))

theorem cell?_lt {v : Value} (h : s.Acyclic v) {c : Nat} (hc : s.cell? v = some c) :
    c < s.containers := by
  cases v with
  | list r =>
    have hheld : r.index < s.lists.size := h.list_inv.1
    simp only [cell?, Option.some.injEq] at hc
    unfold containers
    omega
  | map r =>
    have hheld : r.index < s.maps.size := h.map_inv.1
    simp only [cell?, Option.some.injEq] at hc
    unfold containers
    omega
  | _ => cases hc

/-- Two lists or maps of one number are one and the same. -/
theorem eq_of_cell?_eq {v x : Value} (hv : s.Acyclic v) (hx : s.Acyclic x) {c : Nat}
    (hvc : s.cell? v = some c) (hxc : s.cell? x = some c) : v = x := by
  have hlist : ∀ r : ListRef, s.Acyclic (.list r) → r.index < s.lists.size :=
    fun _ h => h.list_inv.1
  cases v <;> cases x <;> simp only [cell?, Option.some.injEq, reduceCtorEq] at hvc hxc
  · case list.list a b =>
    obtain ⟨i⟩ := a
    obtain ⟨j⟩ := b
    obtain rfl : i = j := hvc.trans hxc.symm
    rfl
  · case list.map a b =>
    have := hlist a hv
    omega
  · case map.list a b =>
    have := hlist b hx
    omega
  · case map.map a b =>
    obtain ⟨i⟩ := a
    obtain ⟨j⟩ := b
    obtain rfl : i = j := by simp only at hvc hxc; omega
    rfl

/-- A value has as many levels as the lists and maps inside of it have numbers. -/
theorem levelsWithin_card {v : Value} (h : s.Acyclic v) : ∀ cells : Finset Nat,
    (∀ x c, s.Contains v x → s.cell? x = some c → c ∈ cells) → s.LevelsWithin cells.card v := by
  refine h.inductionOn (P := fun v => ∀ cells : Finset Nat,
    (∀ x c, s.Contains v x → s.cell? x = some c → c ∈ cells) → s.LevelsWithin cells.card v)
    fun v hv ih cells hcells => ?_
  cases hcell : s.cell? v with
  | none => exact levelsWithin_of_cell?_eq_none hcell _
  | some c =>
    have hmem : c ∈ cells := hcells v c (.refl v) hcell
    rw [← Finset.card_erase_add_one hmem]
    refine fun x hx => ih x hx (cells.erase c) fun y d hy hd => ?_
    refine Finset.mem_erase.mpr ⟨?_, hcells y d (.step hx hy) hd⟩
    -- below a value there is no way back to it
    rintro rfl
    have hacyclic : s.Acyclic y := hv.of_contains (.step hx hy)
    exact hv.not_contains x hx (hv.eq_of_cell?_eq hacyclic hcell hd ▸ hy)

/-- A value that does not contain itself has no more levels than there are lists and maps. -/
theorem levelsWithin {v : Value} (h : s.Acyclic v) : s.LevelsWithin s.containers v := by
  have hlevels := h.levelsWithin_card (Finset.range s.containers) fun x c hx hc =>
    Finset.mem_range.mpr ((h.of_contains hx).cell?_lt hc)
  rwa [Finset.card_range] at hlevels

end Acyclic

end Store

end EventScript
