/-! # Heaps

Mutable objects live in heaps, one for each region, and are named by references.  A reference is
made by `alloc` and stays good for ever.  Writing through one reference changes what is read
through it and through no other.
-/

namespace EventScript

/-- The regions of the store. -/
inductive Region
  | list | map | function | schema | inst | scope | native | listener
  deriving Repr, DecidableEq

/-- The name of an object of a region. -/
structure Ref (region : Region) where
  index : Nat
  deriving Repr, DecidableEq, Inhabited

/-- The objects of a region in the order in which they were made. -/
structure Heap (region : Region) (α : Type) where
  cells : Array α

namespace Heap

variable {region : Region} {α : Type}

/-- The heap without objects. -/
def empty : Heap region α := ⟨#[]⟩

/-- The number of objects. -/
def size (h : Heap region α) : Nat := h.cells.size

/-- The object of a reference. -/
def get [Inhabited α] (h : Heap region α) (r : Ref region) : α := h.cells.getD r.index default

/-- Change the object of a reference. -/
@[inline] def modify (h : Heap region α) (r : Ref region) (f : α → α) : Heap region α :=
  ⟨h.cells.modify r.index f⟩

/-- The reference that the next object will have. -/
def next (h : Heap region α) : Ref region := ⟨h.cells.size⟩

/-- Add an object. -/
def push (h : Heap region α) (a : α) : Heap region α := ⟨h.cells.push a⟩

/-- The reference names an object of the heap. -/
def Holds (h : Heap region α) (r : Ref region) : Prop := r.index < h.cells.size

instance (h : Heap region α) (r : Ref region) : Decidable (h.Holds r) :=
  inferInstanceAs (Decidable (r.index < h.cells.size))

@[simp] theorem get_push_next [Inhabited α] (h : Heap region α) (a : α) :
    (h.push a).get h.next = a := by
  simp [get, push, next]

theorem get_push_of_holds [Inhabited α] (h : Heap region α) (a : α) {r : Ref region}
    (hr : h.Holds r) : (h.push a).get r = h.get r := by
  have hr' : r.index < h.cells.size := hr
  simp [get, push, Array.getElem?_push, Nat.ne_of_lt hr']

theorem get_modify_self [Inhabited α] (h : Heap region α) {r : Ref region} (f : α → α)
    (hr : h.Holds r) : (h.modify r f).get r = f (h.get r) := by
  have hr' : r.index < h.cells.size := hr
  simp [get, modify, hr', Array.getElem_modify]

theorem get_of_not_holds [Inhabited α] (h : Heap region α) {r : Ref region} (hr : ¬ h.Holds r) :
    h.get r = default := by
  have hr' : h.cells.size ≤ r.index := Nat.le_of_not_lt hr
  simp [get, hr']

@[simp] theorem holds_modify (h : Heap region α) (r s : Ref region) (f : α → α) :
    (h.modify r f).Holds s ↔ h.Holds s := by
  simp [Holds, modify]

theorem get_modify_of_ne [Inhabited α] (h : Heap region α) {r s : Ref region} (f : α → α)
    (hrs : s ≠ r) : (h.modify r f).get s = h.get s := by
  have : r.index ≠ s.index := fun e => hrs (by cases r; cases s; simp_all)
  simp [get, modify, Array.getElem?_modify, this]

/-- Objects were added to the heap, and none was changed. -/
structure Extends [Inhabited α] (h h' : Heap region α) : Prop where
  size_le : h.size ≤ h'.size
  get_eq : ∀ r, h.Holds r → h'.get r = h.get r

theorem Extends.refl [Inhabited α] (h : Heap region α) : h.Extends h :=
  ⟨Nat.le_refl _, fun _ _ => rfl⟩

theorem Extends.holds [Inhabited α] {h h' : Heap region α} (hext : h.Extends h') {r : Ref region}
    (hr : h.Holds r) : h'.Holds r := Nat.lt_of_lt_of_le hr hext.size_le

theorem Extends.trans [Inhabited α] {h h' h'' : Heap region α} (hext : h.Extends h')
    (hext' : h'.Extends h'') : h.Extends h'' :=
  ⟨Nat.le_trans hext.size_le hext'.size_le, fun r hr =>
    (hext'.get_eq r (hext.holds hr)).trans (hext.get_eq r hr)⟩

theorem extends_push [Inhabited α] (h : Heap region α) (a : α) : h.Extends (h.push a) :=
  ⟨by simp [size, push], fun _ hr => get_push_of_holds h a hr⟩

/-- What holds of every object, and of no object at all, holds behind an addition. -/
theorem forall_push [Inhabited α] {P : α → Prop} {h : Heap region α} (hh : ∀ r, P (h.get r))
    {a : α} (ha : P a) (r : Ref region) : P ((h.push a).get r) := by
  by_cases hr : h.Holds r
  · rw [get_push_of_holds h a hr]
    exact hh r
  · by_cases hnext : r = h.next
    · rw [hnext, get_push_next]
      exact ha
    · have hnot : ¬ (h.push a).Holds r := fun hpush => by
        have hle : h.cells.size ≤ r.index := Nat.le_of_not_lt hr
        have hlt : r.index < h.cells.size + 1 := by simpa [Holds, push] using hpush
        exact hnext (congrArg Ref.mk (Nat.le_antisymm (Nat.le_of_lt_succ hlt) hle))
      rw [get_of_not_holds _ hnot, ← get_of_not_holds h hr]
      exact hh r

/-- What holds of every object and is kept by a change holds behind it. -/
theorem forall_modify [Inhabited α] {P : α → Prop} {h : Heap region α} (hh : ∀ r, P (h.get r))
    {f : α → α} (hf : ∀ a, P a → P (f a)) (s r : Ref region) : P ((h.modify s f).get r) := by
  by_cases hrs : r = s
  · subst hrs
    by_cases hr : h.Holds r
    · rw [get_modify_self h f hr]
      exact hf _ (hh r)
    · rw [get_of_not_holds _ (fun hm => hr ((holds_modify h r r f).mp hm)),
        ← get_of_not_holds h hr]
      exact hh r
  · rw [get_modify_of_ne h f hrs]
    exact hh r

theorem holds_push_next (h : Heap region α) (a : α) : (h.push a).Holds h.next := by
  simp [Holds, push, next]

end Heap

end EventScript
