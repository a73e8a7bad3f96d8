import EventScript.Proofs.Yields.Expressions
import Mathlib.Data.List.Basic

/-! # Slices

A slice of a list or of a string goes from one place to another one, and a splice puts something
else between two places.  Both places are kept within the sequence, so that indexes of any size and
sign will do, and a negative one counts from the end.  So a list is what is in front of a place and
what is behind it, and a list and a string of one length are cut at the same places.

* `clampIndex_eq`       the place that an index means
* `sliceOf_eq`          the items of a slice
* `slices_partition`    the functions and the members that slice and splice
-/

namespace EventScript

/-! ## Places -/

/-- The place that an index means in a sequence of a length: a negative one counts from the end, and
    no place is outside of the sequence. -/
def clamped (n : Nat) (i : Int) : Int := max 0 (min (if i < 0 then n + i else i) n)

theorem clampIndex_eq (n : Nat) (i : Int) : (clampIndex n i : Int) = clamped n i := by
  unfold clampIndex clamped
  split <;> omega

@[simp] theorem clampIndex_zero (n : Nat) : clampIndex n 0 = 0 := by simp [clampIndex]

section

variable {α : Type} (xs : List α)

/-- The items of a slice are those from its first place on, up to its last one. -/
theorem sliceOf_eq (start stop : Option Int) :
    sliceOf xs start stop = (xs.take (stop.elim xs.length (clampIndex xs.length))).drop
      (start.elim 0 (clampIndex xs.length)) := by
  rw [sliceOf, List.drop_take]

/-- Two slices that meet at a place make up the whole. -/
theorem sliceOf_append_sliceOf (k : Int) :
    sliceOf xs (some 0) (some k) ++ sliceOf xs (some k) none = xs := by
  simp only [sliceOf_eq, Option.elim_some, Option.elim_none, clampIndex_zero, List.drop_zero,
    List.take_length]
  exact List.take_append_drop _ xs

/-- What is behind a place and some more items is what is behind a place within the sequence. -/
theorem drop_min (k : Nat) : xs.drop (min xs.length k) = xs.drop k := by
  rcases Nat.le_total xs.length k with h | h
  · rw [Nat.min_eq_left h, List.drop_length, List.drop_of_length_le h]
  · rw [Nat.min_eq_right h]

end

/-! ## Bounds -/

/-- A bound as an argument, where a missing one is null. -/
def boundValue : Option Int → Value
  | none => .null
  | some i => .int i

/-- Arguments that stand for two bounds; those that are left out count as null. -/
inductive Bounds : List Value → Option Int → Option Int → Prop
  | both (start stop : Option Int) : Bounds [boundValue start, boundValue stop] start stop
  | first (start : Option Int) : Bounds [boundValue start] start none
  | neither : Bounds [] none none

theorem integer?_boundValue (b : Option Int) (w : World) :
    Library.integer? (boundValue b) w = .ok b w := by
  cases b <;> rfl

/-- The slice of any list of some items is a new list of some of them. -/
def SlicesList (xs : List Value) (start stop : Option Int) (part : List Value) : Prop :=
  ∀ args, Bounds args start stop →
    ∀ (run : Runner) (w : World) (r : ListRef), (w.store.list r).toList = xs →
      GivesList (ListFunction.slice.apply run (.list r :: args)) w part ∧
        GivesList (ListMember.slice.apply run r args) w part

/-- The slice of a string is the string of some of its characters. -/
def SlicesText (t : String) (start stop : Option Int) (part : List Char) : Prop :=
  ∀ args, Bounds args start stop → ∀ w : World,
    StringFunction.slice.apply (.text t :: args) w = .ok (.text (String.ofList part)) w ∧
      StringMember.slice.apply t args w = .ok (.text (String.ofList part)) w

section

variable {start stop : Option Int}

theorem slice_eq (v : Value) (start stop : Option Int) (w : World) :
    Library.slice v (boundValue start) (boundValue stop) w =
      (match v with
        | .list r => Library.listOf (sliceOf (w.store.list r).toList start stop)
        | .text t => pure (Library.ofChars (sliceOf t.toList start stop))
        | _ => Library.refuse : Eval Value) w := by
  unfold Library.slice
  rw [Eval.run_bind_of_ok (integer?_boundValue start w),
    Eval.run_bind_of_ok (integer?_boundValue stop w)]
  cases v <;> rfl

/-- Bounds that are left out make no difference. -/
theorem Bounds.apply_list {args : List Value} (h : Bounds args start stop) (run : Runner)
    (r : ListRef) :
    ListFunction.slice.apply run (.list r :: args) =
        Library.slice (.list r) (boundValue start) (boundValue stop) ∧
      ListMember.slice.apply run r args =
        Library.slice (.list r) (boundValue start) (boundValue stop) := by
  cases h <;> exact ⟨rfl, rfl⟩

theorem Bounds.apply_text {args : List Value} (h : Bounds args start stop) (t : String) :
    StringFunction.slice.apply (.text t :: args) =
        Library.slice (.text t) (boundValue start) (boundValue stop) ∧
      StringMember.slice.apply t args =
        Library.slice (.text t) (boundValue start) (boundValue stop) := by
  cases h <;> exact ⟨rfl, rfl⟩

theorem slicesList_sliceOf (xs : List Value) (start stop : Option Int) :
    SlicesList xs start stop (sliceOf xs start stop) := by
  rintro args h run w r rfl
  obtain ⟨hfunction, hmember⟩ := h.apply_list run r
  rw [hfunction, hmember, and_self]
  exact slice_eq (.list r) start stop w

theorem slicesText_sliceOf (t : String) (start stop : Option Int) :
    SlicesText t start stop (sliceOf t.toList start stop) := by
  intro args h w
  obtain ⟨hfunction, hmember⟩ := h.apply_text t
  rw [hfunction, hmember, and_self]
  exact slice_eq (.text t) start stop w

end

/-! ## The functions -/

/-- A splice is what is in front of a place, what is inserted, and what is behind the items that are
    taken out. -/
theorem givesList_splice (run : Runner) (w : World) (r : ListRef) (i d : Int) (ins : List Value) :
    GivesList (ListFunction.splice.apply run (.list r :: .int i :: .int d :: ins)) w
      ((w.store.list r).toList.take (clampIndex (w.store.list r).toList.length i) ++ ins ++
        (w.store.list r).toList.drop (clampIndex (w.store.list r).toList.length i + d.toNat)) := rfl

/-- Slices and splices cut at places that indexes of any size and sign mean: a negative one counts
    from the end, and no place is outside of the sequence.

    * A splice is a copy of a list with the items between two places replaced, and the list stays
      as it is.
    * The slices up to a place and from it on are the whole list.
    * Strings are cut into slices at the same places as lists of the same length, whether the bounds
      are given, null or left out, by the functions and by the members. -/
theorem slices_partition :
    (∀ (run : Runner) (w : World) (r : ListRef), w.store.lists.Holds r →
      ∀ (i d : Int) (ins : List Value), ∃ s e : Nat,
        (s : Int) = clamped (w.store.list r).size i ∧
        (e : Int) = min ((w.store.list r).size : Int) (s + max d 0) ∧
        GivesList (ListFunction.splice.apply run (.list r :: .int i :: .int d :: ins)) w
          ((w.store.list r).toList.take s ++ ins ++ (w.store.list r).toList.drop e) ∧
        ∀ items, (w.withList items).store.list r = w.store.list r) ∧
    (∀ (xs : List Value) (k : Int), ∃ front back, front ++ back = xs ∧
      SlicesList xs (some 0) (some k) front ∧ SlicesList xs (some k) none back) ∧
    ∀ (t : String) (start stop : Option Int), ∃ lo hi : Nat,
      (lo : Int) = start.elim 0 (clamped t.length) ∧
      (hi : Int) = stop.elim (t.length : Int) (clamped t.length) ∧
      SlicesText t start stop ((t.toList.take hi).drop lo) ∧
      ∀ xs : List Value, xs.length = t.length →
        SlicesList xs start stop ((xs.take hi).drop lo) := by
  refine ⟨fun run w r hr i d ins => ?_, fun xs k => ?_, fun t start stop => ?_⟩
  · have hplace := clampIndex_eq (w.store.list r).size i
    have hsplice := givesList_splice run w r i d ins
    rw [Array.length_toList, ← drop_min, Array.length_toList] at hsplice
    exact ⟨_, _, hplace, by omega, hsplice, list_withList hr⟩
  · exact ⟨_, _, sliceOf_append_sliceOf xs k, slicesList_sliceOf xs _ _, slicesList_sliceOf xs _ _⟩
  · refine ⟨start.elim 0 (clampIndex t.length), stop.elim t.length (clampIndex t.length), ?_, ?_,
      ?_, fun xs hxs => ?_⟩
    · cases start with
      | none => rfl
      | some i => exact clampIndex_eq _ i
    · cases stop with
      | none => rfl
      | some i => exact clampIndex_eq _ i
    · have hslice := slicesText_sliceOf t start stop
      rwa [sliceOf_eq, String.length_toList] at hslice
    · have hslice := slicesList_sliceOf xs start stop
      rwa [sliceOf_eq, hxs] at hslice

/-- A session with a list of three items. -/
def threeNumbers : World :=
  { Session.bareWorld {} [] with
    store := { Store.empty with lists := ⟨#[#[.int 1, .int 2, .int 3]]⟩ } }

/-- A place far in front of the list is its start, and no more is taken out than is there. -/
theorem slices_partition_threeItems :
    threeNumbers.store.lists.Holds ⟨0⟩ ∧
      (∃ s e : Nat, s = 0 ∧ e = 3 ∧
        GivesList (ListFunction.splice.apply (Evaluate.bounded 0)
          [.list ⟨0⟩, .int (-7), .int 5, .text "new"]) threeNumbers
          ([.int 1, .int 2, .int 3].take s ++ [.text "new"] ++ [.int 1, .int 2, .int 3].drop e)) ∧
      ∃ lo hi : Nat, lo = 1 ∧ hi = 3 ∧
        SlicesText "abc" (some (-2)) none (("abc".toList.take hi).drop lo) ∧
        SlicesList [.int 1, .int 2, .int 3] (some (-2)) none
          (([Value.int 1, .int 2, .int 3].take hi).drop lo) := by
  have hheld : threeNumbers.store.lists.Holds ⟨0⟩ := by decide
  obtain ⟨hsplice, -, hslices⟩ := slices_partition
  obtain ⟨s, e, hs, he, hgives, -⟩ :=
    hsplice (Evaluate.bounded 0) threeNumbers ⟨0⟩ hheld (-7) 5 [.text "new"]
  obtain ⟨lo, hi, hlo, hhi, htext, hlist⟩ := hslices "abc" (some (-2)) none
  have hzero : s = 0 := Int.ofNat_inj.mp hs
  subst hzero
  exact ⟨hheld, ⟨0, e, rfl, Int.ofNat_inj.mp he, hgives⟩, lo, hi, Int.ofNat_inj.mp hlo,
    Int.ofNat_inj.mp hhi, htext, hlist _ rfl⟩

end EventScript
