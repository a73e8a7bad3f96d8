import Mathlib.Data.List.Basic

/-! # Stable orders

To sort items stably is to put them into order and to leave those as they stand that are tied.
There is one way only to do so.  It can be done one item after the other, each of which is put
between the items that it is not below and those that it is below.

* `StablySorted.insert`     one more item
* `StablySorted.unique`     there is one result only
* `StablySorted.again`      what is sorted stays as it is
-/

namespace EventScript.Library.Sorting

variable {α β : Type} {le : α → α → Bool} {vs ws ws' : List α} {a b c : α}

/-- The items can be ordered: any two of them are in order one way or the other, or both ways if
    they are tied, and the order is transitive. -/
structure Ranks (le : α → α → Bool) (vs : List α) : Prop where
  total : ∀ a ∈ vs, ∀ b ∈ vs, le a b = true ∨ le b a = true
  trans : ∀ a ∈ vs, ∀ b ∈ vs, ∀ c ∈ vs, le a b = true → le b c = true → le a c = true

/-- The items that are tied with an item, in order. -/
def tied (le : α → α → Bool) (a : α) (vs : List α) : List α := vs.filter fun b => le a b && le b a

/-- The second list has the items of the first one in order, and those that are tied stand as they
    stood. -/
structure StablySorted (le : α → α → Bool) (vs ws : List α) : Prop where
  perm : ws.Perm vs
  ordered : ws.Pairwise fun a b => le a b = true
  tied_eq : ∀ a ∈ vs, tied le a ws = tied le a vs

namespace Ranks

theorem refl (h : Ranks le vs) (ha : a ∈ vs) : le a a = true := (h.total a ha a ha).elim id id

theorem le_of_not_le (h : Ranks le vs) (ha : a ∈ vs) (hb : b ∈ vs) (hab : le a b = false) :
    le b a = true := (h.total a ha b hb).resolve_left (Bool.eq_false_iff.mp hab)

/-- What is not above an item is not above what is above that. -/
theorem not_le_of_le (h : Ranks le vs) (ha : a ∈ vs) (hb : b ∈ vs) (hc : c ∈ vs)
    (hab : le a b = true) (hac : le a c = false) : le b c = false :=
  Bool.eq_false_iff.mpr fun hbc =>
    Bool.eq_false_iff.mp hac (h.trans a ha b hb c hc hab hbc)

theorem mono (h : Ranks le vs) (hsub : ws ⊆ vs) : Ranks le ws :=
  ⟨fun a ha b hb => h.total a (hsub ha) b (hsub hb),
    fun a ha b hb c hc => h.trans a (hsub ha) b (hsub hb) c (hsub hc)⟩

/-- Items can be ordered by a property of theirs. -/
theorem comap {f : β → α} {us : List β} (h : Ranks le (us.map f)) :
    Ranks (fun a b => le (f a) (f b)) us := by
  have hmem : ∀ {a}, a ∈ us → f a ∈ us.map f := List.mem_map_of_mem
  exact ⟨fun a ha b hb => h.total _ (hmem ha) _ (hmem hb),
    fun a ha b hb c hc => h.trans _ (hmem ha) _ (hmem hb) _ (hmem hc)⟩

/-- Items that are tied are tied with the same items. -/
theorem tied_congr (h : Ranks le vs) (ha : a ∈ vs) (hb : b ∈ vs) (hab : le a b = true)
    (hba : le b a = true) (hws : ws ⊆ vs) : tied le a ws = tied le b ws := by
  refine List.filter_congr fun c hc => ?_
  rw [Bool.eq_iff_iff, Bool.and_eq_true, Bool.and_eq_true]
  have hc' : c ∈ vs := hws hc
  constructor
  · exact fun ⟨hac, hca⟩ => ⟨h.trans b hb a ha c hc' hba hac, h.trans c hc' a ha b hb hca hab⟩
  · exact fun ⟨hbc, hcb⟩ => ⟨h.trans a ha b hb c hc' hab hbc, h.trans c hc' b hb a ha hcb hba⟩

end Ranks

/-- Lists in order are the same if they have the same items and tied ones stand the same way. -/
theorem eq_of_tied (hrank : Ranks le ws) (hperm : ws.Perm ws')
    (hordered : ws.Pairwise fun a b => le a b = true)
    (hordered' : ws'.Pairwise fun a b => le a b = true)
    (htied : ∀ a ∈ ws, tied le a ws = tied le a ws') : ws = ws' := by
  induction ws generalizing ws' with
  | nil => exact (List.nil_perm.mp hperm).symm
  | cons a rest ih =>
    cases ws' with
    | nil => exact absurd hperm.symm (List.nil_perm.not.mpr (List.cons_ne_nil a rest))
    | cons b rest' =>
      have ha : a ∈ a :: rest := List.mem_cons_self
      have hb : b ∈ a :: rest := hperm.mem_iff.mpr List.mem_cons_self
      -- both are first in order, so they are tied, and so each is the first that is tied with `a`
      have hab : le a b = true := by
        rcases List.mem_cons.mp hb with rfl | hmem
        · exact hrank.refl ha
        · exact (List.pairwise_cons.mp hordered).1 b hmem
      have hba : le b a = true := by
        rcases List.mem_cons.mp (hperm.mem_iff.mp ha) with rfl | hmem
        · exact hrank.refl ha
        · exact (List.pairwise_cons.mp hordered').1 a hmem
      obtain rfl : a = b := by
        have hfirst := htied a ha
        simp only [tied, List.filter_cons, hab, hba, hrank.refl ha, Bool.and_self, if_true]
          at hfirst
        exact (List.cons.inj hfirst).1
      refine congrArg (a :: ·) (ih (hrank.mono (List.subset_cons_self a rest)) hperm.cons_inv
        (List.pairwise_cons.mp hordered).2 (List.pairwise_cons.mp hordered').2 fun c hc => ?_)
      have hrest := htied c (List.mem_cons_of_mem a hc)
      simp only [tied, List.filter_cons] at hrest
      split at hrest
      · exact (List.cons.inj hrest).2
      · exact hrest

namespace StablySorted

/-- Items in order are sorted already. -/
theorem of_ordered (h : vs.Pairwise fun a b => le a b = true) : StablySorted le vs vs :=
  ⟨.refl vs, h, fun _ _ => rfl⟩

/-- The items that are tied with any other item stand as they stood too. -/
theorem tied_eq_of_ranks (h : StablySorted le vs ws) (hrank : Ranks le (vs ++ [a])) :
    tied le a ws = tied le a vs := by
  have ha : a ∈ vs ++ [a] := List.mem_append_right vs (List.mem_singleton_self a)
  have hvs : vs ⊆ vs ++ [a] := List.subset_append_left vs [a]
  -- what is tied with the item is tied with any item that it is tied with itself, if there is one
  by_cases hex : ∃ b ∈ vs, le a b = true ∧ le b a = true
  · obtain ⟨b, hb, hab, hba⟩ := hex
    rw [hrank.tied_congr ha (hvs hb) hab hba hvs,
      hrank.tied_congr ha (hvs hb) hab hba (List.Subset.trans h.perm.subset hvs), h.tied_eq b hb]
  · have hnone : ∀ xs ⊆ vs, tied le a xs = [] := fun xs hxs =>
      List.filter_eq_nil_iff.mpr fun b hb htied =>
        hex ⟨b, hxs hb, Bool.and_eq_true_iff.mp htied⟩
    rw [hnone ws h.perm.subset, hnone vs (List.Subset.refl vs)]

/-- One more item is put between the items that it is not below and those that it is below. -/
theorem insert {front back : List α} (h : StablySorted le vs (front ++ back))
    (hrank : Ranks le (vs ++ [a])) (hfront : ∀ b ∈ front, le b a = true)
    (hback : ∀ b ∈ back, le b a = false) : StablySorted le (vs ++ [a]) (front ++ a :: back) := by
  have hmem : ∀ b ∈ front ++ back, b ∈ vs ++ [a] := fun b hb =>
    List.mem_append_left [a] (h.perm.mem_iff.mp hb)
  have ha : a ∈ vs ++ [a] := List.mem_append_right vs (List.mem_singleton_self a)
  obtain ⟨hordered, hordered', hacross⟩ := List.pairwise_append.mp h.ordered
  refine ⟨?_, List.pairwise_append.mpr ⟨hordered, List.pairwise_cons.mpr ⟨?_, hordered'⟩, ?_⟩, ?_⟩
  · exact (List.perm_middle.trans (h.perm.cons a)).trans (List.perm_append_singleton a vs).symm
  · exact fun b hb => hrank.le_of_not_le (hmem b (List.mem_append_right front hb)) ha (hback b hb)
  · intro b hb c hc
    rcases List.mem_cons.mp hc with rfl | hc
    · exact hfront b hb
    · exact hacross b hb c hc
  · intro c hc
    have htied : tied le c (front ++ back) = tied le c vs := by
      rcases List.mem_append.mp hc with hc | hc
      · exact h.tied_eq c hc
      · exact List.mem_singleton.mp hc ▸ h.tied_eq_of_ranks hrank
    simp only [tied, List.filter_append, List.filter_cons, List.filter_nil] at htied ⊢
    rw [← htied]
    split
    · next hca =>
      -- what the item is below is not tied with it
      have hnone : tied le c back = [] := List.filter_eq_nil_iff.mpr fun b hb hcb => by
        rw [Bool.and_eq_true] at hca hcb
        have hba := hrank.trans b (hmem b (List.mem_append_right front hb)) c hc a ha hcb.2 hca.1
        rw [hback b hb] at hba
        cases hba
      rw [tied] at hnone
      rw [hnone, List.append_nil]
    · rw [List.append_nil]

/-- There is one way only to sort stably. -/
theorem unique (h : StablySorted le vs ws) (h' : StablySorted le vs ws') (hrank : Ranks le vs) :
    ws = ws' := by
  have hws : ws ⊆ vs := h.perm.subset
  refine eq_of_tied (hrank.mono hws) (h.perm.trans h'.perm.symm) h.ordered h'.ordered fun a ha => ?_
  rw [h.tied_eq a (hws ha), h'.tied_eq a (hws ha)]

/-- What is sorted stays as it is. -/
theorem again (h : StablySorted le vs ws) (h' : StablySorted le ws ws') (hrank : Ranks le vs) :
    ws' = ws :=
  h'.unique (of_ordered h.ordered) (hrank.mono h.perm.subset)

/-- What is sorted by a property of the items is sorted by the properties. -/
theorem map {f : α → β} {le : β → β → Bool}
    (h : StablySorted (fun a b => le (f a) (f b)) vs ws) :
    StablySorted le (vs.map f) (ws.map f) := by
  refine ⟨h.perm.map f, List.pairwise_map.mpr h.ordered, fun a ha => ?_⟩
  obtain ⟨b, hb, rfl⟩ := List.mem_map.mp ha
  rw [tied, tied, List.filter_map, List.filter_map]
  exact congrArg (List.map f) (h.tied_eq b hb)

end StablySorted

end EventScript.Library.Sorting
