import EventScript.Proofs.Sorting.Stable
import EventScript.Proofs.Yields

/-! # Sorting by insertion

The items that are sorted so far are those at the start, up to some item, and they are sorted
stably: at first they are the leading run, to which a further item is added at one end, and then one
item after the other is put into its place.  The order may be told by a computation that changes the
world, as long as it tells of any two items the same each time, so we say of a world what stays true
of it.

* `yields_placeOf`     the place of an item
* `yields_insertAll`   items put into their places
* `yields_sorted`      sorting
-/

namespace EventScript.Library.Sorting

variable {α β : Type} {I : World → Prop} {below : Runner → α → α → Eval Bool} {le : α → α → Bool}
  {vs ws done rest : List α} {a b : α} {w : World}

/-- In worlds with a property, which it keeps, a computation tells of any two items whether the one
    is below the other one. -/
def Tells (I : World → Prop) (below : Runner → α → α → Eval Bool) (le : α → α → Bool)
    (vs : List α) : Prop :=
  ∀ a ∈ vs, ∀ b ∈ vs, ∀ w, I w → YieldsIn I (fun run => below run a b) w (· = !le b a)

/-- What is told decides how a computation goes on. -/
theorem Tells.choose (htells : Tells I below le vs) (ha : a ∈ vs) (hb : b ∈ vs) (hw : I w)
    {yes no : Runner → Eval β} {p : β → Prop}
    (hyes : le b a = false → ∀ u, I u → YieldsIn I yes u p)
    (hno : le b a = true → ∀ u, I u → YieldsIn I no u p) :
    YieldsIn I (fun run => do if ← below run a b then yes run else no run) w p := by
  refine (htells a ha b hb w hw).bind fun answer u hanswer hu => ?_
  subst hanswer
  cases hle : le b a with
  | false => exact hyes hle u hu
  | true => exact hno hle u hu

theorem insertIdx_eq_append {place : Nat} (h : place ≤ ws.length) :
    ws.insertIdx place a = ws.take place ++ a :: ws.drop place := by
  obtain ⟨front, back, rfl, rfl, hinsert⟩ := List.exists_of_modifyTailIdx (List.cons a) h
  rw [List.take_left, List.drop_left]
  exact hinsert

/-- What is sorted so far and the next item are among the items. -/
theorem StablySorted.subset_of_next (h : StablySorted le done ws) (hvs : done ++ a :: rest = vs) :
    done ++ [a] ⊆ vs ∧ ws ⊆ vs ∧ a ∈ vs := by
  have hdone : done ++ [a] ⊆ vs := by
    rw [← hvs, List.append_cons done a rest]
    exact List.subset_append_left _ rest
  exact ⟨hdone, fun b hb => hdone (List.mem_append_left [a] (h.perm.mem_iff.mp hb)),
    hdone (List.mem_append_right done (List.mem_singleton_self a))⟩

section

variable (htells : Tells I below le vs) (hrank : Ranks le vs)
include htells hrank

/-! ## Places -/

/-- Halving comes to the place of an item: it is not below what is in front of that, and below all
    that is behind it. -/
theorem yields_placeOf (hws : ws ⊆ vs) (ha : a ∈ vs)
    (hordered : ws.Pairwise fun b c => le b c = true) :
    ∀ bound lo hi w, I w → lo ≤ hi → hi < lo + bound → hi ≤ ws.length →
      (∀ b ∈ ws.take lo, le b a = true) → (∀ b ∈ ws.drop hi, le b a = false) →
      YieldsIn I (fun run => placeOf (below run) ws.toArray a bound lo hi) w fun place =>
        place ≤ ws.length ∧ (∀ b ∈ ws.take place, le b a = true) ∧
          ∀ b ∈ ws.drop place, le b a = false := by
  -- by induction on the bound, which is larger than the distance of the two places
  intro bound
  induction bound with
  | zero => intro lo hi w _ hle hlt; omega
  | succ bound ih =>
    intro lo hi w hw hle hlt hhi hfront hback
    by_cases hmore : lo < hi
    · have hmid : lo + (hi - lo) / 2 < ws.length := by omega
      generalize hmid' : lo + (hi - lo) / 2 = mid at hmid
      have hget : ws.toArray[mid]? = some ws[mid] := by simp [hmid]
      have hb : ws[mid] ∈ vs := hws (List.getElem_mem hmid)
      have hsplit : ws.take mid ++ ws[mid] :: ws.drop (mid + 1) = ws := by simp
      rw [← hsplit, List.pairwise_append, List.pairwise_cons] at hordered
      obtain ⟨-, ⟨hbehind, -⟩, hbefore⟩ := hordered
      simp only [placeOf, hmid', if_pos hmore, hget]
      refine htells.choose ha hb hw (fun hcompare u hu => ?_) fun hcompare u hu => ?_
      · refine ih lo mid u hu (by omega) (by omega) (by omega) hfront fun b hmem => ?_
        rw [List.drop_eq_getElem_cons hmid] at hmem
        rcases List.mem_cons.mp hmem with rfl | hmem
        · exact hcompare
        · exact hrank.not_le_of_le hb (hws (List.mem_of_mem_drop hmem)) ha (hbehind b hmem) hcompare
      · refine ih (mid + 1) hi u hu (by omega) (by omega) hhi (fun b hmem => ?_) hback
        rw [List.take_add_one, List.getElem?_eq_getElem hmid] at hmem
        rcases List.mem_append.mp hmem with hmem | hmem
        · exact hrank.trans b (hws (List.mem_of_mem_take hmem)) _ hb a ha
            (hbefore b hmem _ List.mem_cons_self) hcompare
        · rwa [List.mem_singleton.mp hmem]
    · obtain rfl : lo = hi := by omega
      simp only [placeOf, if_neg hmore]
      exact .pure ⟨hhi, hfront, hback⟩ hw

/-- Items are put into their places, one after the other. -/
theorem yields_insertAll (rest : List α) : ∀ {done ws w}, done ++ rest = vs →
    StablySorted le done ws → I w →
      YieldsIn I (fun run => insertAll (below run) ws.toArray rest) w
        fun sorted => StablySorted le vs sorted.toList := by
  induction rest with
  | nil =>
    intro done ws w hvs hsorted hw
    rw [List.append_nil] at hvs
    exact .pure (hvs ▸ hsorted) hw
  | cons a rest ih =>
    intro done ws w hvs hsorted hw
    obtain ⟨hdone, hws, ha⟩ := hsorted.subset_of_next hvs
    refine (yields_placeOf htells hrank hws ha hsorted.ordered _ 0 _ w hw (Nat.zero_le _) (by simp)
      (by simp) (by simp) (by simp)).bind fun place u ⟨hplace, hfront, hback⟩ hu => ?_
    rw [List.insertIdxIfInBounds_toArray, insertIdx_eq_append hplace]
    refine ih (List.append_cons .. ▸ hvs) (.insert ?_ (hrank.mono hdone) hfront hback) hu
    rwa [List.take_append_drop]

/-! ## Runs -/

/-- In a run that falls, each item is put in front of those before it. -/
theorem yields_fallingRun (rest : List α) : ∀ {done last run w}, done ++ rest = vs →
    StablySorted le done (last :: run) → I w →
      YieldsIn I (fun runner => fallingRun (below runner) last run rest) w
        fun split => ∃ done, done ++ split.2 = vs ∧ StablySorted le done split.1 := by
  induction rest with
  | nil => exact fun hvs hsorted hw => .pure ⟨_, hvs, hsorted⟩ hw
  | cons a rest ih =>
    intro done last run w hvs hsorted hw
    obtain ⟨hdone, hrun, ha⟩ := hsorted.subset_of_next hvs
    have hlast : last ∈ vs := hrun List.mem_cons_self
    refine htells.choose ha hlast hw (fun hcompare u hu => ?_) fun _ u hu =>
      .pure ⟨done, hvs, hsorted⟩ hu
    have hback : ∀ b ∈ last :: run, le b a = false := by
      intro b hb
      rcases List.mem_cons.mp hb with rfl | hmem
      · exact hcompare
      · exact hrank.not_le_of_le hlast (hrun hb) ha
          ((List.pairwise_cons.mp hsorted.ordered).1 b hmem) hcompare
    have hnext : StablySorted le (done ++ [a]) ([] ++ a :: last :: run) :=
      hsorted.insert (hrank.mono hdone) (List.forall_mem_nil _) hback
    exact ih (List.append_cons .. ▸ hvs) hnext hu

/-- In a run that does not fall, each item is put behind those before it. -/
theorem yields_risingRun (rest : List α) : ∀ {done last run w}, done ++ rest = vs →
    StablySorted le done (last :: run).reverse → I w →
      YieldsIn I (fun runner => risingRun (below runner) last run rest) w
        fun split => ∃ done, done ++ split.2 = vs ∧ StablySorted le done split.1.reverse := by
  induction rest with
  | nil => exact fun hvs hsorted hw => .pure ⟨_, hvs, hsorted⟩ hw
  | cons a rest ih =>
    intro done last run w hvs hsorted hw
    obtain ⟨hdone, hrun, ha⟩ := hsorted.subset_of_next hvs
    have hlast : last ∈ vs := hrun (List.mem_reverse.mpr List.mem_cons_self)
    refine htells.choose ha hlast hw (fun _ u hu => .pure ⟨done, hvs, hsorted⟩ hu)
      fun hcompare u hu => ?_
    have hfront : ∀ b ∈ (last :: run).reverse, le b a = true := by
      intro b hb
      rcases List.mem_cons.mp (List.mem_reverse.mp hb) with rfl | hmem
      · exact hcompare
      · have hle := (List.pairwise_cons.mp (List.pairwise_reverse.mp hsorted.ordered)).1 b hmem
        exact hrank.trans b (hrun hb) last hlast a ha hle hcompare
    have hnext : StablySorted le (done ++ [a]) (a :: last :: run).reverse := by
      rw [List.reverse_cons]
      exact .insert (by rwa [List.append_nil]) (hrank.mono hdone) hfront (List.forall_mem_nil _)
    exact ih (List.append_cons .. ▸ hvs) hnext hu

end

/-! ## Sorting -/

/-- Items are sorted stably. -/
theorem yields_sorted (htells : Tells I below le vs) (hrank : Ranks le vs) (hw : I w) :
    YieldsIn I (fun run => sorted (below run) vs) w (StablySorted le vs) := by
  match vs with
  | [] => exact .pure (.of_ordered .nil) hw
  | [a] => exact .pure (.of_ordered (List.pairwise_singleton _ a)) hw
  | a :: b :: rest =>
    have hone : StablySorted le [a] [a] := .of_ordered (List.pairwise_singleton _ a)
    have hvs : [a] ++ b :: rest = a :: b :: rest := rfl
    obtain ⟨hboth, hone', hb⟩ := hone.subset_of_next hvs
    have ha : a ∈ a :: b :: rest := hone' (List.mem_singleton_self a)
    refine htells.choose hb ha hw (fun hfalls u hu => ?_) fun hrises u hu => ?_
    · have htwo : StablySorted le [a, b] ([] ++ b :: [a]) :=
        hone.insert (hrank.mono hboth) (List.forall_mem_nil _) (by simpa using hfalls)
      refine (yields_fallingRun htells hrank rest rfl htwo hu).bind
        fun split u ⟨done, hvs, hsorted⟩ hu => ?_
      exact (yields_insertAll htells hrank split.2 hvs hsorted hu).bind fun _ _ => .pure
    · have htwo : StablySorted le [a, b] ([a] ++ b :: []) :=
        hone.insert (hrank.mono hboth) (by simpa using hrises) (List.forall_mem_nil _)
      refine (yields_risingRun htells hrank rest rfl htwo hu).bind
        fun split u ⟨done, hvs, hsorted⟩ hu => ?_
      exact (yields_insertAll htells hrank split.2 hvs hsorted hu).bind fun _ _ => .pure

end EventScript.Library.Sorting
