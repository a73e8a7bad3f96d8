import EventScript.Proofs.Comparison
import EventScript.Proofs.Yields.Expressions

/-! # Lists as sets

Four functions of the namespace `list` treat lists as sets, where equal items count as one.  On
lists of values without floating point numbers, that do not contain themselves, what a list
includes then obeys the laws of sets, for whatever value is asked about.

* `Library.unique_eq_firsts`           the first of each group of equal items is kept, in order
* `Library.includes_unique`            which makes no difference to what is included
* `Library.includes_common`            the items that another list includes as well
* `Library.includes_others`            and those that it does not
* `set_functions_obey_set_algebra`     the four functions, at any later time
-/

namespace EventScript

namespace Library

variable {s s' : Store} {vs ws : List Value} {v x : Value}

/-! ## What a list includes -/

theorem includes_iff : includes s vs x = true ↔ ∃ v ∈ vs, s.equal v x = true := by
  rw [includes, placeOf?, List.findIdx?_isSome, List.any_eq_true]

theorem includes_append (s : Store) (vs ws : List Value) (x : Value) :
    includes s (vs ++ ws) x = (includes s vs x || includes s ws x) := by
  rw [Bool.eq_iff_iff, Bool.or_eq_true]
  simp only [includes_iff, List.mem_append, or_and_right, exists_or]

theorem includes_singleton (s : Store) (v x : Value) : includes s [v] x = s.equal v x := by
  rw [Bool.eq_iff_iff]
  simp [includes_iff]

theorem equal_eq_false_of_not_includes (h : includes s vs x = false) (hv : v ∈ vs) :
    s.equal v x = false :=
  Bool.eq_false_iff.mpr fun hequal =>
    Bool.eq_false_iff.mp h (includes_iff.mpr ⟨v, hv, hequal⟩)

theorem includes_of_mem (hx : s.Exact x) (hmem : x ∈ vs) : includes s vs x = true :=
  includes_iff.mpr ⟨x, hmem, (Store.equal_iff_same hx hx).mpr (.refl x)⟩

theorem equal_comm {a b : Value} (ha : s.Exact a) (hb : s.Exact b) : s.equal a b = s.equal b a := by
  rw [Bool.eq_iff_iff, Store.equal_iff_same ha hb, Store.equal_iff_same hb ha]
  exact ⟨.symm, .symm⟩

/-- What is equal to an included value is included. -/
theorem includes_of_equal (hvs : ∀ v ∈ vs, s.Exact v) (hv : s.Exact v)
    (hincludes : includes s vs v = true) (hx : s.equal v x = true) : includes s vs x = true := by
  obtain ⟨z, hz, hequal⟩ := includes_iff.mp hincludes
  have hsame : s.Same z v := (Store.equal_iff_same (hvs z hz) hv).mp hequal
  exact includes_iff.mpr ⟨z, hz, (Store.equal_eq_of_same (hvs z hz) hv hsame x).trans hx⟩

/-- A list includes an item if it includes what the item is equal to. -/
theorem includes_of_equal_of_includes (hvs : ∀ v ∈ vs, s.Exact v) (hv : s.Exact v)
    (hx : s.equal v x = true) (hincludes : includes s vs x = true) : includes s vs v = true := by
  obtain ⟨z, hz, hequal⟩ := includes_iff.mp hincludes
  exact includes_iff.mpr ⟨z, hz, (Store.equal_iff_same (hvs z hz) hv).mpr
    (Store.same_of_equal (hvs z hz) hv hequal hx)⟩

/-! ## The first of each group -/

/-- No two of the values are equal. -/
def Apart (s : Store) (vs : List Value) : Prop :=
  vs.Pairwise fun v w => s.equal v w = false ∧ s.equal w v = false

/-- The values that are equal to none before them, in order. -/
def firsts (s : Store) (vs : List Value) : List Value :=
  (vs.zipIdx.filter fun e => !includes s (vs.take e.2) e.1).map Prod.fst

theorem firsts_concat (s : Store) (vs : List Value) (v : Value) :
    firsts s (vs ++ [v]) = firsts s vs ++ if includes s vs v then [] else [v] := by
  have hbefore : ∀ e ∈ vs.zipIdx, (!includes s ((vs ++ [v]).take e.2) e.1) =
      !includes s (vs.take e.2) e.1 := fun e he => by
    have hlt := List.snd_lt_of_mem_zipIdx he
    rw [List.take_append_of_le_length (by omega)]
  rw [firsts, List.zipIdx_append, List.filter_append, List.map_append, List.filter_congr hbefore,
    firsts]
  congr 1
  simp only [List.zipIdx_singleton, Nat.zero_add, List.filter_cons, List.take_left,
    List.filter_nil]
  cases includes s vs v <;> rfl

theorem uniqueFrom_concat (s : Store) (vs : List Value) (v : Value) : ∀ kept : List Value,
    uniqueFrom s kept (vs ++ [v]) =
      uniqueFrom s kept vs ++ if includes s (uniqueFrom s kept vs) v then [] else [v] := by
  induction vs with
  | nil =>
    intro kept
    simp only [List.nil_append, uniqueFrom]
    by_cases hkept : includes s kept.reverse v = true <;> simp [hkept]
  | cons u vs ih =>
    intro kept
    simp only [List.cons_append, uniqueFrom]
    split <;> exact ih _

/-- One more value is kept if it is equal to none that was kept. -/
theorem unique_concat (s : Store) (vs : List Value) (v : Value) :
    unique s (vs ++ [v]) = unique s vs ++ if includes s (unique s vs) v then [] else [v] :=
  uniqueFrom_concat s vs v []

theorem mem_of_mem_unique : v ∈ unique s vs → v ∈ vs := by
  induction vs using List.reverseRecOn with
  | nil => exact id
  | append_singleton vs u ih =>
    rw [unique_concat, List.mem_append, List.mem_append]
    refine Or.imp ih fun h => ?_
    split at h
    · cases h
    · exact h

/-- What is left out makes no difference to what is included. -/
theorem includes_unique (hvs : ∀ v ∈ vs, s.Exact v) (x : Value) :
    includes s (unique s vs) x = includes s vs x := by
  induction vs using List.reverseRecOn with
  | nil => rfl
  | append_singleton vs v ih =>
    obtain ⟨hinit, hlast⟩ := List.forall_mem_append.mp hvs
    rw [unique_concat, includes_append, includes_append, ih hinit, includes_singleton]
    split
    · rename_i hkept
      have hold : s.equal v x = true → includes s (unique s vs) x = true :=
        includes_of_equal (fun z hz => hinit z (mem_of_mem_unique hz))
          (hlast v (List.mem_singleton_self v)) hkept
      rw [ih hinit] at hold
      cases hequal : s.equal v x with
      | false => rfl
      | true => rw [hold hequal]; rfl
    · rw [includes_singleton]

/-- The first of each group of equal values is kept, in order. -/
theorem unique_eq_firsts (hvs : ∀ v ∈ vs, s.Exact v) : unique s vs = firsts s vs := by
  induction vs using List.reverseRecOn with
  | nil => rfl
  | append_singleton vs v ih =>
    obtain ⟨hinit, -⟩ := List.forall_mem_append.mp hvs
    rw [unique_concat, firsts_concat, includes_unique hinit, ih hinit]

/-- Of each group of equal values one is kept. -/
theorem apart_unique (hvs : ∀ v ∈ vs, s.Exact v) : Apart s (unique s vs) := by
  induction vs using List.reverseRecOn with
  | nil => exact .nil
  | append_singleton vs v ih =>
    obtain ⟨hinit, hlast⟩ := List.forall_mem_append.mp hvs
    rw [unique_concat]
    split
    · rw [List.append_nil]
      exact ih hinit
    · rename_i hnew
      refine List.pairwise_append.mpr ⟨ih hinit, List.pairwise_singleton .., fun z hz w hw => ?_⟩
      obtain rfl := List.mem_singleton.mp hw
      have hequal := equal_eq_false_of_not_includes (Bool.eq_false_iff.mpr hnew) hz
      exact ⟨hequal, equal_comm (hlast w hw) (hinit z (mem_of_mem_unique hz)) ▸ hequal⟩

/-- Where no two values are equal, all of them are kept. -/
theorem unique_of_apart (h : Apart s vs) : unique s vs = vs := by
  induction vs using List.reverseRecOn with
  | nil => rfl
  | append_singleton vs v ih =>
    obtain ⟨hinit, -, hnew⟩ := List.pairwise_append.mp h
    have hnone : includes s vs v = false := Bool.eq_false_iff.mpr fun hincludes => by
      obtain ⟨z, hz, hequal⟩ := includes_iff.mp hincludes
      rw [(hnew z hz v (List.mem_singleton_self v)).1] at hequal
      cases hequal
    rw [unique_concat, ih hinit, hnone]
    rfl

/-! ## Common items -/

/-- The items that another list includes as well include what both lists include. -/
theorem includes_common (hvs : ∀ v ∈ vs, s.Exact v) (hws : ∀ w ∈ ws, s.Exact w) (x : Value) :
    includes s (vs.filter fun v => includes s ws v) x = (includes s vs x && includes s ws x) := by
  rw [Bool.eq_iff_iff, Bool.and_eq_true, includes_iff, includes_iff]
  simp only [List.mem_filter]
  constructor
  · rintro ⟨v, ⟨hv, hcommon⟩, hequal⟩
    exact ⟨⟨v, hv, hequal⟩, includes_of_equal hws (hvs v hv) hcommon hequal⟩
  · rintro ⟨⟨v, hv, hequal⟩, hincludes⟩
    exact ⟨v, ⟨hv, includes_of_equal_of_includes hws (hvs v hv) hequal hincludes⟩, hequal⟩

/-- The other items include what the first list includes and the second one does not. -/
theorem includes_others (hvs : ∀ v ∈ vs, s.Exact v) (hws : ∀ w ∈ ws, s.Exact w) (x : Value) :
    includes s (vs.filter fun v => !includes s ws v) x =
      (includes s vs x && !includes s ws x) := by
  rw [Bool.eq_iff_iff, Bool.and_eq_true, Bool.not_eq_true', includes_iff, includes_iff]
  simp only [List.mem_filter, Bool.not_eq_true']
  constructor
  · rintro ⟨v, ⟨hv, hother⟩, hequal⟩
    refine ⟨⟨v, hv, hequal⟩, Bool.eq_false_iff.mpr fun hincludes => ?_⟩
    rw [includes_of_equal_of_includes hws (hvs v hv) hequal hincludes] at hother
    cases hother
  · rintro ⟨⟨v, hv, hequal⟩, hnot⟩
    refine ⟨v, ⟨hv, Bool.eq_false_iff.mpr fun hincludes => ?_⟩, hequal⟩
    rw [includes_of_equal hws (hvs v hv) hincludes hequal] at hnot
    cases hnot

/-! ## What is made later -/

theorem includes_grows (hgrows : s.Grows s') (hvs : ∀ v ∈ vs, s.Exact v) (hx : s.Exact x) :
    includes s' vs x = includes s vs x := by
  rw [Bool.eq_iff_iff, includes_iff, includes_iff]
  refine exists_congr fun v => and_congr_right fun hv => ?_
  rw [Store.equal_grows hgrows (hvs v hv) hx]

theorem firsts_grows (hgrows : s.Grows s') (hvs : ∀ v ∈ vs, s.Exact v) :
    firsts s' vs = firsts s vs := by
  have hsame : ∀ e ∈ vs.zipIdx, (!includes s' (vs.take e.2) e.1) =
      !includes s (vs.take e.2) e.1 := fun e he => by
    rw [includes_grows hgrows (fun v hv => hvs v (List.mem_of_mem_take hv))
      (hvs e.1 (List.fst_mem_of_mem_zipIdx he))]
  rw [firsts, List.filter_congr hsame, firsts]

theorem unique_grows (hgrows : s.Grows s') (hvs : ∀ v ∈ vs, s.Exact v) :
    unique s' vs = unique s vs := by
  rw [unique_eq_firsts hvs, unique_eq_firsts fun v hv => (hvs v hv).mono hgrows,
    firsts_grows hgrows hvs]

end Library

/-! ## The functions -/

/-- A function on lists gives a new list with some items, and does nothing else. -/
def Makes (run : Runner) (f : ListFunction) (args : List Value) (w : World)
    (items : List Value) : Prop :=
  f.apply run args w = .ok (.list w.store.lists.next) (w.withList items.toArray)

/-- What `list.includes` answers. -/
def Answers (run : Runner) (w : World) (r : ListRef) (x : Value) (answer : Bool) : Prop :=
  ListFunction.includes.apply run [.list r, x] w = .ok (.bool answer) w

section

variable (run : Runner) {w u : World} {a b : ListRef}

theorem answers_includes {items : List Value} (h : (w.store.list a).toList = items) (x : Value) :
    Answers run w a x (Library.includes w.store items x) := by
  subst h
  rfl

theorem makes_unique (a : ListRef) :
    Makes run .unique [.list a] w (Library.unique w.store (w.store.list a).toList) := rfl

theorem makes_union (a b : ListRef) :
    Makes run .union [.list a, .list b] w
      (Library.unique w.store ((w.store.list a).toList ++ (w.store.list b).toList)) := rfl

theorem makes_intersection (a b : ListRef) :
    Makes run .intersection [.list a, .list b] w
      ((w.store.list a).toList.filter fun v =>
        Library.includes w.store (w.store.list b).toList v) := by
  show (if (w.store.list a).toList.isEmpty = true then _ else _ : Eval Value) w = _
  split
  · rename_i hempty
    rw [List.isEmpty_iff.mp hempty]
    rfl
  · rfl

theorem makes_difference (a b : ListRef) :
    Makes run .difference [.list a, .list b] w
      ((w.store.list a).toList.filter fun v =>
        !Library.includes w.store (w.store.list b).toList v) := by
  show (if (w.store.list a).toList.isEmpty = true then _ else _ : Eval Value) w = _
  split
  · rename_i hempty
    rw [List.isEmpty_iff.mp hempty]
    rfl
  · rfl

/-- What a list includes is what two lists include, combined. -/
def Combines (run : Runner) (w : World) (combine : Bool → Bool → Bool) (a b c : ListRef) : Prop :=
  ∀ x, ∃ p q, Answers run w a x p ∧ Answers run w b x q ∧ Answers run w c x (combine p q)

theorem combines_of_includes {combine : Bool → Bool → Bool} {vs ws items : List Value}
    (ha : (w.store.list a).toList = vs) (hb : (w.store.list b).toList = ws)
    (hitems : ∀ x, Library.includes w.store items x =
      combine (Library.includes w.store vs x) (Library.includes w.store ws x)) {c : ListRef}
    (hc : w.store.list c = items.toArray) : Combines run w combine a b c := fun x =>
  ⟨_, _, answers_includes run ha x, answers_includes run hb x,
    hitems x ▸ answers_includes run (by rw [hc]) x⟩

/-- What holds of `list.unique` at one time. -/
theorem unique_laws (ha : u.store.Exact (.list a)) {once : List Value}
    (honce : Library.unique u.store (u.store.list a).toList = once) :
    Makes run .unique [.list a] u once ∧ Library.Apart u.store once ∧
      ∀ c, u.store.list c = once.toArray →
        Makes run .unique [.list c] u once ∧
        (∀ v ∈ (u.store.list a).toList, Answers run u c v true) ∧
        ∀ x, ∃ p, Answers run u a x p ∧ Answers run u c x p := by
  subst honce
  have hvs : ∀ v ∈ (u.store.list a).toList, u.store.Exact v := fun v => ha.of_mem_contents
  refine ⟨makes_unique run a, Library.apart_unique hvs, fun c hc => ?_⟩
  have hanswers : ∀ x, Answers run u c x (Library.includes u.store (u.store.list a).toList x) :=
    fun x => Library.includes_unique hvs x ▸ answers_includes run (by rw [hc]) x
  refine ⟨?_, fun v hv => ?_, fun x => ⟨_, answers_includes run rfl x, hanswers x⟩⟩
  · have hagain := makes_unique run (w := u) c
    rwa [hc, Library.unique_of_apart (Library.apart_unique hvs)] at hagain
  · exact Library.includes_of_mem (hvs v hv) hv ▸ hanswers v

/-- What holds of `list.union` at one time. -/
theorem union_laws (ha : u.store.Exact (.list a)) (hb : u.store.Exact (.list b))
    {either : List Value} (heither : Library.unique u.store
      ((u.store.list a).toList ++ (u.store.list b).toList) = either) :
    Makes run .union [.list a, .list b] u either ∧ Library.Apart u.store either ∧
      ∀ c, u.store.list c = either.toArray → Combines run u (fun p q => p || q) a b c := by
  subst heither
  have hall : ∀ v ∈ (u.store.list a).toList ++ (u.store.list b).toList, u.store.Exact v :=
    List.forall_mem_append.mpr ⟨fun v => ha.of_mem_contents, fun v => hb.of_mem_contents⟩
  refine ⟨makes_union run a b, Library.apart_unique hall,
    fun c => combines_of_includes run rfl rfl fun x => ?_⟩
  rw [Library.includes_unique hall, Library.includes_append]

/-- What holds of `list.intersection` and `list.difference` at one time. -/
theorem split_laws (ha : u.store.Exact (.list a)) (hb : u.store.Exact (.list b))
    {both rest : List Value}
    (hboth : (u.store.list a).toList.filter (fun v =>
      Library.includes u.store (u.store.list b).toList v) = both)
    (hrest : (u.store.list a).toList.filter (fun v =>
      !Library.includes u.store (u.store.list b).toList v) = rest) :
    (Makes run .intersection [.list a, .list b] u both ∧
      ∀ c, u.store.list c = both.toArray → Combines run u (fun p q => p && q) a b c) ∧
    (Makes run .difference [.list a, .list b] u rest ∧
      ∀ c, u.store.list c = rest.toArray → Combines run u (fun p q => p && !q) a b c) ∧
    ∀ v ∈ both, ∀ z ∈ rest, u.store.equal v z = false ∧ u.store.equal z v = false := by
  subst hboth hrest
  have hvs : ∀ v ∈ (u.store.list a).toList, u.store.Exact v := fun v => ha.of_mem_contents
  have hws : ∀ v ∈ (u.store.list b).toList, u.store.Exact v := fun v => hb.of_mem_contents
  have hcommon := Library.includes_common hvs hws
  have hothers := Library.includes_others hvs hws
  refine ⟨⟨makes_intersection run a b, fun c => combines_of_includes run rfl rfl hcommon⟩,
    ⟨makes_difference run a b, fun c => combines_of_includes run rfl rfl hothers⟩,
    fun v hv z hz => ?_⟩
  obtain ⟨hv, hcommon⟩ := List.mem_filter.mp hv
  obtain ⟨hz, hother⟩ := List.mem_filter.mp hz
  -- what is equal to a common item would be one
  have hequal : u.store.equal v z = false := Bool.eq_false_iff.mpr fun hequal => by
    rw [Library.includes_of_equal hws (hvs v hv) hcommon hequal] at hother
    cases hother
  exact ⟨hequal, Library.equal_comm (hvs z hz) (hvs v hv) ▸ hequal⟩

end

/-- The four functions on sets, for lists `a` and `b` of values without floating point numbers, that
    do not contain themselves.  What they give is the same at any later time `u`, and so are the
    laws, for any list `c` with the items of a result and any value whatever that is asked about. -/
theorem set_functions_obey_set_algebra (run : Runner) {w : World} {a b : ListRef}
    (ha : w.store.Exact (.list a)) (hb : w.store.Exact (.list b)) :
    ∃ once either both rest : List Value,
      once = Library.firsts w.store (w.store.list a).toList ∧
      both.Sublist (w.store.list a).toList ∧ rest.Sublist (w.store.list a).toList ∧
      (both ++ rest).Perm (w.store.list a).toList ∧
      ∀ u : World, w.store.Grows u.store →
        (Makes run .unique [.list a] u once ∧ Library.Apart u.store once ∧
          ∀ c, u.store.list c = once.toArray →
            Makes run .unique [.list c] u once ∧
            (∀ v ∈ (w.store.list a).toList, Answers run u c v true) ∧
            ∀ x, ∃ p, Answers run u a x p ∧ Answers run u c x p) ∧
        (Makes run .union [.list a, .list b] u either ∧ Library.Apart u.store either ∧
          ∀ c, u.store.list c = either.toArray → Combines run u (fun p q => p || q) a b c) ∧
        (Makes run .intersection [.list a, .list b] u both ∧
          ∀ c, u.store.list c = both.toArray → Combines run u (fun p q => p && q) a b c) ∧
        (Makes run .difference [.list a, .list b] u rest ∧
          ∀ c, u.store.list c = rest.toArray → Combines run u (fun p q => p && !q) a b c) ∧
        ∀ v ∈ both, ∀ z ∈ rest, u.store.equal v z = false ∧ u.store.equal z v = false := by
  have hvs : ∀ v ∈ (w.store.list a).toList, w.store.Exact v := fun v => ha.of_mem_contents
  have hws : ∀ v ∈ (w.store.list b).toList, w.store.Exact v := fun v => hb.of_mem_contents
  have hall := List.forall_mem_append.mpr ⟨hvs, hws⟩
  refine ⟨Library.unique w.store (w.store.list a).toList,
    Library.unique w.store ((w.store.list a).toList ++ (w.store.list b).toList),
    (w.store.list a).toList.filter fun v => Library.includes w.store (w.store.list b).toList v,
    (w.store.list a).toList.filter fun v => !Library.includes w.store (w.store.list b).toList v,
    Library.unique_eq_firsts hvs, List.filter_sublist, List.filter_sublist,
    List.filter_append_perm _ _, fun u hgrows => ?_⟩
  have hlista := ha.acyclic.list_eq hgrows
  have hlistb := hb.acyclic.list_eq hgrows
  have hsame : ∀ v ∈ (w.store.list a).toList,
      Library.includes u.store (w.store.list b).toList v =
        Library.includes w.store (w.store.list b).toList v := fun v hv =>
    Library.includes_grows hgrows hws (hvs v hv)
  have honce : Library.unique u.store (u.store.list a).toList =
      Library.unique w.store (w.store.list a).toList := by
    rw [hlista, Library.unique_grows hgrows hvs]
  have heither : Library.unique u.store ((u.store.list a).toList ++ (u.store.list b).toList) =
      Library.unique w.store ((w.store.list a).toList ++ (w.store.list b).toList) := by
    rw [hlista, hlistb, Library.unique_grows hgrows hall]
  have hboth := List.filter_congr hsame
  have hrest := List.filter_congr fun v hv => congrArg not (hsame v hv)
  rw [← hlista, ← hlistb] at hboth hrest
  have hunique := unique_laws run (ha.mono hgrows) honce
  have hunion := union_laws run (ha.mono hgrows) (hb.mono hgrows) heither
  have hsplit := split_laws run (ha.mono hgrows) (hb.mono hgrows) hboth hrest
  rw [hlista, hlistb] at hsplit
  rw [hlista] at hunique
  exact ⟨hunique, hunion, hsplit.1, hsplit.2.1, hsplit.2.2⟩

/-- What a function gives is determined. -/
theorem Makes.eq {run : Runner} {f : ListFunction} {args : List Value} {w : World}
    {vs ws : List Value} (hvs : Makes run f args w vs) (hws : Makes run f args w ws) : vs = ws := by
  have hworlds : w.withList vs.toArray = w.withList ws.toArray :=
    (EStateM.Result.ok.inj (hvs.symm.trans hws)).2
  have hlists := congrArg (fun u : World => u.store.list w.store.lists.next) hworlds
  have hitems : vs.toArray = ws.toArray := by
    simpa [World.withList, Store.list] using hlists
  exact List.toArray_inj hitems

/-- A session with lists in which a map turns up again with its keys in another order. -/
def collected : World :=
  { Session.bareWorld {} [] with
    store := { Store.swapped with
      lists := ⟨#[#[.map ⟨0⟩], #[.map ⟨1⟩], #[.map ⟨0⟩, .int 1, .map ⟨1⟩],
        #[.text "b", .map ⟨1⟩]]⟩ } }

theorem exact_collected {r : ListRef} (hr : r = ⟨2⟩ ∨ r = ⟨3⟩) :
    collected.store.Exact (.list r) := by
  have hgrows : Store.swapped.Grows collected.store := by
    refine ⟨⟨by decide, fun r hr => ?_⟩, .refl _⟩
    obtain ⟨i⟩ := r
    obtain rfl | rfl : i = 0 ∨ i = 1 := by
      have hlt : i < 2 := hr
      omega
    · rfl
    · rfl
  have hmap : ∀ {i : Nat}, i < 2 → collected.store.Exact (.map ⟨i⟩) := fun {i} hi => by
    refine ((Store.exact_swapped hi).of_mem_contents ?_).mono hgrows
    obtain rfl | rfl : i = 0 ∨ i = 1 := by omega
    · exact List.mem_singleton_self _
    · exact List.mem_singleton_self _
  rcases hr with rfl | rfl
  · refine .list (by decide) fun v hv => ?_
    have hitems : v ∈ [Value.map ⟨0⟩, .int 1, .map ⟨1⟩] := hv
    simp only [List.mem_cons, List.not_mem_nil, or_false] at hitems
    rcases hitems with rfl | rfl | rfl
    · exact hmap (by decide)
    · exact .int 1
    · exact hmap (by decide)
  · refine .list (by decide) fun v hv => ?_
    have hitems : v ∈ [Value.text "b", .map ⟨1⟩] := hv
    simp only [List.mem_cons, List.not_mem_nil, or_false] at hitems
    rcases hitems with rfl | rfl
    · exact .text "b"
    · exact hmap (by decide)

theorem set_functions_obey_set_algebra_collected :
    collected.store.Exact (.list ⟨2⟩) ∧ collected.store.Exact (.list ⟨3⟩) ∧
      Library.firsts collected.store [.map ⟨0⟩, .int 1, .map ⟨1⟩] = [.map ⟨0⟩, .int 1] ∧
      [Value.map ⟨0⟩, .map ⟨1⟩, .int 1].Perm [.map ⟨0⟩, .int 1, .map ⟨1⟩] ∧
      Makes (Evaluate.bounded 0) .union [.list ⟨2⟩, .list ⟨3⟩] collected
        [.map ⟨0⟩, .int 1, .text "b"] ∧
      Library.Apart collected.store [.map ⟨0⟩, .int 1, .text "b"] ∧
      Combines (Evaluate.bounded 0) (collected.withList #[.map ⟨0⟩, .int 1, .text "b"])
        (fun p q => p || q) ⟨2⟩ ⟨3⟩ ⟨4⟩ := by
  have ha : collected.store.Exact (.list ⟨2⟩) := exact_collected (.inl rfl)
  have hb : collected.store.Exact (.list ⟨3⟩) := exact_collected (.inr rfl)
  obtain ⟨once, either, both, rest, honce, -, -, hperm, hlaws⟩ :=
    set_functions_obey_set_algebra (Evaluate.bounded 0) ha hb
  obtain ⟨⟨hunique, -⟩, ⟨hunion, hapart, -⟩, ⟨hboth, -⟩, ⟨hrest, -⟩, -⟩ := hlaws collected (.refl _)
  obtain rfl : once = [.map ⟨0⟩, .int 1] := hunique.eq rfl
  obtain rfl : either = [.map ⟨0⟩, .int 1, .text "b"] := hunion.eq rfl
  obtain rfl : both = [.map ⟨0⟩, .map ⟨1⟩] := hboth.eq rfl
  obtain rfl : rest = [.int 1] := hrest.eq rfl
  have hlater := hlaws (collected.withList #[.map ⟨0⟩, .int 1, .text "b"])
    ⟨Heap.extends_push _ _, .refl _⟩
  exact ⟨ha, hb, honce.symm, hperm, hunion, hapart, hlater.2.1.2.2 ⟨4⟩ rfl⟩

end EventScript
