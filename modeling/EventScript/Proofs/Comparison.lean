import EventScript.Proofs.Equality
import EventScript.Proofs.Number.Remainder

/-! # Comparing with any value

What a value without floating point numbers, that does not contain itself, is compared with may be
any value: one with floating point numbers in it or as keys, or one that contains itself.  Values
with the same parts are equal to the same values all the same, and values that are equal to one
value have the same parts.

* `Number.int_eq_of_eq`          a number is equal to one integer at most
* `Key.entry_eq_of_isAlike`      a key names the entry of one key at most
* `Store.equal_eq_of_same`       values with the same parts are equal to the same values
* `Store.same_of_equal`          values equal to one value have the same parts
* `Store.equal_grows`            what is made later makes no difference
-/

namespace EventScript

/-! ## Numbers and keys -/

/-- An exact value is that of one integer at most. -/
theorem Binary.int_eq_of_compareInt {m n : Int} {b : Binary} (hm : Binary.compareInt m b = .eq)
    (hn : Binary.compareInt n b = .eq) : m = n := by
  unfold Binary.compareInt at hm hn
  rw [Binary.scale_eq] at hm hn
  dsimp only at hm hn
  have hden : ((2 ^ (-b.exponent).toNat : Nat) : Int) ≠ 0 := by positivity
  exact Int.eq_of_mul_eq_mul_right hden
    ((Std.LawfulEqCmp.eq_of_compare hm).trans (Std.LawfulEqCmp.eq_of_compare hn).symm)

/-- A number is equal to one integer at most. -/
theorem Number.int_eq_of_eq {m n : Int} {x : Number} (hm : (Number.int m).eq x = true)
    (hn : (Number.int n).eq x = true) : m = n := by
  cases x with
  | int k => rw [(Number.eq_int m k).mp hm, (Number.eq_int n k).mp hn]
  | float x =>
    simp only [Number.eq, Number.compare?] at hm hn
    cases hx : Binary.ofFloat? x with
    | some b =>
      rw [hx] at hm hn
      exact Binary.int_eq_of_compareInt (by simpa using hm) (by simpa using hn)
    | none =>
      rw [hx] at hm
      split_ifs at hm <;> cases hm

namespace Key

variable {k l : Key}

/-- A key counts as an integer, which is its entry, or counts as no number and is its entry. -/
theorem IsExact.counts (hk : k.IsExact) :
    (∃ n, k.counted? = some (.int n) ∧ k.entry = .int n) ∨ k.counted? = none ∧ k.entry = k := by
  cases k with
  | text t => exact .inr ⟨rfl, rfl⟩
  | null => exact .inr ⟨rfl, rfl⟩
  | bool b => exact .inl ⟨_, rfl, rfl⟩
  | int n => exact .inl ⟨n, rfl, rfl⟩
  | float bits => cases hk

/-- A key that counts as an integer is alike the keys that count as a number equal to it. -/
theorem isAlike_of_counts {n : Int} (hn : k.counted? = some (.int n)) (m : Key) :
    k.isAlike m = m.counted?.any ((Number.int n).eq ·) := by
  have hself : k = m → m.counted?.any ((Number.int n).eq ·) = true := by
    rintro rfl
    rw [hn, Option.any_some, Number.eq_int]
  rw [isAlike, hn, Bool.eq_iff_iff]
  cases hm : m.counted? with
  | none =>
    rw [hm] at hself
    simpa using hself
  | some x =>
    rw [hm] at hself
    simpa using hself

/-- A key that counts as no number is alike itself only. -/
theorem isAlike_of_not_counts (hk : k.counted? = none) (m : Key) : k.isAlike m = (k == m) := by
  rw [isAlike, hk]

/-- Keys of one entry are alike the same keys. -/
theorem isAlike_congr (hk : k.IsExact) (hl : l.IsExact) (h : k.entry = l.entry) (m : Key) :
    k.isAlike m = l.isAlike m := by
  obtain ⟨i, hi, hki⟩ | ⟨hnone, hself⟩ := hk.counts <;>
    obtain ⟨j, hj, hlj⟩ | ⟨hnone', hself'⟩ := hl.counts
  · obtain rfl : i = j := Key.int.inj (hki.symm.trans (h.trans hlj))
    rw [isAlike_of_counts hi, isAlike_of_counts hj]
  · rw [← hself', ← h, hki] at hnone'
    cases hnone'
  · rw [← hself, h, hlj] at hnone
    cases hnone
  · rw [← hself, h, hself']

/-- A key is alike the keys of one entry at most. -/
theorem entry_eq_of_isAlike (hk : k.IsExact) (hl : l.IsExact) {m : Key} (hkm : k.isAlike m = true)
    (hlm : l.isAlike m = true) : k.entry = l.entry := by
  obtain ⟨i, hi, hki⟩ | ⟨hnone, hself⟩ := hk.counts <;>
    obtain ⟨j, hj, hlj⟩ | ⟨hnone', hself'⟩ := hl.counts
  · rw [isAlike_of_counts hi, Option.any_eq_true] at hkm
    rw [isAlike_of_counts hj, Option.any_eq_true] at hlm
    obtain ⟨x, hx, hix⟩ := hkm
    obtain ⟨y, hy, hjy⟩ := hlm
    obtain rfl : x = y := Option.some.inj (hx.symm.trans hy)
    rw [hki, hlj, Number.int_eq_of_eq hix hjy]
  · rw [isAlike_of_not_counts hnone', beq_iff_eq] at hlm
    rw [isAlike_of_counts hi, ← hlm, hnone'] at hkm
    cases hkm
  · rw [isAlike_of_not_counts hnone, beq_iff_eq] at hkm
    rw [isAlike_of_counts hj, ← hkm, hnone] at hlm
    cases hlm
  · rw [isAlike_of_not_counts hnone, beq_iff_eq] at hkm
    rw [isAlike_of_not_counts hnone', beq_iff_eq] at hlm
    rw [hkm, hlm]

end Key

theorem Table.exists_alike {α : Type} {t : Table Key α} {k : Key} {a : α}
    (h : t.getAlike? k = some a) : ∃ m ∈ t.keys, k.isAlike m = true := by
  obtain ⟨e, he, -⟩ := Option.map_eq_some_iff.mp h
  exact ⟨e.1, List.mem_map_of_mem (List.mem_of_find?_eq_some he),
    List.find?_some (p := fun e : Key × α => k.isAlike e.1) he⟩

/-- Of two tables of one size, all keys of the first name entries of the second, where the keys of
    both are alike the keys of a third one of that size. -/
theorem Table.Distinct.entry_mem {α β : Type} {t u : Table Key α} {v : Table Key β}
    (ht : t.Distinct) (hu : u.Distinct) (hsize : v.size = u.size)
    (htv : ∀ k ∈ t.keys, ∃ m ∈ v.keys, k.isAlike m = true)
    (huv : ∀ k ∈ u.keys, ∃ m ∈ v.keys, k.isAlike m = true) :
    ∀ k ∈ t.keys, k.entry ∈ u.keys.map Key.entry := by
  intro k hk
  obtain ⟨m, hm, hkm⟩ := htv k hk
  -- the keys of the second table are alike all keys of the third one, as they are as many
  choose! f hf using huv
  have hinj : ∀ l ∈ u.keys, ∀ l' ∈ u.keys, f l = f l' → l = l' := fun l hl l' hl' heq =>
    hu.eq_of_entry_eq hl hl' (Key.entry_eq_of_isAlike (hu.exact l hl) (hu.exact l' hl')
      (hf l hl).2 (heq ▸ (hf l' hl').2))
  have hnodup : (u.keys.map f).Nodup := List.Nodup.map_on hinj u.nodup
  have hsub : u.keys.map f ⊆ v.keys := fun l hl => by
    obtain ⟨l', hl', rfl⟩ := List.mem_map.mp hl
    exact (hf l' hl').1
  have hlength : v.keys.length ≤ (u.keys.map f).length := by
    simp only [keys, List.length_map]
    exact Nat.le_of_eq hsize
  have hall := ((List.subperm_of_subset hnodup hsub).perm_of_length_le hlength).mem_iff (a := m)
  obtain ⟨l, hl, rfl⟩ := List.mem_map.mp (hall.mpr hm)
  exact List.mem_map.mpr ⟨l, hl, Key.entry_eq_of_isAlike (hu.exact l hl) (ht.exact k hk)
    (hf l hl).2 hkm⟩

namespace Store

variable {s s' : Store}

/-! ## What a value is compared with -/

/-- A value is compared with itself part by part. -/
theorem Exact.equalFrom_self {v : Value} (h : s.Exact v) {depth : Nat}
    (hlevels : s.LevelsWithin depth v) : s.equalFrom depth v v = true :=
  (equalFrom_iff_same h h hlevels).mpr (.refl v)

/-- A list is equal to lists with as many items, each equal to its counterpart. -/
theorem Exact.equalFrom_list {p q : ListRef} (hp : s.Exact (.list p)) {depth : Nat}
    (hlevels : s.LevelsWithin (depth + 1) (.list p)) :
    s.equalFrom (depth + 1) (.list p) (.list q) = true ↔
      (s.list p).size = (s.list q).size ∧ ∀ (i : Nat) (y z : Value), (s.list p)[i]? = some y →
        (s.list q)[i]? = some z → s.equalFrom depth y z = true := by
  rw [equalFrom_list_iff]
  refine ⟨?_, .inr⟩
  rintro (rfl | h)
  · refine ⟨rfl, fun i y z hy hz => ?_⟩
    obtain rfl : y = z := Option.some.inj (hy.symm.trans hz)
    exact (hp.items hy).equalFrom_self (hlevels y (item_mem_contents hy))
  · exact h

/-- A map is equal to maps with as many entries, among them an equal one for each of its own. -/
theorem Exact.equalFrom_map {p q : MapRef} (hp : s.Exact (.map p)) {depth : Nat}
    (hlevels : s.LevelsWithin (depth + 1) (.map p)) :
    s.equalFrom (depth + 1) (.map p) (.map q) = true ↔
      (s.map p).size = (s.map q).size ∧ ∀ k y, (k, y) ∈ (s.map p).entries →
        ∃ z, (s.map q).getAlike? k = some z ∧ s.equalFrom depth y z = true := by
  rw [equalFrom_map_iff]
  refine ⟨?_, .inr⟩
  rintro (rfl | h)
  · refine ⟨rfl, fun k y hy => ⟨y, ?_, ?_⟩⟩
    · exact (hp.distinct.getAlike?_eq_some (hp.distinct.exact_of_mem hy)).mpr ⟨k, hy, rfl⟩
    · exact (hp.values hy).equalFrom_self (hlevels y (entry_mem_contents hy))
  · exact h

/-- Keys of one entry find the same in every table. -/
theorem getAlike?_congr {α : Type} {k l : Key} (hk : k.IsExact) (hl : l.IsExact)
    (h : k.entry = l.entry) (t : Table Key α) : t.getAlike? k = t.getAlike? l := by
  have halike : (fun e : Key × α => k.isAlike e.1) = fun e => l.isAlike e.1 :=
    funext fun e => Key.isAlike_congr hk hl h e.1
  rw [Table.getAlike?, Table.getAlike?, halike]

/-- Values with the same parts are equal to the same values, as deep as they go. -/
theorem equalFrom_of_same : ∀ {depth : Nat} {a b x : Value}, s.Exact a → s.Exact b →
    s.LevelsWithin depth a → s.LevelsWithin depth b → s.Same a b →
    s.equalFrom depth a x = true → s.equalFrom depth b x = true
  | 0, a, b, x, _, _, hla, _, hsame, h => (same_iff_eq hla).mp hsame ▸ h
  | depth + 1, a, b, x, ha, hb, hla, hlb, hsame, h => by
    cases hsame with
    | refl _ => exact h
    | @list p q hsize hitems =>
      cases x with
      | list r =>
        rw [ha.equalFrom_list hla] at h
        rw [hb.equalFrom_list hlb]
        refine ⟨hsize.symm.trans h.1, fun i z w hz hw => ?_⟩
        obtain ⟨hi, -⟩ := Array.getElem?_eq_some_iff.mp hz
        have hy : (s.list p)[i]? = some (s.list p)[i] := Array.getElem?_eq_getElem (hsize ▸ hi)
        exact equalFrom_of_same (ha.items hy) (hb.items hz) (hla _ (item_mem_contents hy))
          (hlb _ (item_mem_contents hz)) (hitems i _ z hy hz) (h.2 i _ w hy hw)
      | _ => simp [equalFrom] at h
    | @map p q hsize hkeys hvalues =>
      cases x with
      | map r =>
        rw [ha.equalFrom_map hla] at h
        rw [hb.equalFrom_map hlb]
        refine ⟨hsize.symm.trans h.1, fun l z hz => ?_⟩
        obtain ⟨k, hk, hkl⟩ := List.mem_map.mp ((hkeys l.entry).mpr
          (List.mem_map_of_mem (List.mem_map_of_mem (f := Prod.fst) hz)))
        obtain ⟨⟨_, y⟩, hy, rfl⟩ := List.mem_map.mp hk
        obtain ⟨w, hw, hequal⟩ := h.2 _ y hy
        refine ⟨w, ?_, equalFrom_of_same (ha.values hy) (hb.values hz)
          (hla _ (entry_mem_contents hy)) (hlb _ (entry_mem_contents hz))
          (hvalues _ l y z hy hz hkl) hequal⟩
        rw [← hw]
        exact getAlike?_congr (hb.distinct.exact_of_mem hz) (ha.distinct.exact_of_mem hy) hkl.symm _
      | _ => simp [equalFrom] at h

/-- Nothing but lists is equal to a list. -/
theorem eq_list_of_equalFrom {depth : Nat} {a : Value} {r : ListRef}
    (h : s.equalFrom depth a (.list r) = true) : ∃ p, a = .list p := by
  cases depth <;> cases a <;> first | exact ⟨_, rfl⟩ | simp [equalFrom] at h

/-- Nothing but maps is equal to a map. -/
theorem eq_map_of_equalFrom {depth : Nat} {a : Value} {r : MapRef}
    (h : s.equalFrom depth a (.map r) = true) : ∃ p, a = .map p := by
  cases depth <;> cases a <;> first | exact ⟨_, rfl⟩ | simp [equalFrom] at h

/-- Values equal to one that is no list and no map are the same. -/
theorem Exact.eq_of_equalFrom {a b x : Value} (ha : s.Exact a) (hb : s.Exact b)
    (hplain : s.cell? x = none) {depth : Nat} (h : s.equalFrom depth a x = true)
    (h' : s.equalFrom depth b x = true) : a = b := by
  cases x with
  | list _ => cases hplain
  | map _ => cases hplain
  | number x =>
    have hint : ∀ {v : Value}, s.Exact v → s.equalFrom depth v (.number x) = true →
        ∃ n : Int, v = .int n ∧ (Number.int n).eq x = true := by
      intro v hv h
      cases hv with
      | int n => exact ⟨n, rfl, by simpa [equalFrom, Value.int] using h⟩
      | _ => cases depth <;> simp [equalFrom] at h
    obtain ⟨m, rfl, hm⟩ := hint ha h
    obtain ⟨n, rfl, hn⟩ := hint hb h'
    rw [Number.int_eq_of_eq hm hn]
  | _ =>
    cases ha <;> cases depth <;> simp [equalFrom, Value.int] at h <;> cases hb <;>
      simp [equalFrom, Value.int] at h' <;> simp_all

/-- Lists that are equal to one list have the same parts if their items have that are equal to one
    value. -/
theorem Exact.same_lists {p q r : ListRef} {depth : Nat} (hp : s.Exact (.list p))
    (hq : s.Exact (.list q)) (hlp : s.LevelsWithin (depth + 1) (.list p))
    (hlq : s.LevelsWithin (depth + 1) (.list q))
    (hitems : ∀ y ∈ s.contents (.list p), ∀ z ∈ s.contents (.list q), ∀ x,
      s.equalFrom depth y x = true → s.equalFrom depth z x = true → s.Same y z)
    (h : s.equalFrom (depth + 1) (.list p) (.list r) = true)
    (h' : s.equalFrom (depth + 1) (.list q) (.list r) = true) : s.Same (.list p) (.list q) := by
  obtain ⟨hsize, hequal⟩ := (hp.equalFrom_list hlp).mp h
  obtain ⟨hsize', hequal'⟩ := (hq.equalFrom_list hlq).mp h'
  refine .list (hsize.trans hsize'.symm) fun i y z hy hz => ?_
  obtain ⟨hi, -⟩ := Array.getElem?_eq_some_iff.mp hy
  have hx : (s.list r)[i]? = some (s.list r)[i] := Array.getElem?_eq_getElem (hsize ▸ hi)
  exact hitems y (item_mem_contents hy) z (item_mem_contents hz) _ (hequal i y _ hy hx)
    (hequal' i z _ hz hx)

/-- Maps that are equal to one map have the same parts if their values have that are equal to one
    value. -/
theorem Exact.same_maps {p q r : MapRef} {depth : Nat} (hp : s.Exact (.map p))
    (hq : s.Exact (.map q)) (hlp : s.LevelsWithin (depth + 1) (.map p))
    (hlq : s.LevelsWithin (depth + 1) (.map q))
    (hvalues : ∀ y ∈ s.contents (.map p), ∀ z ∈ s.contents (.map q), ∀ x,
      s.equalFrom depth y x = true → s.equalFrom depth z x = true → s.Same y z)
    (h : s.equalFrom (depth + 1) (.map p) (.map r) = true)
    (h' : s.equalFrom (depth + 1) (.map q) (.map r) = true) : s.Same (.map p) (.map q) := by
  obtain ⟨hsize, hequal⟩ := (hp.equalFrom_map hlp).mp h
  obtain ⟨hsize', hequal'⟩ := (hq.equalFrom_map hlq).mp h'
  have halike : ∀ {t : Table Key Value}, (∀ k y, (k, y) ∈ t.entries →
      ∃ x, (s.map r).getAlike? k = some x ∧ s.equalFrom depth y x = true) →
      ∀ k ∈ t.keys, ∃ m ∈ (s.map r).keys, k.isAlike m = true := by
    intro t ht k hk
    obtain ⟨⟨_, y⟩, hy, rfl⟩ := List.mem_map.mp hk
    obtain ⟨x, hx, -⟩ := ht _ y hy
    exact Table.exists_alike hx
  refine .map (hsize.trans hsize'.symm) (hp.distinct.entries_iff (hsize.trans hsize'.symm)
    (hp.distinct.entry_mem hq.distinct hsize'.symm (halike hequal) (halike hequal'))) ?_
  intro k l y z hy hz hkl
  obtain ⟨x, hx, hyx⟩ := hequal k y hy
  obtain ⟨x', hx', hzx⟩ := hequal' l z hz
  rw [← getAlike?_congr (hp.distinct.exact_of_mem hy) (hq.distinct.exact_of_mem hz) hkl, hx] at hx'
  cases hx'
  exact hvalues y (entry_mem_contents hy) z (entry_mem_contents hz) x hyx hzx

/-- Values that are equal to one value, as deep as they go, have the same parts. -/
theorem same_of_equalFrom : ∀ {depth : Nat} {a b x : Value}, s.Exact a → s.Exact b →
    s.LevelsWithin depth a → s.LevelsWithin depth b → s.equalFrom depth a x = true →
    s.equalFrom depth b x = true → s.Same a b := by
  intro depth a b x ha hb hla hlb h h'
  cases x with
  | list r =>
    obtain ⟨p, rfl⟩ := eq_list_of_equalFrom h
    obtain ⟨q, rfl⟩ := eq_list_of_equalFrom h'
    cases depth with
    | zero => cases hla
    | succ depth =>
      exact ha.same_lists hb hla hlb (fun y hy z hz x => same_of_equalFrom (ha.of_mem_contents hy)
        (hb.of_mem_contents hz) (hla y hy) (hlb z hz)) h h'
  | map r =>
    obtain ⟨p, rfl⟩ := eq_map_of_equalFrom h
    obtain ⟨q, rfl⟩ := eq_map_of_equalFrom h'
    cases depth with
    | zero => cases hla
    | succ depth =>
      exact ha.same_maps hb hla hlb (fun y hy z hz x => same_of_equalFrom (ha.of_mem_contents hy)
        (hb.of_mem_contents hz) (hla y hy) (hlb z hz)) h h'
  | _ => exact ha.eq_of_equalFrom hb rfl h h' ▸ .refl _

/-- A value has no more levels than values are compared. -/
theorem Exact.levelsWithin {v : Value} (h : s.Exact v) : s.LevelsWithin s.depthBound v :=
  h.acyclic.levelsWithin.mono (by unfold containers depthBound; omega)

/-- Values with the same parts are equal to the same values. -/
theorem equal_eq_of_same {a b : Value} (ha : s.Exact a) (hb : s.Exact b) (h : s.Same a b)
    (x : Value) : s.equal a x = s.equal b x := by
  rw [Bool.eq_iff_iff]
  exact ⟨equalFrom_of_same ha hb ha.levelsWithin hb.levelsWithin h,
    equalFrom_of_same hb ha hb.levelsWithin ha.levelsWithin h.symm⟩

/-- Values that are equal to one value have the same parts. -/
theorem same_of_equal {a b x : Value} (ha : s.Exact a) (hb : s.Exact b)
    (h : s.equal a x = true) (h' : s.equal b x = true) : s.Same a b :=
  same_of_equalFrom ha hb ha.levelsWithin hb.levelsWithin h h'

/-! ## What is made later -/

theorem Exact.mono (hgrows : s.Grows s') {v : Value} (h : s.Exact v) : s'.Exact v := by
  induction h with
  | @list r held _ ih =>
    have hlist : s'.list r = s.list r := hgrows.lists.get_eq r held
    exact .list (hgrows.lists.holds held) fun v hv => ih v (hlist ▸ hv)
  | @map r held keys _ ih =>
    have hmap : s'.map r = s.map r := hgrows.maps.get_eq r held
    exact .map (hgrows.maps.holds held) (hmap ▸ keys) fun e he => ih e (hmap ▸ he)
  | null => exact .null
  | bool b => exact .bool b
  | int n => exact .int n
  | text t => exact .text t
  | function r => exact .function r
  | native n => exact .native n
  | schema r => exact .schema r
  | inst r => exact .inst r

/-- Values that a store holds have the same parts at all later times or at none. -/
theorem Same.transfer {u v : Store} (hu : s.Grows u) (hv : s.Grows v) {a b : Value}
    (h : u.Same a b) (ha : s.Exact a) (hb : s.Exact b) : v.Same a b := by
  induction h with
  | refl x => exact .refl x
  | @list p q hsize _ ih =>
    rw [ha.acyclic.list_eq hu, hb.acyclic.list_eq hu] at hsize
    refine .list (by rw [ha.acyclic.list_eq hv, hb.acyclic.list_eq hv, hsize]) ?_
    intro i x y hx hy
    rw [ha.acyclic.list_eq hv] at hx
    rw [hb.acyclic.list_eq hv] at hy
    exact ih i x y (by rwa [ha.acyclic.list_eq hu]) (by rwa [hb.acyclic.list_eq hu]) (ha.items hx)
      (hb.items hy)
  | @map p q hsize hkeys _ ih =>
    rw [ha.acyclic.map_eq hu, hb.acyclic.map_eq hu] at hsize hkeys
    refine .map (by rw [ha.acyclic.map_eq hv, hb.acyclic.map_eq hv, hsize])
      (by rw [ha.acyclic.map_eq hv, hb.acyclic.map_eq hv]; exact hkeys) ?_
    intro k l x y hx hy hkl
    rw [ha.acyclic.map_eq hv] at hx
    rw [hb.acyclic.map_eq hv] at hy
    exact ih k l x y (by rwa [ha.acyclic.map_eq hu]) (by rwa [hb.acyclic.map_eq hu]) hkl
      (ha.values hx) (hb.values hy)

/-- What is made later makes no difference to values that the store holds. -/
theorem equal_grows (hgrows : s.Grows s') {a b : Value} (ha : s.Exact a) (hb : s.Exact b) :
    s'.equal a b = s.equal a b := by
  rw [Bool.eq_iff_iff, equal_iff_same (ha.mono hgrows) (hb.mono hgrows), equal_iff_same ha hb]
  exact ⟨fun h => h.transfer hgrows (.refl s) ha hb, fun h => h.transfer (.refl s) hgrows ha hb⟩

end Store

end EventScript
