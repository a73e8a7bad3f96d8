import EventScript.Library.Core
import EventScript.Proofs.Depth

/-! # Equality of values

Among values without floating point numbers, that do not contain themselves, equality is the
relation of having the same parts: `Same` compares lists item by item and maps by the entries that
their keys name, whatever the order of the keys.  From there on it is plain that equality is an
equivalence and that equal values cannot be told apart by their kind, their size or their truth.

* `Key.isAlike_iff`         keys name the same entry if they are the same text, truth or integer
* `Store.Exact`             the values without floating point numbers
* `equalFrom_iff_same`      comparing deep enough is comparing part by part
* `equal_iff_same`          the store is a bound for how deep
* `equal_is_congruence`     equality is an equivalence that respects what a program can ask for
-/

namespace EventScript

/-! ## Keys -/

namespace Key

/-- The key is no floating point number. -/
def IsExact : Key → Prop
  | float _ => False
  | _ => True

instance : DecidablePred IsExact
  | float _ => isFalse id
  | text _ | null | bool _ | int _ => isTrue trivial

/-- The entry that a key names: truth values name those of zero and one. -/
def entry : Key → Key
  | bool b => int (if b then 1 else 0)
  | k => k

end Key

theorem Number.eq_int (m n : Int) : (Number.int m).eq (.int n) = true ↔ m = n := by
  simp [Number.eq, Number.compare?]

theorem Key.isAlike_iff {k l : Key} (hk : k.IsExact) (hl : l.IsExact) :
    k.isAlike l = true ↔ k.entry = l.entry := by
  cases k <;> cases l <;>
    simp_all [Key.IsExact, Key.isAlike, Key.counted?, Key.entry, Number.eq_int]

namespace Table

variable {α : Type}

/-- The keys of a table are no floating point numbers, and no two of them name one entry. -/
structure Distinct (t : Table Key α) : Prop where
  exact : ∀ k ∈ t.keys, k.IsExact
  unlike : t.keys.Pairwise fun k l => k.isAlike l = false

namespace Distinct

variable {t : Table Key α}

/-- Texts name different entries. -/
theorem of_textKeyed (ht : TextKeyed t.entries) : t.Distinct := by
  have htexts : ∀ k ∈ t.keys, ∃ text, k = .text text := fun k hk => by
    obtain ⟨e, he, rfl⟩ := List.mem_map.mp hk
    exact ht e he
  refine ⟨fun k hk => ?_, List.Pairwise.imp_of_mem (fun {k l} hk _ hne => ?_) t.nodup⟩
  · obtain ⟨text, rfl⟩ := htexts k hk
    trivial
  · obtain ⟨text, rfl⟩ := htexts k hk
    exact beq_eq_false_iff_ne.mpr hne

/-- Writing to the entry that a key names keeps the keys of a table apart. -/
theorem putAlike (h : t.Distinct) {k : Key} (hk : k.IsExact) (a : α) :
    (t.putAlike k a).Distinct := by
  suffices hkeys : (t.putAlike k a).keys = t.keys ∨
      (t.putAlike k a).keys = t.keys ++ [k] ∧ ∀ l ∈ t.keys, k.isAlike l = false by
    rcases hkeys with hkeys | ⟨hkeys, hunlike⟩
    · exact ⟨hkeys ▸ h.exact, hkeys ▸ h.unlike⟩
    · refine ⟨fun l hl => ?_, ?_⟩
      · rw [hkeys, List.mem_append, List.mem_singleton] at hl
        exact hl.elim (h.exact l) fun hlk => hlk ▸ hk
      · rw [hkeys]
        refine List.pairwise_append.mpr ⟨h.unlike, List.pairwise_singleton .., fun l hl m hm => ?_⟩
        obtain rfl := List.mem_singleton.mp hm
        rw [Bool.eq_false_iff, ne_eq, Key.isAlike_iff (h.exact l hl) hk, eq_comm,
          ← Key.isAlike_iff hk (h.exact l hl), hunlike l hl]
        exact Bool.false_ne_true
  rw [Table.putAlike, keys_put]
  cases hfound : t.keys.find? k.isAlike with
  | some l => exact .inl (if_pos (List.mem_of_find?_eq_some hfound))
  | none =>
    have hunlike : ∀ l ∈ t.keys, k.isAlike l = false := fun l hl =>
      Bool.eq_false_iff.mpr (List.find?_eq_none.mp hfound l hl)
    by_cases hmem : k ∈ t.keys
    · exact .inl (if_pos hmem)
    · exact .inr ⟨if_neg hmem, hunlike⟩

theorem nodup_entries (h : t.Distinct) : (t.keys.map Key.entry).Nodup := by
  refine List.pairwise_map.mpr (List.Pairwise.imp_of_mem (fun {k l} hk hl hunlike heq => ?_)
    h.unlike)
  rw [(Key.isAlike_iff (h.exact k hk) (h.exact l hl)).mpr heq] at hunlike
  cases hunlike

theorem eq_of_entry_eq (h : t.Distinct) {k l : Key} (hk : k ∈ t.keys) (hl : l ∈ t.keys)
    (heq : k.entry = l.entry) : k = l :=
  List.inj_on_of_nodup_map h.nodup_entries hk hl heq

theorem exact_of_mem (h : t.Distinct) {k : Key} {v : α} (hv : (k, v) ∈ t.entries) : k.IsExact :=
  h.exact k (List.mem_map_of_mem (f := Prod.fst) hv)

/-- A key is looked up to the value of the entry that it names. -/
theorem getAlike?_eq_some (h : t.Distinct) {k : Key} (hk : k.IsExact) {v : α} :
    t.getAlike? k = some v ↔ ∃ l, (l, v) ∈ t.entries ∧ k.entry = l.entry := by
  rw [getAlike?, Option.map_eq_some_iff]
  constructor
  · rintro ⟨⟨l, u⟩, hfound, rfl⟩
    have hmem := List.mem_of_find?_eq_some hfound
    have halike : k.isAlike l = true :=
      List.find?_some (p := fun e : Key × α => k.isAlike e.1) hfound
    exact ⟨l, hmem, (Key.isAlike_iff hk (h.exact_of_mem hmem)).mp halike⟩
  · rintro ⟨l, hmem, hentry⟩
    have halike : k.isAlike l = true := (Key.isAlike_iff hk (h.exact_of_mem hmem)).mpr hentry
    cases hfound : t.entries.find? fun e => k.isAlike e.1 with
    | none => exact absurd halike (List.find?_eq_none.mp hfound _ hmem)
    | some e =>
      obtain ⟨m, u⟩ := e
      have hmem' := List.mem_of_find?_eq_some hfound
      have halike' : k.isAlike m = true :=
        List.find?_some (p := fun e : Key × α => k.isAlike e.1) hfound
      -- both entries are named by the one key
      have hsame : m.entry = l.entry :=
        ((Key.isAlike_iff hk (h.exact_of_mem hmem')).mp halike').symm.trans hentry
      obtain rfl : m = l := h.eq_of_entry_eq (List.mem_map_of_mem (f := Prod.fst) hmem')
        (List.mem_map_of_mem (f := Prod.fst) hmem) hsame
      rw [mem_entries_iff] at hmem hmem'
      exact ⟨_, rfl, Option.some.inj (hmem'.symm.trans hmem)⟩

/-- Of two tables of one size, each has the entries of the other as soon as one of them has. -/
theorem entries_iff {u : Table Key α} (ht : t.Distinct) (hsize : t.size = u.size)
    (hsub : ∀ k ∈ t.keys, k.entry ∈ u.keys.map Key.entry) (k : Key) :
    k ∈ t.keys.map Key.entry ↔ k ∈ u.keys.map Key.entry := by
  have hsub' : t.keys.map Key.entry ⊆ u.keys.map Key.entry := fun l hl => by
    obtain ⟨k, hk, rfl⟩ := List.mem_map.mp hl
    exact hsub k hk
  have hlength : (u.keys.map Key.entry).length ≤ (t.keys.map Key.entry).length := by
    simp only [keys, List.length_map]
    exact Nat.le_of_eq hsize.symm
  exact ((List.subperm_of_subset ht.nodup_entries hsub').perm_of_length_le hlength).mem_iff

end Distinct

end Table

/-! ## Values with the same parts -/

namespace Store

/-- The value is built without floating point numbers and does not contain itself. -/
inductive Exact (s : Store) : Value → Prop
  | null : Exact s .null
  | bool (b : Bool) : Exact s (.bool b)
  | int (n : Int) : Exact s (.int n)
  | text (t : String) : Exact s (.text t)
  | function (r : FunctionRef) : Exact s (.function r)
  | native (n : Native) : Exact s (.native n)
  | schema (r : SchemaRef) : Exact s (.schema r)
  | inst (r : InstanceRef) : Exact s (.inst r)
  | list {r : ListRef} (held : s.lists.Holds r) (items : ∀ v ∈ (s.list r).toList, Exact s v) :
      Exact s (.list r)
  | map {r : MapRef} (held : s.maps.Holds r) (keys : (s.map r).Distinct)
      (values : ∀ e ∈ (s.map r).entries, Exact s e.2) : Exact s (.map r)

/-- Two values have the same parts: they are the same, or lists with the same items, or maps with
    the same values in the same entries. -/
inductive Same (s : Store) : Value → Value → Prop
  | refl (v : Value) : Same s v v
  | list {a b : ListRef} (size : (s.list a).size = (s.list b).size)
      (items : ∀ (i : Nat) (x y : Value), (s.list a)[i]? = some x → (s.list b)[i]? = some y →
        Same s x y) : Same s (.list a) (.list b)
  | map {a b : MapRef} (size : (s.map a).size = (s.map b).size)
      (keys : ∀ k, k ∈ (s.map a).keys.map Key.entry ↔ k ∈ (s.map b).keys.map Key.entry)
      (values : ∀ (k l : Key) (x y : Value), (k, x) ∈ (s.map a).entries →
        (l, y) ∈ (s.map b).entries → k.entry = l.entry → Same s x y) :
      Same s (.map a) (.map b)

/-- Two values differ in nothing but the order in which the keys of maps were put, at any depth. -/
inductive Reordered (s : Store) : Value → Value → Prop
  | refl (v : Value) : Reordered s v v
  | list {a b : ListRef} (size : (s.list a).size = (s.list b).size)
      (items : ∀ (i : Nat) (x y : Value), (s.list a)[i]? = some x → (s.list b)[i]? = some y →
        Reordered s x y) : Reordered s (.list a) (.list b)
  | map {a b : MapRef} (keys : (s.map a).keys.Perm (s.map b).keys)
      (values : ∀ (k : Key) (x y : Value), (s.map a).get? k = some x →
        (s.map b).get? k = some y → Reordered s x y) : Reordered s (.map a) (.map b)

variable {s : Store}

namespace Exact

theorem acyclic {v : Value} (h : s.Exact v) : s.Acyclic v := by
  induction h with
  | list held _ ih => exact .list held ih
  | map held _ _ ih => exact .map held ih
  | _ => exact .plain (by simp [Value.kind, Value.int]) (by simp [Value.kind, Value.int])

theorem items {r : ListRef} (h : s.Exact (.list r)) {i : Nat} {x : Value}
    (hx : (s.list r)[i]? = some x) : s.Exact x := by
  cases h with
  | list _ items => exact items x (Array.mem_toList_iff.mpr (Array.mem_of_getElem? hx))

theorem distinct {r : MapRef} (h : s.Exact (.map r)) : (s.map r).Distinct := by
  cases h with
  | map _ keys _ => exact keys

theorem values {r : MapRef} (h : s.Exact (.map r)) {k : Key} {x : Value}
    (hx : (k, x) ∈ (s.map r).entries) : s.Exact x := by
  cases h with
  | map _ _ values => exact values (k, x) hx

theorem of_mem_contents {v x : Value} (h : s.Exact v) (hx : x ∈ s.contents v) : s.Exact x := by
  cases v with
  | list r =>
    obtain ⟨i, hi⟩ := Array.mem_iff_getElem?.mp (Array.mem_toList_iff.mp hx)
    exact h.items hi
  | map r =>
    obtain ⟨e, he, rfl⟩ := List.mem_map.mp hx
    exact h.values he
  | _ => cases hx

end Exact

namespace Same

theorem symm {a b : Value} (h : s.Same a b) : s.Same b a := by
  induction h with
  | refl v => exact .refl v
  | list size _ ih => exact .list size.symm fun i x y hx hy => ih i y x hy hx
  | map size keys _ ih =>
    exact .map size.symm (fun k => (keys k).symm) fun k l x y hx hy hkl =>
      ih l k y x hy hx hkl.symm

theorem trans {a b : Value} (hab : s.Same a b) : ∀ {c : Value}, s.Same b c → s.Same a c := by
  induction hab with
  | refl v => exact id
  | @list a b size items ih =>
    intro c hbc
    cases hbc with
    | refl _ => exact .list size items
    | list size' items' =>
      refine .list (size.trans size') fun i x z hx hz => ?_
      have hi : i < (s.list b).size := size ▸ (Array.getElem?_eq_some_iff.mp hx).1
      exact ih i x _ hx (Array.getElem?_eq_getElem hi)
        (items' i _ z (Array.getElem?_eq_getElem hi) hz)
  | @map a b size keys values ih =>
    intro c hbc
    cases hbc with
    | refl _ => exact .map size keys values
    | map size' keys' values' =>
      refine .map (size.trans size') (fun k => (keys k).trans (keys' k)) ?_
      intro k m x z hx hz hkm
      -- the entry in the middle
      obtain ⟨l, hl, hkl⟩ := List.mem_map.mp ((keys k.entry).mp
        (List.mem_map_of_mem (List.mem_map_of_mem (f := Prod.fst) hx)))
      obtain ⟨⟨_, y⟩, hy, rfl⟩ := List.mem_map.mp hl
      exact ih k _ x y hx hy hkl.symm (values' _ m y z hy hz (hkl.trans hkm))

theorem kind_eq {a b : Value} (h : s.Same a b) : a.kind = b.kind := by
  cases h <;> rfl

theorem isTruthy_eq {a b : Value} (h : s.Same a b) : s.isTruthy a = s.isTruthy b := by
  cases h with
  | refl _ => rfl
  | list size _ => simp [isTruthy, Array.isEmpty, size]
  | map _ _ _ => rfl

theorem partCount_eq {a b : Value} (h : s.Same a b) :
    Library.partCount s a = Library.partCount s b := by
  cases h with
  | refl _ => rfl
  | list size _ => simp [Library.partCount, size?, size]
  | map size _ _ => simp [Library.partCount, size?, size]

end Same

/-- The order of keys makes no difference to the parts. -/
theorem Reordered.same {a b : Value} (h : s.Reordered a b) (hb : s.Exact b) : s.Same a b := by
  induction h with
  | refl v => exact .refl v
  | list size _ ih => exact .list size fun i x y hx hy => ih i x y hx hy (hb.items hy)
  | @map a b keys _ ih =>
    refine .map (by simpa [Table.keys, Table.size] using keys.length_eq)
      (fun k => (keys.map Key.entry).mem_iff) fun k l x y hx hy hkl => ?_
    have hl : l ∈ (s.map b).keys := List.mem_map_of_mem (f := Prod.fst) hy
    have hk : k ∈ (s.map b).keys := keys.mem_iff.mp (List.mem_map_of_mem (f := Prod.fst) hx)
    obtain rfl : k = l := hb.distinct.eq_of_entry_eq hk hl hkl
    exact ih k x y ((Table.mem_entries_iff ..).mp hx) ((Table.mem_entries_iff ..).mp hy)
      (hb.values hy)

/-! ## Comparing part by part -/

/-- Values other than lists and maps are equal to nothing but themselves. -/
theorem equalFrom_iff_eq {a b : Value} (ha : s.Exact a) (hb : s.Exact b)
    (hplain : s.cell? a = none) (depth : Nat) : s.equalFrom depth a b = true ↔ a = b := by
  cases ha <;> cases hplain <;> cases hb <;> cases depth <;>
    simp [equalFrom, Value.int, Number.eq_int]

theorem same_iff_eq {a b : Value} (hplain : s.cell? a = none) : s.Same a b ↔ a = b := by
  constructor
  · rintro (_ | _ | _)
    · rfl
    · cases hplain
    · cases hplain
  · rintro rfl
    exact .refl a

/-- Lists are equal if they are one list or have as many items, each equal to its counterpart. -/
theorem equalFrom_list_iff {depth : Nat} {p q : ListRef} :
    s.equalFrom (depth + 1) (.list p) (.list q) = true ↔ p = q ∨ (s.list p).size = (s.list q).size ∧
      ∀ (i : Nat) (x y : Value), (s.list p)[i]? = some x → (s.list q)[i]? = some y →
        s.equalFrom depth x y = true := by
  have hzip : ∀ x y, (x, y) ∈ (s.list p).toList.zip (s.list q).toList ↔
      ∃ i : Nat, (s.list p)[i]? = some x ∧ (s.list q)[i]? = some y := by
    simp [List.mem_iff_getElem?, List.getElem?_zip_eq_some]
  simp only [equalFrom, Bool.or_eq_true, Bool.and_eq_true, beq_iff_eq, List.all_eq_true,
    Prod.forall, hzip]
  refine or_congr_right (and_congr_right fun _ => ⟨fun h i x y hx hy => h x y ⟨i, hx, hy⟩, ?_⟩)
  rintro h x y ⟨i, hx, hy⟩
  exact h i x y hx hy

/-- Maps are equal if they are one map or have as many entries, each equal to the one that its key
    names in the other map. -/
theorem equalFrom_map_iff {depth : Nat} {p q : MapRef} :
    s.equalFrom (depth + 1) (.map p) (.map q) = true ↔ p = q ∨ (s.map p).size = (s.map q).size ∧
      ∀ k x, (k, x) ∈ (s.map p).entries →
        ∃ y, (s.map q).getAlike? k = some y ∧ s.equalFrom depth x y = true := by
  simp only [equalFrom, Bool.or_eq_true, Bool.and_eq_true, beq_iff_eq, List.all_eq_true,
    Prod.forall]
  refine or_congr_right (and_congr_right fun _ => forall_congr' fun k => forall_congr' fun x =>
    imp_congr_right fun _ => ?_)
  cases (s.map q).getAlike? k <;> simp

/-- Lists are compared part by part if their items are. -/
theorem equalFrom_lists {depth : Nat} {p q : ListRef} (hq : s.Exact (.list q))
    (hitems : ∀ x ∈ s.contents (.list p), ∀ y, s.Exact y →
      (s.equalFrom depth x y = true ↔ s.Same x y)) :
    s.equalFrom (depth + 1) (.list p) (.list q) = true ↔ s.Same (.list p) (.list q) := by
  rw [equalFrom_list_iff]
  constructor
  · rintro (rfl | ⟨hsize, hall⟩)
    · exact .refl _
    · exact .list hsize fun i x y hx hy =>
        (hitems x (item_mem_contents hx) y (hq.items hy)).mp (hall i x y hx hy)
  · rintro (_ | ⟨hsize, hsame⟩)
    · exact .inl rfl
    · refine .inr ⟨hsize, fun i x y hx hy => ?_⟩
      exact (hitems x (item_mem_contents hx) y (hq.items hy)).mpr (hsame i x y hx hy)

/-- Maps are compared part by part if their values are. -/
theorem equalFrom_maps {depth : Nat} {p q : MapRef} (hp : s.Exact (.map p)) (hq : s.Exact (.map q))
    (hvalues : ∀ x ∈ s.contents (.map p), ∀ y, s.Exact y →
      (s.equalFrom depth x y = true ↔ s.Same x y)) :
    s.equalFrom (depth + 1) (.map p) (.map q) = true ↔ s.Same (.map p) (.map q) := by
  rw [equalFrom_map_iff]
  constructor
  · rintro (rfl | ⟨hsize, hall⟩)
    · exact .refl _
    · have hentry : ∀ k x, (k, x) ∈ (s.map p).entries →
          ∃ l y, (l, y) ∈ (s.map q).entries ∧ k.entry = l.entry ∧ s.Same x y := by
        intro k x hx
        obtain ⟨y, hy, hequal⟩ := hall k x hx
        obtain ⟨l, hl, hkl⟩ := (hq.distinct.getAlike?_eq_some (hp.distinct.exact_of_mem hx)).mp hy
        exact ⟨l, y, hl, hkl, (hvalues x (entry_mem_contents hx) y (hq.values hl)).mp hequal⟩
      refine .map hsize (hp.distinct.entries_iff hsize fun k hk => ?_) fun k l x y hx hy hkl => ?_
      · obtain ⟨⟨_, x⟩, hx, rfl⟩ := List.mem_map.mp hk
        obtain ⟨l, y, hl, hkl, -⟩ := hentry _ x hx
        exact List.mem_map.mpr ⟨l, List.mem_map_of_mem (f := Prod.fst) hl, hkl.symm⟩
      · -- the entry that was found is the only one of that key
        obtain ⟨m, z, hz, hkm, hsame⟩ := hentry k x hx
        obtain rfl : l = m := hq.distinct.eq_of_entry_eq
          (List.mem_map_of_mem (f := Prod.fst) hy) (List.mem_map_of_mem (f := Prod.fst) hz)
          (hkl.symm.trans hkm)
        rw [Table.mem_entries_iff] at hy hz
        obtain rfl : y = z := Option.some.inj (hy.symm.trans hz)
        exact hsame
  · rintro (_ | _ | ⟨hsize, hkeys, hsame⟩)
    · exact .inl rfl
    · refine .inr ⟨hsize, fun k x hx => ?_⟩
      obtain ⟨l, hl, hkl⟩ := List.mem_map.mp ((hkeys k.entry).mp
        (List.mem_map_of_mem (List.mem_map_of_mem (f := Prod.fst) hx)))
      obtain ⟨⟨_, y⟩, hy, rfl⟩ := List.mem_map.mp hl
      refine ⟨y, (hq.distinct.getAlike?_eq_some (hp.distinct.exact_of_mem hx)).mpr
        ⟨_, hy, hkl.symm⟩, ?_⟩
      exact (hvalues x (entry_mem_contents hx) y (hq.values hy)).mpr
        (hsame k _ x y hx hy hkl.symm)

/-- Comparing deep enough is comparing part by part. -/
theorem equalFrom_iff_same : ∀ {depth : Nat} {a b : Value}, s.Exact a → s.Exact b →
    s.LevelsWithin depth a → (s.equalFrom depth a b = true ↔ s.Same a b)
  | 0, a, b, ha, hb, hlevels => by
    rw [same_iff_eq hlevels, equalFrom_iff_eq ha hb hlevels]
  | depth + 1, a, b, ha, hb, hlevels => by
    have hparts : ∀ x ∈ s.contents a, ∀ y, s.Exact y →
        (s.equalFrom depth x y = true ↔ s.Same x y) := fun x hx y hy =>
      equalFrom_iff_same (ha.of_mem_contents hx) hy (hlevels x hx)
    cases a with
    | list p =>
      cases b with
      | list q => exact equalFrom_lists hb hparts
      | _ => exact ⟨fun h => by simp [equalFrom] at h, fun h => by cases h⟩
    | map p =>
      cases b with
      | map q => exact equalFrom_maps ha hb hparts
      | _ => exact ⟨fun h => by simp [equalFrom] at h, fun h => by cases h⟩
    | _ => rw [same_iff_eq rfl, equalFrom_iff_eq ha hb rfl]

/-- Two values are equal exactly if they have the same parts. -/
theorem equal_iff_same {a b : Value} (ha : s.Exact a) (hb : s.Exact b) :
    s.equal a b = true ↔ s.Same a b := by
  have hbound : s.containers ≤ s.depthBound := by
    unfold containers depthBound
    omega
  exact equalFrom_iff_same ha hb (ha.acyclic.levelsWithin.mono hbound)

/-- The order of keys makes no difference to what a value is equal to. -/
theorem equal_reordered {a a' b b' : Value} (ha : s.Exact a) (ha' : s.Exact a') (hb : s.Exact b)
    (hb' : s.Exact b') (haa : s.Reordered a a') (hbb : s.Reordered b b') :
    s.equal a b = s.equal a' b' := by
  have hsame := haa.same ha'
  have hsame' := hbb.same hb'
  rw [Bool.eq_iff_iff, equal_iff_same ha hb, equal_iff_same ha' hb']
  exact ⟨fun h => hsame.symm.trans (h.trans hsame'), fun h => hsame.trans (h.trans hsame'.symm)⟩

/-- Among values without floating point numbers, that do not contain themselves, equality is an
    equivalence.  It does not depend on the order of keys, at any depth, and equal values are of
    one kind, are named alike by `type`, count alike as true and have as many parts. -/
theorem equal_is_congruence (s : Store) :
    (∀ a, s.Exact a → s.equal a a = true) ∧
    (∀ a b, s.Exact a → s.Exact b → s.equal a b = s.equal b a) ∧
    (∀ a b c, s.Exact a → s.Exact b → s.Exact c →
      s.equal a b = true → s.equal b c = true → s.equal a c = true) ∧
    (∀ a a' b b', s.Exact a → s.Exact a' → s.Exact b → s.Exact b' →
      s.Reordered a a' → s.Reordered b b' → s.equal a b = s.equal a' b') ∧
    ∀ a b, s.Exact a → s.Exact b → s.equal a b = true →
      a.kind = b.kind ∧ a.typeName = b.typeName ∧ s.isTruthy a = s.isTruthy b ∧
        Library.partCount s a = Library.partCount s b := by
  refine ⟨fun a ha => (equal_iff_same ha ha).mpr (.refl a), fun a b ha hb => ?_,
    fun a b c ha hb hc hab hbc => ?_, fun _ _ _ _ => equal_reordered, fun a b ha hb hab => ?_⟩
  · rw [Bool.eq_iff_iff, equal_iff_same ha hb, equal_iff_same hb ha]
    exact ⟨Same.symm, Same.symm⟩
  · rw [equal_iff_same ha hb] at hab
    rw [equal_iff_same hb hc] at hbc
    exact (equal_iff_same ha hc).mpr (hab.trans hbc)
  · have hsame : s.Same a b := (equal_iff_same ha hb).mp hab
    have hkind : a.kind = b.kind := hsame.kind_eq
    exact ⟨hkind, by rw [Value.typeName, hkind, Value.typeName], hsame.isTruthy_eq,
      hsame.partCount_eq⟩

/-- Two lists, each of a map, where the maps have the same entries in another order. -/
def swapped : Store :=
  { empty with
    lists := ⟨#[#[.map ⟨0⟩], #[.map ⟨1⟩]]⟩
    maps := ⟨#[.ofList [(.text "a", .int 1), (.bool true, .text "b")],
      .ofList [(.bool true, .text "b"), (.text "a", .int 1)]]⟩ }

theorem exact_swapped {i : Nat} (hi : i < 2) : swapped.Exact (.list ⟨i⟩) := by
  have hmap : swapped.Exact (.map ⟨i⟩) := by
    refine .map (show i < 2 from hi) ?_ fun e he => ?_
    · obtain rfl | rfl : i = 0 ∨ i = 1 := by omega
      · exact ⟨by decide, by decide⟩
      · exact ⟨by decide, by decide⟩
    · have hentries : e ∈ [(Key.text "a", Value.int 1), (.bool true, .text "b")] := by
        obtain rfl | rfl : i = 0 ∨ i = 1 := by omega
        · exact he
        · exact List.mem_pair.mpr (List.mem_pair.mp he).symm
      obtain rfl | rfl := List.mem_pair.mp hentries
      · exact .int 1
      · exact .text "b"
  refine .list (show i < 2 from hi) fun v hv => ?_
  have hitems : v ∈ [Value.map ⟨i⟩] := by
    obtain rfl | rfl : i = 0 ∨ i = 1 := by omega
    · exact hv
    · exact hv
  obtain rfl := List.mem_singleton.mp hitems
  exact hmap

theorem reordered_swapped : swapped.Reordered (.list ⟨0⟩) (.list ⟨1⟩) := by
  have hmaps : swapped.Reordered (.map ⟨0⟩) (.map ⟨1⟩) := by
    refine .map (List.Perm.swap ..) fun k x y hx hy => ?_
    rw [← Table.mem_entries_iff] at hx hy
    have hsame : (k, y) ∈ (swapped.map ⟨0⟩).entries :=
      List.mem_pair.mpr (List.mem_pair.mp hy).symm
    rw [Table.mem_entries_iff] at hx hsame
    obtain rfl : x = y := Option.some.inj (hx.symm.trans hsame)
    exact .refl x
  refine .list rfl fun i x y hx hy => ?_
  obtain ⟨hi, -⟩ := Array.getElem?_eq_some_iff.mp hx
  obtain rfl : i = 0 := Nat.lt_one_iff.mp hi
  obtain rfl : x = .map ⟨0⟩ := (Option.some.inj hx).symm
  obtain rfl : y = .map ⟨1⟩ := (Option.some.inj hy).symm
  exact hmaps

/-- Lists of maps that were filled in another order are equal, either way around. -/
theorem equal_is_congruence_swapped :
    swapped.Exact (.list ⟨0⟩) ∧ swapped.Exact (.list ⟨1⟩) ∧
      swapped.Reordered (.list ⟨0⟩) (.list ⟨1⟩) ∧
      swapped.equal (.list ⟨0⟩) (.list ⟨1⟩) = true ∧
      Library.partCount swapped (.list ⟨0⟩) = Library.partCount swapped (.list ⟨1⟩) := by
  have hzero : swapped.Exact (.list ⟨0⟩) := exact_swapped (by decide)
  have hone : swapped.Exact (.list ⟨1⟩) := exact_swapped (by decide)
  obtain ⟨hrefl, hsymm, htrans, hreordered, hcongr⟩ := equal_is_congruence swapped
  have hequal : swapped.equal (.list ⟨0⟩) (.list ⟨1⟩) = true := by
    rw [hsymm _ _ hzero hone, hreordered _ _ _ _ hone hone hzero hone (.refl _) reordered_swapped]
    exact hrefl _ hone
  exact ⟨hzero, hone, reordered_swapped, hequal, (hcongr _ _ hzero hone hequal).2.2.2⟩

end Store

end EventScript
