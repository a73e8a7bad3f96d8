import EventScript.Proofs.Law
import Mathlib.Data.List.Perm.Subperm

/-! # Written values

A literal in a source, with its parts, is a constant: it has the same value whenever it is
evaluated, apart from the lists and maps, which are made anew.  `Denotes` says that a value is what
the evaluation of a constant gives, and `Matches` that a value is equal to the constant.

* `Denotes.mono`             what is made later does not change what a value denotes
* `equalFrom_iff_matches`    being equal to a value of a constant is matching the constant
-/

namespace EventScript

open Evaluate

/-- A written value. -/
inductive Constant where
  | null
  | bool (b : Bool)
  | number (n : Number)
  | text (s : String)
  | list (items : List Constant)
  | map (entries : List (Key × Constant))

namespace Constant

/-- A number that can be written: it is a number indeed, and equal to itself. -/
def ofNumber? (n : Number) : Option Constant :=
  if !n.isNaN && n.eq n then some (number n) else none

mutual

/-- The levels of lists and maps of a constant. -/
def depth : Constant → Nat
  | null | bool _ | number _ | text _ => 0
  | list cs => depthOfAll cs + 1
  | map es => depthOfEntries es + 1

/-- The levels of the deepest of some constants. -/
def depthOfAll : List Constant → Nat
  | [] => 0
  | c :: rest => max (depth c) (depthOfAll rest)

/-- The levels of the deepest of some entries. -/
def depthOfEntries : List (Key × Constant) → Nat
  | [] => 0
  | (_, c) :: rest => max (depth c) (depthOfEntries rest)

end

end Constant

mutual

/-- The constant that an expression writes out, if it writes one. -/
def Expr.constant? : Expr → Option Constant
  | .number _ n => Constant.ofNumber? n
  | .string _ s | .color _ s => some (.text s)
  | .boolean _ b => some (.bool b)
  | .null _ => some .null
  | .unary _ .negate e =>
    match Expr.constant? e with
    | some (.number n) => Constant.ofNumber? n.neg
    | _ => none
  | .vector _ es | .list _ es => (constants? es).map .list
  | .map _ entries => (constantEntries? [] entries).map .map
  | _ => none

/-- The constants that expressions write out. -/
def constants? : List Expr → Option (List Constant)
  | [] => some []
  | e :: rest =>
    match Expr.constant? e, constants? rest with
    | some c, some cs => some (c :: cs)
    | _, _ => none

/-- The entries that a map literal writes out, onto those before them. -/
def constantEntries? (before : List (Key × Constant)) :
    List MapEntry → Option (List (Key × Constant))
  | [] => some before
  | ⟨_, .written key, e⟩ :: rest =>
    match Expr.constant? e with
    | some c => constantEntries? (Table.putEntries (.text key) c before) rest
    | none => none
  | ⟨_, .computed _, _⟩ :: _ => none

end

/-- The keys of entries are texts, as all keys are that a program writes. -/
def TextKeyed {α : Type} (es : List (Key × α)) : Prop := ∀ e ∈ es, ∃ t, e.1 = .text t

/-- A key that is not alike to any other key of a table names the entry that is looked up. -/
theorem Table.getAlike?_eq {α : Type} {t : Table Key α} {k : Key}
    (h : ∀ e ∈ t.entries, k.isAlike e.1 = (k == e.1)) : t.getAlike? k = t.get? k := by
  rw [Table.getAlike?, Table.get?]
  generalize t.entries = es at h
  induction es with
  | nil => rfl
  | cons e rest ih =>
    obtain ⟨hhead, hrest⟩ := List.forall_mem_cons.mp h
    rw [List.find?_cons, List.lookup_cons, hhead]
    cases k == e.1 with
    | true => rfl
    | false => exact ih hrest

/-- A text names no other entry than its own. -/
theorem Table.getAlike?_text {α : Type} (t : Table Key α) (text : String) :
    t.getAlike? (.text text) = t.get? (.text text) :=
  Table.getAlike?_eq fun _ _ => rfl

/-- In a table whose keys are texts, a key names no other entry than its own. -/
theorem Table.getAlike?_of_textKeyed {α : Type} {t : Table Key α} (ht : TextKeyed t.entries)
    (k : Key) : t.getAlike? k = t.get? k := by
  refine Table.getAlike?_eq fun e he => ?_
  obtain ⟨text, htext⟩ := ht e he
  rw [htext]
  cases k <;> rfl

namespace Store

mutual

/-- The value is what the evaluation of a constant gives. -/
def Denotes (s : Store) : Constant → Value → Prop
  | .null, v => v = .null
  | .bool b, v => v = .bool b
  | .number n, v => v = .number n ∧ n.eq n = true
  | .text t, v => v = .text t
  | .list cs, v => ∃ r, v = .list r ∧ s.lists.Holds r ∧ DenotesAll s cs (s.list r).toList
  | .map es, v =>
    ∃ r, v = .map r ∧ s.maps.Holds r ∧ TextKeyed es ∧ DenotesEntries s es (s.map r).entries

/-- The values are what the evaluation of constants gives. -/
def DenotesAll (s : Store) : List Constant → List Value → Prop
  | [], vs => vs = []
  | c :: cs, vs => ∃ v rest, vs = v :: rest ∧ Denotes s c v ∧ DenotesAll s cs rest

/-- The entries have the keys of constants, with what the evaluation of these gives. -/
def DenotesEntries (s : Store) : List (Key × Constant) → List (Key × Value) → Prop
  | [], entries => entries = []
  | (k, c) :: es, entries =>
    ∃ v rest, entries = (k, v) :: rest ∧ Denotes s c v ∧ DenotesEntries s es rest

end

mutual

/-- The value is equal to a constant. -/
def Matches (s : Store) : Constant → Value → Prop
  | .null, v => v = .null
  | .bool b, v => v = .bool b
  | .number n, v => ∃ m, v = .number m ∧ m.eq n = true
  | .text t, v => v = .text t
  | .list cs, v => ∃ r, v = .list r ∧ MatchesAll s cs (s.list r).toList
  | .map es, v =>
    ∃ r, v = .map r ∧ (s.map r).size = es.length ∧ MatchesEntries s (s.map r) es

/-- The values are equal to constants. -/
def MatchesAll (s : Store) : List Constant → List Value → Prop
  | [], vs => vs = []
  | c :: cs, vs => ∃ v rest, vs = v :: rest ∧ Matches s c v ∧ MatchesAll s cs rest

/-- The entries under the keys of constants are equal to these. -/
def MatchesEntries (s : Store) (t : Table Key Value) : List (Key × Constant) → Prop
  | [] => True
  | (k, c) :: es => (∃ v, t.get? k = some v ∧ Matches s c v) ∧ MatchesEntries s t es

end

/-! ## Denoting values -/

/-- Lists and maps were added to the store, and none was changed. -/
structure Grows (s s' : Store) : Prop where
  lists : s.lists.Extends s'.lists
  maps : s.maps.Extends s'.maps

theorem Grows.refl (s : Store) : s.Grows s := ⟨.refl _, .refl _⟩

theorem Grows.trans {s s' s'' : Store} (h : s.Grows s') (h' : s'.Grows s'') : s.Grows s'' :=
  ⟨h.lists.trans h'.lists, h.maps.trans h'.maps⟩

mutual

theorem Denotes.mono {s s' : Store} (hgrows : s.Grows s') : ∀ {c : Constant} {v : Value},
    s.Denotes c v → s'.Denotes c v
  | .null, _, h | .bool _, _, h | .number _, _, h | .text _, _, h => h
  | .list cs, _, ⟨r, hv, hheld, hitems⟩ => by
    refine ⟨r, hv, hgrows.lists.holds hheld, ?_⟩
    rw [list, hgrows.lists.get_eq r hheld]
    exact DenotesAll.mono hgrows hitems
  | .map es, _, ⟨r, hv, hheld, htexts, hentries⟩ => by
    refine ⟨r, hv, hgrows.maps.holds hheld, htexts, ?_⟩
    rw [map, hgrows.maps.get_eq r hheld]
    exact DenotesEntries.mono hgrows hentries

theorem DenotesAll.mono {s s' : Store} (hgrows : s.Grows s') : ∀ {cs : List Constant}
    {vs : List Value}, s.DenotesAll cs vs → s'.DenotesAll cs vs
  | [], _, h => h
  | _ :: _, _, ⟨v, rest, hvs, hv, hrest⟩ =>
    ⟨v, rest, hvs, hv.mono hgrows, DenotesAll.mono hgrows hrest⟩

theorem DenotesEntries.mono {s s' : Store} (hgrows : s.Grows s') :
    ∀ {es : List (Key × Constant)} {entries : List (Key × Value)},
      s.DenotesEntries es entries → s'.DenotesEntries es entries
  | [], _, h => h
  | (_, _) :: _, _, ⟨v, rest, hentries, hv, hrest⟩ =>
    ⟨v, rest, hentries, hv.mono hgrows, DenotesEntries.mono hgrows hrest⟩

end

/-- The keys of the entries are those of the constants. -/
theorem DenotesEntries.keys_eq {s : Store} : ∀ {es : List (Key × Constant)}
    {entries : List (Key × Value)}, s.DenotesEntries es entries →
      entries.map Prod.fst = es.map Prod.fst
  | [], _, h => by rw [h]; rfl
  | (_, _) :: _, _, ⟨_, _, hentries, _, hrest⟩ => by
    rw [hentries, List.map_cons, List.map_cons, DenotesEntries.keys_eq hrest]

/-- The keys of the entries are texts if those of the constants are. -/
theorem DenotesEntries.textKeyed {s : Store} {es : List (Key × Constant)}
    {entries : List (Key × Value)} (h : s.DenotesEntries es entries) (htexts : TextKeyed es) :
    TextKeyed entries := by
  intro e he
  obtain ⟨d, hd, hkey⟩ := List.mem_map.mp (h.keys_eq ▸ List.mem_map_of_mem (f := Prod.fst) he)
  exact hkey ▸ htexts d hd

/-- Every key of constants has a value that its constant denotes. -/
theorem DenotesEntries.exists_of_mem {s : Store} : ∀ {es : List (Key × Constant)}
    {entries : List (Key × Value)}, s.DenotesEntries es entries → ∀ {k c}, (k, c) ∈ es →
      ∃ v, (k, v) ∈ entries ∧ s.Denotes c v
  | [], _, _, _, _, hmem => (nomatch hmem)
  | (_, _) :: _, _, ⟨v, rest, hentries, hv, hrest⟩, k, c, hmem => by
    rw [hentries]
    rcases List.mem_cons.mp hmem with heq | hmem
    · obtain ⟨rfl, rfl⟩ := Prod.mk.injEq .. ▸ heq
      exact ⟨v, List.mem_cons_self, hv⟩
    · obtain ⟨v', hmem', hv'⟩ := DenotesEntries.exists_of_mem hrest hmem
      exact ⟨v', List.mem_cons_of_mem _ hmem', hv'⟩

theorem matchesEntries_iff {s : Store} {t : Table Key Value} {es : List (Key × Constant)} :
    s.MatchesEntries t es ↔
      ∀ k c, (k, c) ∈ es → ∃ v, t.get? k = some v ∧ s.Matches c v := by
  induction es with
  | nil => simp [MatchesEntries]
  | cons e rest ih =>
    obtain ⟨k, c⟩ := e
    simp only [MatchesEntries, ih, List.mem_cons, Prod.mk.injEq]
    refine ⟨fun ⟨hhead, hrest⟩ l d hmem => ?_, fun h => ⟨h k c (.inl ⟨rfl, rfl⟩), fun l d hmem =>
      h l d (.inr hmem)⟩⟩
    rcases hmem with ⟨rfl, rfl⟩ | hmem
    · exact hhead
    · exact hrest l d hmem

mutual

/-- A value of a constant is equal to the constant. -/
theorem Denotes.matches {s : Store} : ∀ {c : Constant} {v : Value},
    s.Denotes c v → s.Matches c v
  | .null, _, h | .bool _, _, h | .text _, _, h => h
  | .number n, _, ⟨hv, heq⟩ => ⟨n, hv, heq⟩
  | .list _, _, ⟨r, hv, _, hitems⟩ => ⟨r, hv, DenotesAll.matches hitems⟩
  | .map _, _, ⟨r, hv, _, _, hentries⟩ => by
    refine ⟨r, hv, ?_, DenotesEntries.matches hentries fun e he => ?_⟩
    · simpa [Table.size] using congrArg List.length hentries.keys_eq
    · exact ((s.map r).mem_entries_iff e.1 e.2).mp he

theorem DenotesAll.matches {s : Store} : ∀ {cs : List Constant} {vs : List Value},
    s.DenotesAll cs vs → s.MatchesAll cs vs
  | [], _, h => h
  | _ :: _, _, ⟨v, rest, hvs, hv, hrest⟩ => ⟨v, rest, hvs, hv.matches, DenotesAll.matches hrest⟩

theorem DenotesEntries.matches {s : Store} {t : Table Key Value} :
    ∀ {es : List (Key × Constant)} {entries : List (Key × Value)},
      s.DenotesEntries es entries → (∀ e ∈ entries, t.get? e.1 = some e.2) →
        s.MatchesEntries t es
  | [], _, _, _ => trivial
  | (k, _) :: _, _, ⟨v, rest, hentries, hv, hrest⟩, ht =>
    ⟨⟨v, ht (k, v) (by simp [hentries]), hv.matches⟩,
      DenotesEntries.matches hrest fun e he => ht e (by simp [hentries, he])⟩

end

/-! ## Equality with a constant -/

/-- Two tables of the same size have the same keys as soon as one has those of the other. -/
theorem mem_keys_of_subset {t u : Table Key Value} (hsize : t.size = u.size)
    (hsub : ∀ k ∈ t.keys, k ∈ u.keys) {k : Key} (hk : k ∈ u.keys) : k ∈ t.keys := by
  have hperm : t.keys.Perm u.keys := by
    refine (List.subperm_of_subset t.nodup hsub).perm_of_length_le ?_
    simp only [Table.keys, List.length_map]
    exact Nat.le_of_eq hsize.symm
  exact hperm.mem_iff.mpr hk

theorem mem_keys_iff {t : Table Key Value} {k : Key} :
    k ∈ t.keys ↔ ∃ v, t.get? k = some v := by
  simp only [Table.keys, List.mem_map, Prod.exists, exists_and_right, exists_eq_right,
    Table.mem_entries_iff]

/-- A table is equal to one of constants if it matches them: one that has as many entries and no
    other keys has all the keys. -/
theorem entriesEqual_iff {s : Store} {depth : Nat} {t u : Table Key Value}
    {es : List (Key × Constant)} (hu : s.DenotesEntries es u.entries)
    (hes : ∀ k c v, (k, c) ∈ es → u.get? k = some v → ∀ x,
      s.equalFrom depth x v = true ↔ s.Matches c x) :
    (t.size = u.size ∧ ∀ e ∈ t.entries, (match u.get? e.1 with
      | some v => s.equalFrom depth e.2 v
      | none => false) = true) ↔ t.size = es.length ∧ s.MatchesEntries t es := by
  have hlength : u.size = es.length := by
    simpa [Table.size] using congrArg List.length hu.keys_eq
  have hkeys : ∀ {k}, k ∈ u.keys ↔ ∃ c, (k, c) ∈ es := by
    intro k
    rw [Table.keys, hu.keys_eq]
    simp
  have hvalue : ∀ {k c}, (k, c) ∈ es → ∃ v, u.get? k = some v := fun hmem =>
    mem_keys_iff.mp (hkeys.mpr ⟨_, hmem⟩)
  rw [matchesEntries_iff, ← hlength]
  refine and_congr_right fun hsize => ⟨fun h k c hmem => ?_, fun h e he => ?_⟩
  · have hsub : ∀ l ∈ t.keys, l ∈ u.keys := by
      intro l hl
      obtain ⟨x, hx⟩ := mem_keys_iff.mp hl
      have hequal := h (l, x) ((t.mem_entries_iff l x).mpr hx)
      cases hl' : u.get? l with
      | none => simp [hl'] at hequal
      | some v => exact mem_keys_iff.mpr ⟨v, hl'⟩
    obtain ⟨v, hv⟩ := hvalue hmem
    obtain ⟨x, hx⟩ := mem_keys_iff.mp (mem_keys_of_subset hsize hsub (mem_keys_iff.mpr ⟨v, hv⟩))
    have hequal := h (k, x) ((t.mem_entries_iff k x).mpr hx)
    simp only [hv] at hequal
    exact ⟨x, hx, (hes k c v hmem hv x).mp hequal⟩
  · obtain ⟨k, x⟩ := e
    have hx := (t.mem_entries_iff k x).mp he
    have hsub : ∀ l ∈ u.keys, l ∈ t.keys := by
      intro l hl
      obtain ⟨c, hc⟩ := hkeys.mp hl
      obtain ⟨y, hy, -⟩ := h l c hc
      exact mem_keys_iff.mpr ⟨y, hy⟩
    have hk : k ∈ u.keys := mem_keys_of_subset hsize.symm hsub (mem_keys_iff.mpr ⟨x, hx⟩)
    obtain ⟨c, hc⟩ := hkeys.mp hk
    obtain ⟨v, hv⟩ := hvalue hc
    obtain ⟨y, hy, hmatches⟩ := h k c hc
    obtain rfl : x = y := Option.some.inj (hx.symm.trans hy)
    simp only [hv]
    exact (hes k c v hc hv x).mpr hmatches

mutual

/-- Being equal to a value of a constant is matching the constant. -/
theorem equalFrom_iff_matches {s : Store} : ∀ {c : Constant} {y : Value} {depth : Nat},
    s.Denotes c y → c.depth ≤ depth → ∀ x, s.equalFrom depth x y = true ↔ s.Matches c x
  | .null, _, depth, hy, _, x => by
    obtain rfl := hy
    cases depth <;> cases x <;> simp [equalFrom, Matches]
  | .bool b, _, depth, hy, _, x => by
    obtain rfl := hy
    cases depth <;> cases x <;> simp [equalFrom, Matches]
  | .number n, _, depth, hy, _, x => by
    obtain ⟨rfl, -⟩ := hy
    cases depth <;> cases x <;> simp [equalFrom, Matches]
  | .text t, _, depth, hy, _, x => by
    obtain rfl := hy
    cases depth <;> cases x <;> simp [equalFrom, Matches]
  | .list cs, _, 0, _, hdepth, _ => by simp [Constant.depth] at hdepth
  | .list cs, _, depth + 1, hy, hdepth, x => by
    have hmatches := hy.matches
    obtain ⟨r, rfl, -, hitems⟩ := hy
    have hdepth' : Constant.depthOfAll cs ≤ depth := by
      simpa [Constant.depth] using hdepth
    have hall := allEqual_iff hitems hdepth'
    cases x with
    | list a =>
      simp only [equalFrom, Bool.or_eq_true, Bool.and_eq_true, beq_iff_eq, List.all_eq_true]
      have hsize : (s.list a).size = (s.list r).size ↔
          (s.list a).toList.length = (s.list r).toList.length := by simp
      rw [hsize, hall]
      refine ⟨fun h => h.elim (fun hsame => hsame ▸ hmatches) fun h => ⟨a, rfl, h⟩, ?_⟩
      rintro ⟨b, hb, h⟩
      obtain rfl : a = b := by simpa using hb
      exact .inr h
    | _ => simp [equalFrom, Matches]
  | .map es, _, 0, _, hdepth, _ => by simp [Constant.depth] at hdepth
  | .map es, _, depth + 1, hy, hdepth, x => by
    have hmatches := hy.matches
    obtain ⟨r, rfl, -, htexts, hentries⟩ := hy
    have hdepth' : Constant.depthOfEntries es ≤ depth := by
      simpa [Constant.depth] using hdepth
    have hlookup := Table.getAlike?_of_textKeyed (hentries.textKeyed htexts)
    have heach : ∀ k c v, (k, c) ∈ es → (s.map r).get? k = some v → ∀ x,
        s.equalFrom depth x v = true ↔ s.Matches c x := fun k c v hc hv =>
      entryEqual_iff hentries hdepth' (s.map r).nodup hc (((s.map r).mem_entries_iff k v).mpr hv)
    cases x with
    | map a =>
      simp only [equalFrom, Bool.or_eq_true, Bool.and_eq_true, beq_iff_eq, List.all_eq_true,
        hlookup]
      have hall := entriesEqual_iff (t := s.map a) hentries heach
      refine (or_congr_right hall).trans
        ⟨fun h => h.elim (fun hsame => hsame ▸ hmatches) fun h => ⟨a, rfl, h⟩, ?_⟩
      rintro ⟨b, hb, h⟩
      obtain rfl : a = b := by simpa using hb
      exact .inr h
    | _ => simp [equalFrom, Matches]

theorem allEqual_iff {s : Store} : ∀ {cs : List Constant} {ys : List Value} {depth : Nat},
    s.DenotesAll cs ys → Constant.depthOfAll cs ≤ depth → ∀ xs : List Value,
      (xs.length = ys.length ∧ ∀ p ∈ xs.zip ys, s.equalFrom depth p.1 p.2 = true) ↔
        s.MatchesAll cs xs
  | [], _, _, hys, _, xs => by
    obtain rfl := hys
    simp [MatchesAll]
  | c :: cs, _, depth, ⟨y, ys, hys, hy, hrest⟩, hdepth, xs => by
    obtain rfl := hys
    rw [Constant.depthOfAll] at hdepth
    have hhead := @equalFrom_iff_matches s c y depth hy (by omega)
    have htail := @allEqual_iff s cs ys depth hrest (by omega)
    cases xs with
    | nil => simp [MatchesAll]
    | cons x xs =>
      simp only [MatchesAll, List.cons.injEq, List.zip_cons_cons, List.forall_mem_cons,
        List.length_cons, Nat.add_right_cancel_iff, ← hhead, ← htail]
      refine ⟨fun ⟨hlength, hx, hxs⟩ => ⟨x, xs, ⟨rfl, rfl⟩, hx, hlength, hxs⟩, ?_⟩
      rintro ⟨_, _, ⟨rfl, rfl⟩, hx, hlength, hxs⟩
      exact ⟨hlength, hx, hxs⟩

theorem entryEqual_iff {s : Store} : ∀ {es : List (Key × Constant)}
    {entries : List (Key × Value)} {depth : Nat}, s.DenotesEntries es entries →
      Constant.depthOfEntries es ≤ depth → (entries.map Prod.fst).Nodup →
        ∀ {k : Key} {c : Constant} {v : Value}, (k, c) ∈ es → (k, v) ∈ entries →
          ∀ x, s.equalFrom depth x v = true ↔ s.Matches c x
  | [], _, _, _, _, _, _, _, _, hc, _, _ => (nomatch hc)
  | (l, d) :: es, _, depth, ⟨u, rest, hentries, hu, hrest⟩, hdepth, hnodup, k, c, v, hc, hv, x => by
    obtain rfl := hentries
    rw [Constant.depthOfEntries] at hdepth
    rw [List.map_cons, List.nodup_cons] at hnodup
    -- the keys of the constants are those of the entries, so the first ones go together
    have hkeys := hrest.keys_eq
    rcases List.mem_cons.mp hc with hhead | htail <;>
      rcases List.mem_cons.mp hv with hhead' | htail'
    · obtain ⟨rfl, rfl⟩ := Prod.mk.injEq .. ▸ hhead
      obtain ⟨-, rfl⟩ := Prod.mk.injEq .. ▸ hhead'
      exact equalFrom_iff_matches hu (by omega) x
    · obtain ⟨rfl, rfl⟩ := Prod.mk.injEq .. ▸ hhead
      have hmem : k ∈ rest.map Prod.fst := List.mem_map.mpr ⟨(k, v), htail', rfl⟩
      exact absurd hmem hnodup.1
    · obtain ⟨rfl, rfl⟩ := Prod.mk.injEq .. ▸ hhead'
      have hmem : k ∈ rest.map Prod.fst := hkeys ▸ List.mem_map.mpr ⟨(k, c), htail, rfl⟩
      exact absurd hmem hnodup.1
    · exact entryEqual_iff hrest (by omega) hnodup.2 htail htail' x

end

/-! ## Evaluating constants -/

/-- The number of lists and maps. -/
def containers (s : Store) : Nat := s.lists.size + s.maps.size

/-- Writing to a key keeps the entries those of constants. -/
theorem DenotesEntries.put {s : Store} {k : Key} {c : Constant} {v : Value} (hv : s.Denotes c v) :
    ∀ {es : List (Key × Constant)} {entries : List (Key × Value)}, s.DenotesEntries es entries →
      s.DenotesEntries (Table.putEntries k c es) (Table.putEntries k v entries)
  | [], _, h => by
    rw [h]
    exact ⟨v, [], rfl, hv, rfl⟩
  | (l, d) :: es, _, ⟨u, rest, hentries, hu, hrest⟩ => by
    rw [hentries]
    by_cases hkey : l = k
    · rw [Table.putEntries, Table.putEntries, if_pos hkey, if_pos hkey]
      exact ⟨v, rest, rfl, hv, hrest⟩
    · rw [Table.putEntries, Table.putEntries, if_neg hkey, if_neg hkey]
      exact ⟨u, _, rfl, hu, hrest.put hv⟩

theorem depthOfEntries_put (k : Key) (c : Constant) (es : List (Key × Constant)) :
    Constant.depthOfEntries (Table.putEntries k c es) ≤
      max c.depth (Constant.depthOfEntries es) := by
  induction es with
  | nil => simp [Table.putEntries, Constant.depthOfEntries]
  | cons e rest ih =>
    obtain ⟨l, d⟩ := e
    rw [Table.putEntries]
    split
    · simp only [Constant.depthOfEntries]
      omega
    · simp only [Constant.depthOfEntries]
      omega

end Store

/-- Lists and maps were made, and nothing else was done. -/
def OnlyMade (w w' : World) : Prop :=
  ∃ lists maps, w.store.lists.Extends lists ∧ w.store.maps.Extends maps ∧
    w' = { w with store := { w.store with lists := lists, maps := maps } }

theorem OnlyMade.refl (w : World) : OnlyMade w w :=
  ⟨_, _, .refl _, .refl _, rfl⟩

theorem OnlyMade.trans {u v w : World} (huv : OnlyMade u v) (hvw : OnlyMade v w) :
    OnlyMade u w := by
  obtain ⟨lists, maps, hlists, hmaps, rfl⟩ := huv
  obtain ⟨lists', maps', hlists', hmaps', rfl⟩ := hvw
  exact ⟨lists', maps', hlists.trans hlists', hmaps.trans hmaps', rfl⟩

theorem OnlyMade.grows {v w : World} (h : OnlyMade v w) : v.store.Grows w.store := by
  obtain ⟨lists, maps, hlists, hmaps, rfl⟩ := h
  exact ⟨hlists, hmaps⟩

/-- A computation made a value of a constant, with a list or map for each level, and did nothing
    else. -/
structure Written (v w : World) (c : Constant) (y : Value) : Prop where
  made : OnlyMade v w
  denotes : w.store.Denotes c y
  room : v.store.containers + c.depth ≤ w.store.containers

theorem ofNumber?_eq_some {n : Number} {c : Constant} (h : Constant.ofNumber? n = some c) :
    c = .number n ∧ n.isNaN = false ∧ n.eq n = true := by
  unfold Constant.ofNumber? at h
  split at h
  · rename_i htest
    simp only [Bool.and_eq_true, Bool.not_eq_true'] at htest
    exact ⟨(Option.some.inj h).symm, htest⟩
  · cases h

/-- A new list of values of constants is a value of the constant list. -/
theorem newList_written {cs : List Constant} {vs : List Value} {v w w' : World} {y : Value}
    (hmade : OnlyMade v w) (hitems : w.store.DenotesAll cs vs)
    (hroom : v.store.containers + Constant.depthOfAll cs ≤ w.store.containers)
    (hok : Eval.newList vs.toArray w = .ok y w') : Written v w' (.list cs) y := by
  have hpush := w.store.lists.extends_push vs.toArray
  have hmade' : OnlyMade w w' := by
    cases hok
    exact ⟨_, _, hpush, .refl _, rfl⟩
  refine ⟨hmade.trans hmade', ?_, ?_⟩
  · have hitems' := hitems.mono hmade'.grows
    cases hok
    refine ⟨w.store.lists.next, rfl, Heap.holds_push_next _ _, ?_⟩
    have hlist : (w.store.lists.push vs.toArray).get w.store.lists.next = vs.toArray :=
      Heap.get_push_next _ _
    simpa only [Store.list, hlist] using hitems'
  · cases hok
    simp only [Store.containers, Heap.size, Heap.push, Array.size_push, Constant.depth] at hroom ⊢
    omega

/-- The keys that a map literal writes out are texts. -/
theorem textKeyed_constantEntries? : ∀ {entries : List MapEntry}
    {before es : List (Key × Constant)}, constantEntries? before entries = some es →
      TextKeyed before → TextKeyed es
  | [], _, _, hes, hbefore => by
    rw [constantEntries?] at hes
    cases hes
    exact hbefore
  | ⟨_, .written key, e⟩ :: rest, before, es, hes, hbefore => by
    rw [constantEntries?] at hes
    split at hes
    · refine textKeyed_constantEntries? hes fun d hd => ?_
      have hkey := List.mem_map_of_mem (f := Prod.fst) hd
      rw [Table.map_fst_putEntries] at hkey
      split at hkey
      · obtain ⟨b, hb, hbd⟩ := List.mem_map.mp hkey
        exact hbd ▸ hbefore b hb
      · rcases List.mem_append.mp hkey with hkey | hkey
        · obtain ⟨b, hb, hbd⟩ := List.mem_map.mp hkey
          exact hbd ▸ hbefore b hb
        · exact ⟨key, List.mem_singleton.mp hkey⟩
    · cases hes
  | ⟨_, .computed _, _⟩ :: _, _, _, hes, _ => by simp [constantEntries?] at hes

/-- A new map with entries of constants is a value of the constant map. -/
theorem newMap_written {es : List (Key × Constant)} {t : Table Key Value} {v w w' : World}
    {r : MapRef} (hmade : OnlyMade v w) (htexts : TextKeyed es)
    (hentries : w.store.DenotesEntries es t.entries)
    (hroom : v.store.containers + Constant.depthOfEntries es ≤ w.store.containers)
    (hok : Eval.newMap t w = .ok r w') : Written v w' (.map es) (.map r) := by
  have hpush := w.store.maps.extends_push t
  have hmade' : OnlyMade w w' := by
    cases hok
    exact ⟨_, _, .refl _, hpush, rfl⟩
  refine ⟨hmade.trans hmade', ?_, ?_⟩
  · have hentries' := hentries.mono hmade'.grows
    cases hok
    refine ⟨w.store.maps.next, rfl, Heap.holds_push_next _ _, htexts, ?_⟩
    have hmap : (w.store.maps.push t).get w.store.maps.next = t := Heap.get_push_next _ _
    simpa only [Store.map, hmap] using hentries'
  · cases hok
    simp only [Store.containers, Heap.size, Heap.push, Array.size_push, Constant.depth] at hroom ⊢
    omega

mutual

/-- Evaluating an expression that writes out a constant makes a value of it. -/
theorem eval_constant : ∀ {e : Expr} {c : Constant} {bound : Nat} {scope : ScopeRef} {w w' : World}
    {y : Value}, e.constant? = some c → bounded bound (.eval e scope) w = .ok y w' →
      Written w w' c y
  | _, _, 0, _, _, _, _, _, hok => (nomatch hok)
  | .number _ n, c, _ + 1, _, w, w', y, hc, hok => by
    rw [Expr.constant?] at hc
    obtain ⟨rfl, -, heq⟩ := ofNumber?_eq_some hc
    obtain ⟨rfl, rfl⟩ := Eval.pure_eq_ok hok
    exact ⟨.refl w', ⟨rfl, heq⟩, Nat.le_refl _⟩
  | .string _ s, c, _ + 1, _, w, w', y, hc, hok => by
    rw [Expr.constant?] at hc
    cases hc
    obtain ⟨rfl, rfl⟩ := Eval.pure_eq_ok hok
    exact ⟨.refl w', rfl, Nat.le_refl _⟩
  | .color _ s, c, _ + 1, _, w, w', y, hc, hok => by
    rw [Expr.constant?] at hc
    cases hc
    obtain ⟨rfl, rfl⟩ := Eval.pure_eq_ok hok
    exact ⟨.refl w', rfl, Nat.le_refl _⟩
  | .boolean _ b, c, _ + 1, _, w, w', y, hc, hok => by
    rw [Expr.constant?] at hc
    cases hc
    obtain ⟨rfl, rfl⟩ := Eval.pure_eq_ok hok
    exact ⟨.refl w', rfl, Nat.le_refl _⟩
  | .null _, c, _ + 1, _, w, w', y, hc, hok => by
    rw [Expr.constant?] at hc
    cases hc
    obtain ⟨rfl, rfl⟩ := Eval.pure_eq_ok hok
    exact ⟨.refl w', rfl, Nat.le_refl _⟩
  | .unary _ .negate e, c, bound + 1, scope, w, w', y, hc, hok => by
    rw [Expr.constant?] at hc
    obtain ⟨v, w₁, hv, hneg⟩ := Eval.bind_eq_ok hok
    split at hc
    · rename_i n he
      obtain ⟨rfl, hnan, heq⟩ := ofNumber?_eq_some hc
      obtain ⟨hmade, ⟨rfl, -⟩, hroom⟩ := eval_constant he hv
      have hvalue : y = .number n.neg ∧ w' = w₁ := by
        simp only [unary, Value.number?, Eval.ofNumber, hnan] at hneg
        exact Eval.pure_eq_ok hneg
      obtain ⟨rfl, rfl⟩ := hvalue
      exact ⟨hmade, ⟨rfl, heq⟩, hroom⟩
    · cases hc
  | .vector _ es, c, bound + 1, scope, w, w', y, hc, hok => by
    rw [Expr.constant?, Option.map_eq_some_iff] at hc
    obtain ⟨cs, hcs, rfl⟩ := hc
    obtain ⟨vs, w₁, hvs, hnew⟩ := Eval.bind_eq_ok hok
    obtain ⟨hmade, hitems, hroom⟩ := evalAll_constants hcs hvs
    exact newList_written hmade hitems hroom hnew
  | .list _ es, c, bound + 1, scope, w, w', y, hc, hok => by
    rw [Expr.constant?, Option.map_eq_some_iff] at hc
    obtain ⟨cs, hcs, rfl⟩ := hc
    obtain ⟨vs, w₁, hvs, hnew⟩ := Eval.bind_eq_ok hok
    obtain ⟨hmade, hitems, hroom⟩ := evalAll_constants hcs hvs
    exact newList_written hmade hitems hroom hnew
  | .map _ entries, c, bound + 1, scope, w, w', y, hc, hok => by
    rw [Expr.constant?, Option.map_eq_some_iff] at hc
    obtain ⟨es, hes, rfl⟩ := hc
    obtain ⟨t, w₁, ht, hmap⟩ := Eval.bind_eq_ok hok
    obtain ⟨r, w₂, hnew, hvalue⟩ := Eval.bind_eq_ok hmap
    obtain ⟨rfl, rfl⟩ := Eval.pure_eq_ok hvalue
    have hempty : w.store.DenotesEntries [] (Table.empty : Table Key Value).entries := rfl
    obtain ⟨hmade, hentries, hroom⟩ :=
      evalEntries_constants hes hempty (Nat.le_refl _) (Nat.le_refl _) ht
    exact newMap_written hmade (textKeyed_constantEntries? hes (by simp [TextKeyed])) hentries hroom
      hnew
  | .unary _ .not _, _, _ + 1, _, _, _, _, hc, _ | .name .., _, _ + 1, _, _, _, _, hc, _
  | .member .., _, _ + 1, _, _, _, _, hc, _ | .index .., _, _ + 1, _, _, _, _, hc, _
  | .call .., _, _ + 1, _, _, _, _, hc, _ | .binary .., _, _ + 1, _, _, _, _, hc, _
  | .conditional .., _, _ + 1, _, _, _, _, hc, _ | .lambda .., _, _ + 1, _, _, _, _, hc, _
  | .reactive .., _, _ + 1, _, _, _, _, hc, _ => by simp [Expr.constant?] at hc

theorem evalAll_constants : ∀ {es : List Expr} {cs : List Constant} {bound : Nat}
    {scope : ScopeRef} {w w' : World} {ys : List Value}, constants? es = some cs →
      evalAll (bounded bound) scope es w = .ok ys w' →
        OnlyMade w w' ∧ w'.store.DenotesAll cs ys ∧
          w.store.containers + Constant.depthOfAll cs ≤ w'.store.containers
  | [], _, _, _, _, w', _, hcs, hok => by
    rw [constants?] at hcs
    cases hcs
    obtain ⟨rfl, rfl⟩ := Eval.pure_eq_ok hok
    exact ⟨.refl w', rfl, Nat.le_refl _⟩
  | e :: es, _, bound, scope, w, w', ys, hcs, hok => by
    rw [constants?] at hcs
    obtain ⟨v, w₁, hv, hrest⟩ := Eval.bind_eq_ok hok
    obtain ⟨vs, w₂, hvs, hvalue⟩ := Eval.bind_eq_ok hrest
    obtain ⟨rfl, rfl⟩ := Eval.pure_eq_ok hvalue
    split at hcs
    · rename_i c cs hc hcs'
      cases hcs
      obtain ⟨hmade, hdenotes, hroom⟩ := eval_constant hc hv
      obtain ⟨hmade', hdenotes', hroom'⟩ := evalAll_constants hcs' hvs
      refine ⟨hmade.trans hmade', ⟨v, vs, rfl, hdenotes.mono hmade'.grows, hdenotes'⟩, ?_⟩
      rw [Constant.depthOfAll]
      omega
    · cases hcs

theorem evalEntries_constants : ∀ {entries : List MapEntry} {before es : List (Key × Constant)}
    {bound base : Nat} {scope : ScopeRef} {w w' : World} {t t' : Table Key Value},
      constantEntries? before entries = some es →
      w.store.DenotesEntries before t.entries →
      base ≤ w.store.containers →
      base + Constant.depthOfEntries before ≤ w.store.containers →
      evalEntries (bounded bound) scope t entries w = .ok t' w' →
        OnlyMade w w' ∧ w'.store.DenotesEntries es t'.entries ∧
          base + Constant.depthOfEntries es ≤ w'.store.containers
  | [], _, _, _, _, _, _, w', _, _, hes, hbefore, _, hroom, hok => by
    rw [constantEntries?] at hes
    cases hes
    obtain ⟨rfl, rfl⟩ := Eval.pure_eq_ok hok
    exact ⟨.refl w', hbefore, hroom⟩
  | ⟨_, .written key, e⟩ :: entries, before, es, bound, base, scope, w, w', t, t', hes, hbefore,
      hbase, hroom, hok => by
    rw [constantEntries?] at hes
    obtain ⟨key', w₀, hkey, hrest⟩ := Eval.bind_eq_ok hok
    obtain ⟨rfl, rfl⟩ := Eval.pure_eq_ok hkey
    obtain ⟨v, w₁, hv, hrest⟩ := Eval.bind_eq_ok hrest
    split at hes
    · rename_i c hc
      obtain ⟨hmade, hdenotes, hroom'⟩ := eval_constant hc hv
      have hdepth := Store.depthOfEntries_put (.text key') c before
      obtain ⟨hmade', hentries, hroom''⟩ := @evalEntries_constants entries _ es bound base scope
        w₁ w' _ t' hes ((hbefore.mono hmade.grows).put hdenotes) (by omega) (by omega) hrest
      exact ⟨hmade.trans hmade', hentries, hroom''⟩
    · cases hes
  | ⟨_, .computed _, _⟩ :: _, _, _, _, _, _, _, _, _, _, hes, _, _, _, _ => by
    simp [constantEntries?] at hes

end

end EventScript
