import EventScript.Proofs.Reload.Constant

/-! # Comparing with what is written

A literal that writes out a constant can always be evaluated, and the value that is made for it is
equal to another one exactly if the constant is, part by part.  What is made for a literal does not
touch a value that is there already.

* `Store.Acyclic`            a value contains nothing but what the store holds, and not itself
* `Store.Equals`             a constant is equal to a value
* `eval_constant_ok`         a written constant can be evaluated
* `equal_iff_equals`         being equal to a value of a constant is being equal to the constant
* `Acyclic.equals_iff`       what is made later does not change this
-/

namespace EventScript

open Evaluate

/-! ## Values that do not contain themselves -/

namespace Store

/-- The value contains nothing but what the store holds, and not itself. -/
inductive Acyclic (s : Store) : Value → Prop
  | plain {v : Value} (hlist : v.kind ≠ .list) (hmap : v.kind ≠ .map) : Acyclic s v
  | list {r : ListRef} (held : s.lists.Holds r)
      (items : ∀ v ∈ (s.list r).toList, Acyclic s v) : Acyclic s (.list r)
  | map {r : MapRef} (held : s.maps.Holds r)
      (values : ∀ e ∈ (s.map r).entries, Acyclic s e.2) : Acyclic s (.map r)

namespace Acyclic

variable {s s' : Store}

theorem list_inv {r : ListRef} (h : s.Acyclic (.list r)) :
    s.lists.Holds r ∧ ∀ v ∈ (s.list r).toList, s.Acyclic v := by
  cases h with
  | plain hlist _ => exact absurd rfl hlist
  | list held items => exact ⟨held, items⟩

theorem map_inv {r : MapRef} (h : s.Acyclic (.map r)) :
    s.maps.Holds r ∧ ∀ e ∈ (s.map r).entries, s.Acyclic e.2 := by
  cases h with
  | plain _ hmap => exact absurd rfl hmap
  | map held values => exact ⟨held, values⟩

/-- The value under a key of a map. -/
theorem of_get? {r : MapRef} (h : s.Acyclic (.map r)) {k : Key} {v : Value}
    (hv : (s.map r).get? k = some v) : s.Acyclic v :=
  h.map_inv.2 (k, v) (((s.map r).mem_entries_iff k v).mpr hv)

/-- A list that the value is stays as it is. -/
theorem list_eq {r : ListRef} (h : s.Acyclic (.list r)) (hgrows : s.Grows s') :
    s'.list r = s.list r := hgrows.lists.get_eq r h.list_inv.1

/-- A map that the value is stays as it is. -/
theorem map_eq {r : MapRef} (h : s.Acyclic (.map r)) (hgrows : s.Grows s') :
    s'.map r = s.map r := hgrows.maps.get_eq r h.map_inv.1

/-- What is made later does not put a value into itself. -/
theorem mono (hgrows : s.Grows s') {v : Value} (h : s.Acyclic v) : s'.Acyclic v := by
  induction h with
  | plain hlist hmap => exact .plain hlist hmap
  | @list r held _ ih =>
    have hlist : s'.list r = s.list r := hgrows.lists.get_eq r held
    exact .list (hgrows.lists.holds held) fun v hv => ih v (hlist ▸ hv)
  | @map r held _ ih =>
    have hmap : s'.map r = s.map r := hgrows.maps.get_eq r held
    exact .map (hgrows.maps.holds held) fun e he => ih e (hmap ▸ he)

end Acyclic

/-! ## Constants that are equal to values -/

mutual

/-- A constant is equal to a value: a list has as many items, each equal to its counterpart, and a
    map as many keys, each with an equal value. -/
def Equals (s : Store) : Constant → Value → Prop
  | .null, v => v = .null
  | .bool b, v => v = .bool b
  | .number n, v => ∃ m, v = .number m ∧ n.eq m = true
  | .text t, v => v = .text t
  | .list cs, v => ∃ r, v = .list r ∧ EqualsAll s cs (s.list r).toList
  | .map es, v => ∃ r, v = .map r ∧ (s.map r).size = es.length ∧ EqualsEntries s (s.map r) es

/-- Constants are equal to as many values. -/
def EqualsAll (s : Store) : List Constant → List Value → Prop
  | [], vs => vs = []
  | c :: cs, vs => ∃ v rest, vs = v :: rest ∧ Equals s c v ∧ EqualsAll s cs rest

/-- Constants are equal to the entries under their keys. -/
def EqualsEntries (s : Store) (t : Table Key Value) : List (Key × Constant) → Prop
  | [] => True
  | (k, c) :: es => (∃ v, t.get? k = some v ∧ Equals s c v) ∧ EqualsEntries s t es

end

mutual

/-- A constant is equal to a value of it. -/
theorem Denotes.equals {s : Store} : ∀ {c : Constant} {v : Value}, s.Denotes c v → s.Equals c v
  | .null, _, h | .bool _, _, h | .text _, _, h => h
  | .number n, _, ⟨hv, heq⟩ => ⟨n, hv, heq⟩
  | .list _, _, ⟨r, hv, _, hitems⟩ => ⟨r, hv, DenotesAll.equals hitems⟩
  | .map _, _, ⟨r, hv, _, _, hentries⟩ => by
    refine ⟨r, hv, ?_, DenotesEntries.equals hentries fun e he => ?_⟩
    · simpa [Table.size] using congrArg List.length hentries.keys_eq
    · exact ((s.map r).mem_entries_iff e.1 e.2).mp he

theorem DenotesAll.equals {s : Store} : ∀ {cs : List Constant} {vs : List Value},
    s.DenotesAll cs vs → s.EqualsAll cs vs
  | [], _, h => h
  | _ :: _, _, ⟨v, rest, hvs, hv, hrest⟩ => ⟨v, rest, hvs, hv.equals, DenotesAll.equals hrest⟩

theorem DenotesEntries.equals {s : Store} {t : Table Key Value} :
    ∀ {es : List (Key × Constant)} {entries : List (Key × Value)},
      s.DenotesEntries es entries → (∀ e ∈ entries, t.get? e.1 = some e.2) →
        s.EqualsEntries t es
  | [], _, _, _ => trivial
  | (k, _) :: _, _, ⟨v, rest, hentries, hv, hrest⟩, ht =>
    ⟨⟨v, ht (k, v) (by simp [hentries]), hv.equals⟩,
      DenotesEntries.equals hrest fun e he => ht e (by simp [hentries, he])⟩

end

mutual

/-- Being equal to a value of a constant is being equal to the constant. -/
theorem equalFrom_iff_equals {s : Store} : ∀ {c : Constant} {y : Value} {depth : Nat},
    s.Denotes c y → c.depth ≤ depth → ∀ x, s.equalFrom depth y x = true ↔ s.Equals c x
  | .null, _, depth, hy, _, x => by
    obtain rfl := hy
    cases depth <;> cases x <;> simp [equalFrom, Equals]
  | .bool b, _, depth, hy, _, x => by
    obtain rfl := hy
    cases depth <;> cases x <;> simp [equalFrom, Equals] <;> exact eq_comm
  | .number n, _, depth, hy, _, x => by
    obtain ⟨rfl, -⟩ := hy
    cases depth <;> cases x <;> simp [equalFrom, Equals]
  | .text t, _, depth, hy, _, x => by
    obtain rfl := hy
    cases depth <;> cases x <;> simp [equalFrom, Equals] <;> exact eq_comm
  | .list cs, _, 0, _, hdepth, _ => by simp [Constant.depth] at hdepth
  | .list cs, _, depth + 1, hy, hdepth, x => by
    have hequals := hy.equals
    obtain ⟨r, rfl, -, hitems⟩ := hy
    have hall := allEqual_iff_equals hitems (by simpa [Constant.depth] using hdepth)
    cases x with
    | list a =>
      have hsize : (s.list r).size = (s.list a).size ↔
          (s.list r).toList.length = (s.list a).toList.length := by simp
      simp only [equalFrom, Bool.or_eq_true, Bool.and_eq_true, beq_iff_eq, List.all_eq_true]
      rw [hsize, hall]
      -- the two may be one list, which then is a value of the constant itself
      refine ⟨fun h => h.elim (fun hsame => hsame ▸ hequals) fun h => ⟨a, rfl, h⟩, ?_⟩
      rintro ⟨b, hb, h⟩
      obtain rfl : a = b := by simpa using hb
      exact .inr h
    | _ => simp [equalFrom, Equals]
  | .map es, _, 0, _, hdepth, _ => by simp [Constant.depth] at hdepth
  | .map es, _, depth + 1, hy, hdepth, x => by
    have hequals := hy.equals
    obtain ⟨r, rfl, -, htexts, hentries⟩ := hy
    cases x with
    | map a =>
      have heach := entriesEqual_iff_equals (t := s.map a) htexts hentries
        (by simpa [Constant.depth] using hdepth)
      have hsize : (s.map r).size = (s.map a).size ↔ (s.map a).size = es.length := by
        have hlength := congrArg List.length hentries.keys_eq
        simp only [List.length_map] at hlength
        rw [Table.size, hlength, eq_comm]
      simp only [equalFrom, Bool.or_eq_true, Bool.and_eq_true, beq_iff_eq, List.all_eq_true]
      refine (or_congr_right (and_congr hsize heach)).trans
        ⟨fun h => h.elim (fun hsame => hsame ▸ hequals) fun h => ⟨a, rfl, h⟩, ?_⟩
      rintro ⟨b, hb, h⟩
      obtain rfl : a = b := by simpa using hb
      exact .inr h
    | _ => simp [equalFrom, Equals]

theorem allEqual_iff_equals {s : Store} : ∀ {cs : List Constant} {ys : List Value} {depth : Nat},
    s.DenotesAll cs ys → Constant.depthOfAll cs ≤ depth → ∀ xs : List Value,
      (ys.length = xs.length ∧ ∀ p ∈ ys.zip xs, s.equalFrom depth p.1 p.2 = true) ↔
        s.EqualsAll cs xs
  | [], _, _, hys, _, xs => by
    obtain rfl := hys
    cases xs <;> simp [EqualsAll]
  | c :: cs, _, depth, ⟨y, ys, hys, hy, hrest⟩, hdepth, xs => by
    obtain rfl := hys
    rw [Constant.depthOfAll] at hdepth
    have hhead := @equalFrom_iff_equals s c y depth hy (by omega)
    have htail := @allEqual_iff_equals s cs ys depth hrest (by omega)
    cases xs with
    | nil => simp [EqualsAll]
    | cons x xs =>
      simp only [EqualsAll, List.cons.injEq, List.zip_cons_cons, List.forall_mem_cons,
        List.length_cons, Nat.add_right_cancel_iff, ← hhead, ← htail]
      refine ⟨fun ⟨hlength, hx, hxs⟩ => ⟨x, xs, ⟨rfl, rfl⟩, hx, hlength, hxs⟩, ?_⟩
      rintro ⟨_, _, ⟨rfl, rfl⟩, hx, hlength, hxs⟩
      exact ⟨hlength, hx, hxs⟩

theorem entriesEqual_iff_equals {s : Store} {t : Table Key Value} :
    ∀ {es : List (Key × Constant)} {entries : List (Key × Value)} {depth : Nat},
      TextKeyed es → s.DenotesEntries es entries → Constant.depthOfEntries es ≤ depth →
        ((∀ e ∈ entries, (match t.getAlike? e.1 with
          | some v => s.equalFrom depth e.2 v
          | none => false) = true) ↔ s.EqualsEntries t es)
  | [], _, _, _, hentries, _ => by
    obtain rfl := hentries
    simp [EqualsEntries]
  | (k, c) :: es, _, depth, htexts, ⟨y, rest, hentries, hy, hrest⟩, hdepth => by
    obtain rfl := hentries
    obtain ⟨⟨text, rfl⟩, htexts'⟩ := List.forall_mem_cons.mp htexts
    rw [Constant.depthOfEntries] at hdepth
    have hhead := @equalFrom_iff_equals s c y depth hy (by omega)
    have htail := @entriesEqual_iff_equals s t es rest depth htexts' hrest (by omega)
    rw [List.forall_mem_cons, htail, EqualsEntries, Table.getAlike?_text]
    refine and_congr_left fun _ => ?_
    cases t.get? (.text text) with
    | none => simp
    | some v => simp [hhead]

end

/-- The bound for comparing values is enough for a constant of no more levels than there are lists
    and maps. -/
theorem equal_iff_equals {s : Store} {c : Constant} {y : Value} (hy : s.Denotes c y)
    (hroom : c.depth ≤ s.containers) (x : Value) : s.equal y x = true ↔ s.Equals c x := by
  refine equalFrom_iff_equals hy ?_ x
  unfold depthBound
  unfold containers at hroom
  omega

mutual

/-- What is made later does not change which constants are equal to a value. -/
theorem Acyclic.equals_iff {s s' : Store} (hgrows : s.Grows s') : ∀ {c : Constant} {v : Value},
    s.Acyclic v → (s'.Equals c v ↔ s.Equals c v)
  | .null, _, _ | .bool _, _, _ | .number _, _, _ | .text _, _, _ => Iff.rfl
  | .list cs, v, hv => by
    refine exists_congr fun r => and_congr_right fun hr => ?_
    subst hr
    rw [hv.list_eq hgrows]
    exact equalsAll_iff hgrows hv.list_inv.2
  | .map es, v, hv => by
    refine exists_congr fun r => and_congr_right fun hr => ?_
    subst hr
    rw [hv.map_eq hgrows]
    exact and_congr_right fun _ => equalsEntries_iff hgrows fun k v hk => hv.of_get? hk

theorem equalsAll_iff {s s' : Store} (hgrows : s.Grows s') : ∀ {cs : List Constant}
    {vs : List Value}, (∀ v ∈ vs, s.Acyclic v) → (s'.EqualsAll cs vs ↔ s.EqualsAll cs vs)
  | [], _, _ => Iff.rfl
  | c :: cs, vs, hvs => by
    refine exists_congr fun v => exists_congr fun rest => and_congr_right fun hr => ?_
    subst hr
    obtain ⟨hv, hrest⟩ := List.forall_mem_cons.mp hvs
    exact and_congr (Acyclic.equals_iff hgrows hv) (equalsAll_iff hgrows hrest)

theorem equalsEntries_iff {s s' : Store} (hgrows : s.Grows s') {t : Table Key Value} :
    ∀ {es : List (Key × Constant)}, (∀ k v, t.get? k = some v → s.Acyclic v) →
      (s'.EqualsEntries t es ↔ s.EqualsEntries t es)
  | [], _ => Iff.rfl
  | (k, _) :: _, ht =>
    and_congr
      (exists_congr fun v => and_congr_right fun hv => Acyclic.equals_iff hgrows (ht k v hv))
      (equalsEntries_iff hgrows ht)

end

end Store

/-! ## Evaluating constants -/

mutual

/-- The levels of an expression that writes out a constant. -/
def Expr.levels : Expr → Nat
  | .unary _ _ e => Expr.levels e + 1
  | .vector _ es | .list _ es => levelsOfAll es + 1
  | .map _ entries => levelsOfEntries entries + 1
  | _ => 1

/-- The levels of the deepest of some expressions. -/
def levelsOfAll : List Expr → Nat
  | [] => 0
  | e :: rest => max (Expr.levels e) (levelsOfAll rest)

/-- The levels of the deepest value of some entries. -/
def levelsOfEntries : List MapEntry → Nat
  | [] => 0
  | ⟨_, _, e⟩ :: rest => max (Expr.levels e) (levelsOfEntries rest)

end

theorem Expr.levels_pos (e : Expr) : 0 < e.levels := by
  cases e <;> simp [Expr.levels]

/-- A chain of computations succeeds if each one does. -/
theorem Eval.ok_bind {α β : Type} {act : Eval α} {next : α → Eval β} {w : World}
    (hact : ∃ a v, act w = .ok a v)
    (hnext : ∀ a v, act w = .ok a v → ∃ b u, next a v = .ok b u) :
    ∃ b u, (act >>= next) w = .ok b u := by
  obtain ⟨a, v, ha⟩ := hact
  rw [Eval.run_bind_of_ok ha]
  exact hnext a v ha

mutual

/-- An expression that writes out a constant can be evaluated. -/
theorem eval_constant_ok : ∀ {e : Expr} {c : Constant} {bound : Nat} (scope : ScopeRef) (w : World),
    e.constant? = some c → e.levels ≤ bound → ∃ y w', bounded bound (.eval e scope) w = .ok y w'
  | e, _, 0, _, _, _, hlevels => absurd hlevels (Nat.not_le.mpr e.levels_pos)
  | .number .., _, _ + 1, _, _, _, _ | .string .., _, _ + 1, _, _, _, _
  | .color .., _, _ + 1, _, _, _, _ | .boolean .., _, _ + 1, _, _, _, _
  | .null .., _, _ + 1, _, _, _, _ => ⟨_, _, rfl⟩
  | .unary _ .negate e, c, bound + 1, scope, w, hc, hlevels => by
    rw [Expr.constant?] at hc
    split at hc
    · rename_i n he
      refine Eval.ok_bind
        (eval_constant_ok scope w he (by simpa [Expr.levels] using hlevels)) fun y w' hy => ?_
      obtain ⟨-, ⟨rfl, -⟩, -⟩ := eval_constant he hy
      -- the opposite of a constant is a number, so it takes no mark
      have hnan := (ofNumber?_eq_some hc).2.1
      simp only [unary, Value.number?, Eval.ofNumber, hnan]
      exact ⟨_, _, rfl⟩
    · cases hc
  | .vector _ es, _, bound + 1, scope, w, hc, hlevels
  | .list _ es, _, bound + 1, scope, w, hc, hlevels => by
    rw [Expr.constant?, Option.map_eq_some_iff] at hc
    obtain ⟨cs, hcs, -⟩ := hc
    exact Eval.ok_bind (evalAll_constants_ok scope w hcs (by simpa [Expr.levels] using hlevels))
      fun _ _ _ => ⟨_, _, rfl⟩
  | .map _ entries, _, bound + 1, scope, w, hc, hlevels => by
    rw [Expr.constant?, Option.map_eq_some_iff] at hc
    obtain ⟨es, hes, -⟩ := hc
    exact Eval.ok_bind
      (evalEntries_constants_ok scope w hes .empty (by simpa [Expr.levels] using hlevels))
      fun _ _ _ => ⟨_, _, rfl⟩
  | .unary _ .not _, _, _ + 1, _, _, hc, _ | .name .., _, _ + 1, _, _, hc, _
  | .member .., _, _ + 1, _, _, hc, _ | .index .., _, _ + 1, _, _, hc, _
  | .call .., _, _ + 1, _, _, hc, _ | .binary .., _, _ + 1, _, _, hc, _
  | .conditional .., _, _ + 1, _, _, hc, _ | .lambda .., _, _ + 1, _, _, hc, _
  | .reactive .., _, _ + 1, _, _, hc, _ => by simp [Expr.constant?] at hc

theorem evalAll_constants_ok : ∀ {es : List Expr} {cs : List Constant} {bound : Nat}
    (scope : ScopeRef) (w : World), constants? es = some cs → levelsOfAll es ≤ bound →
      ∃ ys w', evalAll (bounded bound) scope es w = .ok ys w'
  | [], _, _, _, _, _, _ => ⟨_, _, rfl⟩
  | e :: es, _, bound, scope, w, hcs, hlevels => by
    rw [levelsOfAll] at hlevels
    rw [constants?] at hcs
    split at hcs
    · rename_i c cs hc hcs'
      exact Eval.ok_bind (eval_constant_ok scope w hc (by omega)) fun y v _ =>
        Eval.ok_bind (evalAll_constants_ok scope v hcs' (by omega)) fun _ _ _ => ⟨_, _, rfl⟩
    · cases hcs

theorem evalEntries_constants_ok : ∀ {entries : List MapEntry}
    {before es : List (Key × Constant)} {bound : Nat} (scope : ScopeRef) (w : World),
      constantEntries? before entries = some es → ∀ t : Table Key Value,
        levelsOfEntries entries ≤ bound →
          ∃ t' w', evalEntries (bounded bound) scope t entries w = .ok t' w'
  | [], _, _, _, _, _, _, _, _ => ⟨_, _, rfl⟩
  | ⟨_, .written key, e⟩ :: entries, before, es, bound, scope, w, hes, t, hlevels => by
    rw [levelsOfEntries] at hlevels
    rw [constantEntries?] at hes
    split at hes
    · rename_i c hc
      exact Eval.ok_bind ⟨key, w, rfl⟩ fun _ v _ =>
        Eval.ok_bind (eval_constant_ok scope v hc (by omega)) fun y u _ =>
          evalEntries_constants_ok scope u hes _ (by omega)
    · cases hes
  | ⟨_, .computed _, _⟩ :: _, _, _, _, _, _, hes, _, _ => by simp [constantEntries?] at hes

end

/-- A written constant can be evaluated, and the value that is made for it is equal to one that was
    there before exactly if the constant is. -/
theorem eval_literal {e : Expr} {c : Constant} {bound : Nat} (hc : e.constant? = some c)
    (hlevels : e.levels ≤ bound) (scope : ScopeRef) (w : World) :
    ∃ y w', bounded bound (.eval e scope) w = .ok y w' ∧ OnlyMade w w' ∧
      ∀ {s : Store} {v : Value}, s.Grows w.store → s.Acyclic v →
        (w'.store.equal y v = true ↔ s.Equals c v) := by
  obtain ⟨y, w', hy⟩ := eval_constant_ok scope w hc hlevels
  obtain ⟨hmade, hdenotes, hroom⟩ := eval_constant hc hy
  refine ⟨y, w', hy, hmade, fun hgrows hv => ?_⟩
  rw [Store.equal_iff_equals hdenotes (Nat.le_trans (Nat.le_add_left ..) hroom)]
  exact hv.equals_iff (hgrows.trans hmade.grows)

end EventScript
