import EventScript.Proofs.Names
import EventScript.Proofs.Patterns.Literals

/-! # Shapes of values

What a pattern describes and which parts of a value it names can be said without running anything.
Trying the pattern comes to the same: it always gives an answer, which is whether the value has the
shape, and if it has, the scope of the case has got the parts under their names.

* `Store.Describes`, `Store.parts`   the shape that a pattern describes, and the parts it names
* `parts_names`                      the names of the parts are those that the pattern binds
* `Table.get?_putAll`                the last one of several parts of one name is what it stands for
* `decides_fits`                     trying a pattern decides whether the value has its shape
-/

namespace EventScript

open Evaluate

/-! ## Writing pairs to a table -/

namespace Table

variable {κ α : Type} [DecidableEq κ]

/-- The table with pairs written to it, one after the other. -/
def putAll (t : Table κ α) (es : List (κ × α)) : Table κ α :=
  es.foldl (fun t e => t.put e.1 e.2) t

theorem putAll_append (t : Table κ α) (es fs : List (κ × α)) :
    t.putAll (es ++ fs) = (t.putAll es).putAll fs := List.foldl_append

/-- A key has the value of the last pair that names it. -/
theorem get?_putAll (t : Table κ α) (es : List (κ × α)) (k : κ) :
    (t.putAll es).get? k = (es.reverse.lookup k).or (t.get? k) := by
  induction es generalizing t with
  | nil => rfl
  | cons e rest ih =>
    have hput : (t.put e.1 e.2).get? k = ([e].lookup k).or (t.get? k) := by
      obtain ⟨l, a⟩ := e
      by_cases hk : k = l
      · subst hk
        simp
      · have hkl : (k == l) = false := by simpa using hk
        rw [get?_put_of_ne t _ hk, List.lookup_cons, hkl]
        rfl
    calc ((t.put e.1 e.2).putAll rest).get? k
        = (rest.reverse.lookup k).or ((t.put e.1 e.2).get? k) := ih _
      _ = ((rest.reverse ++ [e]).lookup k).or (t.get? k) := by
          rw [hput, List.lookup_append, Option.or_assoc]
      _ = ((e :: rest).reverse.lookup k).or (t.get? k) := by rw [List.reverse_cons]

end Table

/-! ## What patterns describe -/

namespace Store

mutual

/-- The value has the shape that a pattern describes: a literal stands for what equals it, a list
    for a list of the same length with items of the shapes of its elements, and a map for a map
    that has each of its keys with a value of the shape that goes with it. -/
def Describes (s : Store) : Pattern → Value → Prop
  | .wildcard _, _ | .name _ _, _ => True
  | .literal _ e, v => ∃ c, e.constant? = some c ∧ s.Equals c v
  | .list _ elements, v => ∃ r, v = .list r ∧ DescribesAll s elements (s.list r).toList
  | .map _ entries, v => ∃ r, v = .map r ∧ DescribesEntries s (s.map r) entries

/-- As many values have the shapes that patterns describe. -/
def DescribesAll (s : Store) : List Pattern → List Value → Prop
  | [], vs => vs = []
  | p :: ps, vs => ∃ v rest, vs = v :: rest ∧ Describes s p v ∧ DescribesAll s ps rest

/-- The values under keys have the shapes that the patterns of these keys describe. -/
def DescribesEntries (s : Store) (t : Table Key Value) : List (String × Pattern) → Prop
  | [] => True
  | (key, p) :: rest =>
    (∃ v, t.get? (.text key) = some v ∧ Describes s p v) ∧ DescribesEntries s t rest

end

mutual

/-- The parts of a value at the names of a pattern, in the order of the names. -/
def parts (s : Store) : Pattern → Value → List (String × Value)
  | .name _ name, v => [(name, v)]
  | .list _ elements, .list r => partsOfAll s elements (s.list r).toList
  | .map _ entries, .map r => partsOfEntries s (s.map r) entries
  | _, _ => []

/-- The parts of values at the names of patterns. -/
def partsOfAll (s : Store) : List Pattern → List Value → List (String × Value)
  | p :: ps, v :: vs => parts s p v ++ partsOfAll s ps vs
  | _, _ => []

/-- The parts of the values under keys at the names of the patterns of these keys. -/
def partsOfEntries (s : Store) (t : Table Key Value) :
    List (String × Pattern) → List (String × Value)
  | [] => []
  | (key, p) :: rest =>
    (match t.get? (.text key) with
      | some v => parts s p v
      | none => []) ++ partsOfEntries s t rest

end

mutual

/-- The parts of a value of the shape that a pattern describes have the names of the pattern. -/
theorem parts_names {s : Store} : ∀ {p : Pattern} {v : Value}, s.Describes p v →
    (s.parts p v).map Prod.fst = p.binds
  | .wildcard _, _, _ | .name _ _, _, _ | .literal _ _, _, _ => by simp [parts, Pattern.binds]
  | .list _ elements, _, h => by
    obtain ⟨r, rfl, hall⟩ := h
    rw [parts, Pattern.binds]
    exact partsOfAll_names hall
  | .map _ entries, _, h => by
    obtain ⟨r, rfl, hentries⟩ := h
    rw [parts, Pattern.binds]
    exact partsOfEntries_names hentries

theorem partsOfAll_names {s : Store} : ∀ {ps : List Pattern} {vs : List Value},
    s.DescribesAll ps vs → (s.partsOfAll ps vs).map Prod.fst = Pattern.allBind ps
  | [], _, _ => by simp [partsOfAll, Pattern.allBind]
  | p :: ps, _, h => by
    obtain ⟨v, vs, rfl, hv, hvs⟩ := h
    rw [partsOfAll, Pattern.allBind, List.map_append, parts_names hv, partsOfAll_names hvs]

theorem partsOfEntries_names {s : Store} {t : Table Key Value} :
    ∀ {entries : List (String × Pattern)}, s.DescribesEntries t entries →
      (s.partsOfEntries t entries).map Prod.fst = Pattern.entriesBind entries
  | [], _ => by simp [partsOfEntries, Pattern.entriesBind]
  | (key, p) :: rest, ⟨⟨v, hkey, hv⟩, hrest⟩ => by
    rw [partsOfEntries, Pattern.entriesBind, List.map_append, hkey, parts_names hv,
      partsOfEntries_names hrest]

end

theorem DescribesAll.length_eq {s : Store} : ∀ {ps : List Pattern} {vs : List Value},
    s.DescribesAll ps vs → vs.length = ps.length
  | [], _, h => by rw [h, List.length_nil, List.length_nil]
  | _ :: _, _, ⟨_, _, hvs, _, hrest⟩ => by
    rw [hvs, List.length_cons, List.length_cons, hrest.length_eq]

end Store

/-! ## Patterns with constant literals -/

mutual

/-- The literals of a pattern. -/
def Pattern.literals : Pattern → List Expr
  | .literal _ e => [e]
  | .list _ elements => Pattern.literalsOfAll elements
  | .map _ entries => Pattern.literalsOfEntries entries
  | .wildcard _ | .name _ _ => []

/-- The literals of patterns. -/
def Pattern.literalsOfAll : List Pattern → List Expr
  | [] => []
  | p :: ps => p.literals ++ literalsOfAll ps

/-- The literals of the patterns of entries. -/
def Pattern.literalsOfEntries : List (String × Pattern) → List Expr
  | [] => []
  | (_, p) :: rest => p.literals ++ literalsOfEntries rest

end

/-- The expression writes out a constant, of no more levels than a run may have. -/
structure Expr.ConstantWithin (bound : Nat) (e : Expr) : Prop where
  constant : ∃ c, e.constant? = some c
  levels : e.levels ≤ bound

/-! ## Trying a pattern -/

/-- Lists and maps were made and names were bound in one scope, and nothing else was done. -/
structure OnlyBound (scope : ScopeRef) (v w : World) : Prop where
  grows : v.store.Grows w.store
  holds_iff : ∀ r, w.store.scopes.Holds r ↔ v.store.scopes.Holds r
  others : ∀ r ≠ scope, w.store.scope r = v.store.scope r
  parent : (w.store.scope scope).parent = (v.store.scope scope).parent
  rest : w = { v with store := { v.store with
    lists := w.store.lists, maps := w.store.maps, scopes := w.store.scopes } }

namespace OnlyBound

variable {scope : ScopeRef} {u v w : World}

theorem refl (scope : ScopeRef) (w : World) : OnlyBound scope w w :=
  ⟨.refl _, fun _ => Iff.rfl, fun _ _ => rfl, rfl, rfl⟩

theorem trans (huv : OnlyBound scope u v) (hvw : OnlyBound scope v w) : OnlyBound scope u w where
  grows := huv.grows.trans hvw.grows
  holds_iff r := (hvw.holds_iff r).trans (huv.holds_iff r)
  others r hr := (hvw.others r hr).trans (huv.others r hr)
  parent := hvw.parent.trans huv.parent
  rest := by
    rw [hvw.rest, huv.rest]

/-- What is made for a literal binds nothing. -/
theorem of_onlyMade (scope : ScopeRef) (h : OnlyMade v w) : OnlyBound scope v w := by
  obtain ⟨lists, maps, hlists, hmaps, rfl⟩ := h
  exact ⟨⟨hlists, hmaps⟩, fun _ => Iff.rfl, fun _ _ => rfl, rfl, rfl⟩

theorem define (hheld : w.store.scopes.Holds scope) (name : String) (v : Value) :
    OnlyBound scope w { w with store := w.store.define scope name v } where
  grows := ⟨.refl _, .refl _⟩
  holds_iff r := w.store.scopes.holds_modify scope r _
  others r hr := Heap.get_modify_of_ne _ _ hr
  parent := by
    simp only [Store.scope, Store.define]
    rw [Heap.get_modify_self _ _ hheld]
  rest := rfl

end OnlyBound

/-- What a test on a value comes to, that binds parts of the value in a scope on the way: where what
    the test is about is known, the answer is whether it holds, and if it does, the parts are bound
    behind. -/
structure Tested (scope : ScopeRef) (w : World) (known holds : Prop)
    (parts : List (String × Value)) (fit : Bool) (w' : World) : Prop where
  quiet : OnlyBound scope w w'
  fit_iff : known → (fit = true ↔ holds)
  bindings : known → fit = true →
    (w'.store.scope scope).bindings = (w.store.scope scope).bindings.putAll parts

/-- The test always gives an answer, and comes to what it should. -/
def Decides (scope : ScopeRef) (w : World) (known holds : Prop) (parts : List (String × Value))
    (test : Eval Bool) : Prop :=
  ∃ fit w', test w = .ok fit w' ∧ Tested scope w known holds parts fit w'

namespace Decides

variable {scope : ScopeRef} {w : World} {known known' holds holds' : Prop}
  {parts parts' : List (String × Value)} {test test' : Eval Bool}

/-- A test without effect that succeeds. -/
theorem yes (hholds : known → holds) : Decides scope w known holds [] (pure true) :=
  ⟨true, w, rfl, .refl _ _, fun h => iff_of_true rfl (hholds h), fun _ _ => rfl⟩

/-- A test without effect that fails. -/
theorem no (hholds : known → ¬ holds) : Decides scope w known holds parts (pure false) :=
  ⟨false, w, rfl, .refl _ _, fun h => iff_of_false nofun (hholds h), fun _ h => nomatch h⟩

/-- Where more is known, the same may be said in other words. -/
theorem imp (h : Decides scope w known holds parts test) (hknown : known' → known)
    (hholds : known' → (holds ↔ holds')) (hparts : known' → parts = parts') :
    Decides scope w known' holds' parts' test := by
  obtain ⟨fit, w', hok, htested⟩ := h
  exact ⟨fit, w', hok, htested.quiet,
    fun hk => (htested.fit_iff (hknown hk)).trans (hholds hk),
    fun hk hfit => hparts hk ▸ htested.bindings (hknown hk) hfit⟩

theorem of_known (h : Decides scope w known holds parts test) (hknown : known' → known) :
    Decides scope w known' holds parts test :=
  h.imp hknown (fun _ => Iff.rfl) fun _ => rfl

/-- A test on what is in the store. -/
theorem read {α : Type} {f : Store → α} {next : α → Eval Bool}
    (h : Decides scope w known holds parts (next (f w.store))) :
    Decides scope w known holds parts (Eval.read f >>= next) := h

/-- A test and, if it succeeds, another one. -/
theorem and (h : Decides scope w known holds parts test)
    (h' : ∀ w₁, OnlyBound scope w w₁ → Decides scope w₁ known holds' parts' test') :
    Decides scope w known (holds ∧ holds') (parts ++ parts')
      (do if ← test then test' else return false) := by
  obtain ⟨fit, w₁, hok, hquiet, hfit, hbindings⟩ := h
  rw [Decides, Eval.run_bind_of_ok hok]
  cases fit with
  | false =>
    refine ⟨false, w₁, rfl, hquiet, fun hk => iff_of_false Bool.false_ne_true fun hholds => ?_,
      fun _ h => nomatch h⟩
    exact Bool.false_ne_true ((hfit hk).mpr hholds.1)
  | true =>
    -- the second test starts in the world behind the first one, and its parts come last
    obtain ⟨fit, w₂, hok', hquiet', hfit', hbindings'⟩ := h' w₁ hquiet
    refine ⟨fit, w₂, hok', hquiet.trans hquiet', fun hk => ?_, fun hk hf => ?_⟩
    · rw [hfit' hk, and_iff_right ((hfit hk).mp rfl)]
    · rw [hbindings' hk hf, hbindings hk rfl, Table.putAll_append]

end Decides

section Fits

variable {bound : Nat} {scope : ScopeRef} {s : Store}

mutual

/-- Trying a pattern whose literals are constants decides whether a value has the shape that the
    pattern describes, and binds its parts.  This is said about the store that the value was made
    in, from which there may have been made other things since. -/
theorem decides_fits : ∀ {p : Pattern}, (∀ e ∈ p.literals, e.ConstantWithin bound) →
    ∀ (v : Value) (w : World), w.store.scopes.Holds scope →
      Decides scope w (s.Grows w.store ∧ s.Acyclic v) (s.Describes p v) (s.parts p v)
        (fits (bounded bound) scope p v)
  | .wildcard _, _, v, w, _ => by
    simp only [fits, Store.parts]
    exact .yes fun _ => trivial
  | .name _ name, _, v, w, hheld => by
    simp only [fits, Store.parts]
    refine ⟨true, _, rfl, .define hheld name v, fun _ => iff_of_true rfl trivial, fun _ _ => ?_⟩
    simp only [Store.scope, Store.define]
    rw [Heap.get_modify_self _ _ hheld]
    rfl
  | .literal _ e, hliterals, v, w, _ => by
    obtain ⟨⟨c, hc⟩, hlevels⟩ := hliterals e List.mem_cons_self
    obtain ⟨y, w', hy, hmade, hequal⟩ := eval_literal hc hlevels scope w
    simp only [fits, Store.parts, Store.Describes, hc, Option.some.injEq, exists_eq_left']
    refine ⟨w'.store.equal y v, w', Eval.run_bind_of_ok hy, .of_onlyMade scope hmade,
      fun hknown => hequal hknown.1 hknown.2, fun _ _ => ?_⟩
    obtain ⟨_, _, _, _, rfl⟩ := hmade
    rfl
  | .list _ elements, hliterals, v, w, hheld => by
    simp only [fits]
    cases v with
    | list r =>
      -- the list is read now, and it is what it was in the store that the value was made in
      have hlist : s.Grows w.store ∧ s.Acyclic (.list r) → w.store.list r = s.list r :=
        fun hk => hk.2.list_eq hk.1
      refine .read ?_
      split
      · rename_i hsize
        refine (decides_allFit hliterals (by simpa using hsize) w hheld).imp (fun hk => ?_)
          (fun hk => ?_) fun hk => ?_
        · exact ⟨hk.1, fun v hv => hk.2.list_inv.2 v (hlist hk ▸ hv)⟩
        · simp [Store.Describes, hlist hk]
        · rw [Store.parts, hlist hk]
      · -- a list of another length
        rename_i hsize
        refine .no fun hk ⟨q, hq, hall⟩ => hsize ?_
        cases hq
        rw [hlist hk, ← Array.length_toList, hall.length_eq]
    | _ => exact .no fun _ ⟨_, h, _⟩ => nomatch h
  | .map _ entries, hliterals, v, w, hheld => by
    simp only [fits]
    cases v with
    | map r =>
      refine (decides_entriesFit r hliterals w hheld).imp id (fun _ => ?_) fun _ => ?_
      · simp [Store.Describes]
      · rw [Store.parts]
    | _ => exact .no fun _ ⟨_, h, _⟩ => nomatch h

theorem decides_allFit : ∀ {ps : List Pattern},
    (∀ e ∈ Pattern.literalsOfAll ps, e.ConstantWithin bound) →
    ∀ {vs : List Value}, vs.length = ps.length → ∀ w : World, w.store.scopes.Holds scope →
      Decides scope w (s.Grows w.store ∧ ∀ v ∈ vs, s.Acyclic v) (s.DescribesAll ps vs)
        (s.partsOfAll ps vs) (allFit (bounded bound) scope ps vs)
  | [], _, vs, hlength, w, _ => by
    obtain rfl := List.eq_nil_of_length_eq_zero hlength
    simp only [allFit, Store.partsOfAll]
    exact .yes fun _ => rfl
  | p :: ps, hliterals, [], hlength, _, _ => nomatch hlength
  | p :: ps, hliterals, v :: vs, hlength, w, hheld => by
    rw [Pattern.literalsOfAll, List.forall_mem_append] at hliterals
    have hhead := (decides_fits hliterals.1 v w hheld).of_known
      fun hk : s.Grows w.store ∧ ∀ x ∈ v :: vs, s.Acyclic x => ⟨hk.1, hk.2 v List.mem_cons_self⟩
    have hrest := fun w₁ (hquiet : OnlyBound scope w w₁) =>
      (decides_allFit hliterals.2 (Nat.succ.inj hlength) w₁
        ((hquiet.holds_iff scope).mpr hheld)).of_known
        fun hk : s.Grows w.store ∧ ∀ x ∈ v :: vs, s.Acyclic x =>
          ⟨hk.1.trans hquiet.grows, fun x hx => hk.2 x (List.mem_cons_of_mem _ hx)⟩
    simp only [allFit, Store.partsOfAll]
    exact (hhead.and hrest).imp id (fun _ => by simp [Store.DescribesAll]) fun _ => rfl

theorem decides_entriesFit (r : MapRef) : ∀ {entries : List (String × Pattern)},
    (∀ e ∈ Pattern.literalsOfEntries entries, e.ConstantWithin bound) →
    ∀ w : World, w.store.scopes.Holds scope →
      Decides scope w (s.Grows w.store ∧ s.Acyclic (.map r)) (s.DescribesEntries (s.map r) entries)
        (s.partsOfEntries (s.map r) entries) (entriesFit (bounded bound) scope r entries)
  | [], _, w, _ => by
    simp only [entriesFit, Store.partsOfEntries]
    exact .yes fun _ => trivial
  | (key, p) :: rest, hliterals, w, hheld => by
    rw [Pattern.literalsOfEntries, List.forall_mem_append] at hliterals
    have hmap : s.Grows w.store ∧ s.Acyclic (.map r) → w.store.map r = s.map r :=
      fun hk => hk.2.map_eq hk.1
    simp only [entriesFit, Store.DescribesEntries, Store.partsOfEntries]
    refine .read ?_
    cases hkey : (w.store.map r).get? (.text key) with
    | none =>
      refine .no fun hk ⟨⟨v, hv, _⟩, _⟩ => ?_
      rw [← hmap hk, hkey] at hv
      cases hv
    | some v =>
      have hvalue : s.Grows w.store ∧ s.Acyclic (.map r) → (s.map r).get? (.text key) = some v :=
        fun hk => hmap hk ▸ hkey
      have hhead := (decides_fits hliterals.1 v w hheld).of_known
        fun hk : s.Grows w.store ∧ s.Acyclic (.map r) => ⟨hk.1, hk.2.of_get? (hvalue hk)⟩
      have hrest := fun w₁ (hquiet : OnlyBound scope w w₁) =>
        (decides_entriesFit r hliterals.2 w₁ ((hquiet.holds_iff scope).mpr hheld)).of_known
          fun hk : s.Grows w.store ∧ s.Acyclic (.map r) => ⟨hk.1.trans hquiet.grows, hk.2⟩
      refine (hhead.and hrest).imp id (fun hk => ?_) fun hk => ?_
      · simp [hvalue hk]
      · rw [hvalue hk]

end

end Fits

end EventScript
