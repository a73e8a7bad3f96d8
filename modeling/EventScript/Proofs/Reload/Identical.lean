import EventScript.Proofs.Law.Steady
import EventScript.Proofs.Reload.Announce
import EventScript.Proofs.Reload.Declared

/-! # Reloading what was loaded

A file that only declares is reloaded with the source that it has.  A field of one of its instances
is as before exactly if it was assigned, or still has the value that is written for it: a list or
map that was changed in place is not an assigned field, and the reload makes it anew.

* `withdrawn_follows`               the plan of a withdrawn file
* `Blueprint.Made.remade_iff`       when a field that is made anew is as before
* `identical_reload_keeps_iff`      which fields are as before
-/

namespace EventScript

open Evaluate

/-! ## Withdrawing a file -/

/-- Withdrawing a file leaves what its plan begins with. -/
theorem withdrawn_follows {file : String} {w : World} (hschemas : w.SchemasHeld)
    (hscope : w.store.scopes.Holds globalScope) :
    Follows (withdrawn file w) (.ofWorld w) (withdrawn file w) := by
  obtain ⟨scopes, hheld, hbase⟩ := withdrawn_eq file w
  have hregistry : (withdrawn file w).schemas = w.schemas := by
    rw [hbase]
    rfl
  have hobjects : (withdrawn file w).store.schemas = w.store.schemas := by
    rw [hbase]
  refine ⟨.refl _, ?_, rfl, rfl, ?_, ?_, ?_, ?_, fun n _ h => h⟩
  · rw [hbase]
    exact hheld globalScope hscope
  · intro name b hb
    obtain ⟨r, hr, rfl⟩ := Option.map_eq_some_iff.mp hb
    have hsame : (withdrawn file w).store.schema r = w.store.schema r :=
      congrArg (Heap.get · r) hobjects
    refine ⟨r, hregistry ▸ hr, hobjects ▸ hschemas name r hr, ?_⟩
    rw [hsame]
    exact ⟨rfl, fun k => Iff.rfl⟩
  · intro name hname
    rw [hregistry]
    exact Option.map_eq_none_iff.mp hname
  · intro n b hb
    cases hb
  · intro m n r hm
    cases hm

/-- Where nobody listens to reloads nobody does behind the execution of a program that only
    declares. -/
theorem Follows.unheard {file : String} {w v : World} {p : Plan}
    (hv : Follows (withdrawn file w) p v) (hunheard : Unheard w) : Unheard v := by
  obtain ⟨scopes, -, hbase⟩ := withdrawn_eq file w
  have hlisteners : v.listeners = w.listeners := by
    rw [hv.listeners, hbase]
    rfl
  have hhandlers : v.handlers.getD reloadEvent [] =
      (dropHandlers file w).handlers.getD reloadEvent [] := by
    rw [hv.handlers, hbase]
    rfl
  refine ⟨?_, hlisteners ▸ hunheard.listeners, hlisteners ▸ hunheard.wildcard⟩
  have hsub := dropHandlers_sublist file w reloadEvent
  rw [hunheard.handlers, ← hhandlers] at hsub
  exact List.sublist_nil.mp hsub

/-! ## Fields made anew -/

theorem Store.isCallable_of_equal {s : Store} {x : Value} {f : FunctionRef}
    (h : s.equal x (.function f) = true) : x.isCallable = true := by
  unfold Store.equal at h
  generalize s.depthBound = depth at h
  cases x with
  | function g => rfl
  | _ => cases depth <;> simp [Store.equalFrom] at h

theorem Store.Denotes.isCallable {s : Store} {c : Constant} {y : Value} (h : s.Denotes c y) :
    y.isCallable = false := by
  cases c with
  | null | bool | text =>
    obtain rfl := h
    rfl
  | number =>
    obtain ⟨rfl, -⟩ := h
    rfl
  | list | map =>
    obtain ⟨r, rfl, -⟩ := h
    rfl

/-- A value is as it was if it is the same or equal to it. -/
def Store.AsBefore (s : Store) (x : Value) (now : Option Value) : Prop :=
  ∃ y, now = some y ∧ (y = x ∨ s.equal x y = true)

theorem Store.asBefore_none {s : Store} {x : Value} : ¬ s.AsBefore x none := by
  rintro ⟨y, hy, -⟩
  cases hy

theorem Store.asBefore_some {s : Store} {x y : Value} :
    s.AsBefore x (some y) ↔ y = x ∨ s.equal x y = true := by
  simp [Store.AsBefore]

theorem Store.asBefore_self {s : Store} {x : Value} : s.AsBefore x (some x) := ⟨x, rfl, .inl rfl⟩

/-- A value is as it was when its place has a value of a constant if it matches the constant. -/
theorem Store.Denotes.asBefore_iff {s : Store} {c : Constant} {y : Value} (h : s.Denotes c y)
    (hroom : c.depth ≤ s.containers) (x : Value) : s.AsBefore x (some y) ↔ s.Matches c x := by
  have hdepth : c.depth ≤ s.depthBound := by
    unfold Store.containers at hroom
    unfold Store.depthBound
    omega
  have hequal : s.equal x y = true ↔ s.Matches c x := Store.equalFrom_iff_matches h hdepth x
  rw [Store.asBefore_some, hequal]
  refine ⟨fun hsame => hsame.elim ?_ id, .inr⟩
  rintro rfl
  exact h.matches

/-- A field of an instance that is made anew, with what may be kept for it, is as before if it is
    kept and not a method, or still matches what is written. -/
theorem Blueprint.Made.remade_iff {b : Blueprint} {s : Store} {i : Instance} (h : b.Made s i)
    {x : Value} (hx : x.isCallable = false) (k : String) {kept : Option Value}
    (hkept : kept = none ∨ kept = some x) :
    s.AsBefore x (if (i.data.get? k).any Value.isCallable then i.data.get? k
        else kept.or (i.data.get? k)) ↔
      k ∉ b.methods ∧ (kept = some x ∨ ∃ c, b.constant? k = some c ∧ s.Matches c x) := by
  by_cases hk : k ∈ b.methods
  · obtain ⟨f, hf⟩ := h.method k hk
    have hcall : (i.data.get? k).any Value.isCallable = true := by
      rw [hf]
      rfl
    rw [if_pos hcall, hf]
    refine iff_of_false ?_ fun hright => hright.1 hk
    rw [Store.asBefore_some]
    rintro (rfl | hequal)
    · cases hx
    · simp [Store.isCallable_of_equal hequal] at hx
  · have hfield := h.written k hk
    cases hc : b.constant? k with
    | none =>
      rw [hc] at hfield
      have hnone : i.data.get? k = none := hfield
      rw [hnone]
      rcases hkept with rfl | rfl
      · simp [Store.asBefore_none]
      · simp [Store.asBefore_self, hk]
    | some c =>
      rw [hc] at hfield
      obtain ⟨y, hy, hdenotes, hroom⟩ := hfield
      have hcall : (i.data.get? k).any Value.isCallable = false := by
        rw [hy]
        exact hdenotes.isCallable
      rw [hcall, if_neg Bool.false_ne_true, hy]
      rcases hkept with rfl | rfl
      · -- what was there is compared with what is written
        simp [hdenotes.asBefore_iff hroom, hk]
      · simp [Store.asBefore_self, hk]

/-! ## Reloading a file that only declares -/

/-- Behind a program that only declares no two names that were tracked for the file are bound to the
    same instance: one that is not planned is unbound. -/
theorem Follows.distinct_tracked {file : String} {w v : World} {p : Plan}
    (hv : Follows (withdrawn file w) p v) : v.Distinct (w.tracked file) := by
  have hplanned : ∀ n ∈ w.tracked file, ∀ r, v.instanceOf? n = some r →
      (p.instances n).isSome := by
    intro n hn r hr
    have hbase : (withdrawn file w).instanceOf? n = none := by
      rw [World.instanceOf?, global?_withdrawn hn]
    cases hp : p.instances n with
    | some b => rfl
    | none => simp [hv.others n hp hbase] at hr
  intro m hm n hn r hmr hnr
  exact hv.distinct m n r (hplanned m hm r hmr) (hplanned n hn r hnr) hmr hnr

/-- A reload of a known file with a source that only declares makes every instance that is planned
    anew, and writes to its fields what is kept for them. -/
theorem declared_reload {source file : String} {program : Program} {w u : World} (hw : Reached w)
    (hscope : w.store.scopes.Holds globalScope) (hknown : w.sources.contains file = true)
    (hcompile : Program.compile source (some file) = .ok program)
    (hallows : (Plan.ofWorld w).allowsAll program.body = true) (hunheard : Unheard w)
    (hok : reload Evaluate.run source file w = .ok () u) :
    w.store.Grows u.store ∧
      ∀ n ∈ w.tracked file, ∀ b,
        ((Plan.ofWorld w).afterAll program.body).instances n = some b →
          ∃ new made, u.Names n new ∧ b.Made u.store made ∧ ∀ k,
            (u.store.inst new).data.get? k =
              if (made.data.get? k).any Value.isCallable then made.data.get? k
              else (w.keptField? file n k).or (made.data.get? k) := by
  let w' := withSource file source w
  have hrun : replace Evaluate.run program file w' = .ok () u :=
    (reload_of_compiled _ hknown hcompile).symm.trans hok
  obtain ⟨v, t, hexecute, hexchanged, hannounced⟩ := replace_eq_ok _ hrun
  have hbegin : Follows (withdrawn file w') (.ofWorld w') (withdrawn file w') :=
    withdrawn_follows hw.schemasHeld hscope
  have hv := execute_follows hbegin hallows hexecute
  obtain ⟨instances, hexchange, hheld, hfield⟩ := exchange_field Evaluate.run program file hexecute
    hv.distinct_tracked fun n hn => hn
  obtain rfl : v.withInstances instances = t := by simpa using hexchange.symm.trans hexchanged
  have hunheard' : Unheard v :=
    hv.unheard ⟨hunheard.handlers, hunheard.listeners, hunheard.wildcard⟩
  obtain ⟨data, hstore⟩ := announce_unheard (hw.idle_exchanged hexchanged)
    ⟨hunheard'.handlers, hunheard'.listeners, hunheard'.wildcard⟩ hannounced
  have hlater : v.store.Grows u.store := by
    rw [hstore]
    exact ⟨.refl _, v.store.maps.extends_push data⟩
  refine ⟨?_, fun n hn b hb => ?_⟩
  · obtain ⟨scopes, -, hbase⟩ := withdrawn_eq file w'
    have hbefore : w.store.Grows (withdrawn file w').store := by
      rw [hbase]
      exact ⟨.refl _, .refl _⟩
    exact (hbefore.trans hv.grows).trans hlater
  · obtain ⟨new, hnew, hmade⟩ := hv.instances n b hb
    have hinstances : u.store.instances = instances := by
      rw [hstore]
      rfl
    have hsame : u.instanceOf? n = v.instanceOf? n := by
      have hscopes : u.store.scopes = v.store.scopes := by
        rw [hstore]
        rfl
      rw [World.instanceOf?, World.global?, Store.scope, hscopes]
      rfl
    refine ⟨new, v.store.inst new, ⟨hsame.trans hnew.1, hinstances ▸ hheld new hnew.2⟩,
      hmade.mono hlater, fun k => ?_⟩
    rw [Store.inst, hinstances]
    exact hfield n hn new hnew k

/-- A file that only declares is reloaded with the source that it has, and nobody listens to that.
    Then each instance that it declares is made anew, and a field of it that was there before is as
    before exactly if it is not the name of a method, and was assigned or still matches the
    constant that is written for it. -/
theorem identical_reload_keeps_iff {source file : String} {program : Program} {w u : World}
    {n : String} {old : InstanceRef} {b : Blueprint} (hw : Reached w)
    (hsource : w.sources.get? file = some source)
    (hcompile : Program.compile source (some file) = .ok program)
    (hdeclares : (Plan.ofWorld w).allowsAll program.body = true) (hunheard : Unheard w)
    (hok : reload Evaluate.run source file w = .ok () u) (hn : n ∈ w.tracked file)
    (hold : w.Names n old)
    (hb : ((Plan.ofWorld w).afterAll program.body).instances n = some b) :
    w.store.Grows u.store ∧
      ∃ new, u.Names n new ∧
        ∀ k x, (w.store.inst old).data.get? k = some x → x.isCallable = false →
          (u.store.AsBefore x ((u.store.inst new).data.get? k) ↔
            k ∉ b.methods ∧ (k ∈ (w.store.inst old).mutated ∨
              ∃ c, b.constant? k = some c ∧ u.store.Matches c x)) := by
  have hknown : w.sources.contains file = true := by
    rw [Table.contains, hsource]
    rfl
  obtain ⟨hgrows, hfields⟩ := declared_reload hw hold.holds_globalScope hknown hcompile hdeclares
    hunheard hok
  obtain ⟨new, made, hnew, hmade, hfield⟩ := hfields n hn b hb
  refine ⟨hgrows, new, hnew, fun k x hx hcall => ?_⟩
  have hkeptIff : w.keptField? file n k = some x ↔ k ∈ (w.store.inst old).mutated := by
    simp [World.keptField?, hn, hold.1, hx]
  have hkept : w.keptField? file n k = none ∨ w.keptField? file n k = some x := by
    by_cases hk : k ∈ (w.store.inst old).mutated
    · exact .inr (hkeptIff.mpr hk)
    · exact .inl (by simp [World.keptField?, hn, hold.1, hk])
  rw [hfield, hmade.remade_iff hcall k hkept, hkeptIff]

/-- A file that declares a basket. -/
def basketSource : String :=
  "schema Basket:\n  optional:\n    fruits: list<string> = []\n" ++
    "Basket basket:\n  fruits: [\"apple\"]\n"

/-- A session in which a fruit was put into the basket. -/
def filledBasket : World :=
  Session.serve (Session.start {} [])
    [.load basketSource "basket", .load "basket.fruits.push(\"pear\")" "console"]

/-- The list that a field of an instance is, if it is one. -/
def Instance.list? (i : Instance) (field : String) : Option ListRef :=
  match i.data.get? field with
  | some (.list r) => some r
  | _ => none

theorem Instance.list?_eq_some {i : Instance} {field : String} {r : ListRef} :
    i.list? field = some r ↔ i.data.get? field = some (.list r) := by
  unfold list?
  split
  · rename_i q hq
    simp [hq]
  · rename_i hother
    exact ⟨fun h => (nomatch h), fun h => absurd h (hother r)⟩

/-- The constants of a field that is written as a list. -/
def Blueprint.constants? (b : Blueprint) (field : String) : Option (List Constant) :=
  (b.constant? field).bind fun
    | .list cs => some cs
    | _ => none

theorem Blueprint.constant?_of_constants? {b : Blueprint} {field : String} {cs : List Constant}
    (h : b.constants? field = some cs) : b.constant? field = some (.list cs) := by
  obtain ⟨c, hc, hcs⟩ := Option.bind_eq_some_iff.mp h
  cases c with
  | list ds =>
    obtain rfl : ds = cs := by simpa using hcs
    exact hc
  | _ => cases hcs

/-- Equal lists have as many items. -/
theorem Store.MatchesAll.length_eq {s : Store} {cs : List Constant} {vs : List Value}
    (h : s.MatchesAll cs vs) : vs.length = cs.length := by
  induction cs generalizing vs with
  | nil =>
    obtain rfl := h
    rfl
  | cons c cs ih =>
    obtain ⟨v, rest, rfl, -, hrest⟩ := h
    rw [List.length_cons, List.length_cons, ih hrest]

/-- The basket with an apple was filled with a pear, and its file is reloaded as it is: the fruits
    are not the same any more. -/
theorem identical_reload_empties_filled_basket :
    ∃ u new fruits,
      reload Evaluate.run basketSource "basket" filledBasket = .ok () u ∧
      filledBasket.sources.get? "basket" = some basketSource ∧
      filledBasket.Names "basket" ⟨0⟩ ∧
      (filledBasket.store.inst ⟨0⟩).data.get? "fruits" = some (.list fruits) ∧
      u.Names "basket" new ∧
      ¬ u.store.AsBefore (.list fruits) ((u.store.inst new).data.get? "fruits") := by
  let plan := (Plan.ofWorld filledBasket).afterAll (Program.compiled basketSource "basket").body
  let u := (Session.perform (reload Evaluate.run basketSource "basket") filledBasket).2
  obtain ⟨hreloaded, hcompiles, hdeclares, hsource, hunheard, hn, hold, hmutated, hone, htwo⟩ :
      (Session.perform (reload Evaluate.run basketSource "basket") filledBasket).1.isOk = true ∧
      (Program.compile basketSource (some "basket")).isOk = true ∧
      (Plan.ofWorld filledBasket).allowsAll (Program.compiled basketSource "basket").body = true ∧
      filledBasket.sources.get? "basket" = some basketSource ∧ Unheard filledBasket ∧
      "basket" ∈ filledBasket.tracked "basket" ∧ filledBasket.Names "basket" ⟨0⟩ ∧
      (filledBasket.store.inst ⟨0⟩).mutated = [] ∧
      ((plan.instances "basket").bind fun b => (b.constants? "fruits").map List.length) = some 1 ∧
      ((filledBasket.store.inst ⟨0⟩).list? "fruits").any (fun r =>
        filledBasket.store.lists.Holds r ∧ (filledBasket.store.list r).size = 2) = true := by
    decide +kernel
  have hok : reload Evaluate.run basketSource "basket" filledBasket = .ok () u :=
    Session.perform_of_isOk hreloaded
  obtain ⟨b, hb, hwritten⟩ := Option.bind_eq_some_iff.mp hone
  obtain ⟨cs, hcs, hlength⟩ := Option.map_eq_some_iff.mp hwritten
  obtain ⟨fruits, hfruits, hcounted⟩ := (Option.any_eq_true _ _).mp htwo
  obtain ⟨hheld, hsize⟩ := of_decide_eq_true hcounted
  rw [Instance.list?_eq_some] at hfruits
  have hreached : Reached filledBasket := (Reached.start {} []).serve _
  obtain ⟨hgrows, new, hnew, hfield⟩ := identical_reload_keeps_iff hreached hsource
    (Program.compile_of_isOk hcompiles) hdeclares hunheard hok hn hold hb
  refine ⟨u, new, fruits, hok, hsource, hold, hfruits, hnew, fun hsame => ?_⟩
  rcases ((hfield "fruits" _ hfruits rfl).mp hsame).2 with hassigned | ⟨c, hc, hmatches⟩
  · simp [hmutated] at hassigned
  · -- the list has two items, and one is written
    obtain rfl : c = .list cs :=
      Option.some.inj (hc.symm.trans (Blueprint.constant?_of_constants? hcs))
    obtain ⟨r, hr, hitems⟩ := hmatches
    obtain rfl : fruits = r := by simpa using hr
    have hkept : u.store.list fruits = filledBasket.store.list fruits :=
      hgrows.lists.get_eq fruits hheld
    have hcount := hitems.length_eq
    rw [hkept, Array.length_toList, hsize, hlength] at hcount
    omega

end EventScript
