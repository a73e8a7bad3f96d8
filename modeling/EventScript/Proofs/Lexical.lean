import EventScript.Proofs.Names
import EventScript.Session

/-! # Scopes as a lexical store

Scopes are made one after the other, each on its own or inside of an earlier one, and names are
defined, assigned and looked up in them.  A `Lexicon` is a plain account of that: the way out of
each scope, and everything that was stored, the last first.  There a name stands for the value that
was stored last in the first scope on the way out in which any was stored.  The heap of scopes, with
its tables and its references from scope to scope, says the same.

* `Lexicon`                 the account of what was done to the scopes
* `Represents.resolve_eq`   a name is resolved to the nearest scope of the account
* `Represents.perform`      every operation keeps the account true
* `Sees`                    an update of a name shows in another scope
* `scopes_are_lexical`      look-ups, definitions and assignments after any operations
-/

namespace EventScript

/-- What is done to scopes. -/
inductive ScopeOp
  /-- Make a scope that is in no other one. -/
  | root
  /-- Make a scope inside of another one. -/
  | child (r : ScopeRef)
  | define (r : ScopeRef) (name : String) (v : Value)
  | assign (r : ScopeRef) (name : String) (v : Value)
  | lookup (r : ScopeRef) (name : String)

namespace ScopeOp

/-- The computation of an operation. -/
def act : ScopeOp → Eval Unit
  | root => discard (Eval.newScope none .empty)
  | child r => discard (Eval.childScope r)
  | define r name v => Eval.define r name v
  | assign r name v => Eval.assign r name v
  | lookup r name => discard (Eval.lookup name r none)

/-- The scope that an operation is done on, if there is one. -/
def scope? : ScopeOp → Option ScopeRef
  | root => none
  | child r | define r _ _ | assign r _ _ | lookup r _ => some r

end ScopeOp

/-! ## The account -/

/-- A value that was stored for a name in a scope. -/
structure Stored where
  scope : ScopeRef
  name : String
  value : Value

/-- An account of what was done to scopes. -/
structure Lexicon where
  /-- For each scope the scopes around it, from itself outwards. -/
  ways : List (List ScopeRef)
  /-- What was stored, the last first. -/
  stored : List Stored

namespace Lexicon

/-- The account of nothing. -/
def empty : Lexicon := ⟨[], []⟩

/-- The scopes around a scope, from itself outwards. -/
def around (t : Lexicon) (r : ScopeRef) : List ScopeRef := t.ways.getD r.index []

/-- The value that was stored last for a name in a scope. -/
def last? (t : Lexicon) (r : ScopeRef) (name : String) : Option Value :=
  (t.stored.find? fun e => e.scope = r ∧ e.name = name).map Stored.value

/-- The nearest scope, from one outwards, in which something was stored for a name. -/
def nearest? (t : Lexicon) (name : String) (r : ScopeRef) : Option ScopeRef :=
  (t.around r).find? fun q => (t.last? q name).isSome

/-- The value that was stored last for a name in the nearest scope that has one. -/
def lookup? (t : Lexicon) (name : String) (r : ScopeRef) : Option Value :=
  (t.nearest? name r).bind (t.last? · name)

/-- The account with one more value stored. -/
def store (t : Lexicon) (r : ScopeRef) (name : String) (v : Value) : Lexicon :=
  { t with stored := ⟨r, name, v⟩ :: t.stored }

/-- The account with one more scope, inside of some others. -/
def grow (t : Lexicon) (outer : List ScopeRef) : Lexicon :=
  { t with ways := t.ways ++ [⟨t.ways.length⟩ :: outer] }

/-- The account behind an operation. -/
def perform (t : Lexicon) : ScopeOp → Lexicon
  | .root => t.grow []
  | .child r => t.grow (t.around r)
  | .define r name v => t.store r name v
  | .assign r name v => t.store ((t.nearest? name r).getD r) name v
  | .lookup _ _ => t

variable {t : Lexicon} {q r : ScopeRef} {name : String}

theorem last?_store (t : Lexicon) (r : ScopeRef) (name : String) (v : Value) (q : ScopeRef)
    (m : String) :
    (t.store r name v).last? q m = if q = r ∧ m = name then some v else t.last? q m := by
  unfold last? store
  rw [List.find?_cons]
  by_cases hsame : q = r ∧ m = name
  · obtain ⟨rfl, rfl⟩ := hsame
    simp
  · have hother : ¬ (r = q ∧ name = m) := fun h => hsame ⟨h.1.symm, h.2.symm⟩
    simp [hsame, hother]

/-- Nothing is known of a name exactly if nothing was ever stored for it. -/
theorem last?_eq_none_iff :
    t.last? q name = none ↔ ∀ e ∈ t.stored, ¬ (e.scope = q ∧ e.name = name) := by
  simp [last?]

/-- Something was stored for a name in the nearest scope that has it. -/
theorem isSome_last?_of_nearest? (hq : t.nearest? name r = some q) :
    (t.last? q name).isSome = true :=
  List.find?_some (p := fun q => (t.last? q name).isSome) hq

/-- A name has no value exactly if none was stored for it in any of the scopes around. -/
theorem lookup?_eq_none_iff :
    t.lookup? name r = none ↔
      ∀ q ∈ t.around r, ∀ e ∈ t.stored, ¬ (e.scope = q ∧ e.name = name) := by
  have hnearest : t.lookup? name r = none ↔ t.nearest? name r = none := by
    unfold lookup?
    cases hq : t.nearest? name r with
    | none => simp
    | some q => simpa using Option.isSome_iff_ne_none.mp (isSome_last?_of_nearest? hq)
  rw [hnearest, nearest?, List.find?_eq_none]
  simp only [Option.not_isSome_iff_eq_none, last?_eq_none_iff]

theorem around_grow_next (t : Lexicon) (outer : List ScopeRef) :
    (t.grow outer).around ⟨t.ways.length⟩ = ⟨t.ways.length⟩ :: outer := by
  simp [around, grow]

theorem around_grow_of_lt (t : Lexicon) (outer : List ScopeRef) (hr : r.index < t.ways.length) :
    (t.grow outer).around r = t.around r := by
  simp [around, grow, List.getElem?_append_left hr]

end Lexicon

/-! ## The heap of scopes -/

namespace Heap

variable {region : Region} {α : Type} {h : Heap region α} {r : Ref region} {a : α}

theorem holds_of_push (h : Heap region α) (hr : (h.push a).Holds r) (hnext : r ≠ h.next) :
    h.Holds r := by
  have hle : r.index ≤ h.cells.size := by simpa [Holds, push, Nat.lt_succ_iff] using hr
  exact Nat.lt_of_le_of_ne hle fun heq => hnext (congrArg Ref.mk heq)

/-- An object that is added is read through its own reference only. -/
theorem get_push_of_ne [Inhabited α] (h : Heap region α) (a : α) (hnext : r ≠ h.next) :
    (h.push a).get r = h.get r := by
  by_cases hr : h.Holds r
  · exact h.get_push_of_holds a hr
  · rw [h.get_of_not_holds hr, get_of_not_holds _ fun hpush => hr (h.holds_of_push hpush hnext)]

end Heap

namespace Store

/-- A name is bound in a scope, and nothing else is different. -/
structure BindsOnly (s : Store) (r : ScopeRef) (name : String) (v : Value) (s' : Store) :
    Prop where
  bound : (s'.scope r).bindings.get? name = some v
  others : ∀ q m, ¬ (q = r ∧ m = name) →
    (s'.scope q).bindings.get? m = (s.scope q).bindings.get? m
  parents : ∀ q, (s'.scope q).parent = (s.scope q).parent
  rest : s' = { s with scopes := s'.scopes }

theorem bindsOnly_define {s : Store} {r : ScopeRef} (hr : s.scopes.Holds r) (name : String)
    (v : Value) : s.BindsOnly r name v (s.define r name v) := by
  have hself : (s.define r name v).scope r =
      { s.scope r with bindings := (s.scope r).bindings.put name v } :=
    s.scopes.get_modify_self _ hr
  have hother : ∀ q, q ≠ r → (s.define r name v).scope q = s.scope q := fun q hq =>
    s.scopes.get_modify_of_ne _ hq
  refine ⟨?_, fun q m hqm => ?_, fun q => ?_, rfl⟩
  · rw [hself]
    exact Table.get?_put_self ..
  · by_cases hq : q = r
    · subst hq
      rw [hself]
      exact Table.get?_put_of_ne _ _ fun hm => hqm ⟨rfl, hm⟩
    · rw [hother q hq]
  · by_cases hq : q = r
    · subst hq
      rw [hself]
    · rw [hother q hq]

end Store

/-- The account is true of the scopes of a store. -/
structure Represents (t : Lexicon) (s : Store) : Prop where
  size : t.ways.length = s.scopes.size
  around : ∀ r, s.scopes.Holds r → t.around r = r :: (s.scope r).parent.elim [] t.around
  /-- A scope is younger than the scope around it. -/
  older : ∀ r p, (s.scope r).parent = some p → p.index < r.index
  last : ∀ r name, t.last? r name = (s.scope r).bindings.get? name

namespace Represents

variable {t : Lexicon} {s : Store} {r q : ScopeRef} {name : String}

/-- A scope around a scope is there. -/
theorem holds_parent (h : Represents t s) {p : ScopeRef} (hr : s.scopes.Holds r)
    (hp : (s.scope r).parent = some p) : s.scopes.Holds p :=
  Nat.lt_trans (h.older r p hp) hr

/-- A search that may take more steps than there are older scopes finds the nearest scope. -/
theorem resolveFrom_eq (h : Represents t s) {bound : Nat} (hr : s.scopes.Holds r)
    (hbound : r.index < bound) : s.resolveFrom name bound r = t.nearest? name r := by
  induction bound generalizing r with
  | zero => exact absurd hbound (Nat.not_lt_zero _)
  | succ bound ih =>
    have hhere : (s.scope r).bindings.contains name = (t.last? r name).isSome := by
      rw [h.last, Table.contains]
    rw [Lexicon.nearest?, h.around r hr, List.find?_cons, Store.resolveFrom, hhere]
    cases (t.last? r name).isSome with
    | true => rfl
    | false =>
      cases hp : (s.scope r).parent with
      | none => rfl
      | some p =>
        -- the scope around is older, so one step less is enough for it
        have holder : p.index < bound :=
          Nat.lt_of_lt_of_le (h.older r p hp) (Nat.le_of_lt_succ hbound)
        exact ih (h.holds_parent hr hp) holder

/-- A name is resolved to the nearest scope in which something was stored for it. -/
theorem resolve_eq (h : Represents t s) (hr : s.scopes.Holds r) :
    s.resolve name r = t.nearest? name r :=
  h.resolveFrom_eq hr (Nat.lt_succ_self _)

/-- A look-up gives what was stored last in that scope. -/
theorem lookup?_eq (h : Represents t s) (hr : s.scopes.Holds r) :
    s.lookup? name r = t.lookup? name r := by
  unfold Store.lookup? Lexicon.lookup?
  rw [h.resolve_eq hr]
  cases t.nearest? name r with
  | none => rfl
  | some q => exact (h.last q name).symm

/-- The nearest scope is there, so that it can be written to. -/
theorem holds_nearest (h : Represents t s) (hq : t.nearest? name r = some q) :
    s.scopes.Holds q := by
  have hlast := Lexicon.isSome_last?_of_nearest? hq
  refine Classical.byContradiction fun hnot => ?_
  have hnone : s.scope q = default := s.scopes.get_of_not_holds hnot
  rw [h.last, hnone] at hlast
  cases hlast

/-! ### Operations -/

theorem bindsOnly {s' : Store} {v : Value} (h : Represents t s) (hs : s.BindsOnly r name v s')
    (hsize : s'.scopes.size = s.scopes.size) : Represents (t.store r name v) s' where
  size := h.size.trans hsize.symm
  around q hq := by
    have hq' : s.scopes.Holds q := Nat.lt_of_lt_of_eq hq hsize
    rw [hs.parents q]
    exact h.around q hq'
  older q p hp := h.older q p ((hs.parents q).symm.trans hp)
  last q m := by
    rw [Lexicon.last?_store]
    by_cases hqm : q = r ∧ m = name
    · obtain ⟨rfl, rfl⟩ := hqm
      rw [if_pos ⟨rfl, rfl⟩, hs.bound]
    · rw [if_neg hqm, hs.others q m hqm, h.last]

theorem define (h : Represents t s) (hr : s.scopes.Holds r) (name : String) (v : Value) :
    Represents (t.store r name v) (s.define r name v) :=
  h.bindsOnly (Store.bindsOnly_define hr name v) (Array.size_modify ..)

/-- The scope that an assignment writes to: the nearest one that binds the name, or else the scope
    that it is made in. -/
theorem holds_assigned (h : Represents t s) (hr : s.scopes.Holds r) (name : String) :
    s.scopes.Holds ((t.nearest? name r).getD r) := by
  cases hq : t.nearest? name r with
  | none => exact hr
  | some q => exact h.holds_nearest hq

theorem assign_eq (h : Represents t s) (hr : s.scopes.Holds r) (name : String) (v : Value) :
    s.assign r name v = s.define ((t.nearest? name r).getD r) name v := by
  rw [Store.assign, h.resolve_eq hr]

/-- A new scope is empty, and inside of the scopes that its parent is in. -/
theorem grow (h : Represents t s) (parent : Option ScopeRef)
    (hparent : ∀ p ∈ parent, s.scopes.Holds p) :
    Represents (t.grow (parent.elim [] t.around))
      { s with scopes := s.scopes.push ⟨.empty, parent⟩ } := by
  have hnext : (⟨t.ways.length⟩ : ScopeRef) = s.scopes.next := congrArg Ref.mk h.size
  have hnew : (s.scopes.push ⟨.empty, parent⟩).get s.scopes.next = ⟨.empty, parent⟩ :=
    s.scopes.get_push_next _
  have hold : ∀ q, q ≠ s.scopes.next → (s.scopes.push ⟨.empty, parent⟩).get q = s.scope q :=
    fun q hq => s.scopes.get_push_of_ne _ hq
  have haround : ∀ q, s.scopes.Holds q →
      (t.grow (parent.elim [] t.around)).around q = t.around q := fun q hq =>
    t.around_grow_of_lt _ (Nat.lt_of_lt_of_eq hq h.size.symm)
  have hnot : ¬ s.scopes.Holds s.scopes.next := Nat.lt_irrefl _
  have hunknown : ∀ name, t.last? s.scopes.next name = none := fun name => by
    rw [h.last, Store.scope, s.scopes.get_of_not_holds hnot]
    rfl
  refine ⟨?_, fun q hq => ?_, fun q p hp => ?_, fun q name => ?_⟩
  · simp [Lexicon.grow, Heap.size, Heap.push, h.size]
  · by_cases hq' : q = s.scopes.next
    · subst hq'
      rw [Store.scope, hnew, ← hnext, Lexicon.around_grow_next]
      cases parent with
      | none => rfl
      | some p => exact congrArg _ (haround p (hparent p rfl)).symm
    · have hheld : s.scopes.Holds q := s.scopes.holds_of_push hq hq'
      rw [haround q hheld, Store.scope, hold q hq', h.around q hheld]
      cases hp : (s.scope q).parent with
      | none => rfl
      | some p => exact congrArg _ (haround p (h.holds_parent hheld hp)).symm
  · by_cases hq' : q = s.scopes.next
    · subst hq'
      rw [Store.scope, hnew] at hp
      exact hparent p hp
    · rw [Store.scope, hold q hq'] at hp
      exact h.older q p hp
  · by_cases hq' : q = s.scopes.next
    · subst hq'
      rw [Store.scope, hnew]
      exact hunknown name
    · rw [Store.scope, hold q hq']
      exact h.last q name

/-- Every operation on a scope that is there keeps the account true. -/
theorem perform {w : World} (h : Represents t w.store) {op : ScopeOp}
    (hop : ∀ r ∈ op.scope?, w.store.scopes.Holds r) :
    Represents (t.perform op) (Session.perform op.act w).2.store := by
  cases op with
  | root => exact h.grow none nofun
  | child r => exact h.grow (some r) fun p hp => Option.some.inj hp ▸ hop r rfl
  | define r name v => exact h.define (hop r rfl) name v
  | assign r name v =>
    show Represents _ (w.store.assign r name v)
    rw [h.assign_eq (hop r rfl)]
    exact h.define (h.holds_assigned (hop r rfl) name) name v
  | lookup r name =>
    have hsame : (Session.perform (ScopeOp.lookup r name).act w).2 = w := by
      have hlookup : ∀ x, (Session.perform (discard
          (match x with
            | some v => return v
            | none => Eval.problem (.undefinedVariable name) none : Eval Value)) w).2 = w := by
        rintro (_ | v) <;> rfl
      exact hlookup (w.store.lookup? name r)
    rw [hsame]
    exact h

/-! ### Updates that show elsewhere -/

/-- Where a name is bound in one more scope, it is resolved to the first scope on the way out that is
    this one or bound it before. -/
theorem resolve_define (h : Represents t s) {p : ScopeRef} (hp : s.scopes.Holds p)
    (hq : s.scopes.Holds q) (name : String) (v : Value) :
    (s.define p name v).resolve name q =
      (t.around q).find? fun q' => q' = p || (t.last? q' name).isSome := by
  rw [(h.define hp name v).resolve_eq ((s.scopes.holds_modify p q _).mpr hq)]
  unfold Lexicon.nearest?
  congr 1
  funext q'
  rw [Lexicon.last?_store]
  by_cases hq' : q' = p
  · simp [hq']
  · simp [hq']

end Represents

/-- The updates of a name show in a scope: there the name has the value that was written last. -/
def Sees (q : ScopeRef) (name : String) (update : Value → Store) : Prop :=
  ∀ v, (update v).lookup? name q = some v

namespace Represents

variable {t : Lexicon} {s : Store} {r q : ScopeRef}

/-- The binding of a name that is made in a scope shows in those scopes that resolve the name
    to it. -/
theorem sees_define_iff (h : Represents t s) {p : ScopeRef} (hp : s.scopes.Holds p)
    (hq : s.scopes.Holds q) (name : String) :
    Sees q name (s.define p name) ↔ ∀ v, (s.define p name v).resolve name q = some p := by
  have hvalue : ∀ v, (s.define p name v).lookup? name q =
      ((s.define p name v).resolve name q).bind fun q' =>
        ((s.define p name v).scope q').bindings.get? name := fun v => rfl
  constructor
  · intro hsees v
    rw [h.resolve_define hp hq]
    have hnull := hvalue .null ▸ hsees .null
    have htrue := hvalue (.bool true) ▸ hsees (.bool true)
    rw [h.resolve_define hp hq] at hnull htrue
    cases hfound : (t.around q).find? fun q' => q' = p || (t.last? q' name).isSome with
    | none =>
      rw [hfound] at hnull
      cases hnull
    | some q' =>
      by_cases hqp : q' = p
      · rw [hqp]
      · -- the binding of any other scope is the same, whatever value is written
        have hother : ¬ (q' = p ∧ name = name) := fun h => hqp h.1
        have hsame := fun v => (Store.bindsOnly_define hp name v).others q' name hother
        rw [hfound, Option.bind_some, hsame] at hnull htrue
        cases hnull.symm.trans htrue
  · intro hresolve v
    rw [hvalue, hresolve, Option.bind_some, (Store.bindsOnly_define hp name v).bound]

/-- Where a name is bound again in a scope that bound it before, it is resolved as before. -/
theorem resolve_bound (h : Represents t s) {name : String} {p : ScopeRef}
    (hp : t.nearest? name r = some p) (hq : s.scopes.Holds q) (v : Value) :
    (s.define p name v).resolve name q = s.resolve name q := by
  have hlast := Lexicon.isSome_last?_of_nearest? hp
  rw [h.resolve_define (h.holds_nearest hp) hq, h.resolve_eq hq, Lexicon.nearest?]
  congr 1
  funext q'
  by_cases hq' : q' = p
  · simp [hq', hlast]
  · simp [hq']

/-- A scope resolves a name to itself where it is bound in it. -/
theorem resolve_define_self (h : Represents t s) (hr : s.scopes.Holds r) (name : String)
    (v : Value) : (s.define r name v).resolve name r = some r := by
  rw [h.resolve_define hr hr, h.around r hr, List.find?_cons]
  simp

/-- A scope resolves a name to the binding that an assignment in it has made or changed. -/
theorem resolve_assign_self (h : Represents t s) (hr : s.scopes.Holds r) (name : String)
    (v : Value) : (s.assign r name v).resolve name r = some ((t.nearest? name r).getD r) := by
  rw [h.assign_eq hr]
  cases hp : t.nearest? name r with
  | none => exact h.resolve_define_self hr name v
  | some p => rw [Option.getD_some, h.resolve_bound hp hr, h.resolve_eq hr, hp]

/-- A definition shows in the scopes that resolve the name as the scope of the definition does. -/
theorem sees_define_iff_resolve (h : Represents t s) (hr : s.scopes.Holds r)
    (hq : s.scopes.Holds q) (name : String) :
    Sees q name (s.define r name) ↔ ∀ v,
      (s.define r name v).resolve name q = (s.define r name v).resolve name r := by
  rw [h.sees_define_iff hr hq]
  exact forall_congr' fun v => by rw [h.resolve_define_self hr]

/-- An assignment shows in the scopes that resolve the name as the scope of the assignment does. -/
theorem sees_assign_iff_resolve (h : Represents t s) (hr : s.scopes.Holds r)
    (hq : s.scopes.Holds q) (name : String) :
    Sees q name (s.assign r name) ↔ ∀ v,
      (s.assign r name v).resolve name q = (s.assign r name v).resolve name r := by
  have hassign : s.assign r name = s.define ((t.nearest? name r).getD r) name :=
    funext (h.assign_eq hr name)
  have hself := h.resolve_assign_self hr name
  rw [hassign] at hself ⊢
  rw [h.sees_define_iff (h.holds_assigned hr name) hq]
  exact forall_congr' fun v => by rw [hself]

/-- Where the name was bound before, so did they then. -/
theorem sees_assign_iff_of_bound (h : Represents t s) (hr : s.scopes.Holds r)
    (hq : s.scopes.Holds q) {name : String} (hbound : s.resolve name r ≠ none) :
    Sees q name (s.assign r name) ↔ s.resolve name q = s.resolve name r := by
  obtain ⟨p, hp⟩ := Option.ne_none_iff_exists'.mp (h.resolve_eq hr ▸ hbound)
  have hassign : ∀ v, s.assign r name v = s.define p name v := fun v => by
    rw [h.assign_eq hr, hp, Option.getD_some]
  rw [h.sees_assign_iff_resolve hr hq]
  have hsame : ∀ v, ((s.assign r name v).resolve name q = (s.assign r name v).resolve name r ↔
      s.resolve name q = s.resolve name r) := fun v => by
    rw [hassign, h.resolve_bound hp hq, h.resolve_bound hp hr]
  exact ⟨fun hall => (hsame .null).mp (hall .null), fun hresolve v => (hsame v).mpr hresolve⟩

end Represents

/-! ## Sequences of operations -/

/-- The account of any operations on scopes that were made before, and the world behind them. -/
inductive Recounts : Lexicon → World → Prop
  | start {w : World} (hnone : w.store.scopes = .empty) : Recounts .empty w
  | operation {t : Lexicon} {w : World} (h : Recounts t w) (op : ScopeOp)
    (hop : ∀ r ∈ op.scope?, w.store.scopes.Holds r) :
    Recounts (t.perform op) (Session.perform op.act w).2

theorem Recounts.represents {t : Lexicon} {w : World} (h : Recounts t w) :
    Represents t w.store := by
  induction h with
  | start hnone =>
    have hscope : ∀ r, Store.scope _ r = default := fun r => by
      rw [Store.scope, hnone]
      rfl
    refine ⟨by rw [hnone]; rfl, fun r hr => ?_, fun r p hp => ?_, fun r name => ?_⟩
    · rw [hnone] at hr
      exact absurd hr (Nat.not_lt_zero _)
    · rw [hscope] at hp
      cases hp
    · rw [hscope]
      rfl
  | operation _ op hop ih => exact ih.perform hop

/-- What a look-up of a name gives. -/
theorem Eval.lookup_eq (name : String) (r : ScopeRef) (span : Option Span) (w : World) :
    Eval.lookup name r span w =
      match w.store.lookup? name r with
      | some v => .ok v w
      | none => .error (.diagnostic ⟨.undefinedVariable name, span, none⟩) w := by
  have hread : Eval.lookup name r span w =
      (match w.store.lookup? name r with
        | some v => pure v
        | none => Eval.problem (.undefinedVariable name) span : Eval Value) w := rfl
  rw [hread]
  cases w.store.lookup? name r <;> rfl

/-- Scopes are a lexical store.  Behind any operations on any scopes, a name has in every scope the
    value that was stored last in the nearest scope around in which one was stored, and it is
    reported as undefined exactly if there is none.  Defining it changes its binding in that one
    scope; assigning changes the binding that a look-up would read, or makes one in that scope
    itself where there is none; and nothing else changes.  So an update that is made in one scope
    shows in another exactly if both resolve the name to one scope, and for an assignment to a
    name that is bound it does not matter whether that is asked before or afterwards. -/
theorem scopes_are_lexical {t : Lexicon} {w : World} (h : Recounts t w) {r : ScopeRef}
    (hr : w.store.scopes.Holds r) (name : String) :
    (∀ v span, t.lookup? name r = some v → Eval.lookup name r span w = .ok v w) ∧
    (∀ span, t.lookup? name r = none →
      Eval.lookup name r span w = .error (.diagnostic ⟨.undefinedVariable name, span, none⟩) w) ∧
    (Problem.undefinedVariable name).code = "E401" ∧
    (t.lookup? name r = none ↔
      ∀ q ∈ t.around r, ∀ e ∈ t.stored, ¬ (e.scope = q ∧ e.name = name)) ∧
    (∀ v, ∃ u, Eval.define r name v w = .ok () u ∧ w.store.BindsOnly r name v u.store) ∧
    (∀ v, ∃ u q, Eval.assign r name v w = .ok () u ∧ w.store.BindsOnly q name v u.store ∧
      (t.nearest? name r = some q ∨ t.nearest? name r = none ∧ q = r)) ∧
    w.store.resolve name r = t.nearest? name r ∧
    ∀ q, w.store.scopes.Holds q →
      (Sees q name (w.store.define r name) ↔ ∀ v,
        (w.store.define r name v).resolve name q = (w.store.define r name v).resolve name r) ∧
      (Sees q name (w.store.assign r name) ↔ ∀ v,
        (w.store.assign r name v).resolve name q = (w.store.assign r name v).resolve name r) ∧
      (w.store.resolve name r ≠ none → (Sees q name (w.store.assign r name) ↔
        w.store.resolve name q = w.store.resolve name r)) := by
  have hw := h.represents
  refine ⟨fun v span hv => ?_, fun span hnone => ?_, rfl, Lexicon.lookup?_eq_none_iff,
    fun v => ⟨_, rfl, Store.bindsOnly_define hr name v⟩, fun v => ?_, hw.resolve_eq hr,
    fun q hq => ⟨hw.sees_define_iff_resolve hr hq name, hw.sees_assign_iff_resolve hr hq name,
      hw.sees_assign_iff_of_bound hr hq⟩⟩
  · rw [Eval.lookup_eq, hw.lookup?_eq hr, hv]
  · rw [Eval.lookup_eq, hw.lookup?_eq hr, hnone]
  · refine ⟨_, (t.nearest? name r).getD r, rfl, ?_, ?_⟩
    · show w.store.BindsOnly _ name v (w.store.assign r name v)
      rw [hw.assign_eq hr]
      exact Store.bindsOnly_define (hw.holds_assigned hr name) name v
    · cases hp : t.nearest? name r with
      | none => exact .inr ⟨rfl, rfl⟩
      | some p => exact .inl rfl

/-- A name that is defined in the outermost of three scopes, assigned in the innermost one, and then
    defined in the one between. -/
def shadowing : List ScopeOp :=
  [.root, .child ⟨0⟩, .child ⟨1⟩, .define ⟨0⟩ "x" (.int 1), .assign ⟨2⟩ "x" (.int 5),
    .define ⟨1⟩ "x" (.int 7), .lookup ⟨2⟩ "y"]

/-- The account of that. -/
def shadowingLexicon : Lexicon := shadowing.foldl Lexicon.perform .empty

/-- The world behind it. -/
def shadowingWorld : World :=
  shadowing.foldl (fun w op => (Session.perform op.act w).2) (Session.bareWorld {} [])

theorem recounts_shadowing : Recounts shadowingLexicon shadowingWorld := by
  have hscope : ∀ {t w}, Recounts t w → ∀ op r, op.scope? = some r → w.store.scopes.Holds r →
      Recounts (t.perform op) (Session.perform op.act w).2 := fun h op r hr hheld =>
    h.operation op fun q hq => Option.some.inj (hr.symm.trans hq) ▸ hheld
  have hroot := (Recounts.start (w := Session.bareWorld {} []) rfl).operation .root nofun
  have hinner := hscope hroot (.child ⟨0⟩) _ rfl (by decide)
  have hinmost := hscope hinner (.child ⟨1⟩) _ rfl (by decide)
  have hdefined := hscope hinmost (.define ⟨0⟩ "x" (.int 1)) _ rfl (by decide)
  have hassigned := hscope hdefined (.assign ⟨2⟩ "x" (.int 5)) _ rfl (by decide)
  have hshadowed := hscope hassigned (.define ⟨1⟩ "x" (.int 7)) _ rfl (by decide)
  exact hscope hshadowed (.lookup ⟨2⟩ "y") _ rfl (by decide)

/-- The assignment in the innermost scope went to the outermost one, since the scope between had no
    binding of its own then.  Now that it has one, it is where such an assignment shows. -/
theorem scopes_are_lexical_shadowing :
    Recounts shadowingLexicon shadowingWorld ∧ shadowingWorld.store.scopes.Holds ⟨0⟩ ∧
      shadowingWorld.store.scopes.Holds ⟨2⟩ ∧
      Eval.lookup "x" ⟨0⟩ none shadowingWorld = .ok (.int 5) shadowingWorld ∧
      Eval.lookup "x" ⟨2⟩ none shadowingWorld = .ok (.int 7) shadowingWorld ∧
      (∃ e, Eval.lookup "y" ⟨2⟩ none shadowingWorld = .error e shadowingWorld) ∧
      Sees ⟨1⟩ "x" (shadowingWorld.store.assign ⟨2⟩ "x") ∧
      ¬ Sees ⟨0⟩ "x" (shadowingWorld.store.assign ⟨2⟩ "x") := by
  have houter : shadowingWorld.store.scopes.Holds ⟨0⟩ := by decide
  have hbetween : shadowingWorld.store.scopes.Holds ⟨1⟩ := by decide
  have hinner : shadowingWorld.store.scopes.Holds ⟨2⟩ := by decide
  have hx := scopes_are_lexical recounts_shadowing hinner "x"
  have hy := scopes_are_lexical recounts_shadowing hinner "y"
  obtain ⟨hvalue, -, -, -, -, -, -, hshared⟩ := hx
  have hbound : shadowingWorld.store.resolve "x" ⟨2⟩ ≠ none := by decide
  refine ⟨recounts_shadowing, houter, hinner,
    (scopes_are_lexical recounts_shadowing houter "x").1 (.int 5) none rfl,
    hvalue (.int 7) none rfl, ⟨_, hy.2.1 none rfl⟩, ?_, ?_⟩
  · exact ((hshared ⟨1⟩ hbetween).2.2 hbound).mpr (by decide)
  · rw [(hshared ⟨0⟩ houter).2.2 hbound]
    decide

end EventScript
