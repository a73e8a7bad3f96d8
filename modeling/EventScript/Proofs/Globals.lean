import EventScript.World.Scope

/-! # Global names

What the names of the outermost scope are bound to, and how binding and unbinding one of them leaves
the others alone.

* `global?_unbindAll`                      names that are unbound
* `global?_bind_self`, `global?_bind_of_ne`   a name that is bound
-/

namespace EventScript

/-- The value of a global name, if it is bound. -/
def World.global? (w : World) (name : String) : Option Value :=
  (w.store.scope globalScope).bindings.get? name

/-- The instance that a global name is bound to, if it is bound to one. -/
def World.instanceOf? (w : World) (name : String) : Option InstanceRef :=
  match w.global? name with
  | some (.inst r) => some r
  | _ => none

/-- A global name is bound to an instance. -/
def World.Names (w : World) (name : String) (r : InstanceRef) : Prop :=
  w.instanceOf? name = some r ∧ w.store.instances.Holds r

instance (w : World) (name : String) (r : InstanceRef) : Decidable (w.Names name r) :=
  inferInstanceAs (Decidable (_ ∧ _))

theorem World.instanceOf?_eq_some {w : World} {name : String} {r : InstanceRef} :
    w.instanceOf? name = some r ↔ w.global? name = some (.inst r) := by
  unfold instanceOf?
  split
  · rename_i s hs
    simp [hs]
  · rename_i hother
    exact ⟨fun h => (nomatch h), fun h => absurd h (hother r)⟩

/-- The world with a global name unbound. -/
def World.unbind (w : World) (name : String) : World :=
  { w with store := w.store.undefine globalScope name }

/-- The world with several global names unbound. -/
def World.unbindAll (w : World) (names : List String) : World := names.foldl World.unbind w

theorem World.global?_unbind_self (w : World) (name : String) :
    (w.unbind name).global? name = none := by
  by_cases hheld : w.store.scopes.Holds globalScope
  · simp [global?, unbind, Store.undefine, Store.scope, Heap.get_modify_self _ _ hheld]
  · have hheld' : ¬ (w.store.undefine globalScope name).scopes.Holds globalScope := by
      simpa [Store.undefine] using hheld
    have hscope : (w.unbind name).store.scope globalScope = default :=
      Heap.get_of_not_holds _ hheld'
    rw [global?, hscope]
    rfl

theorem World.global?_unbind_of_ne (w : World) {m n : String} (h : n ≠ m) :
    (w.unbind m).global? n = w.global? n := by
  by_cases hheld : w.store.scopes.Holds globalScope
  · simp [global?, unbind, Store.undefine, Store.scope, Heap.get_modify_self _ _ hheld,
      Table.get?_erase_of_ne _ h]
  · have hheld' : ¬ (w.store.undefine globalScope m).scopes.Holds globalScope := by
      simpa [Store.undefine] using hheld
    have hscope : (w.unbind m).store.scope globalScope = w.store.scope globalScope :=
      (Heap.get_of_not_holds _ hheld').trans (Heap.get_of_not_holds _ hheld).symm
    rw [global?, hscope, global?]

/-- Unbinding names changes nothing but scopes. -/
theorem World.unbindAll_eq (w : World) (names : List String) :
    ∃ scopes, (∀ r, w.store.scopes.Holds r → scopes.Holds r) ∧
      w.unbindAll names = { w with store := { w.store with scopes := scopes } } := by
  induction names generalizing w with
  | nil => exact ⟨w.store.scopes, fun _ hr => hr, rfl⟩
  | cons name rest ih =>
    obtain ⟨scopes, hheld, hrest⟩ := ih (w.unbind name)
    exact ⟨scopes, fun r hr => hheld r ((Heap.holds_modify _ _ _ _).mpr hr), hrest⟩

theorem World.global?_unbindAll (w : World) (names : List String) (n : String) :
    (w.unbindAll names).global? n = if n ∈ names then none else w.global? n := by
  induction names generalizing w with
  | nil => simp [unbindAll]
  | cons name rest ih =>
    have hrest : (w.unbindAll (name :: rest)).global? n =
        ((w.unbind name).unbindAll rest).global? n := rfl
    rw [hrest, ih]
    by_cases hname : n = name
    · subst hname
      simp [global?_unbind_self]
    · simp [hname, global?_unbind_of_ne w hname]

/-- The world with a global name bound. -/
def World.bind (w : World) (name : String) (v : Value) : World :=
  { w with store := w.store.define globalScope name v }

theorem World.global?_bind_self {w : World} (hheld : w.store.scopes.Holds globalScope)
    (name : String) (v : Value) : (w.bind name v).global? name = some v := by
  simp [global?, bind, Store.define, Store.scope, Heap.get_modify_self _ _ hheld]

theorem World.global?_bind_of_ne (w : World) {m n : String} (v : Value) (h : n ≠ m) :
    (w.bind m v).global? n = w.global? n := by
  by_cases hheld : w.store.scopes.Holds globalScope
  · simp [global?, bind, Store.define, Store.scope, Heap.get_modify_self _ _ hheld,
      Table.get?_put_of_ne _ _ h]
  · have hheld' : ¬ (w.store.define globalScope m v).scopes.Holds globalScope := by
      simpa [Store.define] using hheld
    have hscope : (w.bind m v).store.scope globalScope = w.store.scope globalScope :=
      (Heap.get_of_not_holds _ hheld').trans (Heap.get_of_not_holds _ hheld).symm
    rw [global?, hscope, global?]

theorem World.instanceOf?_bind_self {w : World} (hheld : w.store.scopes.Holds globalScope)
    (name : String) (r : InstanceRef) :
    (w.bind name (.inst r)).instanceOf? name = some r := by
  rw [instanceOf?, global?_bind_self hheld]

theorem World.instanceOf?_bind_of_ne (w : World) {m n : String} (v : Value) (h : n ≠ m) :
    (w.bind m v).instanceOf? n = w.instanceOf? n := by
  rw [instanceOf?, global?_bind_of_ne w v h, instanceOf?]

/-- A world in which a name is bound has a global scope. -/
theorem World.Names.holds_globalScope {w : World} {name : String} {r : InstanceRef}
    (h : w.Names name r) : w.store.scopes.Holds globalScope := by
  by_cases hheld : w.store.scopes.Holds globalScope
  · exact hheld
  · have hglobal := World.instanceOf?_eq_some.mp h.1
    have hscope : w.store.scope globalScope = default := Heap.get_of_not_holds _ hheld
    rw [World.global?, hscope] at hglobal
    cases hglobal

end EventScript
