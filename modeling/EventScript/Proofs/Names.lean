import EventScript.Proofs.Code

/-! # Names in scopes

A name is bound in a scope by defining it there, and by assigning to it where no scope around binds
it; making scopes and changing anything else leaves the names of all scopes as they are.

* `Stmt.binds`, `Pattern.binds`   the names that code may add to the scope that it runs in
* `SameName`                      a name is bound in a scope behind as before
* `World.NamesKept`               so is every name that may not be added
-/

namespace EventScript

open Evaluate

/-! ## Code that binds names -/

/-- The names that a statement may add to the scope that it is executed in. -/
def Stmt.binds : Stmt → List String
  | letName _ name _ => [name]
  | assign _ (.name _ name) _ => [name]
  | function f => [f.name]
  | schema _ name _ _ _ => [name]
  | instanceOf _ _ name _ => [name]
  | _ => []

/-- The names that the statements of a block may add to the scope that it is executed in. -/
def Block.binds (b : Block) : List String := b.statements.flatMap Stmt.binds

/-- The names that the body of a function may add to the scope of a call. -/
def Body.binds : Body → List String
  | .expr _ => []
  | .block b => b.binds

mutual

/-- The names that a pattern may add to the scope of its case. -/
def Pattern.binds : Pattern → List String
  | .name _ n => [n]
  | .list _ elements => Pattern.allBind elements
  | .map _ entries => Pattern.entriesBind entries
  | .wildcard _ | .literal _ _ => []

/-- The names that patterns may add. -/
def Pattern.allBind : List Pattern → List String
  | [] => []
  | p :: ps => p.binds ++ allBind ps

/-- The names that the patterns of entries may add. -/
def Pattern.entriesBind : List (String × Pattern) → List String
  | [] => []
  | (_, p) :: rest => p.binds ++ entriesBind rest

end

/-! ## The names of a scope -/

namespace Heap

/-- The names that are bound in a scope. -/
def names (s : Heap .scope Scope) (r : ScopeRef) : List String := (s.get r).bindings.keys

variable {s : Heap .scope Scope} {r : ScopeRef}

theorem names_of_not_holds (hr : ¬ s.Holds r) : s.names r = [] := by
  unfold names
  rw [get_of_not_holds _ hr]
  rfl

theorem names_push_of_holds (scope : Scope) (hr : s.Holds r) :
    (s.push scope).names r = s.names r := by
  unfold names
  rw [get_push_of_holds _ _ hr]

theorem names_push_next (scope : Scope) : (s.push scope).names s.next = scope.bindings.keys := by
  unfold names
  rw [get_push_next]

theorem names_modify_self (f : Table String Value → Table String Value) (hr : s.Holds r) :
    (s.modify r fun scope => { scope with bindings := f scope.bindings }).names r =
      (f (s.get r).bindings).keys := by
  unfold names
  rw [get_modify_self _ _ hr]

theorem names_modify_of_ne (f : Table String Value → Table String Value) {q : ScopeRef}
    (hrq : r ≠ q) :
    (s.modify q fun scope => { scope with bindings := f scope.bindings }).names r = s.names r := by
  unfold names
  rw [get_modify_of_ne _ _ hrq]

end Heap

/-- A name is bound in a scope behind exactly if it was before. -/
structure SameName (r : ScopeRef) (name : String) (s s' : Heap .scope Scope) : Prop where
  holds : s'.Holds r
  mem_iff : name ∈ s'.names r ↔ name ∈ s.names r

theorem SameName.trans {r : ScopeRef} {name : String} {s s' s'' : Heap .scope Scope}
    (h : SameName r name s s') (h' : SameName r name s' s'') : SameName r name s s'' :=
  ⟨h'.holds, h'.mem_iff.trans h.mem_iff⟩

/-- Names that may not be added to a scope are bound in it behind as before. -/
def World.NamesKept (adds : ScopeRef → String → Prop) (v w : World) : Prop :=
  ∀ r name, ¬ adds r name → v.store.scopes.Holds r →
    SameName r name v.store.scopes w.store.scopes

namespace World.NamesKept

variable {adds : ScopeRef → String → Prop}

theorem of_scopes {v w : World} (h : w.store.scopes = v.store.scopes) : NamesKept adds v w := by
  intro r name _ hr
  rw [h]
  exact ⟨hr, Iff.rfl⟩

theorem of_store {v w : World} (h : w.store = v.store) : NamesKept adds v w :=
  of_scopes (congrArg Store.scopes h)

/-- A scope that is made is none of those before. -/
theorem of_push (w : World) (scope : Scope) :
    NamesKept adds w { w with store := { w.store with scopes := w.store.scopes.push scope } } :=
  fun _ _ _ hr =>
    ⟨(w.store.scopes.extends_push scope).holds hr, by rw [Heap.names_push_of_holds scope hr]⟩

/-- A change of the bindings of one scope. -/
theorem of_modify (w : World) (q : ScopeRef) (f : Table String Value → Table String Value)
    (hf : ∀ name, ¬ adds q name →
      (name ∈ (f (w.store.scopes.get q).bindings).keys ↔ name ∈ w.store.scopes.names q)) :
    NamesKept adds w { w with store := { w.store with
      scopes := w.store.scopes.modify q fun scope =>
        { scope with bindings := f scope.bindings } } } := by
  intro r name hname hr
  refine ⟨(w.store.scopes.holds_modify q r _).mpr hr, ?_⟩
  by_cases hrq : r = q
  · subst hrq
    rw [Heap.names_modify_self f hr]
    exact hf name hname
  · rw [Heap.names_modify_of_ne f hrq]

/-- A name is bound that may be added. -/
theorem define (w : World) {q : ScopeRef} {name : String} (hadds : adds q name) (v : Value) :
    NamesKept adds w { w with store := w.store.define q name v } := by
  refine of_modify w q (·.put name v) fun n hn => ?_
  have hne : n ≠ name := fun h => hn (h ▸ hadds)
  simp [Table.mem_keys_put, hne, Heap.names]

/-- A name gets another value where it is bound. -/
theorem redefine (w : World) {q : ScopeRef} {name : String}
    (hbound : name ∈ w.store.scopes.names q) (v : Value) :
    NamesKept adds w { w with store := w.store.define q name v } := by
  refine of_modify w q (·.put name v) fun n _ => ?_
  rw [Table.mem_keys_put]
  exact ⟨fun h => h.elim id fun h => h ▸ hbound, .inl⟩

theorem undefine (w : World) {name : String} (hadds : adds globalScope name) :
    NamesKept adds w { w with store := w.store.undefine globalScope name } := by
  refine of_modify w globalScope (·.erase name) fun n hn => ?_
  have hne : n ≠ name := fun h => hn (h ▸ hadds)
  simp [Table.mem_keys_erase, hne, Heap.names]

end World.NamesKept

/-- The scope that a name is resolved to binds it. -/
theorem Store.mem_names_of_resolve {s : Store} {name : String} {r q : ScopeRef}
    (h : s.resolve name r = some q) : name ∈ s.scopes.names q := by
  have hfrom : ∀ bound r, s.resolveFrom name bound r = some q → name ∈ s.scopes.names q := by
    intro bound
    induction bound with
    | zero => exact nofun
    | succ bound ih =>
      intro r h
      unfold resolveFrom at h
      dsimp only at h
      split at h
      · rename_i hcontains
        obtain rfl : r = q := Option.some.inj h
        exact (Table.contains_iff_mem_keys _ name).mp hcontains
      · obtain ⟨parent, -, hparent⟩ := Option.bind_eq_some_iff.mp h
        exact ih parent hparent
  exact hfrom _ r h

/-- Assigning adds a name only where it is not bound in any scope around. -/
theorem World.NamesKept.assign {adds : ScopeRef → String → Prop} (w : World) {r : ScopeRef}
    {name : String} (hadds : w.store.resolve name r = none → adds r name) (v : Value) :
    World.NamesKept adds w { w with store := w.store.assign r name v } := by
  unfold Store.assign
  cases hresolve : w.store.resolve name r with
  | none => exact .define w (hadds hresolve) v
  | some q => exact .redefine w (Store.mem_names_of_resolve hresolve) v

/-! ## Changes beside the store -/

theorem store_withInstance (scope : ScopeRef) (name : String) (r : InstanceRef) (w : World) :
    (withInstance scope name r w).store = w.store := by
  unfold withInstance
  split <;> rfl

theorem store_recordImports (program : Program) (file : Option String) (w : World) :
    (recordImports program file w).store = w.store := by
  unfold recordImports
  split <;> rfl

theorem store_unsubscribe (event : String) (r : ListenerRef) (w : World) :
    (unsubscribe event r w).store = w.store := by
  unfold unsubscribe
  split <;> rfl

end EventScript
