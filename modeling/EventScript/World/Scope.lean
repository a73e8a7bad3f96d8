import EventScript.World

/-! # Scopes

Scopes are nested.  A name stands for its binding in the nearest scope around that binds it.
Assigning changes that binding, or adds one to the scope itself where there is none; defining
always binds in the scope itself.
-/

namespace EventScript

namespace Store

/-- The nearest of a number of scopes, from one outwards, that binds a name. -/
def resolveFrom (s : Store) (name : String) : Nat → ScopeRef → Option ScopeRef
  | 0, _ => none
  | bound + 1, r =>
    let scope := s.scope r
    if scope.bindings.contains name then some r
    else scope.parent.bind (resolveFrom s name bound)

/-- The nearest scope, from one outwards, that binds a name.  A scope is younger than the scope
    around it, so its index bounds the way out. -/
def resolve (s : Store) (name : String) (r : ScopeRef) : Option ScopeRef :=
  s.resolveFrom name (r.index + 1) r

/-- The value of a name in a scope. -/
def lookup? (s : Store) (name : String) (r : ScopeRef) : Option Value :=
  (s.resolve name r).bind fun q => (s.scope q).bindings.get? name

/-- Bind a name in a scope. -/
def define (s : Store) (r : ScopeRef) (name : String) (v : Value) : Store :=
  { s with scopes := s.scopes.modify r fun scope =>
      { scope with bindings := scope.bindings.put name v } }

/-- Unbind a name in a scope. -/
def undefine (s : Store) (r : ScopeRef) (name : String) : Store :=
  { s with scopes := s.scopes.modify r fun scope =>
      { scope with bindings := scope.bindings.erase name } }

/-- Change the binding of a name, or bind it in the scope where it has none. -/
def assign (s : Store) (r : ScopeRef) (name : String) (v : Value) : Store :=
  s.define ((s.resolve name r).getD r) name v

end Store

/-- The outermost scope, which is the first one made. -/
def globalScope : ScopeRef := ⟨0⟩

namespace Eval

/-- The value of a name in a scope. -/
def lookup (name : String) (r : ScopeRef) (span : Option Span) : Eval Value := do
  match ← read fun s => s.lookup? name r with
  | some v => return v
  | none => problem (.undefinedVariable name) span

/-- The value of a global name, if it is bound. -/
def global? (name : String) : Eval (Option Value) :=
  read fun s => (s.scope globalScope).bindings.get? name

/-- Bind a name in a scope. -/
def define (r : ScopeRef) (name : String) (v : Value) : Eval Unit :=
  modifyStore fun s => s.define r name v

/-- Change the binding of a name, or bind it in the scope where it has none. -/
def assign (r : ScopeRef) (name : String) (v : Value) : Eval Unit :=
  modifyStore fun s => s.assign r name v

/-- Make a scope without bindings inside of another one. -/
def childScope (r : ScopeRef) : Eval ScopeRef := newScope (some r) .empty

end Eval

end EventScript
