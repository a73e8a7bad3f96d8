import EventScript.Session

/-! # Reactive paths and member access

A reactive path goes from a global name along names of members; an expression can spell out the
same path with dots.  The two are walked by different rules: the path over the store, the
expression over scopes and values, which can break off and knows more kinds of values with members.
Where every step starts at a map or an instance they lead to the same place, and nowhere else does
either of them lead to a place that can be written.

* `Store.Along`, `Store.Reaches`   a path that leads through maps and instances
* `comes_eval`                     what an expression that spells out a path evaluates to
* `comes_navigateTo_global`        where the path of an assignment ends
* `sameWriting_of_comes`           walks that end at one place are followed by the same writing
* `reactive_agrees`                reading and writing agree
-/

namespace EventScript

open Evaluate

/-- The global name and the names of members behind it that an expression spells out with dots. -/
def Expr.path? : Expr → Option (String × List String)
  | .name _ root => some (root, [])
  | .member _ object property => object.path?.map fun p => (p.1, p.2 ++ [property])
  | _ => none

/-! ## Paths through maps and instances -/

/-- A value leads along a path to another one: every step starts at a map or at an instance, and a
    step to a member that is not there leads to null. -/
inductive Store.Along (s : Store) : Value → List String → Value → Prop
  | here (v : Value) : Along s v [] v
  | entry {r : MapRef} {name : String} {rest : List String} {v : Value}
      (h : Along s (((s.map r).get? (.text name)).getD .null) rest v) :
      Along s (.map r) (name :: rest) v
  | field {r : InstanceRef} {name : String} {rest : List String} {v : Value}
      (h : Along s (((s.inst r).data.get? name).getD .null) rest v) :
      Along s (.inst r) (name :: rest) v

/-- A global name is bound, and what it is bound to leads along a path to a value. -/
def Store.Reaches (s : Store) (root : String) (path : List String) (v : Value) : Prop :=
  ∃ start, (s.scope globalScope).bindings.get? root = some start ∧ s.Along start path v

/-- The value has members that a path can go on to: it is a map or an instance. -/
def Value.LeadsOn : Value → Prop
  | .map _ | .inst _ => True
  | _ => False

namespace Store

variable {s : Store}

theorem Along.eq_of_nil {start v : Value} (h : s.Along start [] v) : v = start := by
  cases h
  rfl

/-- A path that leads on from a map or an instance is one step longer. -/
theorem Along.snoc {start v : Value} {path : List String} (h : s.Along start path v)
    (hv : v.LeadsOn) (name : String) : s.Along start (path ++ [name]) (navigate s v name) := by
  induction h with
  | here v =>
    cases v with
    | map r => exact .entry (.here _)
    | inst r => exact .field (.here _)
    | _ => exact hv.elim
  | entry _ ih => exact .entry (ih hv)
  | field _ ih => exact .field (ih hv)

/-- The last step of a path starts at a map or an instance. -/
theorem Along.of_snoc {start v : Value} {path : List String} {name : String}
    (h : s.Along start (path ++ [name]) v) :
    ∃ u, s.Along start path u ∧ u.LeadsOn ∧ v = navigate s u name := by
  induction path generalizing start with
  | nil =>
    cases h with
    | entry h => exact ⟨_, .here _, trivial, h.eq_of_nil⟩
    | field h => exact ⟨_, .here _, trivial, h.eq_of_nil⟩
  | cons first rest ih =>
    cases h with
    | entry h =>
      obtain ⟨u, hu, hrest⟩ := ih h
      exact ⟨u, .entry hu, hrest⟩
    | field h =>
      obtain ⟨u, hu, hrest⟩ := ih h
      exact ⟨u, .field hu, hrest⟩

/-- Navigation follows a path through maps and instances. -/
theorem Along.foldl_navigate {start v : Value} {path : List String} (h : s.Along start path v) :
    path.foldl (navigate s) start = v := by
  induction h with
  | here v => rfl
  | entry _ ih => exact ih
  | field _ ih => exact ih

theorem foldl_navigate_null (path : List String) : path.foldl (navigate s) .null = .null := by
  induction path with
  | nil => rfl
  | cons name rest ih => exact ih

/-- Navigation along any other path gives null. -/
theorem foldl_navigate_of_not_along {start : Value} {path : List String}
    (h : ∀ v, ¬ s.Along start path v) : path.foldl (navigate s) start = .null := by
  induction path generalizing start with
  | nil => exact absurd (.here start) (h start)
  | cons name rest ih =>
    cases start with
    | map r => exact ih fun v hv => h v (.entry hv)
    | inst r => exact ih fun v hv => h v (.field hv)
    | _ => exact foldl_navigate_null rest

theorem Reaches.snoc {root : String} {path : List String} {v : Value}
    (h : s.Reaches root path v) (hv : v.LeadsOn) (name : String) :
    s.Reaches root (path ++ [name]) (navigate s v name) := by
  obtain ⟨start, hstart, halong⟩ := h
  exact ⟨start, hstart, halong.snoc hv name⟩

theorem Reaches.of_snoc {root : String} {path : List String} {name : String} {v : Value}
    (h : s.Reaches root (path ++ [name]) v) :
    ∃ u, s.Reaches root path u ∧ u.LeadsOn ∧ v = navigate s u name := by
  obtain ⟨start, hstart, halong⟩ := h
  obtain ⟨u, hu, hrest⟩ := halong.of_snoc
  exact ⟨u, ⟨start, hstart, hu⟩, hrest⟩

/-- A path reaches one value at most. -/
theorem Reaches.unique {root : String} {path : List String} {v w : Value}
    (hv : s.Reaches root path v) (hw : s.Reaches root path w) : v = w := by
  obtain ⟨start, hstart, hv⟩ := hv
  obtain ⟨start', hstart', hw⟩ := hw
  obtain rfl : start = start' := by simpa [hstart] using hstart'
  rw [← hv.foldl_navigate, ← hw.foldl_navigate]

/-- A reactive path that leads through maps and instances gives the value at its end. -/
theorem Reaches.reactive_eq {root : String} {path : List String} {v : Value}
    (h : s.Reaches root path v) : reactive s root path = v := by
  obtain ⟨start, hstart, halong⟩ := h
  have hroot : globalOrNull s root = start := by rw [globalOrNull, hstart]; rfl
  rw [reactive, hroot]
  exact halong.foldl_navigate

/-- Every other reactive path gives null. -/
theorem reactive_eq_null {root : String} {path : List String}
    (h : ∀ v, ¬ s.Reaches root path v) : reactive s root path = .null := by
  unfold reactive globalOrNull
  cases hroot : (s.scope globalScope).bindings.get? root with
  | none => exact foldl_navigate_null path
  | some start => exact foldl_navigate_of_not_along fun v hv => h v ⟨start, hroot, hv⟩

/-! ## Names of the outermost scope -/

/-- There is no scope around the outermost one. -/
theorem resolve_globalScope (s : Store) (name : String) :
    s.resolve name globalScope =
      if (s.scope globalScope).bindings.contains name then some globalScope else none := by
  have houter : (s.scope globalScope).parent.bind (s.resolveFrom name 0) = none := by
    cases (s.scope globalScope).parent <;> rfl
  change (if _ then _ else (s.scope globalScope).parent.bind (s.resolveFrom name 0)) = _
  rw [houter]

theorem lookup?_globalScope (s : Store) (name : String) :
    s.lookup? name globalScope = (s.scope globalScope).bindings.get? name := by
  rw [lookup?, resolve_globalScope]
  cases hname : (s.scope globalScope).bindings.get? name with
  | none => simp [Table.contains, hname]
  | some v => simp [Table.contains, hname]

/-- Assigning to a name at the outermost scope binds it there. -/
theorem assign_globalScope (s : Store) (name : String) (v : Value) :
    s.assign globalScope name v = s.define globalScope name v := by
  rw [assign, resolve_globalScope]
  split <;> rfl

end Store

/-! ## Evaluating the steps of a path -/

/-- Two worlds differ at most in the natives that were made. -/
def World.SameButNatives (v w : World) : Prop :=
  w = { v with store := { v.store with natives := w.store.natives } }

theorem World.SameButNatives.trans {u v w : World} (huv : u.SameButNatives v)
    (hvw : v.SameButNatives w) : u.SameButNatives w := by
  rw [hvw, huv]
  rfl

/-- A value that has no members, or none that could be written. -/
def Value.Bare : Value → Prop
  | .map _ | .inst _ | .list _ | .text _ => False
  | _ => True

/-- A walk does not arrive: it fails, or ends at a bare value, and only natives were made. -/
inductive Strays (u : World) : EStateM.Result Failure World Value → Prop
  | bare {v : Value} {w : World} (hv : v.Bare) (hw : u.SameButNatives w) : Strays u (.ok v w)
  | failed {e : Failure} {w : World} (hw : u.SameButNatives w) : Strays u (.error e w)

/-- What a walk comes to in a world: the value that it reaches, with nothing changed, or if there
    is none it does not arrive. -/
inductive Comes (u : World) (reached : Value → Prop) : EStateM.Result Failure World Value → Prop
  | reached {v : Value} (h : reached v) : Comes u reached (.ok v u)
  | strays {r : EStateM.Result Failure World Value} (h : ∀ v, ¬ reached v) (hr : Strays u r) :
    Comes u reached r

section Walks

variable {u : World}

theorem Comes.congr {reached reached' : Value → Prop} {r : EStateM.Result Failure World Value}
    (h : Comes u reached r) (hreached : ∀ v, reached v ↔ reached' v) : Comes u reached' r := by
  cases h with
  | reached h => exact .reached ((hreached _).mp h)
  | strays h hr => exact .strays (fun v hv => h v ((hreached v).mpr hv)) hr

theorem Strays.after {w : World} {r : EStateM.Result Failure World Value}
    (hw : u.SameButNatives w) (hr : Strays w r) : Strays u r := by
  cases hr with
  | bare hv hv' => exact .bare hv (hw.trans hv')
  | failed hv' => exact .failed (hw.trans hv')

theorem keyText_text (s : Store) (name : String) : s.keyText (.text name) = name := by
  unfold Store.keyText Store.display Store.displayFrom
  rfl

/-- A map or an instance is asked for its member. -/
theorem access_of_leadsOn {v : Value} (hv : v.LeadsOn) (name : String) (span : Span) :
    access v (.text name) span u = .ok (navigate u.store v name) u := by
  cases v with
  | map r =>
    change EStateM.Result.ok (((u.store.map r).get? (.text (u.store.keyText _))).getD .null) u = _
    rw [keyText_text]
    rfl
  | inst r =>
    change EStateM.Result.ok (((u.store.inst r).data.get? (u.store.keyText _)).getD .null) u = _
    rw [keyText_text]
    rfl
  | _ => exact hv.elim

/-- A list or a string has its length and its functions, and no members that could be written. -/
theorem strays_listMember (r : ListRef) (name : String) : Strays u (listMember r name u) := by
  unfold listMember
  split
  · exact .bare trivial rfl
  · cases ListMember.ofName? name with
    | some member => exact .bare trivial rfl
    | none => exact .bare trivial rfl

theorem strays_stringMember (t name : String) : Strays u (stringMember t name u) := by
  unfold stringMember
  split
  · exact .bare trivial rfl
  · cases StringMember.ofName? name with
    | some member => exact .bare trivial rfl
    | none => exact .bare trivial rfl

/-- No other value leads on to anything. -/
theorem strays_access {v : Value} (hv : ¬ v.LeadsOn) (name : String) (span : Span) :
    Strays u (access v (.text name) span u) := by
  cases v with
  | list r => exact strays_listMember r (u.store.keyText (.text name))
  | text t => exact strays_stringMember t (u.store.keyText (.text name))
  | map r => exact absurd trivial hv
  | inst r => exact absurd trivial hv
  | _ => exact .failed rfl

theorem Value.Bare.not_leadsOn {v : Value} (hv : v.Bare) : ¬ v.LeadsOn := by
  cases v <;> simp_all [Value.Bare, Value.LeadsOn]

/-- What is done with the value of an object in a member expression. -/
def memberOf (property : String) (span : Span) : Value → Eval Value
  | .null => Eval.problem .nullAccess (some span)
  | obj => access obj (.text property) span

theorem expression_member (run : Runner) (scope : ScopeRef) (span : Span) (object : Expr)
    (property : String) :
    expression run scope (.member span object property) =
      run (.eval object scope) >>= memberOf property span := by
  unfold expression
  refine congrArg (run (.eval object scope) >>= ·) (funext fun v => ?_)
  cases v <;> rfl

theorem memberOf_of_leadsOn {v : Value} (hv : v.LeadsOn) (property : String) (span : Span) :
    memberOf property span v u = .ok (navigate u.store v property) u := by
  have h := access_of_leadsOn (u := u) hv property span
  cases v with
  | null => exact hv.elim
  | _ => exact h

theorem strays_memberOf {v : Value} (hv : ¬ v.LeadsOn) (property : String) (span : Span) :
    Strays u (memberOf property span v u) := by
  have h := strays_access (u := u) hv property span
  cases v with
  | null => exact .failed rfl
  | _ => exact h

/-- A member expression goes one step on from where its object comes to. -/
theorem Comes.member {root : String} {path : List String} {act : Eval Value}
    (hact : Comes u (u.store.Reaches root path) (act u)) (property : String) (span : Span) :
    Comes u (u.store.Reaches root (path ++ [property]))
      ((act >>= memberOf property span) u) := by
  generalize ha : act u = r at hact
  cases hact with
  | @reached v h =>
    rw [Eval.run_bind_of_ok ha]
    by_cases hv : v.LeadsOn
    · rw [memberOf_of_leadsOn hv]
      exact .reached (h.snoc hv property)
    · refine .strays (fun x hx => ?_) (strays_memberOf hv property span)
      obtain ⟨y, hy, hleads, -⟩ := hx.of_snoc
      exact hv (h.unique hy ▸ hleads)
  | strays h hr =>
    refine .strays (fun x hx => ?_) ?_
    · obtain ⟨y, hy, -⟩ := hx.of_snoc
      exact h y hy
    · cases hr with
      | @bare v w hv hw =>
        rw [Eval.run_bind_of_ok ha]
        exact (strays_memberOf hv.not_leadsOn property span).after hw
      | failed hw =>
        rw [Eval.run_bind_of_error ha]
        exact .failed hw

theorem Comes.eq_ok {reached : Value → Prop} {r : EStateM.Result Failure World Value}
    (h : Comes u reached r) (hunique : ∀ {v w}, reached v → reached w → v = w) {v : Value}
    (hv : reached v) : r = .ok v u := by
  cases h with
  | reached h => rw [hunique h hv]
  | strays h _ => exact absurd hv (h v)

theorem Comes.of_not_reached {reached : Value → Prop} {r : EStateM.Result Failure World Value}
    (h : Comes u reached r) (hnone : ∀ v, ¬ reached v) : Strays u r := by
  cases h with
  | reached h => exact absurd h (hnone _)
  | strays _ hr => exact hr

/-- A global name comes to what it is bound to. -/
theorem comes_lookup (root : String) (span : Span) :
    Comes u (u.store.Reaches root []) (Eval.lookup root globalScope (some span) u) := by
  cases hroot : (u.store.scope globalScope).bindings.get? root with
  | some v =>
    have hread : Eval.read (fun s => s.lookup? root globalScope) u = .ok (some v) u := by
      rw [← hroot, ← Store.lookup?_globalScope]
      rfl
    have hlookup : Eval.lookup root globalScope (some span) u = .ok v u :=
      Eval.run_bind_of_ok hread
    rw [hlookup]
    exact .reached ⟨v, hroot, .here v⟩
  | none =>
    have hread : Eval.read (fun s => s.lookup? root globalScope) u = .ok none u := by
      rw [← hroot, ← Store.lookup?_globalScope]
      rfl
    have hlookup : Eval.lookup root globalScope (some span) u =
        .error (.diagnostic ⟨.undefinedVariable root, some span, none⟩) u :=
      Eval.run_bind_of_ok hread
    rw [hlookup]
    refine .strays (fun v hv => ?_) (.failed rfl)
    obtain ⟨start, hstart, -⟩ := hv
    rw [hroot] at hstart
    cases hstart

/-- An expression that spells out a path comes to the value that the path reaches. -/
theorem comes_eval {e : Expr} {root : String} {path : List String}
    (he : e.path? = some (root, path)) {bound : Nat} (hbound : path.length < bound) :
    Comes u (u.store.Reaches root path) (bounded bound (.eval e globalScope) u) := by
  obtain ⟨n, rfl⟩ : ∃ n, bound = n + 1 := ⟨bound - 1, by omega⟩
  -- one step of evaluation is spent on each name
  induction e using Expr.path?.induct generalizing root path n with
  | case1 span name =>
    obtain ⟨rfl, rfl⟩ : name = root ∧ [] = path := by simpa [Expr.path?] using he
    exact comes_lookup name span
  | case2 span object property ih =>
    obtain ⟨⟨r, init⟩, hobject, hpath⟩ := Option.map_eq_some_iff.mp he
    obtain ⟨rfl, rfl⟩ : r = root ∧ init ++ [property] = path := by simpa using hpath
    rw [List.length_append, List.length_singleton] at hbound
    obtain ⟨m, rfl⟩ : ∃ m, n = m + 1 := ⟨n - 1, by omega⟩
    change Comes u _ (expression (bounded (m + 1)) globalScope (.member span object property) u)
    rw [expression_member]
    exact (ih hobject m (by omega)).member property span
  | case3 e hname hmember =>
    cases e with
    | name span name => exact (hname span name rfl).elim
    | member span object property => exact (hmember span object property rfl).elim
    | _ => cases he

/-! ## Walking to the last step of a reactive path -/

/-- From null no path reaches anything but null. -/
theorem Comes.strays_of_null {path : List String} {r : EStateM.Result Failure World Value}
    (h : Comes u (u.store.Along .null path) r) : Strays u r := by
  cases h with
  | reached h =>
    rw [← h.foldl_navigate, Store.foldl_navigate_null]
    exact .bare trivial rfl
  | strays _ hr => exact hr

/-- The walk to the last step of a reactive path goes on from maps, instances and lists. -/
theorem navigateTo_goes_on {start : Value} (hstart : start.LeadsOn ∨ ∃ r, start = .list r)
    (walked : List String) (span : Span) (name : String) (rest : List String) (last : String) :
    navigateTo start walked span (name :: rest ++ [last]) u =
      navigateTo (navigate u.store start name) (name :: walked) span (rest ++ [last]) u := by
  obtain hleads | ⟨r, rfl⟩ := hstart
  · cases start with
    | map r | inst r => cases rest <;> rfl
    | _ => exact hleads.elim
  · cases rest <;> rfl

/-- The walk fails at every other value, and leaves the world as it is. -/
theorem navigateTo_stops {start : Value} (hleads : ¬ start.LeadsOn)
    (hlist : ¬ ∃ r, start = .list r) (walked : List String) (span : Span) (name : String)
    (rest : List String) (last : String) :
    ∃ e, navigateTo start walked span (name :: rest ++ [last]) u = .error e u := by
  cases start with
  | map r | inst r => exact absurd trivial hleads
  | list r => exact absurd ⟨r, rfl⟩ hlist
  | _ => cases rest <;> exact ⟨_, rfl⟩

/-- The walk to the last step of a reactive path comes to what the path before it reaches. -/
theorem comes_navigateTo (start : Value) (walked : List String) (span : Span)
    (init : List String) (last : String) :
    Comes u (u.store.Along start init) (navigateTo start walked span (init ++ [last]) u) := by
  induction init generalizing start walked with
  | nil => exact .reached (.here start)
  | cons name rest ih =>
    have hnext := ih (navigate u.store start name) (name :: walked)
    by_cases hleads : start.LeadsOn
    · rw [navigateTo_goes_on (.inl hleads)]
      refine hnext.congr fun v => ⟨fun h => ?_, fun h => ?_⟩
      · cases start with
        | map r => exact .entry h
        | inst r => exact .field h
        | _ => exact hleads.elim
      · cases h <;> assumption
    · have hnowhere : ∀ v, ¬ u.store.Along start (name :: rest) v := fun v h => by
        cases h <;> exact hleads trivial
      refine .strays hnowhere ?_
      by_cases hlist : ∃ r, start = .list r
      · -- the walk goes on from null, which is not where the path leads
        rw [navigateTo_goes_on (.inr hlist)]
        obtain ⟨r, rfl⟩ := hlist
        exact hnext.strays_of_null
      · obtain ⟨e, he⟩ := navigateTo_stops hleads hlist walked span name rest last
        rw [he]
        exact .failed rfl

/-- From a global name that is not bound the walk starts at null. -/
theorem comes_navigateTo_global (root : String) (init : List String) (last : String)
    (span : Span) :
    Comes u (u.store.Reaches root init)
      (navigateTo (globalOrNull u.store root) [root] span (init ++ [last]) u) := by
  have hwalk := comes_navigateTo (u := u) (globalOrNull u.store root) [root] span init last
  cases hroot : (u.store.scope globalScope).bindings.get? root with
  | some start =>
    have hstart : globalOrNull u.store root = start := by rw [globalOrNull, hroot]; rfl
    rw [hstart] at hwalk ⊢
    refine hwalk.congr fun v => ⟨fun h => ⟨start, hroot, h⟩, ?_⟩
    rintro ⟨start', hroot', h⟩
    obtain rfl : start = start' := by simpa [hroot] using hroot'
    exact h
  | none =>
    have hstart : globalOrNull u.store root = .null := by rw [globalOrNull, hroot]; rfl
    rw [hstart] at hwalk ⊢
    refine .strays (fun v hv => ?_) hwalk.strays_of_null
    obtain ⟨start, hroot', -⟩ := hv
    rw [hroot] at hroot'
    cases hroot'

end Walks

/-! ## Assignments -/

/-- Two outcomes of an assignment in a world: both succeed and leave the same world, or both fail
    and leave everything but the natives as it was. -/
inductive SameWriting {α : Type} (u : World) :
    EStateM.Result Failure World α → EStateM.Result Failure World α → Prop
  | written (a : α) (w : World) : SameWriting u (.ok a w) (.ok a w)
  | refused {e e' : Failure} {w w' : World} (hw : u.SameButNatives w)
    (hw' : u.SameButNatives w') : SameWriting u (.error e w) (.error e' w')

/-- The world with a member of a map or an instance written. -/
def World.withMember (u : World) (name : String) (v : Value) : Value → World
  | .inst r => { u with store :=
      { u.store with instances := u.store.instances.modify r (·.assign name v) } }
  | .map r => { u with store :=
      { u.store with maps := u.store.maps.modify r (·.put (.text name) v) } }
  | _ => u

/-- A way to write a member: a map or an instance takes the value, and everything else refuses it
    and stays as it is. -/
structure WritesMember (name : String) (v : Value) (next : Value → Eval Unit) : Prop where
  takes : ∀ {obj}, obj.LeadsOn → ∀ u, next obj u = .ok () (u.withMember name v obj)
  refuses : ∀ {obj}, ¬ obj.LeadsOn → ∀ u, ∃ e, next obj u = .error e u

section Assignments

variable {u : World} {name : String} {v : Value}

/-- What is done with the value of the object that an assignment names. -/
def putInto (name : String) (v : Value) (span : Span) : Value → Eval Unit
  | .null => Eval.problem .nullAssignment (some span)
  | obj => putMember obj (.text name) v span

theorem assignTo_member (run : Runner) (scope : ScopeRef) (span : Span) (object : Expr) :
    assignTo run scope v (.member span object name) =
      run (.eval object scope) >>= putInto name v span := by
  unfold assignTo
  refine congrArg (run (.eval object scope) >>= ·) (funext fun obj => ?_)
  cases obj <;> rfl

theorem writesMember_putInto (span : Span) : WritesMember name v (putInto name v span) where
  takes {obj} hobj u := by
    cases obj with
    | map r =>
      change EStateM.Result.ok () { u with store := { u.store with
        maps := u.store.maps.modify r (·.put (.text (u.store.keyText _)) v) } } = _
      rw [keyText_text]
      rfl
    | inst r =>
      change EStateM.Result.ok () { u with store := { u.store with
        instances := u.store.instances.modify r (·.assign (u.store.keyText _) v) } } = _
      rw [keyText_text]
      rfl
    | _ => exact hobj.elim
  refuses {obj} hobj u := by
    cases obj with
    | map r => exact absurd trivial hobj
    | inst r => exact absurd trivial hobj
    -- a list takes values under numbers only
    | _ => exact ⟨_, rfl⟩

/-- What is done with the value in front of the last step of a reactive path. -/
def putAtEnd (root : String) (path : List String) (name : String) (v : Value) (span : Span) :
    Value → Eval Unit
  | .inst r => Eval.modifyInstance r (·.assign name v)
  | .map r => Eval.putKey r (.text name) v
  | _ => Eval.problem (.cannotSet (root :: path)) (some span)

theorem putReactive_snoc (root : String) (init : List String) (span : Span) :
    putReactive root (init ++ [name]) v span u =
      (navigateTo (globalOrNull u.store root) [root] span (init ++ [name]) >>=
        putAtEnd root (init ++ [name]) name v span) u := by
  unfold putReactive
  rw [List.getLast?_append, List.getLast?_singleton, Option.some_or]
  change (navigateTo (globalOrNull u.store root) [root] span (init ++ [name]) >>= _) u = _
  refine congrArg (fun next => (navigateTo _ [root] span (init ++ [name]) >>= next) u) ?_
  funext obj
  cases obj <;> rfl

theorem writesMember_putAtEnd (root : String) (path : List String) (span : Span) :
    WritesMember name v (putAtEnd root path name v span) where
  takes {obj} hobj u := by
    cases obj with
    | map r => rfl
    | inst r => rfl
    | _ => exact hobj.elim
  refuses {obj} hobj u := by
    cases obj with
    | map r => exact absurd trivial hobj
    | inst r => exact absurd trivial hobj
    | _ => exact ⟨_, rfl⟩

/-- A walk that strays is followed by no writing. -/
theorem Strays.refuses {act : Eval Value} {next : Value → Eval Unit}
    (hnext : WritesMember name v next) (hact : Strays u (act u)) :
    ∃ e w, (act >>= next) u = .error e w ∧ u.SameButNatives w := by
  generalize ha : act u = r at hact
  cases hact with
  | @bare obj w hobj hw =>
    obtain ⟨e, he⟩ := hnext.refuses hobj.not_leadsOn w
    exact ⟨e, w, (Eval.run_bind_of_ok ha).trans he, hw⟩
  | failed hw => exact ⟨_, _, Eval.run_bind_of_error ha, hw⟩

/-- Two walks that come to the same place are followed by the same writing. -/
theorem sameWriting_of_comes {reached : Value → Prop}
    (hunique : ∀ {v w}, reached v → reached w → v = w) {act act' : Eval Value}
    {next next' : Value → Eval Unit} (hact : Comes u reached (act u))
    (hact' : Comes u reached (act' u)) (hnext : WritesMember name v next)
    (hnext' : WritesMember name v next') :
    SameWriting u ((act >>= next) u) ((act' >>= next') u) := by
  -- where the place is not reached, or takes no member, both refuse, though with other errors
  by_cases hplace : ∃ obj, reached obj
  · obtain ⟨obj, hobj⟩ := hplace
    have hgo := hact.eq_ok hunique hobj
    have hgo' := hact'.eq_ok hunique hobj
    rw [Eval.run_bind_of_ok hgo, Eval.run_bind_of_ok hgo']
    by_cases hleads : obj.LeadsOn
    · rw [hnext.takes hleads, hnext'.takes hleads]
      exact .written () _
    · obtain ⟨e, he⟩ := hnext.refuses hleads u
      obtain ⟨e', he'⟩ := hnext'.refuses hleads u
      rw [he, he']
      exact .refused rfl rfl
  · have hnone : ∀ obj, ¬ reached obj := fun obj hobj => hplace ⟨obj, hobj⟩
    obtain ⟨e, w, he, hw⟩ := (hact.of_not_reached hnone).refuses hnext
    obtain ⟨e', w', he', hw'⟩ := (hact'.of_not_reached hnone).refuses hnext'
    rw [he, he']
    exact .refused hw hw'

/-- Assigning through a reactive path and assigning to the member expression that spells it out. -/
theorem sameWriting_assignTo {e : Expr} {root : String} {path : List String}
    (he : e.path? = some (root, path)) {target : Target} (htarget : e.target? = some target)
    {bound : Nat} (hbound : path.length < bound) (v : Value) (span : Span) :
    SameWriting u (assignTo (bounded bound) globalScope v (.reactive span root path) u)
      (assignTo (bounded bound) globalScope v target u) := by
  cases e with
  | name span' name =>
    obtain ⟨rfl, rfl⟩ : name = root ∧ [] = path := by simpa [Expr.path?] using he
    cases htarget
    have hassign : assignTo (bounded bound) globalScope v (.name span' name) u =
        .ok () { u with store := u.store.define globalScope name v } := by
      change EStateM.Result.ok () { u with store := u.store.assign globalScope name v } = _
      rw [Store.assign_globalScope]
    rw [hassign]
    exact .written () _
  | member span' object property =>
    obtain ⟨⟨r, init⟩, hobject, hpath⟩ := Option.map_eq_some_iff.mp he
    obtain ⟨rfl, rfl⟩ : r = root ∧ init ++ [property] = path := by simpa using hpath
    rw [List.length_append, List.length_singleton] at hbound
    cases htarget
    change SameWriting u (putReactive r (init ++ [property]) v span u) _
    rw [putReactive_snoc, assignTo_member]
    exact sameWriting_of_comes Store.Reaches.unique (comes_navigateTo_global r init property span)
      (comes_eval hobject (by omega)) (writesMember_putAtEnd _ _ _) (writesMember_putInto span')
  | _ => cases he

end Assignments

/-- An expression that spells out a path can be assigned to. -/
theorem exists_target_of_path {e : Expr} {root : String} {path : List String}
    (he : e.path? = some (root, path)) : ∃ target, e.target? = some target := by
  cases e with
  | name span name => exact ⟨_, rfl⟩
  | member span object property => exact ⟨_, rfl⟩
  | _ => cases he

/-- Reading a reactive path, in whatever scope, is reading it in the store. -/
theorem eval_reactive (w : World) {bound : Nat} (hbound : 0 < bound) (span : Span)
    (root : String) (path : List String) (scope : ScopeRef) :
    bounded bound (.eval (.reactive span root path) scope) w =
      .ok (reactive w.store root path) w := by
  obtain ⟨n, rfl⟩ : ∃ n, bound = n + 1 := ⟨bound - 1, by omega⟩
  rfl

/-- An assignment evaluates its value before anything of its target. -/
theorem exec_assign {bound : Nat} {value : Expr} {w u : World} {v : Value}
    (hvalue : bounded bound (.eval value globalScope) w = .ok v u) (span : Span)
    (target : Target) :
    bounded (bound + 1) (.exec (.assign span target value) globalScope) w =
      (assignTo (bounded bound) globalScope v target >>= fun _ => pure Completion.normal) u := by
  change (bounded bound (.eval value globalScope) >>= fun v =>
    assignTo (bounded bound) globalScope v target >>= fun _ => pure Completion.normal) w = _
  exact Eval.run_bind_of_ok hvalue

theorem SameWriting.bind {α β : Type} {u : World} {act act' : Eval α}
    (h : SameWriting u (act u) (act' u)) (f : α → β) :
    SameWriting u ((act >>= fun a => pure (f a)) u) ((act' >>= fun a => pure (f a)) u) := by
  generalize ha : act u = r, ha' : act' u = r' at h
  cases h with
  | written a w =>
    rw [Eval.run_bind_of_ok ha, Eval.run_bind_of_ok ha']
    exact .written (f a) w
  | refused hw hw' =>
    rw [Eval.run_bind_of_error ha, Eval.run_bind_of_error ha']
    exact .refused hw hw'

/-- Reactive paths agree with member access.

    In every world, and for every path of any length that an expression spells out with dots: where
    the global name is bound and every step starts at a map or an instance, reading the path gives
    what the expression evaluates to at the outermost scope, and neither changes anything.  Any
    other path reads as null.  And whatever a value evaluates to, assigning it through the path and
    assigning it to the expression at the outermost scope both succeed and leave the same world, or
    both fail and leave all scopes, lists, maps and instances as they were.  Evaluating takes a step
    for each name, so the bound on the steps of the run has to be above their number. -/
theorem reactive_agrees (w : World) {e : Expr} {root : String} {path : List String}
    (he : e.path? = some (root, path)) :
    (∀ v, w.store.Reaches root path v → ∀ bound > path.length,
      (∀ span scope, bounded bound (.eval (.reactive span root path) scope) w = .ok v w) ∧
      bounded bound (.eval e globalScope) w = .ok v w) ∧
    ((∀ v, ¬ w.store.Reaches root path v) → ∀ bound > 0, ∀ span scope,
      bounded bound (.eval (.reactive span root path) scope) w = .ok .null w) ∧
    ∃ target, e.target? = some target ∧ ∀ bound > path.length, ∀ span span' value v u,
      bounded bound (.eval value globalScope) w = .ok v u →
      SameWriting u
        (bounded (bound + 1) (.exec (.assign span (.reactive span' root path) value) globalScope) w)
        (bounded (bound + 1) (.exec (.assign span target value) globalScope) w) := by
  obtain ⟨target, htarget⟩ := exists_target_of_path he
  refine ⟨fun v hv bound hbound => ⟨fun span scope => ?_, ?_⟩,
    fun hnone bound hbound span scope => ?_,
    target, htarget, fun bound hbound span span' value v u hvalue => ?_⟩
  · rw [eval_reactive w (by omega), hv.reactive_eq]
  · exact (comes_eval he hbound).eq_ok Store.Reaches.unique hv
  · rw [eval_reactive w hbound, Store.reactive_eq_null hnone]
  · rw [exec_assign hvalue, exec_assign hvalue]
    exact (sameWriting_assignTo he htarget hbound v span').bind fun _ => Completion.normal

/-- A world in which `door` is a map with a map `lock` in it that has a `code`. -/
def lockedDoor : World :=
  { Session.bareWorld {} [] with
    store := { Store.empty with
      maps := ⟨#[Table.empty.put (.text "lock") (.map ⟨1⟩),
        Table.empty.put (.text "code") (.int 7)]⟩
      scopes := ⟨#[⟨Table.empty.put "door" (.map ⟨0⟩), none⟩]⟩ } }

/-- The code of the lock is read and written in the same way through the reactive path. -/
theorem reactive_agrees_lockedDoor :
    Expr.path? (.member default (.member default (.name default "door") "lock") "code") =
      some ("door", ["lock", "code"]) ∧
    run (.eval (.reactive default "door" ["lock", "code"]) globalScope) lockedDoor =
      .ok (.int 7) lockedDoor ∧
    run (.eval (.member default (.member default (.name default "door") "lock") "code") globalScope)
      lockedDoor = .ok (.int 7) lockedDoor := by
  have hpath : Expr.path? (.member default (.member default (.name default "door") "lock") "code") =
      some ("door", ["lock", "code"]) := rfl
  have hreaches : lockedDoor.store.Reaches "door" ["lock", "code"] (.int 7) :=
    ⟨.map ⟨0⟩, rfl, .entry (.entry (.here _))⟩
  obtain ⟨hread, heval⟩ :=
    (reactive_agrees lockedDoor hpath).1 _ hreaches runBound (by decide)
  exact ⟨hpath, hread default globalScope, heval⟩

end EventScript
