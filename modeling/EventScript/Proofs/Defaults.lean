import EventScript.Proofs.Agree
import EventScript.Proofs.Scopes

/-! # Defaults of fields

The default of a field is evaluated in the scope in which an instance is declared, and a schema does
not keep the scope in which it was declared itself.  So a default has the same value in both, and
fails in both or in none, if the ways out of both lead to one scope and bind none of its names
before; and a name that is bound where the instance is declared is the one that counts.

* `Heap.WayOut`                  the way out of a scope, on which some names are not bound
* `Apart.lookup?_eq`             two scopes in which some names have the same values
* `agree_eval`                   expressions that mention no other names than these
* `default_sees_instance_scope`  what that comes to for defaults
-/

namespace EventScript

open Evaluate

/-! ## Ways out of scopes -/

/-- The way out of a scope up to another one: each scope on it is younger than the one around it,
    and none of them but the last one binds any of some names. -/
inductive Heap.WayOut (s : Heap .scope Scope) (names : List String) : ScopeRef → ScopeRef → Prop
  | here (r : ScopeRef) : s.WayOut names r r
  | outward {r p q : ScopeRef} (hheld : s.Holds r) (hparent : (s.get r).parent = some p)
      (hyounger : p.index < r.index) (hunbound : ∀ x ∈ names, x ∉ s.names r)
      (hrest : s.WayOut names p q) : s.WayOut names r q

section

variable {s : Store} {names : List String} {x : String} {r p q : ScopeRef} {bound : Nat}

theorem Store.resolveFrom_of_parent (hparent : (s.scope r).parent = some p)
    (hunbound : x ∉ s.scopes.names r) :
    s.resolveFrom x (bound + 1) r = s.resolveFrom x bound p := by
  have hcontains : (s.scope r).bindings.contains x = false := by
    simpa [← Table.contains_iff_mem_keys, Heap.names, Store.scope] using hunbound
  simp only [Store.resolveFrom, hcontains, hparent]
  rfl

/-- Where the way out leads to the outermost scope, no bound on it matters that is large enough. -/
theorem Store.resolveFrom_eq_resolve (h : s.scopes.WayOut [] r q)
    (hq : (s.scope q).parent = none) (hbound : r.index < bound) :
    s.resolveFrom x bound r = s.resolve x r := by
  induction h generalizing bound with
  | here r =>
    obtain ⟨b, rfl⟩ : ∃ b, bound = b + 1 := ⟨bound - 1, by omega⟩
    simp only [Store.resolve, Store.resolveFrom, hq, Option.bind_none]
  | @outward r p _ hheld hparent hyounger _ _ ih =>
    obtain ⟨b, rfl⟩ : ∃ b, bound = b + 1 := ⟨bound - 1, by omega⟩
    have hparent : (s.scope r).parent = some p := hparent
    have hb : p.index < b := by omega
    simp only [Store.resolve, Store.resolveFrom, hparent, Option.bind_some, ih hq hb,
      ih hq hyounger]

/-- A name that is not bound on the way out of a scope stands for what it stands for behind it. -/
theorem Heap.WayOut.resolveFrom (h : s.scopes.WayOut names r q) (hx : x ∈ names)
    (hq : ∀ {bound}, q.index < bound → s.resolveFrom x bound q = s.resolve x q)
    (hbound : r.index < bound) : s.resolveFrom x bound r = s.resolve x q := by
  induction h generalizing bound with
  | here r => exact hq hbound
  | @outward r p _ hheld hparent hyounger hunbound _ ih =>
    obtain ⟨b, rfl⟩ : ∃ b, bound = b + 1 := ⟨bound - 1, by omega⟩
    rw [Store.resolveFrom_of_parent hparent (hunbound x hx)]
    exact ih hq (by omega)

/-- Two scopes from which the ways out lead to a third one, and from there to the outermost one, and
    do not bind any of some names before the third one. -/
structure Apart (names : List String) (E D q : ScopeRef) (w : World) : Prop where
  inner : w.store.scopes.WayOut names E q
  outer : w.store.scopes.WayOut names D q
  around : w.store.scopes.WayOut [] q globalScope
  held : w.store.scopes.Holds globalScope
  outermost : (w.store.scopes.get globalScope).parent = none

/-- The names have the same values in both. -/
theorem Apart.lookup?_eq {E D : ScopeRef} {w : World} (h : Apart names E D q w) (hx : x ∈ names) :
    w.store.lookup? x E = w.store.lookup? x D := by
  have hq : ∀ {bound}, q.index < bound → w.store.resolveFrom x bound q = w.store.resolve x q :=
    fun hbound => Store.resolveFrom_eq_resolve h.around h.outermost hbound
  have hresolve : w.store.resolve x E = w.store.resolve x D :=
    (h.inner.resolveFrom hx hq (Nat.lt_succ_self _)).trans
      (h.outer.resolveFrom hx hq (Nat.lt_succ_self _)).symm
  rw [Store.lookup?, Store.lookup?, hresolve]

end

/-! ## Ways out stay -/

/-- Scopes stay inside of the scopes that they were made in. -/
structure ParentsKept (s s' : Heap .scope Scope) : Prop where
  holds : ∀ {r}, s.Holds r → s'.Holds r
  parent : ∀ {r}, s.Holds r → (s'.get r).parent = (s.get r).parent

theorem ParentsKept.refl (s : Heap .scope Scope) : ParentsKept s s := ⟨id, fun _ => rfl⟩

theorem ParentsKept.of_modify (s : Heap .scope Scope) (q : ScopeRef)
    (f : Table String Value → Table String Value) :
    ParentsKept s (s.modify q fun scope => { scope with bindings := f scope.bindings }) := by
  refine ⟨fun {r} => (s.holds_modify q r _).mpr, fun {r} hr => ?_⟩
  by_cases hrq : r = q
  · subst hrq
    rw [Heap.get_modify_self _ _ hr]
  · rw [Heap.get_modify_of_ne _ _ hrq]

theorem steady_parents : Steady fun v w : World => ParentsKept v.store.scopes w.store.scopes where
  same h := by rw [h]; exact .refl _
  trans huv hvw := ⟨fun hu => hvw.holds (huv.holds hu), fun hu =>
    (hvw.parent (huv.holds hu)).trans (huv.parent hu)⟩
  change {v w} h := by
    cases h with
    | scopeMade bindings parent =>
      exact ⟨(v.store.scopes.extends_push _).holds, fun hr => by
        rw [Heap.get_push_of_holds _ _ hr]⟩
    | defined r name a => exact .of_modify _ r (·.put name a)
    | undefined name => exact .of_modify _ globalScope (·.erase name)
    | instanceDeclared | importsRecorded | unsubscribed =>
      simpa only [store_withInstance, store_recordImports, store_unsubscribe] using .refl _
    | _ => exact .refl _

/-- The computation obeys every law that is not about events, so it adds no names to the scopes
    inside of the outermost one. -/
structure Abiding {α : Type} (act : Eval α) : Prop where
  obeyed : ∀ {L : Law} [L.Open], L.Indifferent → L.Obeyed act

theorem Heap.WayOut.kept {s s' : Heap .scope Scope} {names : List String} {r q : ScopeRef}
    (h : s.WayOut names r q) (hparents : ParentsKept s s')
    (hnames : ∀ {r}, r ≠ globalScope → s.Holds r → ∀ x, x ∈ s'.names r ↔ x ∈ s.names r) :
    s'.WayOut names r q := by
  induction h with
  | here r => exact .here r
  | @outward r p _ hheld hparent hyounger hunbound _ ih =>
    have hinner : r ≠ globalScope := by
      rintro rfl
      exact absurd hyounger (Nat.not_lt_zero _)
    exact .outward (hparents.holds hheld) ((hparents.parent hheld).trans hparent) hyounger
      (fun x hx hbound => hunbound x hx ((hnames hinner hheld x).mp hbound)) ih

/-- Scopes stay apart. -/
theorem Abiding.apart {α : Type} {act : Eval α} (hact : Abiding act) {names : List String}
    {E D q : ScopeRef} {w : World} (h : Apart names E D q w) :
    LeavesIn (Apart names E D q) (act w) := by
  -- where scopes lie and what they bind are two laws: names may still be added to the outermost one
  have hparents : ParentsKept w.store.scopes (Session.perform act w).2.store.scopes :=
    (hact.obeyed (Law.indifferent_steady steady_parents)).perform
      (P := fun v => ParentsKept w.store.scopes v.store.scopes)
      (fun h hw => steady_parents.trans hw h) (fun h hw => steady_parents.trans hw h) (.refl _)
  have hnames : ∀ {r}, r ≠ globalScope → w.store.scopes.Holds r → ∀ x,
      x ∈ (Session.perform act w).2.store.scopes.names r ↔ x ∈ w.store.scopes.names r :=
    fun hr hheld => (introduces_of_law hr (fun hL _ => hact.obeyed hL) w hheld).mem_iff
  have hkept : Apart names E D q (Session.perform act w).2 :=
    ⟨h.inner.kept hparents hnames, h.outer.kept hparents hnames, h.around.kept hparents hnames,
      hparents.holds h.held, (hparents.parent h.held).trans h.outermost⟩
  unfold Session.perform at hkept
  cases hr : act w <;> rw [hr] at hkept <;> exact hkept

/-! ## Expressions -/

/-- The part of an expression mentions no other names than some, and makes no function, which would
    keep the scope. -/
inductive Node.SpeaksOf (names : List String) : Node → Prop
  | mk {x : Node} (hname : ∀ span name, x = .expr (.name span name) → name ∈ names)
      (hlambda : ∀ span params body, x ≠ .expr (.lambda span params body))
      (below : ∀ child ∈ x.children, child.2.SpeaksOf names) : x.SpeaksOf names

section

variable {names : List String} {E D q : ScopeRef} {bound : Nat}

theorem Node.SpeaksOf.child {x : Node} (h : x.SpeaksOf names) :
    ∀ child ∈ x.children, child.2.SpeaksOf names := by
  cases h with
  | mk _ _ below => exact below

theorem Node.SpeaksOf.mem {span : Span} {name : String}
    (h : (Node.expr (.name span name)).SpeaksOf names) : name ∈ names := by
  cases h with
  | mk hname _ _ => exact hname span name rfl

theorem Node.SpeaksOf.not_lambda {span : Span} {params : List Param} {body : Body} :
    ¬ (Node.expr (.lambda span params body)).SpeaksOf names := by
  rintro ⟨_, hlambda, _⟩
  exact hlambda span params body rfl

/-- A computation in which the scope does not matter. -/
theorem Abiding.agree {α : Type} {act : Eval α} (hact : Abiding act) :
    Agree (Apart names E D q) act act := .refl fun _ hw => hact.apart hw

variable (heval : ∀ {e}, (Node.expr e).SpeaksOf names →
  Agree (Apart names E D q) (bounded bound (.eval e E)) (bounded bound (.eval e D)))

include heval

theorem agree_evalAll {es : List Expr} (hes : ∀ e ∈ es, (Node.expr e).SpeaksOf names) :
    Agree (Apart names E D q) (evalAll (bounded bound) E es) (evalAll (bounded bound) D es) := by
  induction es with
  | nil => exact Abiding.agree ⟨fun _ => Law.obeyed_pure _⟩
  | cons e rest ih =>
    obtain ⟨he, hrest⟩ := List.forall_mem_cons.mp hes
    exact .bind (heval he) fun v => .bind (ih hrest) fun vs =>
      Abiding.agree ⟨fun _ => Law.obeyed_pure _⟩

theorem agree_entryKey {key : EntryKey}
    (hkey : ∀ e, key = .computed e → (Node.expr e).SpeaksOf names) (span : Span) :
    Agree (Apart names E D q) (entryKey (bounded bound) E span key)
      (entryKey (bounded bound) D span key) := by
  cases key with
  | written name => exact Abiding.agree ⟨fun _ => Law.obeyed_pure _⟩
  | computed e =>
    refine .bind (heval (hkey e rfl)) fun (v : Value) => ?_
    cases v with
    | text name => exact Abiding.agree ⟨fun _ => Law.obeyed_pure _⟩
    | _ => exact Abiding.agree ⟨fun _ => Law.obeyed_problem _ _⟩

theorem agree_evalEntries {entries : List MapEntry}
    (hentries : ∀ x ∈ entries, (Node.entry x).SpeaksOf names) (t : Table Key Value) :
    Agree (Apart names E D q) (evalEntries (bounded bound) E t entries)
      (evalEntries (bounded bound) D t entries) := by
  induction entries generalizing t with
  | nil => exact Abiding.agree ⟨fun _ => Law.obeyed_pure _⟩
  | cons entry rest ih =>
    obtain ⟨hentry, hrest⟩ := List.forall_mem_cons.mp hentries
    obtain ⟨span, key, value⟩ := entry
    have hkey : ∀ e, key = .computed e → (Node.expr e).SpeaksOf names := by
      rintro e rfl
      exact hentry.child (0, .expr e) (by simp)
    have hvalue := hentry.child (0, .expr value) (by cases key <;> simp)
    exact .bind (agree_entryKey heval hkey span) fun key => .bind (heval hvalue) fun v => ih hrest _

theorem agree_indexKey {key : Expr} (hkey : (Node.expr key).SpeaksOf names) :
    Agree (Apart names E D q) (indexKey (bounded bound) E key)
      (indexKey (bounded bound) D key) := by
  refine .bind (heval hkey) fun (v : Value) => ?_
  cases v with
  | text _ | number _ | nan _ => exact Abiding.agree ⟨fun _ => Law.obeyed_pure _⟩
  | _ => exact Abiding.agree ⟨fun _ => Law.obeyed_problem _ _⟩

omit heval in
/-- What a callee that was evaluated is called with does not go back to the scope. -/
theorem abiding_callValue (callee : Expr) (f : Value) (args : List Value) (span : Span) :
    Abiding (callValue (bounded bound) callee f args span) :=
  ⟨fun hL => Law.obeyed_callValue (hL.runs_bounded bound) callee f args span⟩

omit heval in
theorem agree_lookup {name : String} (hname : name ∈ names) (span : Option Span) :
    Agree (Apart names E D q) (Eval.lookup name E span) (Eval.lookup name D span) := by
  intro w hw
  refine ⟨?_, Abiding.apart ⟨fun _ => Law.obeyed_lookup name E span⟩ hw⟩
  have hread : ∀ r, Eval.read (fun s => s.lookup? name r) w = .ok (w.store.lookup? name r) w :=
    fun _ => rfl
  rw [Eval.lookup, Eval.lookup, Eval.run_bind_of_ok (hread D), Eval.run_bind_of_ok (hread E),
    hw.lookup?_eq hname]

theorem agree_expression {e : Expr} (he : (Node.expr e).SpeaksOf names) :
    Agree (Apart names E D q) (expression (bounded bound) E e)
      (expression (bounded bound) D e) := by
  have hpart : ∀ {e' : Expr}, (0, Node.expr e') ∈ (Node.expr e).children →
      Agree (Apart names E D q) (bounded bound (.eval e' E)) (bounded bound (.eval e' D)) :=
    fun h => heval (he.child _ h)
  have hparts : ∀ {es : List Expr},
      (∀ e' ∈ es, (0, Node.expr e') ∈ (Node.expr e).children) →
      Agree (Apart names E D q) (evalAll (bounded bound) E es) (evalAll (bounded bound) D es) :=
    fun h => agree_evalAll heval fun e' he' => he.child _ (h e' he')
  have htruth : ∀ {e' : Expr}, (0, Node.expr e') ∈ (Node.expr e).children →
      Agree (Apart names E D q)
        (do return Value.bool (← Eval.truth (← bounded bound (.eval e' E))))
        (do return Value.bool (← Eval.truth (← bounded bound (.eval e' D)))) :=
    fun h => .bind (hpart h) fun v => .bind (Abiding.agree ⟨fun _ => Law.obeyed_truth v⟩) fun b =>
      Abiding.agree ⟨fun _ => Law.obeyed_pure _⟩
  cases e with
  | number _ _ | string _ _ | color _ _ | boolean _ _ | null _ =>
    exact Abiding.agree ⟨fun _ => Law.obeyed_pure _⟩
  | reactive _ root path =>
    exact Abiding.agree ⟨fun _ => Law.obeyed_read fun s => reactive s root path⟩
  | name span name => exact agree_lookup he.mem (some span)
  | vector _ es | list _ es =>
    exact .bind (hparts fun e he => List.mem_map_of_mem he) fun vs =>
      Abiding.agree ⟨fun _ => Law.obeyed_newList _⟩
  | map _ entries =>
    exact .bind (agree_evalEntries heval (fun x hx => he.child _ (List.mem_map_of_mem hx)) .empty)
      fun t => Abiding.agree ⟨fun _ => Law.obeyed_bind (Law.obeyed_newMap t) fun r =>
        Law.obeyed_pure _⟩
  | member span object property =>
    refine .bind (hpart (by simp)) fun v => ?_
    cases v with
    | null => exact Abiding.agree ⟨fun _ => Law.obeyed_problem _ _⟩
    | _ => exact Abiding.agree ⟨fun _ => Law.obeyed_access _ _ _⟩
  | index span object key =>
    refine .bind (hpart (by simp)) fun v => ?_
    cases v with
    | null => exact Abiding.agree ⟨fun _ => Law.obeyed_problem _ _⟩
    | _ =>
      exact .bind (agree_indexKey heval (he.child (0, .expr key) (by simp))) fun k =>
        Abiding.agree ⟨fun _ => Law.obeyed_access _ _ _⟩
  | call span callee arguments =>
    exact .bind (hpart (by simp)) fun f =>
      .bind (hparts fun e he => List.mem_cons_of_mem _ (List.mem_map_of_mem he)) fun args =>
        (abiding_callValue callee f args span).agree
  | binary span operator left right =>
    cases operator with
    | and =>
      exact .bind (hpart (by simp)) fun v =>
        .bind (Abiding.agree ⟨fun _ => Law.obeyed_truth v⟩) fun b =>
          .ite (htruth (by simp)) (Abiding.agree ⟨fun _ => Law.obeyed_pure _⟩)
    | or =>
      exact .bind (hpart (by simp)) fun v =>
        .bind (Abiding.agree ⟨fun _ => Law.obeyed_truth v⟩) fun b =>
          .ite (Abiding.agree ⟨fun _ => Law.obeyed_pure _⟩) (htruth (by simp))
    | _ =>
      exact .bind (hpart (by simp)) fun v => .bind (hpart (by simp)) fun w =>
        Abiding.agree ⟨fun _ => Law.obeyed_binary _ v w span⟩
  | unary span operator operand =>
    exact .bind (hpart (by simp)) fun v => Abiding.agree ⟨fun _ => Law.obeyed_unary _ v span⟩
  | conditional _ test consequent alternate =>
    exact .bind (hpart (by simp)) fun v =>
      .bind (Abiding.agree ⟨fun _ => Law.obeyed_truth v⟩) fun b =>
        .ite (hpart (by simp)) (hpart (by simp))
  | lambda span params body => exact absurd he Node.SpeaksOf.not_lambda

omit heval in
/-- An expression has the same outcome in both scopes. -/
theorem agree_eval (bound : Nat) {e : Expr} (he : (Node.expr e).SpeaksOf names) :
    Agree (Apart names E D q) (bounded bound (.eval e E)) (bounded bound (.eval e D)) := by
  -- a part is evaluated in the world that the parts before it left: the scopes are still apart
  induction bound generalizing e with
  | zero => exact .refl fun w hw => hw
  | succ bound ih => exact agree_expression ih he

omit heval in
theorem agree_defaults (bound : Nat) {fields : List SchemaField}
    (hfields : ∀ f ∈ fields, ∀ e ∈ f.default, (Node.expr e).SpeaksOf names)
    (t : Table String Value) :
    Agree (Apart names E D q) (defaults (bounded bound) E t fields)
      (defaults (bounded bound) D t fields) := by
  induction fields generalizing t with
  | nil => exact Abiding.agree ⟨fun _ => Law.obeyed_pure _⟩
  | cons f rest ih =>
    obtain ⟨hf, hrest⟩ := List.forall_mem_cons.mp hfields
    simp only [defaults]
    cases hdefault : f.default with
    | none => exact ih hrest t
    | some e => exact .bind (agree_eval bound (hf e hdefault)) fun v => ih hrest _

omit heval in
/-- A default that is a name has the value of this name in the scope of the instance. -/
theorem defaults_of_name {f : SchemaField} {span : Span} {x : String}
    (hf : f.default = some (.name span x)) (t : Table String Value) (w : World) :
    defaults (bounded (bound + 1)) E t [f] w = (w.store.lookup? x E).elim
      (.error (.diagnostic ⟨.undefinedVariable x, some span, none⟩) w)
      fun v => .ok (t.put f.name v) w := by
  have hread : Eval.read (fun s => s.lookup? x E) w = .ok (w.store.lookup? x E) w := rfl
  have heval : bounded (bound + 1) (.eval (.name span x) E) = Eval.lookup x E (some span) := rfl
  simp only [defaults, hf, heval]
  cases hx : w.store.lookup? x E with
  | some v =>
    have hvalue : Eval.lookup x E (some span) w = .ok v w := by
      rw [Eval.lookup, Eval.run_bind_of_ok hread, hx]
      rfl
    exact Eval.run_bind_of_ok hvalue
  | none =>
    have hfailure : Eval.lookup x E (some span) w =
        .error (.diagnostic ⟨.undefinedVariable x, some span, none⟩) w := by
      rw [Eval.lookup, Eval.run_bind_of_ok hread, hx]
      rfl
    exact Eval.run_bind_of_error hfailure

end

/-- The defaults of a schema are evaluated where the instance is declared.  They have the same
    outcome in two scopes, be it where the instance is declared and where the schema was, if the
    ways out of both lead to one scope and bind none of the names in the defaults before.  And that
    the names stand for the same is needed: a default that is a name has the same outcome in two
    scopes exactly if the name has the same value in both, or in none of them. -/
theorem default_sees_instance_scope (bound : Nat) (t : Table String Value) (w : World) :
    (∀ {names E D q fields}, Apart names E D q w →
      (∀ f ∈ fields, ∀ e ∈ f.default, (Node.expr e).SpeaksOf names) →
      defaults (bounded bound) E t fields w = defaults (bounded bound) D t fields w) ∧
    ∀ {E D f span x}, f.default = some (.name span x) →
      (defaults (bounded (bound + 1)) E t [f] w = defaults (bounded (bound + 1)) D t [f] w ↔
        w.store.lookup? x E = w.store.lookup? x D) := by
  refine ⟨fun h hfields => ((agree_defaults bound hfields t) w h).same.symm,
    fun {E D f span x} hf => ?_⟩
  rw [defaults_of_name hf, defaults_of_name hf]
  refine ⟨fun h => ?_, fun h => by rw [h]⟩
  cases hE : w.store.lookup? x E with
  | none =>
    cases hD : w.store.lookup? x D with
    | none => rfl
    | some v => rw [hE, hD] at h; cases h
  | some u =>
    cases hD : w.store.lookup? x D with
    | none => rw [hE, hD] at h; cases h
    | some v =>
      -- what was put under the name of the field can be read again
      rw [hE, hD] at h
      injection h with htable _
      have hget := congrArg (·.get? f.name) htable
      simpa using hget

/-- A world with `base` bound at the top, and two scopes inside of it, the second of which binds
    `base` anew. -/
def shadowedBase : World :=
  { Session.bareWorld {} [] with
    store := { Store.empty with
      scopes := ⟨#[⟨Table.empty.put "base" (.int 1), none⟩,
        ⟨Table.empty.put "a" (.int 0), some globalScope⟩,
        ⟨Table.empty.put "base" (.int 2), some globalScope⟩]⟩ } }

/-- A field `v: number = base`. -/
def fieldOfBase : SchemaField :=
  ⟨default, "v", .simple default "number", false, false, some (.name default "base")⟩

/-- With a schema from the top, the default is the same in the first of the scopes, and another one
    in the second. -/
theorem default_sees_instance_scope_shadowedBase :
    Apart ["base"] ⟨1⟩ globalScope globalScope shadowedBase ∧
    (Node.expr (.name default "base")).SpeaksOf ["base"] ∧
    defaults run ⟨1⟩ .empty [fieldOfBase] shadowedBase =
      defaults run globalScope .empty [fieldOfBase] shadowedBase ∧
    defaults run ⟨2⟩ .empty [fieldOfBase] shadowedBase ≠
      defaults run globalScope .empty [fieldOfBase] shadowedBase := by
  have hway : shadowedBase.store.scopes.WayOut ["base"] ⟨1⟩ globalScope :=
    .outward (by decide) rfl (by decide) (by decide) (.here _)
  have hapart : Apart ["base"] ⟨1⟩ globalScope globalScope shadowedBase :=
    ⟨hway, .here _, .here _, by decide, rfl⟩
  have hspeaks : (Node.expr (.name default "base")).SpeaksOf ["base"] := by
    refine .mk ?_ nofun (by simp)
    rintro _ _ ⟨⟩
    exact List.mem_singleton_self _
  refine ⟨hapart, hspeaks, ?_, ?_⟩
  · refine (default_sees_instance_scope runBound .empty shadowedBase).1 hapart fun f hf e he => ?_
    obtain rfl := List.mem_singleton.mp hf
    cases he
    exact hspeaks
  · intro h
    have hsame := ((default_sees_instance_scope _ .empty shadowedBase).2 rfl).mp h
    have hvalues : (some (.int 2) : Option Value) = some (.int 1) := hsame
    cases hvalues

end EventScript
