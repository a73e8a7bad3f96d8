import EventScript.Proofs.Law.Steady
import EventScript.Proofs.Loops.Completion

/-! # Scopes do not leak

Which names are bound in a scope depends on what is executed directly in it and on nothing else:
functions, handlers, loops, branches and cases bind their own names in scopes that they make, and
return to the scopes around them without a trace.  Names are added to the outermost scope in other
ways too, by reactive assignments and by the host, so all this is about the scopes inside of it.

* `keeping`                 the law that a name is bound in a scope behind as before
* `introduces_of_law`       what obeys that law adds no other names than those that it may
* `ownScope_newScope`       the names of a scope that was made for a computation
* `scopes_do_not_leak`      which names any piece of work adds to which scope
-/

namespace EventScript

open Evaluate

/-! ## Names that are added to a scope -/

/-- A scope keeps its names, and no others than some are added to it. -/
structure Added (E : ScopeRef) (ns : List String) (s s' : Heap .scope Scope) : Prop where
  holds : s'.Holds E
  kept : ∀ x ∈ s.names E, x ∈ s'.names E
  new : ∀ x ∈ s'.names E, x ∈ s.names E ∨ x ∈ ns

/-- The computation adds no other names than some to a scope that is there, and takes none away,
    whether it fails or not. -/
def Introduces {α : Type} (E : ScopeRef) (ns : List String) (act : Eval α) : Prop :=
  ∀ w : World, w.store.scopes.Holds E →
    Added E ns w.store.scopes (Session.perform act w).2.store.scopes

/-- The computation adds no other names than some to the first scope that it makes. -/
def OwnScope {α : Type} (ns : List String) (act : Eval α) : Prop :=
  ∀ w : World, w.store.scopes.Holds globalScope →
    ∀ x ∈ (Session.perform act w).2.store.scopes.names w.store.scopes.next, x ∈ ns

/-- Where nothing may be added, a scope has the same names behind as before. -/
theorem Added.mem_iff {E : ScopeRef} {s s' : Heap .scope Scope} (h : Added E [] s s') (x : String) :
    x ∈ s'.names E ↔ x ∈ s.names E :=
  ⟨fun hx => (h.new x hx).elim id nofun, h.kept x⟩

/-! ## Laws about names -/

/-- The law that a name is bound in a scope behind as before: what adds it to this scope may not be
    executed there. -/
def keeping {E : ScopeRef} (hE : E ≠ globalScope) (x : String) : Law where
  adds r name := r = E → name ≠ x
  done v w := v.store.scopes.Holds E → SameName E x v.store.scopes w.store.scopes
  failed _ v w := v.store.scopes.Holds E → SameName E x v.store.scopes w.store.scopes
  drained v w := v.store.scopes.Holds E → SameName E x v.store.scopes w.store.scopes
  cut _ v w := v.store.scopes.Holds E → SameName E x v.store.scopes w.store.scopes
  refl _ hw := ⟨hw, Iff.rfl⟩
  trans huv hvw hu := (huv hu).trans (hvw (huv hu).holds)
  failed_of_done _ h := h
  trans_failed huv hvw hu := (huv hu).trans (hvw (huv hu).holds)
  reported h := h
  change _ _ h hv := h E x (fun hadds => hadds rfl rfl) hv
  executing h := h
  executing_failed h := h
  calling h := h
  calling_failed h := h
  waiting _ _ hv := ⟨hv, Iff.rfl⟩
  processed _ _ h := h
  processed_failed _ _ h := h
  outermost _ h := absurd h.symm hE
  forbidden h hv := by
    -- the next scope is not among those that are there
    have hnext : _ = E := (Classical.not_imp.mp h).1
    exact absurd (hnext ▸ hv) (Nat.lt_irrefl _)
  forbidden_failed h hv := by
    have hnext : _ = E := (Classical.not_imp.mp h).1
    exact absurd (hnext ▸ hv) (Nat.lt_irrefl _)

instance {E : ScopeRef} (hE : E ≠ globalScope) (x : String) : (keeping hE x).Open :=
  ⟨fun _ => trivial⟩

theorem indifferent_keeping {E : ScopeRef} (hE : E ≠ globalScope) (x : String) :
    (keeping hE x).Indifferent where
  recorded _ _ hv := ⟨hv, Iff.rfl⟩
  taken _ _ hv := ⟨hv, Iff.rfl⟩
  spent _ hv := ⟨hv, Iff.rfl⟩
  drained_iff := Iff.rfl
  cut_iff := Iff.rfl

/-- Scopes stay, and all but the outermost one keep their names. -/
structure NamesStay (E : ScopeRef) (s s' : Heap .scope Scope) : Prop where
  holds : s.Holds E → s'.Holds E
  subset : s.Holds E → ∀ x ∈ s.names E, x ∈ s'.names E

theorem NamesStay.refl (E : ScopeRef) (s : Heap .scope Scope) : NamesStay E s s :=
  ⟨id, fun _ _ => id⟩

/-- A change of the bindings of one scope that keeps the names of another. -/
theorem NamesStay.of_modify {E : ScopeRef} (s : Heap .scope Scope) (q : ScopeRef)
    (f : Table String Value → Table String Value)
    (hf : q = E → ∀ x ∈ s.names E, x ∈ (f (s.get E).bindings).keys) :
    NamesStay E s (s.modify q fun scope => { scope with bindings := f scope.bindings }) := by
  refine ⟨(s.holds_modify q E _).mpr, fun hheld x hx => ?_⟩
  by_cases hq : q = E
  · subst hq
    rw [Heap.names_modify_self f hheld]
    exact hf rfl x hx
  · rw [Heap.names_modify_of_ne f (Ne.symm hq)]
    exact hx

theorem steady_names {E : ScopeRef} (hE : E ≠ globalScope) :
    Steady fun v w : World => NamesStay E v.store.scopes w.store.scopes where
  same h := by rw [h]; exact .refl E _
  trans huv hvw := ⟨fun hu => hvw.holds (huv.holds hu), fun hu x hx =>
    hvw.subset (huv.holds hu) x (huv.subset hu x hx)⟩
  change {v w} h := by
    cases h with
    | scopeMade bindings parent =>
      refine ⟨(v.store.scopes.extends_push _).holds, fun hheld x hx => ?_⟩
      rwa [Heap.names_push_of_holds _ hheld]
    | defined r name a =>
      exact .of_modify v.store.scopes r (·.put name a) fun _ x hx =>
        (Table.mem_keys_put _ _ _ _).mpr (.inl hx)
    | undefined name =>
      exact .of_modify v.store.scopes globalScope (·.erase name) fun h => absurd h.symm hE
    | instanceDeclared | importsRecorded | unsubscribed =>
      simpa only [store_withInstance, store_recordImports, store_unsubscribe] using .refl E _
    | _ => exact .refl E _

/-- A computation that obeys every law that lets it add some names to a scope, and any names to the
    others, adds no other names to this scope. -/
theorem introduces_of_law {α : Type} {E : ScopeRef} (hE : E ≠ globalScope) {ns : List String}
    {act : Eval α} (hact : ∀ {L : Law} [L.Open], L.Indifferent →
      (∀ r name, (r = E → name ∈ ns) → L.adds r name) → L.Obeyed act) : Introduces E ns act := by
  intro w hheld
  -- that no name goes and that no other name comes are two laws: which names may be added matters
  -- to the second one only
  have hstay : NamesStay E w.store.scopes (Session.perform act w).2.store.scopes :=
    (hact (Law.indifferent_steady (steady_names hE)) fun _ _ _ => trivial).perform
      (P := fun v => NamesStay E w.store.scopes v.store.scopes)
      (fun h hw => (steady_names hE).trans hw h) (fun h hw => (steady_names hE).trans hw h)
      (.refl E _)
  refine ⟨hstay.holds hheld, hstay.subset hheld, fun x hx => ?_⟩
  by_cases hns : x ∈ ns
  · exact .inr hns
  · have hsame : SameName E x w.store.scopes (Session.perform act w).2.store.scopes :=
      (hact (indifferent_keeping hE x) fun r name h hr hname => hns (hname ▸ h hr)).perform
        (P := fun v => SameName E x w.store.scopes v.store.scopes)
        (fun h hw => hw.trans (h hw.holds)) (fun h hw => hw.trans (h hw.holds))
        ⟨hheld, Iff.rfl⟩
    exact .inl (hsame.mem_iff.mp hx)

/-! ## Scopes of their own -/

/-- The world with one more scope. -/
def withScope (parent : Option ScopeRef) (bindings : Table String Value) (w : World) : World :=
  { w with store := { w.store with scopes := w.store.scopes.push ⟨bindings, parent⟩ } }

theorem newScope_eq (parent : Option ScopeRef) (bindings : Table String Value) (w : World) :
    Eval.newScope parent bindings w = .ok w.store.scopes.next (withScope parent bindings w) := rfl

theorem Session.perform_bind_of_ok {α β : Type} {act : Eval α} {next : α → Eval β} {w v : World}
    {a : α} (h : act w = .ok a v) : (perform (act >>= next) w) = perform (next a) v := by
  unfold perform
  rw [Eval.run_bind_of_ok h]

/-- The scope that a computation makes at its beginning has the names that it is made with and those
    that the computation adds. -/
theorem ownScope_newScope {α : Type} {parent : Option ScopeRef} {bindings : Table String Value}
    {ns : List String} {next : ScopeRef → Eval α}
    (hnext : ∀ inner, inner ≠ globalScope → Introduces inner ns (next inner)) :
    OwnScope (bindings.keys ++ ns) (Eval.newScope parent bindings >>= next) := by
  intro w hglobal x hx
  -- the outermost scope is there already, so the one that is made is inside of it
  have hinner : w.store.scopes.next ≠ globalScope := fun heq =>
    absurd (heq ▸ hglobal) (Nat.lt_irrefl _)
  rw [Session.perform_bind_of_ok (newScope_eq parent bindings w)] at hx
  have hadded := hnext _ hinner (withScope parent bindings w)
    (w.store.scopes.holds_push_next ⟨bindings, parent⟩)
  refine List.mem_append.mpr ((hadded.new x hx).imp_left fun hbindings => ?_)
  have hmade : (withScope parent bindings w).store.scopes.names w.store.scopes.next =
      bindings.keys := Heap.names_push_next _
  rwa [hmade] at hbindings

theorem ownScope_childScope {α : Type} {parent : ScopeRef} {ns : List String}
    {next : ScopeRef → Eval α}
    (hnext : ∀ inner, inner ≠ globalScope → Introduces inner ns (next inner)) :
    OwnScope ns (Eval.childScope parent >>= next) := by
  have hmade : OwnScope ((Table.empty : Table String Value).keys ++ ns)
      (Eval.newScope (some parent) .empty >>= next) := ownScope_newScope hnext
  exact hmade

/-- What comes before the scope makes none and leaves the world as it is. -/
theorem OwnScope.behind {α β : Type} {ns : List String} {act : Eval α} {next : α → Eval β}
    (hact : ∀ w, (Session.perform act w).2 = w) (hnext : ∀ a, OwnScope ns (next a)) :
    OwnScope ns (act >>= next) := by
  intro w hglobal x hx
  have hsame := hact w
  cases ha : act w with
  | ok a v =>
    rw [Session.perform_of_ok ha] at hsame
    subst hsame
    rw [Session.perform_bind_of_ok ha] at hx
    exact hnext a _ hglobal x hx
  | error e v =>
    have hbind : (act >>= next) w = .error e v := Eval.run_bind_of_error ha
    simp only [Session.perform, ha] at hsame
    subst hsame
    simp only [Session.perform, hbind] at hx
    have hnone : ¬ v.store.scopes.Holds v.store.scopes.next := Nat.lt_irrefl _
    rw [Heap.names_of_not_holds hnone] at hx
    cases hx

theorem perform_checkRounds (rounds : Nat) (span : Span) (w : World) :
    (Session.perform (checkRounds rounds span) w).2 = w := by
  unfold checkRounds Session.perform
  cases hlimit : w.settings.maxLoopIterations with
  | none => simp [hlimit]
  | some limit => by_cases hrounds : rounds > limit <;> simp [hlimit, hrounds, Eval.problem]

/-! ## Which names are added where -/

/-- Names get into a scope inside of the outermost one only by what is executed directly in it, and
    the scopes that are made for a piece of work have names of their own. -/
structure ScopesKept (run : Runner) : Prop where
  /-- No piece of work but a statement that is executed in a scope adds names to it. -/
  task : ∀ {E}, E ≠ globalScope → ∀ t, (∀ s, t ≠ .exec s E) → Introduces E [] (run t)
  /-- A statement adds at most the names that it declares to the scope that it is executed in. -/
  exec : ∀ {E}, E ≠ globalScope → ∀ s, Introduces E s.binds (run (.exec s E))
  /-- The same holds of the statements of a block. -/
  block : ∀ {E}, E ≠ globalScope → ∀ b, Introduces E b.binds (block run b E)
  /-- An assignment adds a name only if none of the scopes around binds it. -/
  unboundSet : ∀ {E}, E ≠ globalScope → ∀ span span' x e (w : World), w.store.scopes.Holds E →
    x ∉ w.store.scopes.names E →
    x ∈ (Session.perform (statement run E (.assign span (.name span' x) e))
      w).2.store.scopes.names E →
    ∃ v u, run (.eval e E) w = .ok v u ∧ u.store.resolve x E = none
  /-- A round of a loop over items leaves nothing behind, and the item is a name of its own. -/
  forRound : ∀ span item body scope rounds v,
    (∀ {E}, E ≠ globalScope → Introduces E [] (forRound run span item body scope rounds v)) ∧
    OwnScope (item :: body.binds) (forRound run span item body scope rounds v)
  /-- A round of a loop with a condition leaves nothing behind. -/
  whileRound : ∀ span body scope rounds,
    (∀ {E}, E ≠ globalScope → Introduces E [] (whileRound run span body scope rounds)) ∧
    OwnScope body.binds (whileRound run span body scope rounds)
  /-- A branch leaves nothing behind. -/
  branch : ∀ b scope,
    (∀ {E}, E ≠ globalScope →
      Introduces E [] (Eval.childScope scope >>= Evaluate.block run b)) ∧
    OwnScope b.binds (Eval.childScope scope >>= Evaluate.block run b)
  /-- The cases of a match leave nothing behind, whether the first one fits, its guard rejects it,
      or neither, and the names of its pattern are names of its own. -/
  cases : ∀ scope v c rest,
    (∀ {E}, E ≠ globalScope → Introduces E [] (matchCases run scope v (c :: rest))) ∧
    OwnScope (c.pattern.binds ++ c.body.binds) (matchCases run scope v (c :: rest))
  /-- A call leaves nothing behind, and the parameters are names of its own. -/
  call : ∀ f args,
    (∀ {E}, E ≠ globalScope → Introduces E [] (invoke run f args)) ∧
    OwnScope (f.params.map (·.name) ++ f.body.binds) (invoke run f args)
  /-- A handler leaves nothing behind, and the event is a name of its own for its guard and for its
      body. -/
  handler : ∀ data h,
    (∀ {E}, E ≠ globalScope → Introduces E [] (handle run data h)) ∧
    (∀ e, OwnScope ["event"] (eventScope h.scope data >>= fun scope => run (.eval e scope))) ∧
    OwnScope ("event" :: h.body.binds) (eventScope h.scope data >>= Evaluate.block run h.body)
  /-- A whole dispatch leaves nothing behind. -/
  dispatch : ∀ {E}, E ≠ globalScope → ∀ e, Introduces E [] (dispatch run e)
  /-- A method has `self` as a name of its own. -/
  method : ∀ r name f rest, OwnScope ["self"] (bindMethods r ((name, f) :: rest))

section Bounded

variable {bound : Nat} {E : ScopeRef}

theorem introduces_task (hE : E ≠ globalScope) (t : Task) {ns : List String}
    (ht : ∀ s, t = .exec s E → ∀ name ∈ s.binds, name ∈ ns) :
    Introduces E ns (bounded bound t) := by
  refine introduces_of_law hE fun {L} _ hL hadds => ?_
  have hrun := hL.runs_bounded bound
  cases t with
  | eval e scope => exact hrun.eval (Law.Open.code _) scope
  | exec s scope =>
    exact hrun.exec (Law.Open.code _) fun name hname =>
      hadds scope name fun hscope => ht s (hscope ▸ rfl) name hname
  | whileLoop span test body scope rounds =>
    exact hrun.whileLoop (Law.Open.code _) (Law.Open.code _) span scope rounds
  | call f args span => exact hrun.call f args span
  | native n args => exact hrun.native n args
  | drain => exact hL.relates_iff.mp hrun.drain
  | visit v f source place found => exact hrun.visit v f source place found
  | count i stop step upward found => exact hrun.count i stop step upward found

theorem introduces_block (hE : E ≠ globalScope) (b : Block) :
    Introduces E b.binds (block (bounded bound) b E) :=
  introduces_of_law hE fun hL hadds =>
    Law.obeyed_block (hL.runs_bounded bound) (Law.Open.code _) fun name hname =>
      hadds E name fun _ => hname

/-- An assignment to a name that is bound in some scope around adds nothing. -/
theorem resolve_of_introduced (hE : E ≠ globalScope) {span span' : Span} {x : String} {e : Expr}
    {w : World} (hheld : w.store.scopes.Holds E) (hx : x ∉ w.store.scopes.names E)
    (hx' : x ∈ (Session.perform (statement (bounded bound) E (.assign span (.name span' x) e))
      w).2.store.scopes.names E) :
    ∃ v u, bounded bound (.eval e E) w = .ok v u ∧ u.store.resolve x E = none := by
  have hintroduces : Introduces E [] (bounded bound (.eval e E)) := introduces_task hE _ nofun
  have hadded := hintroduces w hheld
  change x ∈ (Session.perform (bounded bound (.eval e E) >>= fun v =>
    assignTo (bounded bound) E v (.name span' x) >>= fun _ => pure Completion.normal)
      w).2.store.scopes.names E at hx'
  cases heval : bounded bound (.eval e E) w with
  | error f u =>
    have hbind : (bounded bound (.eval e E) >>= fun v =>
        assignTo (bounded bound) E v (.name span' x) >>= fun _ => pure Completion.normal) w =
          .error f u := Eval.run_bind_of_error heval
    simp only [Session.perform, hbind] at hx'
    simp only [Session.perform, heval] at hadded
    exact absurd ((hadded.mem_iff x).mp hx') hx
  | ok v u =>
    rw [Session.perform_bind_of_ok heval] at hx'
    rw [Session.perform_of_ok heval] at hadded
    refine ⟨v, u, rfl, ?_⟩
    cases hresolve : u.store.resolve x E with
    | none => rfl
    | some q =>
      -- the name is bound in `q`, so the assignment adds it nowhere
      have hkept : World.NamesKept (fun _ _ => False) u
          { u with store := u.store.assign E x v } :=
        .assign u (fun hnone => by simp [hresolve] at hnone) v
      exact absurd ((hadded.mem_iff x).mp ((hkept E x id hadded.holds).mem_iff.mp hx')) hx

theorem introduces_forRound (hE : E ≠ globalScope) (span : Span) (item : String) (body : Block)
    (scope : ScopeRef) (rounds : Nat) (v : Value) :
    Introduces E [] (forRound (bounded bound) span item body scope rounds v) :=
  introduces_of_law hE fun hL _ =>
    Law.obeyed_bind (Law.obeyed_checkRounds _ span) fun _ =>
      Law.obeyed_bindChildScope scope fun _ hopen =>
        Law.obeyed_bind (Law.obeyed_define (hopen item) v) fun _ =>
          Law.obeyed_blockInside (hL.runs_bounded bound) (Law.Open.code _) hopen

theorem ownScope_forRound (span : Span) (item : String) (body : Block) (scope : ScopeRef)
    (rounds : Nat) (v : Value) :
    OwnScope (item :: body.binds) (forRound (bounded bound) span item body scope rounds v) :=
  .behind (perform_checkRounds _ span) fun _ =>
    ownScope_childScope fun inner hinner => introduces_of_law hinner fun hL hadds =>
      Law.obeyed_bind (Law.obeyed_define (hadds inner item fun _ => List.mem_cons_self) v)
        fun _ => Law.obeyed_block (hL.runs_bounded bound) (Law.Open.code _) fun name hname =>
          hadds inner name fun _ => List.mem_cons_of_mem item hname

theorem ownScope_branch (b : Block) (scope : ScopeRef) :
    OwnScope b.binds (Eval.childScope scope >>= block (bounded bound) b) :=
  ownScope_childScope fun _ hinner => introduces_block hinner b

/-- A block in a scope of its own leaves nothing behind. -/
theorem introduces_branch (hE : E ≠ globalScope) (b : Block) (scope : ScopeRef) :
    Introduces E [] (Eval.childScope scope >>= block (bounded bound) b) :=
  introduces_of_law hE fun hL _ =>
    Law.obeyed_bindChildScope scope fun _ hopen =>
      Law.obeyed_blockInside (hL.runs_bounded bound) (Law.Open.code _) hopen

theorem introduces_whileRound (hE : E ≠ globalScope) (span : Span) (body : Block)
    (scope : ScopeRef) (rounds : Nat) :
    Introduces E [] (whileRound (bounded bound) span body scope rounds) :=
  introduces_of_law hE fun hL _ =>
    Law.obeyed_bind (Law.obeyed_checkRounds _ span) fun _ =>
      Law.obeyed_bindChildScope scope fun _ hopen =>
        Law.obeyed_blockInside (hL.runs_bounded bound) (Law.Open.code _) hopen

theorem ownScope_whileRound (span : Span) (body : Block) (scope : ScopeRef) (rounds : Nat) :
    OwnScope body.binds (whileRound (bounded bound) span body scope rounds) :=
  .behind (perform_checkRounds _ span) fun _ => ownScope_branch body scope

theorem introduces_matchCases (hE : E ≠ globalScope) (scope : ScopeRef) (v : Value)
    (cases : List MatchCase) : Introduces E [] (matchCases (bounded bound) scope v cases) :=
  introduces_of_law hE fun hL _ =>
    Law.obeyed_matchCases (hL.runs_bounded bound) scope v fun _ _ => Law.Open.code _

theorem ownScope_matchCases (scope : ScopeRef) (v : Value) (c : MatchCase) (rest : List MatchCase) :
    OwnScope (c.pattern.binds ++ c.body.binds)
      (matchCases (bounded bound) scope v (c :: rest)) := by
  unfold matchCases
  refine ownScope_childScope fun inner hinner => introduces_of_law hinner fun {L} _ hL hadds => ?_
  have hrun := hL.runs_bounded bound
  have hrest : L.Obeyed (matchCases (bounded bound) scope v rest) :=
    Law.obeyed_matchCases hrun scope v fun _ _ => Law.Open.code _
  have hpattern : L.Obeyed (fits (bounded bound) inner c.pattern v) :=
    Law.obeyed_fits hrun inner c.pattern v (Law.Open.code _) fun name hname =>
      hadds inner name fun _ => List.mem_append_left _ hname
  refine Law.obeyed_bind hpattern fun fit => ?_
  split
  · refine Law.obeyed_bind (Law.obeyed_caseGuardHolds hrun inner fun _ _ => Law.Open.code _)
      fun holds => ?_
    split
    · exact Law.obeyed_block hrun (Law.Open.code _) fun name hname =>
        hadds inner name fun _ => List.mem_append_right _ hname
    · exact hrest
  · exact hrest

theorem introduces_invoke (hE : E ≠ globalScope) (f : Closure) (args : List Value) :
    Introduces E [] (invoke (bounded bound) f args) :=
  introduces_of_law hE fun hL _ =>
    Law.obeyed_invoke (hL.runs_bounded bound) ⟨fun _ _ => Law.Open.code _, Law.Open.code _⟩ args

theorem ownScope_invoke (f : Closure) (args : List Value) :
    OwnScope (f.params.map (·.name) ++ f.body.binds) (invoke (bounded bound) f args) := by
  unfold invoke
  refine ownScope_childScope fun inner hinner => introduces_of_law hinner fun {L} _ hL hadds => ?_
  have hrun := hL.runs_bounded bound
  have hparams : ∀ p ∈ f.params, L.adds inner p.name := fun p hp =>
    hadds inner p.name fun _ => List.mem_append_left _ (List.mem_map_of_mem hp)
  refine Law.obeyed_bind
    (Law.obeyed_bindParams hrun f.scope (fun _ _ => Law.Open.code _) hparams args) fun _ => ?_
  split
  · exact hrun.eval (Law.Open.code _) inner
  · rename_i b hb
    have hbody : ∀ name ∈ b.binds, L.adds inner name := fun name hname =>
      hadds inner name fun _ => List.mem_append_right _ (by simpa [hb, Body.binds] using hname)
    refine Law.obeyed_bind (Law.obeyed_block hrun (Law.Open.code _) hbody) fun c => ?_
    split <;> exact Law.obeyed_pure _

/-- The scope for an event has the event as a name of its own. -/
theorem ownScope_eventScope {α : Type} (parent : ScopeRef) (data : MapRef) {ns : List String}
    {next : ScopeRef → Eval α}
    (hnext : ∀ {L : Law} [L.Open], L.Indifferent → ∀ inner,
      (∀ name ∈ ns, L.adds inner name) → L.Obeyed (next inner)) :
    OwnScope ("event" :: ns) (eventScope parent data >>= next) := by
  rw [Law.eventScope_bind]
  exact ownScope_childScope fun inner hinner => introduces_of_law hinner fun hL hadds =>
    Law.obeyed_bind (Law.obeyed_define (hadds inner "event" fun _ => List.mem_cons_self) _)
      fun _ => hnext hL inner fun name hname =>
        hadds inner name fun _ => List.mem_cons_of_mem _ hname

theorem ownScope_bindMethods (r : InstanceRef) (name : String) (f : FunctionRef)
    (rest : List (String × FunctionRef)) :
    OwnScope ["self"] (bindMethods r ((name, f) :: rest)) := by
  unfold bindMethods
  refine .behind (fun _ => rfl) fun method => ?_
  change OwnScope ((Table.empty.put "self" (Value.inst r)).keys ++ []) _
  refine ownScope_newScope fun inner hinner => introduces_of_law hinner fun _ _ => ?_
  refine Law.obeyed_bind
    (Law.obeyed_newFunction ⟨fun _ _ => Law.Open.code _, Law.Open.code _⟩) fun bound => ?_
  exact Law.obeyed_bind
    (Law.obeyed_modifyStore (fun _ => .methodBound r name bound)
      (fun _ h => h.congr rfl rfl rfl rfl) fun _ => .of_scopes rfl)
    fun _ => Law.obeyed_bindMethods r rest

end Bounded

/-- Runs keep scopes apart, whatever their bound is. -/
theorem bounded_scopesKept (bound : Nat) : ScopesKept (bounded bound) where
  task hE t ht := introduces_task hE t fun s hs => absurd hs (ht s)
  exec {E} hE s := introduces_task hE (.exec s E) fun t ht name hname => by
    cases ht
    exact hname
  block hE b := introduces_block hE b
  unboundSet hE _ _ _ _ _ hheld hx hx' := resolve_of_introduced hE hheld hx hx'
  forRound span item body scope rounds v :=
    ⟨fun hE => introduces_forRound hE span item body scope rounds v,
      ownScope_forRound span item body scope rounds v⟩
  whileRound span body scope rounds :=
    ⟨fun hE => introduces_whileRound hE span body scope rounds,
      ownScope_whileRound span body scope rounds⟩
  branch b scope := ⟨fun hE => introduces_branch hE b scope, ownScope_branch b scope⟩
  cases scope v c rest :=
    ⟨fun hE => introduces_matchCases hE scope v (c :: rest), ownScope_matchCases scope v c rest⟩
  call f args := ⟨fun hE => introduces_invoke hE f args, ownScope_invoke f args⟩
  handler data h := by
    refine ⟨fun hE => introduces_of_law hE fun hL _ =>
      hL.obeyed_handle (hL.runs_bounded bound) data (.of_forall Law.Open.code h), fun e => ?_, ?_⟩
    · refine ownScope_eventScope h.scope data fun hL inner hadds => ?_
      exact (hL.runs_bounded bound).eval (Law.Open.code _) inner
    · exact ownScope_eventScope h.scope data fun hL _ hadds =>
        Law.obeyed_block (hL.runs_bounded bound) (Law.Open.code _) hadds
  dispatch hE e := introduces_of_law hE fun hL _ => hL.obeyed_dispatch (hL.runs_bounded bound) e
  method r name f rest := ownScope_bindMethods r name f rest

/-- Scopes do not leak.  Whatever is run, and whether it succeeds or fails, names get into a scope
    inside of the outermost one only by a `let`, `fn`, `schema`, `instance` or `set` of a name that
    no scope around binds, executed directly in it, or as its own parameters, loop variable, names
    of a pattern, `event` or `self`, and are never taken out again.  So every other statement that
    is executed in a scope leaves the names in it as they are, and a round of a loop, a case that
    fits or not, a call, a handler, and everything that a host asks of a session leave nothing
    behind in the scopes that were there before. -/
theorem scopes_do_not_leak :
    (∀ bound, ScopesKept (bounded bound)) ∧
    ∀ {E}, E ≠ globalScope → ∀ r : Request, Introduces E [] r.act :=
  ⟨bounded_scopesKept, fun hE r => introduces_of_law hE fun hL _ => Law.obeyed_act hL.runs r⟩

/-- A world with a scope inside of the outermost one, in which `a` is bound. -/
def innerScoped : World :=
  { Session.bareWorld {} [] with
    store := { Store.empty with
      scopes := ⟨#[⟨.empty, none⟩, ⟨Table.empty.put "a" (.int 1), some globalScope⟩]⟩ } }

/-- A match with a case that binds `n` and is rejected by its guard. -/
def rejectedMatch : Stmt :=
  .matchOn default (.number default (.int 1))
    [⟨default, .name default "n", some (.boolean default false), ⟨default, []⟩⟩]

/-- Nothing is left of the case in the scope of the match. -/
theorem rejectedMatch_does_not_leak :
    (⟨1⟩ : ScopeRef) ≠ globalScope ∧ innerScoped.store.scopes.Holds ⟨1⟩ ∧
    ∀ x, x ∈ (Session.perform (run (.exec rejectedMatch ⟨1⟩))
      innerScoped).2.store.scopes.names ⟨1⟩ ↔ x = "a" := by
  have hinner : (⟨1⟩ : ScopeRef) ≠ globalScope := by decide
  have hheld : innerScoped.store.scopes.Holds ⟨1⟩ := by decide
  refine ⟨hinner, hheld, fun x => ?_⟩
  have hadded := (scopes_do_not_leak.1 runBound).exec hinner rejectedMatch innerScoped hheld
  have hnames : innerScoped.store.scopes.names ⟨1⟩ = ["a"] := rfl
  rw [← List.mem_singleton, ← hnames]
  exact hadded.mem_iff x

end EventScript
