import EventScript.Proofs.Reached

/-! # Worlds without a host

A host brings functions of its own into a world, and listeners.  Without them nothing but natives
and operators makes a program break off.

* `World.Hostless`     nothing of a host is in the world
* `Raises`             in such a world a computation breaks off with certain faults only
* `raises_reporting`   what is left of the faults of a native behind its report
* `Tame`               what a runner breaks off with, and so the library that goes back to it
-/

namespace EventScript

open Fault

/-- The native is of the language's own making.  Where none was made, there is one that does
    nothing. -/
def MadeNative.IsOwn : MadeNative → Prop
  | .host _ f => ∀ args, f args = .done .null
  | _ => True

/-- Nothing of a host is in the world. -/
structure World.Hostless (w : World) : Prop where
  functions : w.hostFunctions = []
  listeners : w.listeners = .empty
  natives : ∀ r, (w.store.native r).IsOwn

namespace World.Hostless

variable {v w : World}

theorem congr (h : v.Hostless) (hfunctions : w.hostFunctions = v.hostFunctions)
    (hlisteners : w.listeners = v.listeners) (hnatives : w.store.natives = v.store.natives) :
    w.Hostless where
  functions := hfunctions.trans h.functions
  listeners := hlisteners.trans h.listeners
  natives r := by
    unfold Store.native
    rw [hnatives]
    exact h.natives r

theorem nativeMade (h : v.Hostless) {n : MadeNative} (hn : n.IsOwn) :
    World.Hostless { v with store := { v.store with natives := v.store.natives.push n } } where
  functions := h.functions
  listeners := h.listeners
  natives := Heap.forall_push h.natives hn

end World.Hostless

/-! ## Composition -/

variable {α β : Type} {F G : Fault → Prop}

/-- In a world without a host the computation breaks off with such faults only, and it brings
    nothing of a host into the world. -/
def Raises (F : Fault → Prop) (act : Eval α) : Prop :=
  ∀ w : World, w.Hostless →
    match act w with
    | .ok _ v => v.Hostless
    | .error e v => v.Hostless ∧ ∀ f, e = .fault f → F f

theorem Raises.mono {act : Eval α} (h : Raises F act) (hFG : ∀ f, F f → G f) :
    Raises G act := by
  intro w hw
  have ha := h w hw
  split at ha
  · exact ha
  · exact ⟨ha.1, fun f hf => hFG f (ha.2 f hf)⟩

@[grind ←]
theorem raises_pure (a : α) : Raises F (pure a) := fun _ hw => hw

@[grind ←]
theorem raises_get : Raises F (get : Eval World) := fun _ hw => hw

@[grind ←]
theorem raises_read (f : Store → α) : Raises F (Eval.read f) := fun _ hw => hw

@[grind ←]
theorem raises_truth (v : Value) : Raises F (Eval.truth v) := raises_read _

@[grind ←]
theorem raises_problem (p : Problem) (span : Option Span) :
    Raises F (Eval.problem p span : Eval α) := fun _ hw => ⟨hw, nofun⟩

@[grind ←]
theorem raises_fault {f : Fault} (hf : F f) : Raises F (Eval.fault f : Eval α) := by
  rintro w hw
  refine ⟨hw, ?_⟩
  rintro g ⟨⟩
  exact hf

@[grind ←]
theorem raises_ofExcept {x : Except Fault α} (hx : Fails F x) : Raises F (Eval.ofExcept x) := by
  cases x with
  | ok a => exact raises_pure a
  | error f => exact raises_fault (hx f rfl)

@[grind ←]
theorem raises_bind {act : Eval α} {next : α → Eval β} (hact : Raises F act)
    (hnext : ∀ a, Raises F (next a)) : Raises F (act >>= next) := by
  intro w hw
  have h := hact w hw
  cases ha : act w with
  | ok a v =>
    rw [ha] at h
    rw [Eval.run_bind_of_ok ha]
    exact hnext a v h
  | error e v =>
    rw [ha] at h
    rw [Eval.run_bind_of_error ha]
    exact h

@[grind ←]
theorem raises_map {act : Eval α} (f : α → β) (hact : Raises F act) : Raises F (f <$> act) := by
  rw [← bind_pure_comp]
  exact raises_bind hact fun a => raises_pure _

@[grind ←]
theorem raises_mapM {f : α → Eval β} (hf : ∀ a, Raises F (f a)) (xs : List α) :
    Raises F (xs.mapM f) := by
  induction xs with
  | nil => exact raises_pure _
  | cons x rest ih =>
    rw [List.mapM_cons]
    exact raises_bind (hf x) fun b => raises_bind ih fun bs => raises_pure _

theorem raises_modify {f : World → World} (hf : ∀ w : World, w.Hostless → (f w).Hostless) :
    Raises F (modify f) := fun w hw => hf w hw

/-- A change of the store that leaves its natives alone. -/
theorem raises_modifyStore {f : Store → Store} (hf : ∀ s, (f s).natives = s.natives) :
    Raises F (Eval.modifyStore f) :=
  raises_modify fun w hw => hw.congr rfl rfl (hf w.store)

theorem raises_ensuring {act : Eval α} {repair : World → World} (hact : Raises F act)
    (hrepair : ∀ w : World, w.Hostless → (repair w).Hostless) :
    Raises F (Eval.ensuring act repair) := by
  intro w hw
  have h := hact w hw
  unfold Eval.ensuring
  cases ha : act w with
  | ok a v =>
    rw [ha] at h
    exact hrepair v h
  | error e v =>
    rw [ha] at h
    exact ⟨hrepair v h.1, h.2⟩

theorem raises_onFailure {act : Eval α} {repair : World → World} (hact : Raises F act)
    (hrepair : ∀ w : World, w.Hostless → (repair w).Hostless) :
    Raises F (Eval.onFailure act repair) := by
  intro w hw
  have h := hact w hw
  unfold Eval.onFailure
  cases ha : act w with
  | ok a v =>
    rw [ha] at h
    exact h
  | error e v =>
    rw [ha] at h
    exact ⟨hrepair v h.1, h.2⟩

/-- Behind the report of a native there are no refusals. -/
@[grind ←]
theorem raises_reporting (name : String) (span : Option Span) {act : Eval α}
    (hact : Raises OfNative act) : Raises Escapes (Eval.reporting name span act) := by
  intro w hw
  have h := hact w hw
  unfold Eval.reporting
  cases ha : act w with
  | ok a v =>
    rw [ha] at h
    exact h
  | error e v =>
    rw [ha] at h
    cases e with
    | diagnostic d => exact ⟨h.1, nofun⟩
    | outOfFuel => exact ⟨h.1, nofun⟩
    | fault f =>
      cases hf : f.isRefusal with
      | true => simpa [hf] using h.1
      | false => simpa [hf] using And.intro h.1 ((h.2 f rfl).escapes hf)

/-! ## Making and changing objects -/

/-- A reference is read and its object added, which is not a native. -/
theorem raises_made {next : Store → α} {add : Store → Store} {result : α → β}
    (hadd : ∀ s, (add s).natives = s.natives) :
    Raises F (do
      let r ← Eval.read next
      Eval.modifyStore add
      return result r) :=
  raises_bind (raises_read _) fun _ =>
    raises_bind (raises_modifyStore hadd) fun _ => raises_pure _

@[grind ←]
theorem raises_newList (items : Array Value) : Raises F (Eval.newList items) :=
  raises_made fun _ => rfl

@[grind ←]
theorem raises_newMap (entries : Table Key Value) : Raises F (Eval.newMap entries) :=
  raises_made fun _ => rfl

@[grind ←]
theorem raises_newFunction (f : Closure) : Raises F (Eval.newFunction f) :=
  raises_made fun _ => rfl

@[grind ←]
theorem raises_newSchema (schema : Schema) : Raises F (Eval.newSchema schema) :=
  raises_made fun _ => rfl

@[grind ←]
theorem raises_newInstance (i : Instance) : Raises F (Eval.newInstance i) :=
  raises_made fun _ => rfl

@[grind ←]
theorem raises_newScope (parent : Option ScopeRef) (bindings : Table String Value) :
    Raises F (Eval.newScope parent bindings) := raises_made fun _ => rfl

@[grind ←]
theorem raises_childScope (r : ScopeRef) : Raises F (Eval.childScope r) := raises_newScope _ _

@[grind ←]
theorem raises_newNative {n : MadeNative} (hn : n.IsOwn) : Raises F (Eval.newNative n) :=
  raises_bind (raises_read _) fun _ =>
    raises_bind (raises_modify fun _ hw => hw.nativeMade hn) fun _ => raises_pure _

@[grind ←]
theorem raises_ofNumber (n : Number) : Raises F (Eval.ofNumber n) := by
  unfold Eval.ofNumber
  split
  · exact raises_bind (raises_read _) fun mark =>
      raises_bind (raises_modifyStore fun _ => rfl) fun _ => raises_pure _
  · exact raises_pure _

@[grind ←]
theorem raises_ofLiteral (l : Literal) : Raises F (Eval.ofLiteral l) := by
  unfold Eval.ofLiteral
  grind

@[grind ←]
theorem raises_modifyList (r : ListRef) (f : Array Value → Array Value) :
    Raises F (Eval.modifyList r f) := raises_modifyStore fun _ => rfl

@[grind ←]
theorem raises_putKey (r : MapRef) (k : Key) (v : Value) : Raises F (Eval.putKey r k v) :=
  raises_modifyStore fun _ => rfl

@[grind ←]
theorem raises_modifyInstance (r : InstanceRef) (f : Instance → Instance) :
    Raises F (Eval.modifyInstance r f) := raises_modifyStore fun _ => rfl

@[grind ←]
theorem raises_lookup (name : String) (r : ScopeRef) (span : Option Span) :
    Raises F (Eval.lookup name r span) := by
  unfold Eval.lookup
  grind

@[grind ←]
theorem raises_global? (name : String) : Raises F (Eval.global? name) := raises_read _

@[grind ←]
theorem raises_define (r : ScopeRef) (name : String) (v : Value) :
    Raises F (Eval.define r name v) := raises_modifyStore fun _ => rfl

@[grind ←]
theorem raises_assign (r : ScopeRef) (name : String) (v : Value) :
    Raises F (Eval.assign r name v) := raises_modifyStore fun _ => rfl

/-! ## The library -/

/-- What a runner does breaks off with the faults of natives as long as natives are at work, and
    otherwise with those that pass through a program. -/
structure Tame (run : Runner) : Prop where
  eval : ∀ e scope, Raises Escapes (run (.eval e scope))
  exec : ∀ s scope, Raises Escapes (run (.exec s scope))
  whileLoop : ∀ span test body scope rounds,
    Raises Escapes (run (.whileLoop span test body scope rounds))
  call : ∀ f args span, Raises Escapes (run (.call f args span))
  drain : Raises Escapes (run .drain)
  native : ∀ n args, Raises OfNative (run (.native n args))
  visit : ∀ v f source place found,
    Raises OfNative (run (.visit v f source place found))
  count : ∀ i stop step upward found,
    Raises OfNative (run (.count i stop step upward found))

/-- Work of the library breaks off with the faults of natives. -/
theorem Tame.raises_work {run : Runner} (hrun : Tame run) {act : Eval α} (h : Work run act) :
    Raises OfNative act := by
  induction h with
  | pure a => exact raises_pure a
  | bind _ _ hact hnext => exact raises_bind hact hnext
  | read _ ih => exact fun w hw => ih w.store w hw
  | fault hf => exact raises_fault hf
  | problem p span => exact raises_problem p span
  | newList items => exact raises_newList items
  | newMap entries => exact raises_newMap entries
  | modifyList r f => exact raises_modifyList r f
  | ofNumber n => exact raises_ofNumber n
  | draw d => exact fun _ hw => hw.congr rfl rfl rfl
  | print vs =>
    exact raises_bind (raises_read _) fun _ =>
      raises_bind (raises_modify fun _ hw => hw.congr rfl rfl rfl) fun _ => raises_pure _
  | native n args => exact hrun.native n args
  | visit v f source place found => exact hrun.visit v f source place found
  | count i stop step upward found => exact hrun.count i stop step upward found

end EventScript
