import EventScript.Proofs.Law.Steady
import EventScript.Proofs.Reload.Restore

/-! # What a withdrawal unbinds

A file is recorded with the names of the instances that were declared while it was executed, and
with nothing else: neither the scope that a name was bound in, nor what it was bound to.  So a
withdrawal unbinds these names in the outermost scope whatever they are bound to there, and no
others.

* `declaredSince`                   the instances that a file declared since its record was dropped
* `Tracked`                         the names on record are those of these instances
* `declareInstance_eq_ok`           what a declaration puts down
* `Arises.withdraw_unbinds_iff`     which global names a withdrawal unbinds
-/

namespace EventScript

open Evaluate

/-! ## The record of declared instances -/

/-- An instance that was declared: its name, and the scope that the name was bound in. -/
structure Declared where
  scope : ScopeRef
  name : String
  instanceRef : InstanceRef
  deriving DecidableEq

/-- The instances that a file declared since its record was last dropped, in their order. -/
def declaredSince (file : String) : List DeclarationChange → List Declared
  | [] => []
  | .declared f scope name r :: earlier =>
    if f = file then declaredSince file earlier ++ [⟨scope, name, r⟩]
    else declaredSince file earlier
  | .dropped f :: earlier => if f = file then [] else declaredSince file earlier

/-- The instances that a file has declared, as far as they are on record. -/
def World.declaredBy (w : World) (file : String) : List Declared :=
  declaredSince file w.declarations

/-- The names on record for each file are those of the instances that it declared. -/
def Tracked (w : World) : Prop := ∀ file, w.tracked file = (w.declaredBy file).map Declared.name

namespace Tracked

variable {v w : World}

theorem congr (hv : Tracked v) (hnames : w.instancesByFile = v.instancesByFile)
    (hchanges : w.declarations = v.declarations) : Tracked w := by
  intro file
  rw [World.tracked, World.declaredBy, hnames, hchanges]
  exact hv file

/-- A declaration goes to the end of the record of the file in execution. -/
theorem withInstance (hv : Tracked v) (scope : ScopeRef) (name : String) (r : InstanceRef) :
    Tracked (withInstance scope name r v) := by
  unfold Evaluate.withInstance
  split
  · rename_i current _
    intro file
    refine (Table.getD_pushTo _ _ _ _).trans ?_
    have hbefore : v.instancesByFile.getD file [] = (v.declaredBy file).map Declared.name := hv file
    rw [hbefore]
    by_cases hfile : file = current
    · subst hfile
      simp [World.declaredBy, declaredSince]
    · simp [World.declaredBy, declaredSince, hfile, Ne.symm hfile]
  · exact hv

theorem dropInstances (hv : Tracked v) (file : String) : Tracked (dropInstances file v) := by
  intro name
  by_cases hname : name = file
  · subst hname
    simp [World.tracked, World.declaredBy, Evaluate.dropInstances, declaredSince, Table.getD]
  · have hbefore : v.instancesByFile.getD name [] = (v.declaredBy name).map Declared.name := hv name
    simp only [World.tracked, World.declaredBy, Evaluate.dropInstances, declaredSince,
      if_neg (Ne.symm hname)]
    rw [Table.getD, Table.get?_erase_of_ne _ hname, ← Table.getD]
    exact hbefore

end Tracked

/-- A single change declares an instance, drops the record of a file, or leaves all records as they
    are. -/
theorem Change.declarations {v w : World} (h : Change v w) :
    (∃ scope name r, w = withInstance scope name r v) ∨ (∃ file, w = dropInstances file v) ∨
      (w.instancesByFile = v.instancesByFile ∧ w.declarations = v.declarations) := by
  cases h with
  | instanceDeclared scope name r => exact .inl ⟨scope, name, r, rfl⟩
  | instancesDropped file => exact .inr (.inl ⟨file, rfl⟩)
  | importsRecorded program file =>
    unfold recordImports
    split <;> exact .inr (.inr ⟨rfl, rfl⟩)
  | unsubscribed event r =>
    unfold unsubscribe
    split <;> exact .inr (.inr ⟨rfl, rfl⟩)
  | _ => exact .inr (.inr ⟨rfl, rfl⟩)

/-- The names on record go on to be those of the instances that were declared. -/
theorem steady_tracked : Steady fun v w : World => Tracked v → Tracked w where
  same h hv := by
    rw [h]
    exact hv.congr rfl rfl
  trans huv hvw hu := hvw (huv hu)
  change h hv := by
    rcases h.declarations with ⟨scope, name, r, rfl⟩ | ⟨file, rfl⟩ | ⟨hnames, hchanges⟩
    · exact hv.withInstance scope name r
    · exact hv.dropInstances file
    · exact hv.congr hnames hchanges

theorem Arises.tracked {w : World} (hw : Arises w) : Tracked w :=
  hw.of_steady steady_tracked fun _ _ _ => rfl

/-- A declaration that succeeds binds a name to an instance and puts both down for the file in
    execution, with the scope that it is executed in. -/
theorem declareInstance_eq_ok {run : Runner} {scope : ScopeRef} {span : Span}
    {schema name : String} {fields : List (String × Expr)} {v w : World}
    (hok : declareInstance run scope span schema name fields v = .ok () w) :
    ∃ (r : InstanceRef) (u : World), w = withInstance scope name r
      { u with store := u.store.define scope name (.inst r) } := by
  rw [declareInstance, Eval.run_get_bind] at hok
  cases hschema : v.schemas.get? schema with
  | none =>
    simp only [hschema] at hok
    cases hok
  | some q =>
    simp only [hschema] at hok
    obtain ⟨declared, _, -, hok⟩ := Eval.bind_eq_ok hok
    obtain ⟨_, _, -, hok⟩ := Eval.bind_eq_ok hok
    obtain ⟨data, _, -, hok⟩ := Eval.bind_eq_ok hok
    generalize List.find? _ _ = missing at hok
    cases missing with
    | some f => cases hok
    | none =>
      obtain ⟨r, _, -, hok⟩ := Eval.bind_eq_ok hok
      obtain ⟨_, u, -, hok⟩ := Eval.bind_eq_ok hok
      obtain ⟨_, u', hdefine, hok⟩ := Eval.bind_eq_ok hok
      cases hdefine
      cases hok
      exact ⟨r, u, rfl⟩

/-! ## Withdrawals -/

/-- The outermost level of a file declared an instance under a global name, and the name still is
    bound to it. -/
def World.Owns (w : World) (file name : String) : Prop :=
  ∃ r, ⟨globalScope, name, r⟩ ∈ w.declaredBy file ∧ w.global? name = some (.inst r)

/-- Which global names a withdrawal unbinds.  In every world that comes up in a session, a
    withdrawal succeeds and leaves the outermost scope as it is, but for the names of the instances
    that were declared while the file was executed, since it was last withdrawn: these are unbound,
    in whatever scope they were declared, and whatever they are bound to now.  So it takes away
    nothing but what the file owns exactly if the file owns each of these names that is bound, and
    not if another file, the host or another statement has bound one of them. -/
theorem Arises.withdraw_unbinds_iff {w : World} (hw : Arises w) (file : String) :
    (∃ kept, withdraw file w = .ok kept (withdrawn file w)) ∧
      (∀ n, (withdrawn file w).global? n =
        if ∃ d ∈ w.declaredBy file, d.name = n then none else w.global? n) ∧
      ((∀ n, w.global? n ≠ none → (withdrawn file w).global? n = none → w.Owns file n) ↔
        ∀ d ∈ w.declaredBy file, w.global? d.name ≠ none → w.Owns file d.name) := by
  obtain ⟨kept, hwithdraw, -⟩ := withdraw_eq file w
  have hmem : ∀ n, n ∈ w.tracked file ↔ ∃ d ∈ w.declaredBy file, d.name = n := by
    intro n
    rw [hw.tracked file, List.mem_map]
  have hglobal : ∀ n, (withdrawn file w).global? n =
      if ∃ d ∈ w.declaredBy file, d.name = n then none else w.global? n := by
    intro n
    refine (World.global?_unbindAll _ _ _).trans ?_
    simp only [hmem]
    rfl
  refine ⟨⟨kept, hwithdraw⟩, hglobal, fun howned d hd hbound => ?_, fun howned n hbound hgone => ?_⟩
  · exact howned d.name hbound (by rw [hglobal, if_pos ⟨d, hd, rfl⟩])
  · -- what is unbound was bound before, so its name is on record
    rw [hglobal] at hgone
    split at hgone
    · rename_i hdeclared
      obtain ⟨d, hd, rfl⟩ := hdeclared
      exact howned d hd hbound
    · exact absurd hgone hbound

/-- A file with a function that declares a door of its own. -/
def workshopSource : String :=
  "schema Door:\n  state: string\nfn build():\n  Door door:\n    state: \"new\"\nbuild()\n"

/-- A session in which another file keeps the name of its door in a global with the same name. -/
def labelledDoor : World :=
  Session.serve (Session.start {} [])
    [.load workshopSource "workshop", .load "let door = \"front\"\n" "house"]

/-- The workshop is withdrawn: the global of the house is gone, which never was a door. -/
theorem withdraw_unbinds_labelledDoor :
    ∃ kept, withdraw "workshop" labelledDoor = .ok kept (withdrawn "workshop" labelledDoor) ∧
      labelledDoor.global? "door" ≠ none ∧ labelledDoor.instanceOf? "door" = none ∧
      (withdrawn "workshop" labelledDoor).global? "door" = none ∧
      ¬ labelledDoor.Owns "workshop" "door" := by
  have hw : Arises labelledDoor := ((Reached.start {} []).serve _).arises
  obtain ⟨hbound, hnone, hdeclared⟩ :
      (labelledDoor.global? "door").isSome = true ∧ labelledDoor.instanceOf? "door" = none ∧
      ∃ d ∈ labelledDoor.declaredBy "workshop", d.name = "door" := by decide +kernel
  obtain ⟨⟨kept, hwithdraw⟩, hglobal, -⟩ := hw.withdraw_unbinds_iff "workshop"
  refine ⟨kept, hwithdraw, fun h => by simp [h] at hbound, hnone, ?_, ?_⟩
  · rw [hglobal, if_pos hdeclared]
  · rintro ⟨r, -, hr⟩
    rw [World.instanceOf?_eq_some.mpr hr] at hnone
    cases hnone

end EventScript
