import EventScript.Proofs.Law.Steady
import EventScript.Proofs.Reload.Restore

/-! # The record of assigned fields

An instance keeps the names of its assigned fields, for the next reload to restore.  Every
assignment adds a name, and nothing else takes one away but the restoring itself: it puts the names
that the replaced instance had in the place of those that are there, and so forgets what the new
program has assigned.

* `assignedSince`, `restoredLast`   what the changes of an instance come to
* `Recorded`                        the names that an instance keeps are what its changes come to
* `Arises.mutated_iff`              so it is in every world, and this is what a reload does to it
-/

namespace EventScript

open Evaluate

/-! ## Changes of an instance -/

/-- The fields that were assigned since the fields were restored, or since the instance was made. -/
def assignedSince : List FieldChange → List String
  | .assigned field :: earlier => field :: assignedSince earlier
  | _ => []

/-- The names that the last restoring left behind. -/
def restoredLast : List FieldChange → List String
  | [] => []
  | .assigned _ :: earlier => restoredLast earlier
  | .restored mutated :: _ => mutated

/-- An instance that was not restored has lost no assignment. -/
theorem mem_assignedSince {changes : List FieldChange} {k : String}
    (hk : .assigned k ∈ changes) (hnone : ∀ mutated, .restored mutated ∉ changes) :
    k ∈ assignedSince changes := by
  induction changes with
  | nil => cases hk
  | cons c rest ih =>
    cases c with
    | assigned field =>
      rcases List.mem_cons.mp hk with heq | hk
      · cases heq
        exact List.mem_cons_self
      · exact List.mem_cons_of_mem _
          (ih hk fun mutated hmem => hnone mutated (List.mem_cons_of_mem _ hmem))
    | restored mutated => exact absurd List.mem_cons_self (hnone mutated)

/-- The names that an instance keeps are those that were assigned since it was restored, and those
    that were restored. -/
def Instance.Recorded (i : Instance) : Prop :=
  ∀ k, k ∈ i.mutated ↔ k ∈ assignedSince i.changes ∨ k ∈ restoredLast i.changes

namespace Instance.Recorded

/-- An instance is made without assigned fields. -/
theorem made (schema : String) (data : Table String Value) :
    Recorded ⟨schema, data, [], []⟩ := fun k => by simp [assignedSince, restoredLast]

variable {i : Instance}

theorem assign (hi : i.Recorded) (name : String) (v : Value) : (i.assign name v).Recorded := by
  intro k
  have hadded : k ∈ (i.assign name v).mutated ↔ k = name ∨ k ∈ i.mutated := by
    by_cases hname : i.mutated.contains name = true
    · have hmem : name ∈ i.mutated := by simpa using hname
      simp only [Instance.assign, hname, if_true]
      exact ⟨.inr, fun h => h.elim (fun heq => heq ▸ hmem) id⟩
    · have hmem : name ∉ i.mutated := by simpa using hname
      simp [Instance.assign, hmem, or_comm]
  rw [hadded, hi k]
  simp [Instance.assign, assignedSince, restoredLast, or_assoc]

theorem restore (kept : Kept) (i : Instance) : (kept.restore i).Recorded := fun k => by
  simp [Kept.restore, assignedSince, restoredLast]

end Instance.Recorded

/-- What happens to a single instance. -/
inductive InstanceStep : (Instance → Instance) → Prop
  | assign (name : String) (v : Value) : InstanceStep (·.assign name v)
  | bind (name : String) (f : FunctionRef) :
    InstanceStep fun i => { i with data := i.data.put name (.function f) }
  | restore (kept : Kept) : InstanceStep kept.restore

/-- A single change makes an instance, or does something to one, or leaves all as they are. -/
theorem Change.instances {v w : World} (h : Change v w) :
    (∃ schema data, w.store.instances = v.store.instances.push ⟨schema, data, [], []⟩) ∨
      (∃ s f, InstanceStep f ∧ w.store.instances = v.store.instances.modify s f) ∨
      w.store.instances = v.store.instances := by
  cases h with
  | instanceMade schema data => exact .inl ⟨schema, data, rfl⟩
  | fieldAssigned s name x => exact .inr (.inl ⟨s, _, .assign name x, rfl⟩)
  | methodBound s name f => exact .inr (.inl ⟨s, _, .bind name f, rfl⟩)
  | fieldsRestored s kept => exact .inr (.inl ⟨s, _, .restore kept, rfl⟩)
  | instanceDeclared scope name r =>
    unfold withInstance
    split <;> exact .inr (.inr rfl)
  | importsRecorded program file =>
    unfold recordImports
    split <;> exact .inr (.inr rfl)
  | unsubscribed event r =>
    unfold unsubscribe
    split <;> exact .inr (.inr rfl)
  | _ => exact .inr (.inr rfl)

theorem InstanceStep.recorded {f : Instance → Instance} (hf : InstanceStep f) (i : Instance)
    (hi : i.Recorded) : (f i).Recorded := by
  cases hf with
  | assign name v => exact hi.assign name v
  | bind name g => exact hi
  | restore kept => exact .restore kept i

/-- Single changes keep the records. -/
theorem Change.recorded {v w : World} (h : Change v w)
    (hv : ∀ r, (v.store.inst r).Recorded) : ∀ r, (w.store.inst r).Recorded := by
  change ∀ r, (w.store.instances.get r).Recorded
  rcases h.instances with ⟨schema, data, heq⟩ | ⟨s, f, hf, heq⟩ | heq
  · rw [heq]
    exact Heap.forall_push hv (.made schema data)
  · rw [heq]
    exact Heap.forall_modify hv hf.recorded s
  · rw [heq]
    exact hv

theorem steady_recorded : Steady fun v w : World =>
    (∀ r, (v.store.inst r).Recorded) → ∀ r, (w.store.inst r).Recorded where
  same h hv := by rw [h]; exact hv
  trans huv hvw hu := hvw (huv hu)
  change := Change.recorded

theorem Arises.recorded {w : World} (hw : Arises w) (r : InstanceRef) :
    (w.store.inst r).Recorded := by
  refine hw.of_steady (P := fun w => ∀ r, (w.store.inst r).Recorded) steady_recorded
    (fun settings hostFunctions s => ?_) r
  have hnone : (Session.bareWorld settings hostFunctions).store.inst s = default :=
    Heap.get_of_not_holds _ (Nat.not_lt_zero _)
  rw [hnone]
  exact .made "" default

/-! ## Changes are on record -/

/-- An instance has gone on by changes that are on record: where a field was neither assigned nor
    restored, it has the value that it had, or a function. -/
def Instance.Continues (i j : Instance) : Prop :=
  ∃ later, j.changes = later ++ i.changes ∧ ∀ k, .assigned k ∉ later →
    (∀ mutated, .restored mutated ∉ later) →
      j.data.get? k = i.data.get? k ∨ (j.data.get? k).any Value.isCallable = true

namespace Instance.Continues

theorem refl (i : Instance) : i.Continues i := ⟨[], rfl, fun _ _ _ => .inl rfl⟩

theorem trans {i j l : Instance} (hij : i.Continues j) (hjl : j.Continues l) :
    i.Continues l := by
  obtain ⟨later, hchanges, hdata⟩ := hij
  obtain ⟨later', hchanges', hdata'⟩ := hjl
  refine ⟨later' ++ later, by rw [hchanges', hchanges, List.append_assoc], fun k hk hnone => ?_⟩
  simp only [List.mem_append, not_or] at hk hnone
  rcases hdata' k hk.1 fun mutated => (hnone mutated).1 with heq | hcall
  · rw [heq]
    exact hdata k hk.2 fun mutated => (hnone mutated).2
  · exact .inr hcall

theorem assign (i : Instance) (name : String) (v : Value) : i.Continues (i.assign name v) := by
  refine ⟨[.assigned name], rfl, fun k hk _ => .inl ?_⟩
  have hne : k ≠ name := fun h => hk (h ▸ List.mem_cons_self)
  exact Table.get?_put_of_ne _ _ hne

theorem bound (i : Instance) (name : String) (f : FunctionRef) :
    i.Continues { i with data := i.data.put name (.function f) } := by
  refine ⟨[], rfl, fun k _ _ => ?_⟩
  by_cases hname : k = name
  · subst hname
    simp [Value.isCallable, Value.kind]
  · exact .inl (Table.get?_put_of_ne _ _ hname)

theorem restore (kept : Kept) (i : Instance) : i.Continues (kept.restore i) :=
  ⟨[.restored kept.mutated], rfl, fun _ _ hnone => absurd List.mem_cons_self (hnone _)⟩

end Instance.Continues

theorem InstanceStep.continues {f : Instance → Instance} (hf : InstanceStep f) (i : Instance) :
    i.Continues (f i) := by
  cases hf with
  | assign name v => exact .assign i name v
  | bind name g => exact .bound i name g
  | restore kept => exact .restore kept i

/-- Every instance of one world goes on in the other. -/
def World.InstancesContinue (v w : World) : Prop :=
  ∀ r, v.store.instances.Holds r →
    w.store.instances.Holds r ∧ (v.store.inst r).Continues (w.store.inst r)

theorem Change.instancesContinue {v w : World} (h : Change v w) : v.InstancesContinue w := by
  intro r hr
  change w.store.instances.Holds r ∧
    (v.store.instances.get r).Continues (w.store.instances.get r)
  rcases h.instances with ⟨schema, data, heq⟩ | ⟨s, f, hf, heq⟩ | heq
  · rw [heq, Heap.get_push_of_holds _ _ hr]
    exact ⟨(v.store.instances.extends_push _).holds hr, .refl _⟩
  · rw [heq]
    refine ⟨(Heap.holds_modify _ _ _ _).mpr hr, ?_⟩
    by_cases hrs : r = s
    · subst hrs
      rw [Heap.get_modify_self _ f hr]
      exact hf.continues _
    · rw [Heap.get_modify_of_ne _ f hrs]
      exact .refl _
  · rw [heq]
    exact ⟨hr, .refl _⟩

theorem steady_instancesContinue : Steady World.InstancesContinue where
  same h r hr := by
    rw [h]
    exact ⟨hr, .refl _⟩
  trans huv hvw r hr := by
    obtain ⟨hv, hcontinues⟩ := huv r hr
    obtain ⟨hw, hcontinues'⟩ := hvw r hv
    exact ⟨hw, hcontinues.trans hcontinues'⟩
  change := Change.instancesContinue

/-- A field that has another value than before, and no function, was assigned or restored. -/
theorem Leads.changed_recorded {v w : World} (h : Leads v w) {r : InstanceRef}
    (hr : v.store.instances.Holds r) {k : String}
    (hchanged : (w.store.inst r).data.get? k ≠ (v.store.inst r).data.get? k)
    (hcall : ((w.store.inst r).data.get? k).any Value.isCallable = false) :
    .assigned k ∈ (w.store.inst r).changes ∨
      ∃ mutated, .restored mutated ∈ (w.store.inst r).changes := by
  obtain ⟨-, later, hchanges, hdata⟩ := h.of_steady steady_instancesContinue r hr
  rw [hchanges]
  by_cases hk : .assigned k ∈ later
  · exact .inl (List.mem_append_left _ hk)
  · by_cases hrestored : ∃ mutated, .restored mutated ∈ later
    · exact .inr (hrestored.imp fun _ => List.mem_append_left _)
    · rcases hdata k hk (not_exists.mp hrestored) with heq | hcallable
      · exact absurd heq hchanged
      · simp [hcall] at hcallable

/-! ## Restoring -/

/-- An instance that one of the names is bound to gets the names of assigned fields that were kept
    for one of those names; other instances stay as they are. -/
theorem restoreAll_mutated (entries : List (String × Kept)) (w : World) :
    ∃ instances, restoreAll entries w = .ok () (w.withInstances instances) ∧
      (∀ e ∈ entries, ∀ r, w.Names e.1 r → ∃ e' ∈ entries,
        w.instanceOf? e'.1 = some r ∧ (instances.get r).mutated = e'.2.mutated) ∧
      (∀ r, (∀ e ∈ entries, w.instanceOf? e.1 ≠ some r) →
        instances.get r = w.store.inst r) := by
  induction entries generalizing w with
  | nil => exact ⟨w.store.instances, rfl, by simp, fun _ _ => rfl⟩
  | cons entry rest ih =>
    obtain ⟨name, kept⟩ := entry
    cases hname : w.instanceOf? name with
    | none =>
      obtain ⟨instances, heq, hrestored, hsame⟩ := ih w
      refine ⟨instances, (restoreAll_cons_other kept rest hname).trans heq, ?_, ?_⟩
      · intro e he r hr
        rcases List.mem_cons.mp he with rfl | he
        · simp [World.Names, hname] at hr
        · obtain ⟨e', he', h⟩ := hrestored e he r hr
          exact ⟨e', List.mem_cons_of_mem _ he', h⟩
      · exact fun r hr => hsame r fun e he => hr e (List.mem_cons_of_mem _ he)
    | some s =>
      obtain ⟨instances, heq, hrestored, hsame⟩ :=
        ih (w.withInstances (w.store.instances.modify s kept.restore))
      refine ⟨instances, (restoreAll_cons_inst kept rest hname).trans heq, ?_, ?_⟩
      · intro e he r hr
        by_cases hrest : ∃ e' ∈ rest, w.instanceOf? e'.1 = some r
        · obtain ⟨e', he', hr'⟩ := hrest
          obtain ⟨e'', he'', h⟩ :=
            hrestored e' he' r ⟨hr', (Heap.holds_modify _ _ _ _).mpr hr.2⟩
          exact ⟨e'', List.mem_cons_of_mem _ he'', h⟩
        · -- it is the first name that is bound to the instance, and no later one is
          obtain rfl | he := List.mem_cons.mp he
          · obtain rfl : s = r := Option.some.inj (hname.symm.trans hr.1)
            refine ⟨(name, kept), List.mem_cons_self, hname, ?_⟩
            rw [hsame s fun e he hs => hrest ⟨e, he, hs⟩]
            exact congrArg Instance.mutated (Heap.get_modify_self _ _ hr.2)
          · exact absurd ⟨e, he, hr.1⟩ hrest
      · intro r hr
        have hne : r ≠ s := fun h => hr (name, kept) List.mem_cons_self (h ▸ hname)
        rw [hsame r fun e he => hr e (List.mem_cons_of_mem _ he)]
        exact Heap.get_modify_of_ne _ _ hne

/-- What an exchange does to the names of assigned fields.  Whatever the new program has assigned,
    an instance that has a tracked name then has the names of an instance that it replaces, and
    other instances stay as the new program left them. -/
theorem exchange_mutated {run : Runner} {program : Program} {file : String} {w t : World}
    (hok : exchange run program file w = .ok () t) :
    ∃ v, execute run program (some file) (withdrawn file w) = .ok () v ∧
      (∀ n ∈ w.tracked file, ∀ old r, w.instanceOf? n = some old → v.Names n r →
        ∃ m ∈ w.tracked file, ∃ old', w.instanceOf? m = some old' ∧
          v.instanceOf? m = some r ∧ (t.store.inst r).mutated = (w.store.inst old').mutated) ∧
      (∀ r, (∀ n ∈ w.tracked file, w.instanceOf? n ≠ none → v.instanceOf? n ≠ some r) →
        t.store.inst r = v.store.inst r) := by
  obtain ⟨kept, hwithdraw, hkept⟩ := withdraw_eq file w
  rw [exchange, Eval.run_bind_of_ok hwithdraw] at hok
  obtain ⟨_, v, hexecute, hrestore⟩ := Eval.bind_eq_ok hok
  obtain ⟨instances, heq, hmutated, hsame⟩ := restoreAll_mutated kept.entries v
  obtain rfl : v.withInstances instances = t := by
    simpa using heq.symm.trans hrestore
  -- the entries are what is kept of the tracked names that are bound to instances
  have hentry : ∀ e ∈ kept.entries, e.1 ∈ w.tracked file ∧
      ∃ old, w.instanceOf? e.1 = some old ∧ e.2 = .ofInstance (w.store.inst old) := by
    intro e he
    have hget := (kept.mem_entries_iff e.1 e.2).mp he
    rw [hkept] at hget
    by_cases hmem : e.1 ∈ w.tracked file
    · rw [if_pos hmem, World.keptOf?, Option.map_eq_some_iff] at hget
      obtain ⟨old, hold, hkeptOf⟩ := hget
      exact ⟨hmem, old, hold, hkeptOf.symm⟩
    · simp [hmem] at hget
  refine ⟨v, hexecute, fun n hn old r hold hr => ?_, fun r hr => hsame r fun e he hbound => ?_⟩
  · have hmem : (n, Kept.ofInstance (w.store.inst old)) ∈ kept.entries := by
      rw [kept.mem_entries_iff, hkept, if_pos hn, World.keptOf?, hold]
      rfl
    obtain ⟨e, he, hbound, hnames⟩ := hmutated _ hmem r hr
    obtain ⟨htracked, old', hold', hkeptOf⟩ := hentry e he
    refine ⟨e.1, htracked, old', hold', hbound, hnames.trans ?_⟩
    rw [hkeptOf]
    rfl
  · obtain ⟨htracked, old, hold, -⟩ := hentry e he
    exact hr e.1 htracked (by simp [hold]) hbound

/-- The record of assigned fields.  In every world that comes up in a session, in the middle of a
    request too, a field that changed its value is on record as assigned, unless the instance was
    restored or the field holds a function; an instance that was never restored keeps the names of
    all fields that were assigned since it was made; and one that was restored keeps those that were
    restored and those that were assigned since, and no others.  So a reload drops what its program
    has assigned to an instance that replaces another one, unless it was assigned to that one as
    well. -/
theorem Arises.mutated_iff {w : World} (hw : Arises w) :
    (∀ v, Leads v w → ∀ r, v.store.instances.Holds r → ∀ k,
      (w.store.inst r).data.get? k ≠ (v.store.inst r).data.get? k →
      ((w.store.inst r).data.get? k).any Value.isCallable = false →
        .assigned k ∈ (w.store.inst r).changes ∨
          ∃ mutated, .restored mutated ∈ (w.store.inst r).changes) ∧
    (∀ r k, .assigned k ∈ (w.store.inst r).changes →
      (∀ mutated, .restored mutated ∉ (w.store.inst r).changes) →
        k ∈ (w.store.inst r).mutated) ∧
    (∀ r k, k ∈ (w.store.inst r).mutated ↔
      k ∈ assignedSince (w.store.inst r).changes ∨ k ∈ restoredLast (w.store.inst r).changes) ∧
    ∀ bound program file t, exchange (bounded bound) program file w = .ok () t →
      ∃ v, execute (bounded bound) program (some file) (withdrawn file w) = .ok () v ∧
        (∀ n ∈ w.tracked file, ∀ old r, w.instanceOf? n = some old → v.Names n r →
          ∃ m ∈ w.tracked file, ∃ old', w.instanceOf? m = some old' ∧
            v.instanceOf? m = some r ∧ (t.store.inst r).mutated = (w.store.inst old').mutated) ∧
        (∀ r, (∀ n ∈ w.tracked file, w.instanceOf? n ≠ none → v.instanceOf? n ≠ some r) →
          t.store.inst r = v.store.inst r) := by
  refine ⟨fun v hv r hr k => hv.changed_recorded hr, fun r k hk hnone => ?_,
    fun r => hw.recorded r, fun bound program file t hok => ?_⟩
  · exact (hw.recorded r k).mpr (.inl (mem_assignedSince hk hnone))
  · exact exchange_mutated hok

/-- A file that declares a lamp. -/
def lampSource : String :=
  "schema Lamp:\n  required:\n    state: string\n    color: string\n" ++
    "Lamp lamp:\n  state: \"off\"\n  color: \"white\"\n"

/-- A session in which the lamp was turned on. -/
def litLamp : World :=
  Session.serve (Session.start {} [])
    [.load lampSource "lamp", .load "set lamp.state: \"on\"\n" "console"]

/-- The program of a lamp that is painted. -/
def paintedLamp : Program :=
  Program.compiled (lampSource ++ "set lamp.color: \"red\"\n") "lamp"

/-- The lamp is exchanged for one that its program paints: the color is there, but it counts as
    assigned no longer. -/
theorem mutated_iff_paintedLamp :
    ∃ v t, Arises litLamp ∧
      execute (bounded runBound) paintedLamp (some "lamp") (withdrawn "lamp" litLamp) = .ok () v ∧
      exchange (bounded runBound) paintedLamp "lamp" litLamp = .ok () t ∧
      v.Names "lamp" ⟨1⟩ ∧ "color" ∈ (v.store.inst ⟨1⟩).mutated ∧
      (t.store.inst ⟨1⟩).text? "color" = some "red" ∧
      (t.store.inst ⟨1⟩).mutated = ["state"] := by
  have hw : Arises litLamp := ((Reached.start {} []).serve _).arises
  let act := exchange (bounded runBound) paintedLamp "lamp"
  let executed := (Session.perform (execute (bounded runBound) paintedLamp (some "lamp"))
    (withdrawn "lamp" litLamp)).2
  obtain ⟨hexchanged, htracked, hold, hmutated, hnames, hassigned, hcolor⟩ :
      (Session.perform act litLamp).1.isOk = true ∧ litLamp.tracked "lamp" = ["lamp"] ∧
      litLamp.instanceOf? "lamp" = some ⟨0⟩ ∧ (litLamp.store.inst ⟨0⟩).mutated = ["state"] ∧
      executed.Names "lamp" ⟨1⟩ ∧ "color" ∈ (executed.store.inst ⟨1⟩).mutated ∧
      ((Session.perform act litLamp).2.store.inst ⟨1⟩).text? "color" = some "red" := by
    decide +kernel
  obtain ⟨-, -, -, hexchange⟩ := hw.mutated_iff
  obtain ⟨v, hexecute, hrestored, -⟩ :=
    hexchange runBound paintedLamp "lamp" _ (Session.perform_of_isOk hexchanged)
  obtain rfl : executed = v := Session.perform_of_ok hexecute
  refine ⟨executed, _, hw, hexecute, Session.perform_of_isOk hexchanged, hnames, hassigned,
    hcolor, ?_⟩
  obtain ⟨m, hm, old, hold', -, heq⟩ :=
    hrestored "lamp" (by simp [htracked]) ⟨0⟩ ⟨1⟩ hold hnames
  obtain rfl : m = "lamp" := by simpa [htracked] using hm
  obtain rfl : ⟨0⟩ = old := Option.some.inj (hold.symm.trans hold')
  exact heq.trans hmutated

end EventScript
