import EventScript.Proofs.Globals
import EventScript.Proofs.Reached

/-! # What a reload restores

A reload withdraws what a file declared, executes the new program, and writes the kept fields to
the instances that have the names then.  Whatever the new program does in between, exactly the
fields that were assigned to the old instances come back.

* `withdraw_eq`                     the world in which the new program is executed
* `restored_restore`                what is written to a single instance
* `restoreAll_restores`             what is written to all instances
* `exchange_writes`                 both, around an arbitrary execution
* `exchange_field`                  what a field holds behind it
* `exchange_restores`               what comes back, and that nothing else changes
-/

namespace EventScript

open Evaluate

/-! ## Withdrawing a file -/

/-- The names of the instances that a file declared. -/
def World.tracked (w : World) (file : String) : List String := w.instancesByFile.getD file []

/-- What a reload keeps of the instance that a global name is bound to. -/
def World.keptOf? (w : World) (name : String) : Option Kept :=
  (w.instanceOf? name).map fun r => .ofInstance (w.store.inst r)

/-- The world without everything that a file declared. -/
def withdrawn (file : String) (w : World) : World :=
  (dropInstances file (dropHandlers file w)).unbindAll (w.tracked file)

/-- Withdrawing a file changes registries and scopes; the scopes that were made stay. -/
theorem withdrawn_eq (file : String) (w : World) :
    ∃ scopes, (∀ r, w.store.scopes.Holds r → scopes.Holds r) ∧
      withdrawn file w = { dropInstances file (dropHandlers file w) with
        store := { w.store with scopes := scopes } } :=
  (dropInstances file (dropHandlers file w)).unbindAll_eq (w.tracked file)

/-- The names of the instances that a file declared are unbound when it is withdrawn. -/
theorem global?_withdrawn {file n : String} {w : World} (hn : n ∈ w.tracked file) :
    (withdrawn file w).global? n = none :=
  (World.global?_unbindAll _ _ _).trans (if_pos hn)

theorem unbind_cons (kept : Table String Kept) (name : String) (rest : List String) (w : World) :
    Evaluate.unbind kept (name :: rest) w =
      Evaluate.unbind ((w.keptOf? name).elim kept (kept.put name)) rest (w.unbind name) := by
  have hfound : Eval.global? name w = .ok (w.global? name) w := rfl
  rw [Evaluate.unbind, Eval.run_bind_of_ok hfound, World.keptOf?, World.instanceOf?]
  cases w.global? name with
  | none => rfl
  | some v => cases v <;> rfl

/-- Of every name that is bound to an instance when its turn comes the instance is kept. -/
theorem unbind_eq (names : List String) (kept : Table String Kept) (w : World) :
    ∃ kept', Evaluate.unbind kept names w = .ok kept' (w.unbindAll names) ∧
      ∀ n, kept'.get? n =
        ((if n ∈ names then w.keptOf? n else none).or (kept.get? n)) := by
  induction names generalizing kept w with
  | nil => exact ⟨kept, rfl, fun n => by simp⟩
  | cons name rest ih =>
    -- a name that comes up again is unbound by then, so it is kept as it was found first
    have hgone : (w.unbind name).keptOf? name = none := by
      rw [World.keptOf?, World.instanceOf?, World.global?_unbind_self]
      rfl
    have hother : ∀ {n}, n ≠ name → (w.unbind name).keptOf? n = w.keptOf? n := fun h => by
      rw [World.keptOf?, World.instanceOf?, World.global?_unbind_of_ne w h]
      rfl
    cases hkept : w.keptOf? name with
    | none =>
      obtain ⟨kept', heq, hget⟩ := ih kept (w.unbind name)
      refine ⟨kept', ?_, fun n => ?_⟩
      · rw [unbind_cons, hkept]
        exact heq
      · rw [hget]
        by_cases hname : n = name
        · subst hname
          simp [hgone, hkept]
        · simp [hname, hother hname]
    | some k =>
      obtain ⟨kept', heq, hget⟩ := ih (kept.put name k) (w.unbind name)
      refine ⟨kept', ?_, fun n => ?_⟩
      · rw [unbind_cons, hkept]
        exact heq
      · rw [hget]
        by_cases hname : n = name
        · subst hname
          simp [hgone, hkept]
        · simp [hname, hother hname, Table.get?_put_of_ne _ _ hname]

/-- Withdrawing a file keeps what is to be kept of the instances that its names are bound to. -/
theorem withdraw_eq (file : String) (w : World) :
    ∃ kept, withdraw file w = .ok kept (withdrawn file w) ∧
      ∀ n, kept.get? n = if n ∈ w.tracked file then w.keptOf? n else none := by
  obtain ⟨kept, heq, hget⟩ :=
    unbind_eq (w.tracked file) .empty (dropInstances file (dropHandlers file w))
  exact ⟨kept, heq, fun n => (hget n).trans (Option.or_none)⟩

/-! ## Restoring instances -/

/-- An instance has the fields of another one that were assigned, where these are not functions in
    a third one, and else what that one has. -/
structure Restored (old new result : Instance) : Prop where
  schema : result.schema = new.schema
  kept : ∀ k ∈ old.mutated, ∀ x, old.data.get? k = some x →
    (new.data.get? k).any Value.isCallable = false → result.data.get? k = some x
  callable : ∀ k, (new.data.get? k).any Value.isCallable = true →
    result.data.get? k = new.data.get? k
  other : ∀ k, k ∉ old.mutated ∨ old.data.get? k = none →
    result.data.get? k = new.data.get? k
  mutated : ∀ k ∈ old.mutated, k ∈ result.mutated

/-- Kept fields are written, but for those that hold functions; each field is kept with one value,
    however often it comes up. -/
theorem get?_restore (old new : Instance) (k : String) :
    ((Kept.ofInstance old).restore new).data.get? k =
      if (new.data.get? k).any Value.isCallable then new.data.get? k
      else if k ∈ old.mutated then (old.data.get? k).or (new.data.get? k)
      else new.data.get? k := by
  simp only [Kept.restore, Kept.ofInstance]
  generalize old.mutated = names
  generalize new.data = t
  induction names generalizing t with
  | nil => simp
  | cons name rest ih =>
    cases hold : old.data.get? name with
    | none =>
      simp only [List.filterMap_cons, hold, Option.map_none]
      rw [ih]
      by_cases hk : k = name
      · subst hk
        simp [hold]
      · simp [hk]
    | some x =>
      simp only [List.filterMap_cons, hold, Option.map_some, List.foldl_cons]
      rw [ih]
      by_cases hcall : (t.get? name).any Value.isCallable = true
      · by_cases hk : k = name
        · subst hk
          simp [hcall]
        · simp [hcall, hk]
      · by_cases hk : k = name
        · subst hk
          simp [hcall, hold]
        · simp [hcall, hk, Table.get?_put_of_ne _ _ hk]

theorem restored_restore (old new : Instance) :
    Restored old new ((Kept.ofInstance old).restore new) where
  schema := rfl
  kept k hk x hx hcall := by simp [get?_restore, hk, hx, hcall]
  callable k hcall := by simp [get?_restore, hcall]
  other k hk := by
    rw [get?_restore]
    rcases hk with hk | hk
    · simp [hk]
    · simp [hk]
  mutated k hk := hk

/-- The world with the instances of another one. -/
def World.withInstances (w : World) (instances : Heap .inst Instance) : World :=
  { w with store := { w.store with instances := instances } }

theorem restoreAll_cons_inst (kept : Kept) (rest : List (String × Kept)) {w : World}
    {name : String} {r : InstanceRef} (hname : w.instanceOf? name = some r) :
    restoreAll ((name, kept) :: rest) w =
      restoreAll rest (w.withInstances (w.store.instances.modify r kept.restore)) := by
  have hfound : Eval.global? name w = .ok (some (.inst r)) w := by
    rw [← World.instanceOf?_eq_some.mp hname]
    rfl
  rw [restoreAll, Eval.run_bind_of_ok hfound]
  rfl

theorem restoreAll_cons_other (kept : Kept) (rest : List (String × Kept)) {w : World}
    {name : String} (hname : w.instanceOf? name = none) :
    restoreAll ((name, kept) :: rest) w = restoreAll rest w := by
  have hfound : Eval.global? name w = .ok (w.global? name) w := rfl
  rw [restoreAll, Eval.run_bind_of_ok hfound]
  cases hv : w.global? name with
  | none => rfl
  | some v =>
    cases v with
    | inst r => simp [World.instanceOf?, hv] at hname
    | _ => rfl

/-- Writing kept fields changes nothing but instances. -/
theorem restoreAll_eq (entries : List (String × Kept)) (w : World) :
    ∃ instances, restoreAll entries w = .ok () (w.withInstances instances) := by
  induction entries generalizing w with
  | nil => exact ⟨w.store.instances, rfl⟩
  | cons entry rest ih =>
    obtain ⟨name, kept⟩ := entry
    cases hname : w.instanceOf? name with
    | none =>
      obtain ⟨instances, heq⟩ := ih w
      exact ⟨instances, (restoreAll_cons_other kept rest hname).trans heq⟩
    | some r =>
      obtain ⟨instances, heq⟩ := ih (w.withInstances (w.store.instances.modify r kept.restore))
      exact ⟨instances, (restoreAll_cons_inst kept rest hname).trans heq⟩

/-- Kept fields are written to the instances that have the names, where each instance has one name
    of those only, and nothing else is changed. -/
theorem restoreAll_restores (entries : List (String × Kept))
    (hnodup : (entries.map Prod.fst).Nodup) (w : World)
    (hdistinct : ∀ e ∈ entries, ∀ e' ∈ entries, ∀ r, w.instanceOf? e.1 = some r →
      w.instanceOf? e'.1 = some r → e.1 = e'.1) :
    ∃ instances, restoreAll entries w = .ok () (w.withInstances instances) ∧
      (∀ r, w.store.instances.Holds r → instances.Holds r) ∧
      (∀ e ∈ entries, ∀ r, w.Names e.1 r → instances.get r = e.2.restore (w.store.inst r)) ∧
      (∀ r, (∀ e ∈ entries, w.instanceOf? e.1 ≠ some r) →
        instances.get r = w.store.inst r) := by
  induction entries generalizing w with
  | nil => exact ⟨w.store.instances, rfl, fun _ hr => hr, by simp, fun r _ => rfl⟩
  | cons entry rest ih =>
    obtain ⟨name, kept⟩ := entry
    rw [List.map_cons, List.nodup_cons] at hnodup
    have hdistinct' : ∀ e ∈ rest, ∀ e' ∈ rest, ∀ r, w.instanceOf? e.1 = some r →
        w.instanceOf? e'.1 = some r → e.1 = e'.1 := fun e he e' he' =>
      hdistinct e (by simp [he]) e' (by simp [he'])
    cases hname : w.instanceOf? name with
    | none =>
      obtain ⟨instances, heq, hheld, hrestored, hsame⟩ := ih hnodup.2 w hdistinct'
      refine ⟨instances, (restoreAll_cons_other kept rest hname).trans heq, hheld, ?_, ?_⟩
      · intro e he s hs
        rcases List.mem_cons.mp he with rfl | he
        · simp [World.Names, hname] at hs
        · exact hrestored e he s hs
      · exact fun s hs => hsame s fun e he => hs e (by simp [he])
    | some r =>
      have hnotrest : ∀ e ∈ rest, w.instanceOf? e.1 ≠ some r := by
        intro e he hr
        have hsame := hdistinct (name, kept) (by simp) e (by simp [he]) r hname hr
        exact hnodup.1 (hsame ▸ List.mem_map_of_mem he)
      obtain ⟨instances, heq, hheld, hrestored, hsame⟩ :=
        ih hnodup.2 (w.withInstances (w.store.instances.modify r kept.restore)) hdistinct'
      refine ⟨instances, (restoreAll_cons_inst kept rest hname).trans heq,
        fun s hs => hheld s ((Heap.holds_modify _ _ _ _).mpr hs), ?_, ?_⟩
      · intro e he s hs
        rcases List.mem_cons.mp he with rfl | he
        · -- no later entry names this instance
          obtain rfl : r = s := Option.some.inj (hname.symm.trans hs.1)
          rw [hsame r hnotrest]
          exact Heap.get_modify_self _ _ hs.2
        · have hne : s ≠ r := fun h => hnotrest e he (h ▸ hs.1)
          rw [hrestored e he s ⟨hs.1, (Heap.holds_modify _ _ _ _).mpr hs.2⟩]
          exact congrArg e.2.restore (Heap.get_modify_of_ne _ _ hne)
      · intro s hs
        have hne : s ≠ r := fun h => hs (name, kept) (by simp) (h ▸ hname)
        rw [hsame s fun e he => hs e (by simp [he])]
        exact Heap.get_modify_of_ne _ _ hne

/-! ## Exchanging what a file declared -/

/-- No two of the names are bound to one instance. -/
def World.Distinct (w : World) (names : List String) : Prop :=
  ∀ m ∈ names, ∀ n ∈ names, ∀ r, w.instanceOf? m = some r → w.instanceOf? n = some r → m = n

/-- The parts of an exchange that succeeds. -/
theorem exchange_eq_ok (run : Runner) {program : Program} {file : String} {w t : World}
    (hok : exchange run program file w = .ok () t) :
    ∃ v instances, execute run program (some file) (withdrawn file w) = .ok () v ∧
      t = v.withInstances instances := by
  obtain ⟨kept, u, hwithdraw, hrest⟩ := Eval.bind_eq_ok hok
  obtain ⟨kept', hwithdraw', -⟩ := withdraw_eq file w
  obtain ⟨rfl, rfl⟩ : kept' = kept ∧ withdrawn file w = u := by
    simpa using hwithdraw'.symm.trans hwithdraw
  obtain ⟨_, v, hexecute, hrestore⟩ := Eval.bind_eq_ok hrest
  obtain ⟨instances, heq⟩ := restoreAll_eq kept'.entries v
  refine ⟨v, instances, hexecute, ?_⟩
  simpa [heq] using hrestore.symm

/-- An exchange is a withdrawal, the execution of the new program, and a restoring of instances. -/
theorem exchange_writes (run : Runner) (program : Program) (file : String) {w v : World}
    (hexecute : execute run program (some file) (withdrawn file w) = .ok () v)
    (hdistinct : v.Distinct (w.tracked file)) :
    ∃ instances, exchange run program file w = .ok () (v.withInstances instances) ∧
      (∀ r, v.store.instances.Holds r → instances.Holds r) ∧
      (∀ n ∈ w.tracked file, ∀ old new, w.instanceOf? n = some old → v.Names n new →
        instances.get new = (Kept.ofInstance (w.store.inst old)).restore (v.store.inst new)) ∧
      (∀ r, (∀ n ∈ w.tracked file, w.instanceOf? n ≠ none → v.instanceOf? n ≠ some r) →
        instances.get r = v.store.inst r) := by
  obtain ⟨kept, hwithdraw, hkept⟩ := withdraw_eq file w
  have hentry : ∀ e ∈ kept.entries, e.1 ∈ w.tracked file ∧ w.keptOf? e.1 = some e.2 := by
    intro e he
    have hget := (kept.mem_entries_iff e.1 e.2).mp he
    rw [hkept] at hget
    by_cases hmem : e.1 ∈ w.tracked file
    · exact ⟨hmem, by simpa [hmem] using hget⟩
    · simp [hmem] at hget
  obtain ⟨instances, hrestore, hheld, hrestored, hsame⟩ :=
    restoreAll_restores kept.entries kept.nodup v
      fun e he e' he' => hdistinct e.1 (hentry e he).1 e'.1 (hentry e' he').1
  refine ⟨instances, ?_, hheld, ?_, ?_⟩
  · rw [exchange, Eval.run_bind_of_ok hwithdraw, Eval.run_bind_of_ok hexecute, hrestore]
  · intro n hn old new hold hnew
    have hmem : (n, Kept.ofInstance (w.store.inst old)) ∈ kept.entries := by
      rw [kept.mem_entries_iff, hkept, if_pos hn, World.keptOf?, hold]
      rfl
    exact hrestored _ hmem new hnew
  · intro r hr
    refine hsame r fun e he => ?_
    obtain ⟨hmem, hkeptOf⟩ := hentry e he
    refine hr e.1 hmem fun hnone => ?_
    simp [World.keptOf?, hnone] at hkeptOf

/-- The value that a reload of a file writes to a field of the instance that has a name then, unless
    the field holds a function. -/
def World.keptField? (w : World) (file name field : String) : Option Value :=
  if name ∈ w.tracked file then
    (w.instanceOf? name).bind fun r =>
      if field ∈ (w.store.inst r).mutated then (w.store.inst r).data.get? field else none
  else none

/-- After an exchange a field that holds no function has the value that was kept for it, and else
    what the new program gave it. -/
theorem exchange_field (run : Runner) (program : Program) (file : String) {w v : World}
    {names : List String}
    (hexecute : execute run program (some file) (withdrawn file w) = .ok () v)
    (hdistinct : v.Distinct names) (hnames : ∀ n ∈ w.tracked file, n ∈ names) :
    ∃ instances, exchange run program file w = .ok () (v.withInstances instances) ∧
      (∀ r, v.store.instances.Holds r → instances.Holds r) ∧
      ∀ n ∈ names, ∀ new, v.Names n new → ∀ k,
        (instances.get new).data.get? k =
          if ((v.store.inst new).data.get? k).any Value.isCallable then
            (v.store.inst new).data.get? k
          else (w.keptField? file n k).or ((v.store.inst new).data.get? k) := by
  obtain ⟨instances, hexchange, hheld, hwritten, hsame⟩ := exchange_writes run program file
    hexecute fun m hm n hn => hdistinct m (hnames m hm) n (hnames n hn)
  refine ⟨instances, hexchange, hheld, fun n hn new hnew k => ?_⟩
  by_cases hkept : n ∈ w.tracked file ∧ w.instanceOf? n ≠ none
  · obtain ⟨hmem, hbound⟩ := hkept
    obtain ⟨old, hold⟩ := Option.ne_none_iff_exists'.mp hbound
    rw [hwritten n hmem old new hold hnew, get?_restore]
    simp only [World.keptField?, hmem, hold, if_true, Option.bind_some]
    split
    · rfl
    · split <;> rfl
  · -- no other name is kept for this instance
    have huntouched : instances.get new = v.store.inst new := by
      refine hsame new fun m hm hbound hnew' => ?_
      obtain rfl := hdistinct m (hnames m hm) n hn new hnew' hnew.1
      exact hkept ⟨hm, hbound⟩
    have hnone : w.keptField? file n k = none := by
      unfold World.keptField?
      split
      · rename_i hmem
        rw [not_and, Classical.not_not] at hkept
        simp [hkept hmem]
      · rfl
    rw [huntouched, hnone, Option.none_or, ite_self]

/-- What is announced behind an exchange. -/
theorem replace_of_exchanged (run : Runner) {program : Program} {file : String} {w u : World}
    (hexchange : exchange run program file w = .ok () u) :
    replace run program file w = announce run file u := Eval.run_bind_of_ok hexchange

/-- Whatever the new program does, an exchange begins by unbinding the names that the file declared
    and ends by writing to the instances that have these names then, and to nothing else, the fields
    that were assigned to the instances that had the names before.  Only then the reload is
    announced. -/
theorem exchange_restores (run : Runner) (program : Program) (file : String) {w v : World}
    (hexecute : execute run program (some file) (withdrawn file w) = .ok () v)
    (hdistinct : v.Distinct (w.tracked file)) :
    ∃ instances, exchange run program file w = .ok () (v.withInstances instances) ∧
      replace run program file w = announce run file (v.withInstances instances) ∧
      (∀ n ∈ w.tracked file, (withdrawn file w).global? n = none) ∧
      (∀ n ∈ w.tracked file, ∀ old new, w.Names n old → v.Names n new →
        Restored (w.store.inst old) (v.store.inst new) (instances.get new)) ∧
      (∀ r, (∀ n ∈ w.tracked file, w.instanceOf? n ≠ none → v.instanceOf? n ≠ some r) →
        instances.get r = v.store.inst r) := by
  obtain ⟨instances, hexchange, -, hwritten, hsame⟩ :=
    exchange_writes run program file hexecute hdistinct
  refine ⟨instances, hexchange, replace_of_exchanged run hexchange, ?_, ?_, hsame⟩
  · exact fun n hn => global?_withdrawn hn
  · intro n hn old new hold hnew
    rw [hwritten n hn old new hold.1 hnew]
    exact restored_restore _ _

/-- A file that declares a door. -/
def doorSource : String :=
  "schema Door:\n  required:\n    state: string\nDoor door:\n  state: \"closed\"\n"

/-- A session in which the door was opened. -/
def openedDoor : World :=
  Session.serve (Session.start {} [])
    [.load doorSource "door", .load "set door.state: \"open\"" "console"]

/-- The text that a field of an instance is, if it is one. -/
def Instance.text? (i : Instance) (field : String) : Option String :=
  match i.data.get? field with
  | some (.text s) => some s
  | _ => none

theorem Instance.text?_eq_some {i : Instance} {field s : String} :
    i.text? field = some s ↔ i.data.get? field = some (.text s) := by
  unfold text?
  split
  · rename_i t ht
    simp [ht]
  · rename_i hother
    exact ⟨fun h => (nomatch h), fun h => absurd h (hother s)⟩

/-- The door is exchanged for a door that is declared closed, and it stays open. -/
theorem exchange_restores_opened_door :
    ∃ v instances,
      execute Evaluate.run (Program.compiled doorSource "door") (some "door")
        (withdrawn "door" openedDoor) = .ok () v ∧
      v.Distinct (openedDoor.tracked "door") ∧ v.Names "door" ⟨1⟩ ∧
      (v.store.inst ⟨1⟩).text? "state" = some "closed" ∧
      exchange Evaluate.run (Program.compiled doorSource "door") "door" openedDoor =
        .ok () (v.withInstances instances) ∧
      (instances.get ⟨1⟩).text? "state" = some "open" := by
  let act := execute Evaluate.run (Program.compiled doorSource "door") (some "door")
  let v := (Session.perform act (withdrawn "door" openedDoor)).2
  obtain ⟨hok, htracked, hold, hnew, hopen, hmutated, hclosed⟩ :
      (Session.perform act (withdrawn "door" openedDoor)).1.isOk = true ∧
      openedDoor.tracked "door" = ["door"] ∧
      openedDoor.Names "door" ⟨0⟩ ∧ v.Names "door" ⟨1⟩ ∧
      (openedDoor.store.inst ⟨0⟩).text? "state" = some "open" ∧
      "state" ∈ (openedDoor.store.inst ⟨0⟩).mutated ∧
      (v.store.inst ⟨1⟩).text? "state" = some "closed" := by decide +kernel
  have hexecute : act (withdrawn "door" openedDoor) = .ok () v := Session.perform_of_isOk hok
  have hdistinct : v.Distinct (openedDoor.tracked "door") := by
    intro m hm n hn r _ _
    rw [htracked, List.mem_singleton] at hm hn
    rw [hm, hn]
  obtain ⟨instances, hexchange, -, -, hrestored, -⟩ :=
    exchange_restores Evaluate.run (Program.compiled doorSource "door") "door" hexecute hdistinct
  have hdoor := hrestored "door" (by simp [htracked]) _ _ hold hnew
  refine ⟨v, instances, hexecute, hdistinct, hnew, hclosed, hexchange, ?_⟩
  rw [Instance.text?_eq_some] at hopen hclosed ⊢
  exact hdoor.kept "state" hmutated _ hopen (by rw [hclosed]; rfl)

end EventScript
