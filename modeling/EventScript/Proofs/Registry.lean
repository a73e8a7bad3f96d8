import EventScript.Proofs.Law.Steady
import EventScript.Proofs.Reload.Announce
import Mathlib.Data.List.Nodup

/-! # The registry of handlers

Every handler is kept under its event, and under the file that was being executed when it was
registered, if that has a name.  Both are what the ledger of the registry says: the handlers that
were registered and whose file was not withdrawn since then, in the order of their registration.

* `standing`                      the handlers that a ledger leaves registered
* `Indexed`                       both indexes say what the ledger says
* `replace_reloaded`              what a reload does to the handlers of an event
* `Arises.handlerIndexes_agree`   the two indexes agree in every world that comes up
-/

namespace EventScript

open Evaluate

/-! ## Ledgers -/

/-- The file that a handler is recorded for, if there is one. -/
def Handler.owner? (h : Handler) : Option String := recordedFile? h.file

theorem Handler.owner?_eq_some {h : Handler} {file : String} (hfile : file ≠ "") :
    h.owner? = some file ↔ h.file = some file := by
  unfold owner? recordedFile?
  split
  · rename_i hnone
    simp [hnone, hfile.symm]
  · rfl

/-- The handlers that are registered, in the order of their registration. -/
def registeredIn : List RegistryChange → List Handler
  | [] => []
  | .registered h :: earlier => registeredIn earlier ++ [h]
  | .withdrawn _ _ _ :: earlier => registeredIn earlier

/-- The handlers that are registered and not dropped later, in the order of their registration. -/
def standing : List RegistryChange → List Handler
  | [] => []
  | .registered h :: earlier => standing earlier ++ [h]
  | .withdrawn file _ _ :: earlier => (standing earlier).filter (·.owner? ≠ some file)

/-- The change withdraws a file. -/
def RegistryChange.isWithdrawal : RegistryChange → Bool
  | withdrawn _ _ _ => true
  | registered _ => false

/-- No file is withdrawn. -/
def NoneWithdrawn (ledger : List RegistryChange) : Prop := ∀ c ∈ ledger, c.isWithdrawal = false

instance (ledger : List RegistryChange) : Decidable (NoneWithdrawn ledger) :=
  inferInstanceAs (Decidable (∀ c ∈ ledger, c.isWithdrawal = false))

theorem registeredIn_append (later earlier : List RegistryChange) :
    registeredIn (later ++ earlier) = registeredIn earlier ++ registeredIn later := by
  induction later with
  | nil => simp [registeredIn]
  | cons c rest ih =>
    cases c with
    | registered h => simp [registeredIn, ih]
    | withdrawn file dispatching past => exact ih

theorem standing_sublist (ledger : List RegistryChange) :
    (standing ledger).Sublist (registeredIn ledger) := by
  induction ledger with
  | nil => exact List.Sublist.refl []
  | cons c rest ih =>
    cases c with
    | registered h => exact ih.append_right [h]
    | withdrawn file dispatching past => exact List.filter_sublist.trans ih

/-- A handler stands because it did before or was registered since. -/
theorem mem_standing_append {later earlier : List RegistryChange} {h : Handler}
    (hh : h ∈ standing (later ++ earlier)) : h ∈ standing earlier ∨ h ∈ registeredIn later := by
  induction later with
  | nil => exact .inl hh
  | cons c rest ih =>
    cases c with
    | registered h' =>
      rcases List.mem_append.mp hh with hh | hh
      · exact (ih hh).imp_right (List.mem_append_left [h'])
      · exact .inr (List.mem_append_right _ hh)
    | withdrawn file dispatching past => exact ih (List.mem_filter.mp hh).1

/-- Where no file is withdrawn, handlers are only added. -/
theorem standing_append {later : List RegistryChange} (hlater : NoneWithdrawn later)
    (earlier : List RegistryChange) :
    standing (later ++ earlier) = standing earlier ++ registeredIn later := by
  induction later with
  | nil => simp [registeredIn]
  | cons c rest ih =>
    have hrest := ih fun c hc => hlater c (List.mem_cons_of_mem _ hc)
    cases c with
    | registered h => simp [standing, registeredIn, hrest]
    | withdrawn file dispatching past => cases hlater _ List.mem_cons_self

/-! ## The two indexes -/

/-- Both indexes of handlers are what the ledger says, and the handlers got ascending serial
    numbers. -/
structure Indexed (w : World) : Prop where
  byEvent : ∀ event, w.handlers.getD event [] = (standing w.ledger).filter (·.event = event)
  byFile : ∀ file,
    w.handlersByFile.getD file [] = (standing w.ledger).filter (·.owner? = some file)
  ascending : (registeredIn w.ledger).Pairwise (·.serial < ·.serial)
  past : ∀ h ∈ registeredIn w.ledger, h.serial < w.nextSerial

namespace Indexed

variable {v w : World}

theorem congr (hv : Indexed v) (h : SameRegistry v w) : Indexed w := by
  obtain ⟨hhandlers, hbyFile, hnext, hledger⟩ := h
  refine ⟨?_, ?_, ?_, ?_⟩
  · rw [hhandlers, hledger]
    exact hv.byEvent
  · rw [hbyFile, hledger]
    exact hv.byFile
  · rw [hledger]
    exact hv.ascending
  · rw [hnext, hledger]
    exact hv.past

/-- Handlers with the same serial number are the same. -/
theorem eq_of_serial_eq (hw : Indexed w) {h h' : Handler} (hh : h ∈ registeredIn w.ledger)
    (hh' : h' ∈ registeredIn w.ledger) (hserial : h.serial = h'.serial) : h = h' := by
  have hnodup : ((registeredIn w.ledger).map Handler.serial).Nodup :=
    List.pairwise_map.mpr (hw.ascending.imp Nat.ne_of_lt)
  exact List.inj_on_of_nodup_map hnodup hh hh' hserial

/-- A handler that is registered goes to the end of the list of its event and of its file. -/
theorem withHandler (hw : Indexed w) (event : String) (condition : Option Expr) (body : Block)
    (scope : ScopeRef) : Indexed (withHandler event condition body scope w) where
  byEvent name := by
    refine (Table.getD_pushTo _ _ _ _).trans ?_
    simp only [Evaluate.withHandler, standing, List.filter_append, hw.byEvent]
    by_cases hname : name = event
    · simp [hname]
    · simp [hname, Ne.symm hname]
  byFile file := by
    cases hfile : recordedFile? w.currentFile with
    | none => simp [Evaluate.withHandler, hfile, standing, hw.byFile, Handler.owner?]
    | some current =>
      simp only [Evaluate.withHandler, hfile, standing, List.filter_append, Table.getD_pushTo,
        hw.byFile]
      by_cases hsame : file = current
      · simp [hsame, Handler.owner?, hfile]
      · simp [hsame, Handler.owner?, hfile, Ne.symm hsame]
  ascending := by
    refine List.pairwise_append.mpr ⟨hw.ascending, by simp, fun h hh h' hh' => ?_⟩
    rw [List.mem_singleton.mp hh']
    exact hw.past h hh
  past h hh := by
    rcases List.mem_append.mp hh with hh | hh
    · exact Nat.lt_succ_of_lt (hw.past h hh)
    · rw [List.mem_singleton.mp hh]
      exact Nat.lt_succ_self _

/-- Dropping by serial numbers what the index of files lists is dropping the handlers that are
    recorded for the file. -/
theorem dropHandlers (hw : Indexed w) (file : String) : Indexed (dropHandlers file w) where
  byEvent event := by
    rw [getD_dropHandlers, hw.byEvent, hw.byFile]
    simp only [Evaluate.dropHandlers, standing, List.filter_filter]
    refine List.filter_congr fun h hh => ?_
    rw [Bool.eq_iff_iff]
    simp only [Bool.and_eq_true, decide_eq_true_eq, List.mem_filter]
    rw [and_comm]
    refine and_congr_right fun hevent => ⟨fun hother howner => ?_, fun howner d hd _ hserial => ?_⟩
    · -- a handler of the file is itself among those that are dropped
      exact hother h ⟨hh, howner⟩ hevent rfl
    · -- one with the serial number of a dropped handler is that handler
      have hregistered := (standing_sublist w.ledger).subset
      obtain rfl := hw.eq_of_serial_eq (hregistered hh) (hregistered hd.1) hserial
      exact howner hd.2
  byFile name := by
    simp only [Evaluate.dropHandlers, standing, List.filter_filter]
    by_cases hname : name = file
    · subst hname
      simp [Table.getD]
    · rw [Table.getD, Table.get?_erase_of_ne _ hname, ← Table.getD, hw.byFile]
      refine List.filter_congr fun h _ => ?_
      rw [Bool.eq_iff_iff]
      simp only [Bool.and_eq_true, decide_eq_true_eq]
      exact ⟨fun howner => ⟨howner, by simpa [howner] using hname⟩, And.left⟩
  ascending := hw.ascending
  past := hw.past

theorem change (hv : Indexed v) (h : Change v w) : Indexed w := by
  rcases h.registry with ⟨event, condition, body, scope, rfl⟩ | ⟨file, rfl⟩ | hsame
  · exact hv.withHandler event condition body scope
  · exact hv.dropHandlers file
  · exact hv.congr hsame

/-- The handlers that are recorded for a file and handle an event are the same in both indexes, and
    in the same order. -/
theorem agree (hw : Indexed w) {file : String} (hfile : file ≠ "") (event : String) :
    (w.handlers.getD event []).filter (·.file = some file) =
      (w.handlersByFile.getD file []).filter (·.event = event) := by
  rw [hw.byEvent, hw.byFile, List.filter_filter, List.filter_filter]
  refine List.filter_congr fun h _ => ?_
  simp [Handler.owner?_eq_some hfile, Bool.and_comm]

/-- No handler is registered twice, neither for one event nor for two. -/
theorem nodup (hw : Indexed w) : (w.handlers.values.flatten.map Handler.serial).Nodup := by
  have hlisted : ∀ e ∈ w.handlers.entries, e.2 = (standing w.ledger).filter (·.event = e.1) := by
    intro e he
    have hget := (w.handlers.mem_entries_iff e.1 e.2).mp he
    rw [← hw.byEvent, Table.getD, hget, Option.getD_some]
  refine List.pairwise_map.mpr (List.pairwise_flatten.mpr ⟨fun hs hhs => ?_, ?_⟩)
  · obtain ⟨e, he, rfl⟩ := List.mem_map.mp hhs
    rw [hlisted e he]
    exact ((hw.ascending.sublist (standing_sublist _)).filter _).imp Nat.ne_of_lt
  · -- two events share no handler, since a handler has one event
    refine List.pairwise_map.mpr ((List.pairwise_map.mp w.handlers.nodup).imp_of_mem ?_)
    intro e e' he he' hne h hh h' hh' hserial
    rw [hlisted e he, List.mem_filter] at hh
    rw [hlisted e' he', List.mem_filter] at hh'
    have hregistered := (standing_sublist w.ledger).subset
    obtain rfl := hw.eq_of_serial_eq (hregistered hh.1) (hregistered hh'.1) hserial
    exact hne ((of_decide_eq_true hh.2).symm.trans (of_decide_eq_true hh'.2))

/-- Where no file is withdrawn, what is registered for an event goes behind what was there. -/
theorem added (hv : Indexed v) (hw : Indexed w) {later : List RegistryChange}
    (hledger : w.ledger = later ++ v.ledger) (hlater : NoneWithdrawn later) (event : String) :
    w.handlers.getD event [] =
      v.handlers.getD event [] ++ (registeredIn later).filter (·.event = event) := by
  rw [hw.byEvent, hledger, standing_append hlater, List.filter_append, ← hv.byEvent]

/-- What a file registered is missing behind its withdrawal, and nothing else. -/
theorem getD_withdrawn (hw : Indexed w) {file : String} (hfile : file ≠ "") (event : String) :
    (withdrawn file w).handlers.getD event [] =
      (w.handlers.getD event []).filter (·.file ≠ some file) := by
  obtain ⟨scopes, -, hwithdrawn⟩ := withdrawn_eq file w
  rw [hwithdrawn]
  refine ((hw.dropHandlers file).byEvent event).trans ?_
  simp only [Evaluate.dropHandlers, standing, hw.byEvent, List.filter_filter]
  refine List.filter_congr fun h _ => ?_
  simp [Handler.owner?_eq_some hfile, Bool.and_comm]

end Indexed

/-- Both indexes go on to say what the ledger says. -/
theorem steady_indexed : Steady fun v w : World => Indexed v → Indexed w where
  same h hv := by
    rw [h]
    exact ⟨hv.byEvent, hv.byFile, hv.ascending, hv.past⟩
  trans huv hvw hu := hvw (huv hu)
  change h hv := hv.change h

/-- Nothing is taken back from the ledger. -/
theorem steady_ledger : Steady fun v w : World => v.ledger <:+ w.ledger where
  same h := ⟨[], (congrArg World.ledger h).symm⟩
  trans := List.IsSuffix.trans
  change {v w} h := by
    rcases h.registry with ⟨event, condition, body, scope, rfl⟩ | ⟨file, rfl⟩ | hsame
    · exact List.suffix_cons _ _
    · exact List.suffix_cons _ _
    · exact ⟨[], hsame.ledger.symm⟩

theorem Arises.indexed {w : World} (hw : Arises w) : Indexed w := by
  have hnone : ∀ {name : String}, (Table.empty : Table String (List Handler)).getD name [] = [] :=
    rfl
  refine hw.of_steady steady_indexed fun settings hostFunctions => ⟨?_, ?_, ?_, ?_⟩
  · exact fun event => hnone
  · exact fun file => hnone
  · exact List.Pairwise.nil
  · exact fun h hh => nomatch hh

/-! ## Reloads -/

theorem ledger_withdrawn (file : String) (w : World) :
    (withdrawn file w).ledger = .withdrawn file w.processing w.history :: w.ledger := by
  obtain ⟨scopes, -, hwithdrawn⟩ := withdrawn_eq file w
  rw [hwithdrawn]
  rfl

theorem Leads.withdrawn (file : String) (w : World) : Leads w (withdrawn file w) := by
  obtain ⟨kept, hwithdraw, -⟩ := withdraw_eq file w
  exact (Law.obeyed_withdraw (L := Law.steady steady_leads) file).of_ok hwithdraw

/-- The stages of a reload that succeeds: the program is executed, what is kept is written, and the
    reload is announced, with these changes of the registry. -/
structure Reloaded (bound : Nat) (program : Program) (file : String) (w v t u : World)
    (ran told : List RegistryChange) : Prop where
  executed : execute (bounded bound) program (some file) (withdrawn file w) = .ok () v
  exchanged : exchange (bounded bound) program file w = .ok () t
  announced : announce (bounded bound) file t = .ok () u
  ran : t.ledger = ran ++ (withdrawn file w).ledger
  told : u.ledger = told ++ t.ledger

theorem replace_reloaded {bound : Nat} {program : Program} {file : String} {w u : World}
    (hok : replace (bounded bound) program file w = .ok () u) :
    ∃ v t ran told, Reloaded bound program file w v t u ran told := by
  obtain ⟨_, t, hexchanged, hannounced⟩ := Eval.bind_eq_ok hok
  obtain ⟨v, instances, hexecuted, htv⟩ := exchange_eq_ok _ hexchanged
  have hgrows := Law.bounded_steady steady_ledger bound
  obtain ⟨ran, hran⟩ := (Law.obeyed_execute hgrows (fun _ _ => trivial) _).of_ok hexecuted
  obtain ⟨told, htold⟩ := (Law.obeyed_announce hgrows file).of_ok hannounced
  have hledger : t.ledger = v.ledger := by rw [htv]; rfl
  exact ⟨v, t, ran, told, hexecuted, hexchanged, hannounced, hledger.trans hran.symm, htold.symm⟩

namespace Reloaded

variable {bound : Nat} {program : Program} {file : String} {w v t u : World}
  {ran told : List RegistryChange} (h : Reloaded bound program file w v t u ran told)
  (hw : Arises w)

include h hw

theorem exchanged_arises : Arises t := by
  have hruns := Law.bounded_steady steady_leads bound
  exact hw.leads ((Law.obeyed_exchange hruns (fun _ _ => trivial) _).of_ok h.exchanged)

/-- What the program registers goes behind what others registered, as long as nothing else is
    withdrawn meanwhile. -/
theorem getD_exchanged (hfile : file ≠ "") (hran : NoneWithdrawn ran) (event : String) :
    t.handlers.getD event [] = (w.handlers.getD event []).filter (·.file ≠ some file) ++
      (registeredIn ran).filter (·.event = event) := by
  have hgone := (hw.leads (.withdrawn file w)).indexed
  rw [hgone.added (h.exchanged_arises hw).indexed h.ran hran, hw.indexed.getD_withdrawn hfile]

/-- What is registered when the reload is announced goes behind what was there. -/
theorem getD_announced (htold : NoneWithdrawn told) (event : String) :
    u.handlers.getD event [] =
      t.handlers.getD event [] ++ (registeredIn told).filter (·.event = event) := by
  have hruns := Law.bounded_steady steady_leads bound
  have ht := h.exchanged_arises hw
  have hu := ht.leads ((Law.obeyed_announce hruns file).of_ok h.announced)
  exact ht.indexed.added hu.indexed h.told htold event

end Reloaded

/-- The two indexes of handlers agree.  In every world that comes up in a session, in the middle of
    a request too, the handlers of a file are the same under each event and under the file, in the
    same order, and no handler is registered twice.  So a reload during which nothing else is
    withdrawn leaves the handlers of other files in their order, and behind them those that were
    registered while the new program ran; what is registered when the reload is announced comes
    last. -/
theorem Arises.handlerIndexes_agree {w : World} (hw : Arises w) {file : String}
    (hfile : file ≠ "") :
    (∀ event, (w.handlers.getD event []).filter (·.file = some file) =
      (w.handlersByFile.getD file []).filter (·.event = event)) ∧
    (w.handlers.values.flatten.map Handler.serial).Nodup ∧
    ∀ bound program u, replace (bounded bound) program file w = .ok () u →
      ∃ v t ran told, Reloaded bound program file w v t u ran told ∧
        (NoneWithdrawn ran → ∀ event, t.handlers.getD event [] =
          (w.handlers.getD event []).filter (·.file ≠ some file) ++
            (registeredIn ran).filter (·.event = event)) ∧
        (NoneWithdrawn told → ∀ event, u.handlers.getD event [] =
          t.handlers.getD event [] ++ (registeredIn told).filter (·.event = event)) := by
  refine ⟨hw.indexed.agree hfile, hw.indexed.nodup, fun bound program u hok => ?_⟩
  obtain ⟨v, t, ran, told, h⟩ := replace_reloaded hok
  exact ⟨v, t, ran, told, h, h.getD_exchanged hw hfile, h.getD_announced hw⟩

/-- A file with a handler that registers another handler when a reload is announced. -/
def watchSource : String := "on \"file:reloaded\":\n  on \"knock\":\n    print(\"late\")\n"

/-- A session in which reloads are watched, and a file has a handler. -/
def watchedSession : World :=
  Session.serve (Session.start {} [])
    [.load watchSource "watch", .load "on \"knock\":\n  print(\"old\")\n" "door"]

/-- The program that the file is reloaded with. -/
def newDoor : Program := Program.compiled "on \"knock\":\n  print(\"new\")\n" "door"

theorem arises_watchedSession : Arises watchedSession := ((Reached.start {} []).serve _).arises

theorem exists_replace_newDoor :
    ∃ u, replace Evaluate.run newDoor "door" watchedSession = .ok () u :=
  ⟨_, Session.perform_of_isOk (by decide +kernel)⟩

/-- While the door is reloaded nothing else is withdrawn, the new program registers a handler for
    its event, and the watcher another one. -/
theorem reloaded_newDoor {v t u : World} {ran told : List RegistryChange}
    (h : Reloaded runBound newDoor "door" watchedSession v t u ran told) :
    NoneWithdrawn ran ∧ NoneWithdrawn told ∧
      (t.handlers.getD "knock" []).length = 1 ∧ (u.handlers.getD "knock" []).length = 2 := by
  have hran : ran =
      t.ledger.take (t.ledger.length - (withdrawn "door" watchedSession).ledger.length) := by
    simp [h.ran]
  have htold : told = u.ledger.take (u.ledger.length - t.ledger.length) := by
    simp [h.told]
  rw [hran, htold, ← Session.perform_of_ok h.announced, ← Session.perform_of_ok h.exchanged]
  decide +kernel

/-- What a handler of the announcement registers is there behind the reload, although it belongs
    neither to another file nor to the new program. -/
theorem newDoor_outlasted_by_watcher :
    ∃ v t u ran told, replace Evaluate.run newDoor "door" watchedSession = .ok () u ∧
      Reloaded runBound newDoor "door" watchedSession v t u ran told ∧
      NoneWithdrawn ran ∧ NoneWithdrawn told ∧
      u.handlers.getD "knock" [] ≠
        (watchedSession.handlers.getD "knock" []).filter (·.file ≠ some "door") ++
          (registeredIn ran).filter (·.event = "knock") := by
  have hw := arises_watchedSession
  obtain ⟨u, hok⟩ := exists_replace_newDoor
  obtain ⟨v, t, ran, told, h⟩ := replace_reloaded hok
  obtain ⟨hran, htold, hexchanged, hannounced⟩ := reloaded_newDoor h
  refine ⟨v, t, u, ran, told, hok, h, hran, htold, fun heq => ?_⟩
  rw [← h.getD_exchanged hw (by decide) hran] at heq
  simp [heq, hexchanged] at hannounced

/-- The door is reloaded: the indexes agree, and its event has the handler of the new program and
    then the watcher's. -/
theorem handlerIndexes_agree_newDoor :
    Arises watchedSession ∧ "door" ≠ "" ∧
    (∀ event, (watchedSession.handlers.getD event []).filter (·.file = some "door") =
      (watchedSession.handlersByFile.getD "door" []).filter (·.event = event)) ∧
    (watchedSession.handlers.values.flatten.map Handler.serial).Nodup ∧
    ∃ v t u ran told, replace Evaluate.run newDoor "door" watchedSession = .ok () u ∧
      Reloaded runBound newDoor "door" watchedSession v t u ran told ∧
      NoneWithdrawn ran ∧ NoneWithdrawn told ∧
      u.handlers.getD "knock" [] =
        (watchedSession.handlers.getD "knock" []).filter (·.file ≠ some "door") ++
          (registeredIn ran).filter (·.event = "knock") ++
            (registeredIn told).filter (·.event = "knock") := by
  have hw := arises_watchedSession
  have hfile : "door" ≠ "" := by decide
  obtain ⟨u, hok⟩ := exists_replace_newDoor
  obtain ⟨hagree, hnodup, hreload⟩ := hw.handlerIndexes_agree hfile
  obtain ⟨v, t, ran, told, h, hexchanged, hannounced⟩ := hreload runBound newDoor _ hok
  obtain ⟨hran, htold, -⟩ := reloaded_newDoor h
  refine ⟨hw, hfile, hagree, hnodup, v, t, u, ran, told, hok, h, hran, htold, ?_⟩
  rw [hannounced htold, hexchanged hran]

end EventScript
