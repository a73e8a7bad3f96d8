import EventScript.Proofs.Law.Execution

/-! # Reached worlds

A session starts with its globals bound, and after that the host makes one request after the other.
A `Reached` world is one that stands between two requests, whether those before it succeeded or not.

* `obeyed_request`      every request obeys every law
* `Reached.of_law`      what a law carries over a request holds of every reached world
-/

namespace EventScript

open Evaluate

/-- What a host asks of a session from the outside. -/
inductive Request
  | execute (program : Program) (file : Option String)
  | load (source file : String)
  | loadAll (sources : List (String × String))
  | reload (source file : String)
  | loadFile (files : Files) (path : String)
  | reloadFile (files : Files) (path : String)
  | emit (event data : Value)
  | tick (dt : Value)
  | call (f : Value) (args : List Value)
  | set (name : String) (v : Value)
  | build (d : Datum)
  | newListener (listener : Listener)
  | subscribe (event : String) (listener : ListenerRef)
  | unsubscribe (event : String) (listener : ListenerRef)

/-- The computation of a request. -/
def Request.act : Request → Eval Unit
  | execute program file => Session.execute program file
  | load source file => Session.load source file
  | loadAll sources => Session.loadAll sources
  | reload source file => Session.reload source file
  | loadFile files path => Session.loadFile files path
  | reloadFile files path => Session.reloadFile files path
  | emit event data => Session.emit event data
  | tick dt => Session.tick dt
  | call f args => discard (Session.call f args)
  | set name v => Session.set name v
  | build d => discard (Session.build d)
  | newListener listener => discard (Session.newListener listener)
  | subscribe event listener => Session.subscribe event listener
  | unsubscribe event listener => Session.unsubscribe event listener

/-- The code that a request brings along is of some kind; sources are read only later. -/
def Request.CodeIn (C : Node → Prop) : Request → Prop
  | execute program _ => ∀ s ∈ program.body, C (.stmt s)
  | _ => True

theorem Request.CodeIn.of_forall {C : Node → Prop} (h : ∀ x, C x) (r : Request) : r.CodeIn C := by
  cases r <;> simp [CodeIn, h]

/-- The worlds of a session between two requests. -/
inductive Reached : World → Prop
  | start (settings : Settings) (hostFunctions : List (String × HostFunction)) :
    Reached (Session.start settings hostFunctions)
  | request {w : World} (hw : Reached w) (r : Request) : Reached (Session.perform r.act w).2

/-- The world behind requests that are made one after the other. -/
def Session.serve (w : World) (rs : List Request) : World :=
  rs.foldl (fun w r => (Session.perform r.act w).2) w

theorem Reached.serve {w : World} (hw : Reached w) (rs : List Request) :
    Reached (Session.serve w rs) := by
  induction rs generalizing w with
  | nil => exact hw
  | cons r rest ih => exact ih (hw.request r)

/-- Whether a computation succeeds can be tested. -/
theorem Session.perform_of_isOk {act : Eval Unit} {w : World}
    (h : (Session.perform act w).1.isOk = true) : act w = .ok () (Session.perform act w).2 := by
  unfold Session.perform at h ⊢
  cases ha : act w with
  | ok a v => rfl
  | error e v => simp [ha, Except.isOk, Except.toBool] at h

theorem Session.perform_of_not_isOk {act : Eval Unit} {w : World}
    (h : (Session.perform act w).1.isOk = false) :
    ∃ e, act w = .error e (Session.perform act w).2 := by
  unfold Session.perform at h ⊢
  cases ha : act w with
  | ok a v => simp [ha, Except.isOk, Except.toBool] at h
  | error e v => exact ⟨e, rfl⟩

theorem Session.perform_of_ok {α : Type} {act : Eval α} {v w : World} {a : α}
    (h : act w = .ok a v) : (Session.perform act w).2 = v := by
  unfold Session.perform
  rw [h]

/-- The program of a source that compiles. -/
def Program.compiled (source file : String) : Program :=
  (Program.compile source (some file)).toOption.getD ⟨default, [], []⟩

theorem Program.compile_of_isOk {source file : String}
    (h : (Program.compile source (some file)).isOk = true) :
    Program.compile source (some file) = .ok (Program.compiled source file) := by
  unfold Program.compiled
  cases hc : Program.compile source (some file) with
  | ok program => rfl
  | error d => simp [hc, Except.isOk, Except.toBool] at h

namespace Law

variable {α : Type} {L : Law}

@[grind ←]
theorem obeyed_discard {act : Eval α} (hact : L.Obeyed act) : L.Obeyed (discard act) :=
  obeyed_map _ hact

/-! ## The start of a session -/

theorem obeyed_bindGlobals : L.Obeyed Library.bindGlobals :=
  obeyed_bind (obeyed_quiet fun _ => work_namespaces) fun _ =>
    obeyed_bind (obeyed_newScope _ _) fun _ => obeyed_pure _

/-! ## Requests -/

variable (hrun : L.Runs Evaluate.run)

include hrun

theorem obeyed_loadAll (sources : List (String × String)) :
    L.Obeyed (Session.loadAll sources) := by
  induction sources with
  | nil => exact obeyed_pure _
  | cons entry rest ih => exact obeyed_bind (obeyed_load hrun _ _) fun _ => ih

theorem obeyed_sessionCall (f : Value) (args : List Value) :
    L.Obeyed (Session.call f args) := by
  unfold Session.call
  split
  · exact hrun.call _ args none
  · exact obeyed_bind (obeyed_read _) fun name => obeyed_callNative hrun _ args name none
  · exact obeyed_problem _ _

/-- Every request obeys every law that runs obey, if the code that it brings along may run. -/
theorem obeyed_request {r : Request} (hr : r.CodeIn L.code) : L.Obeyed r.act := by
  cases r with
  | execute program file => exact obeyed_execute hrun hr file
  | load source file => exact obeyed_load hrun source file
  | loadAll sources => exact obeyed_loadAll hrun sources
  | reload source file => exact obeyed_reload hrun source file
  | loadFile files path =>
    exact obeyed_bind (obeyed_ofExcept _) fun source => obeyed_load hrun source _
  | reloadFile files path =>
    exact obeyed_bind (obeyed_ofExcept _) fun source => obeyed_reload hrun source _
  | emit event data => exact obeyed_emitValues hrun event data
  | tick dt => exact obeyed_bind (obeyed_newMap _) fun data => obeyed_emit hrun _ data
  | call f args => exact obeyed_discard (obeyed_sessionCall hrun f args)
  | set name v => exact obeyed_define (L.outermost name) v
  | build d => exact obeyed_discard (obeyed_build d)
  | newListener listener =>
    exact obeyed_discard (obeyed_bind (obeyed_read _) fun _ =>
      obeyed_bind
        (obeyed_modifyStore (fun _ => .listenerMade listener)
          (fun _ h => h.congr rfl rfl rfl rfl) fun _ => .of_scopes rfl)
        fun _ => obeyed_pure _)
  | subscribe event listener =>
    exact obeyed_modify (fun _ => .subscribed event listener) (fun _ h => h.congr rfl rfl rfl rfl)
      fun _ => .of_scopes rfl
  | unsubscribe event listener =>
    exact obeyed_modify (fun _ => .unsubscribed event listener)
      (fun _ h => h.unsubscribe event listener)
      fun w => .of_store (store_unsubscribe event listener w)

/-- Every request obeys every law about code of all kinds that runs obey. -/
theorem obeyed_act [L.Open] (r : Request) : L.Obeyed r.act :=
  obeyed_request hrun (.of_forall Open.code r)

end Law

/-- Carrying out a computation ends in one of its two worlds, so it keeps what a law carries over
    both. -/
theorem Law.Obeyed.perform {α : Type} {L : Law} {act : Eval α} (hact : L.Obeyed act)
    {P : World → Prop} (hdone : ∀ {v w}, L.done v w → P v → P w)
    (hfailed : ∀ {e v w}, L.failed e v w → P v → P w) {v : World} (hv : P v) :
    P (Session.perform act v).2 := by
  have h := hact v
  unfold Session.perform
  cases ha : act v with
  | ok a u => rw [ha] at h; exact hdone h hv
  | error e u => rw [ha] at h; exact hfailed h hv

/-- A property that a law carries over every computation, whether it fails or not, holds of every
    reached world as soon as it holds before the globals are bound. -/
theorem Reached.of_law {L : Law} [L.Open] (hrun : L.Runs Evaluate.run) {P : World → Prop}
    (hbare : ∀ settings hostFunctions, P (Session.bareWorld settings hostFunctions))
    (hdone : ∀ {v w}, L.done v w → P v → P w)
    (hfailed : ∀ {e v w}, L.failed e v w → P v → P w) {w : World} (hw : Reached w) : P w := by
  induction hw with
  | start settings hostFunctions => exact Law.obeyed_bindGlobals.perform hdone hfailed (hbare _ _)
  | request hw r ih => exact (Law.obeyed_act hrun r).perform hdone hfailed ih

end EventScript
