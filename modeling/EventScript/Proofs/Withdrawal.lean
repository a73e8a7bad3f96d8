import EventScript.Proofs.Registry

/-! # Handlers of withdrawn files

A reload withdraws a file first: from then on no handler that was recorded for the file starts
again, whatever happens later.  The exception is the dispatch that is in progress when the file is
withdrawn: it goes through the handlers that were registered when it began.

* `Silenced`                       what the history has since a withdrawal
* `Sound`                          so it is for every withdrawal in the ledger
* `silence`                        the law that keeps a world sound
* `Reached.reload_silences`        what it says about a reload
-/

namespace EventScript

open Evaluate

/-! ## Histories since a withdrawal -/

/-- The dispatch of an event begins or is over. -/
def Happening.isBoundary : Happening → Bool
  | begun _ _ | ended _ => true
  | _ => false

/-- No dispatch begins, and none is over. -/
def WithinDispatch (t : List Happening) : Prop := ∀ x ∈ t, x.isBoundary = false

theorem WithinDispatch.nil : WithinDispatch [] := fun _ hx => nomatch hx

theorem WithinDispatch.append {t u : List Happening} (ht : WithinDispatch t)
    (hu : WithinDispatch u) : WithinDispatch (t ++ u) := fun x hx =>
  (List.mem_append.mp hx).elim (ht x) (hu x)

/-- Of some handlers none starts among happenings, of which the last one comes first, unless events
    are being dispatched: then they start at most in the dispatch that is in progress. -/
def Silenced (handlers : List Handler) (dispatching : Bool) (since : List Happening) : Prop :=
  ∀ h ∈ handlers, ∀ after before, since = after ++ .started h :: before →
    dispatching = true ∧ WithinDispatch before

theorem Silenced.nil (handlers : List Handler) (dispatching : Bool) :
    Silenced handlers dispatching [] := fun h _ after before heq => by simp at heq

/-- One more happening leaves handlers silenced, if it starts none of them that may not start. -/
theorem Silenced.cons {handlers : List Handler} {dispatching : Bool} {since : List Happening}
    (hsince : Silenced handlers dispatching since) {x : Happening}
    (hx : ∀ h ∈ handlers, x = .started h → dispatching = true ∧ WithinDispatch since) :
    Silenced handlers dispatching (x :: since) := by
  intro h hh after before heq
  cases after with
  | nil =>
    obtain ⟨rfl, rfl⟩ := List.cons.inj heq
    exact hx h hh rfl
  | cons y rest => exact hsince h hh rest before (List.cons.inj heq).2

/-- The handlers that were registered and recorded for a file. -/
def recordedFor (file : String) (ledger : List RegistryChange) : List Handler :=
  (registeredIn ledger).filter (·.owner? = some file)

/-- A handler that is still registered is recorded for no file that was withdrawn later. -/
theorem Indexed.not_recordedFor {w : World} (hw : Indexed w) {h : Handler}
    (hh : h ∈ standing w.ledger) {file : String} {dispatching : Bool} {past : List Happening}
    {earlier : List RegistryChange}
    (hsuffix : .withdrawn file dispatching past :: earlier <:+ w.ledger) :
    h ∉ recordedFor file earlier := by
  obtain ⟨later, hledger⟩ := hsuffix
  intro hrecorded
  obtain ⟨hregistered, howner⟩ := List.mem_filter.mp hrecorded
  have hascending := hw.ascending
  rw [← hledger] at hh hascending
  rw [registeredIn_append, List.pairwise_append] at hascending
  -- it is not registered again after the withdrawal, since no serial number is given out twice
  have hnew : h ∉ registeredIn later := fun hlater =>
    Nat.lt_irrefl _ (hascending.2.2 h hregistered h hlater)
  rcases mem_standing_append hh with hstanding | hlater
  · simp only [standing, List.mem_filter, decide_eq_true_eq] at hstanding
    exact hstanding.2 (of_decide_eq_true howner)
  · exact hnew hlater

/-! ## Sound worlds -/

/-- Since each withdrawal the handlers that were recorded for the file are silenced. -/
structure Sound (w : World) : Prop where
  indexed : Indexed w
  silenced : ∀ {file dispatching past earlier},
    .withdrawn file dispatching past :: earlier <:+ w.ledger →
      ∃ since, w.history = since ++ past ∧ Silenced (recordedFor file earlier) dispatching since

/-- A handler may start: where it is recorded for a file that was withdrawn since, that was in the
    dispatch that is in progress. -/
def MayStart (h : Handler) (w : World) : Prop :=
  ∀ {file dispatching past earlier}, .withdrawn file dispatching past :: earlier <:+ w.ledger →
    h ∈ recordedFor file earlier →
      dispatching = true ∧ ∃ since, w.history = since ++ past ∧ WithinDispatch since

namespace Sound

variable {v w : World}

theorem congr (hv : Sound v) (h : SameRegistry v w) (hhistory : w.history = v.history) :
    Sound w := by
  refine ⟨hv.indexed.congr h, fun hsuffix => ?_⟩
  rw [h.ledger] at hsuffix
  rw [hhistory]
  exact hv.silenced hsuffix

theorem change (hv : Sound v) (h : Change v w) : Sound w := by
  rcases h.registry with ⟨event, condition, body, scope, rfl⟩ | ⟨file, rfl⟩ | hsame
  · refine ⟨hv.indexed.withHandler event condition body scope, fun hsuffix => ?_⟩
    rcases List.suffix_cons_iff.mp hsuffix with heq | hsuffix
    · cases heq
    · exact hv.silenced hsuffix
  · refine ⟨hv.indexed.dropHandlers file, fun hsuffix => ?_⟩
    rcases List.suffix_cons_iff.mp hsuffix with heq | hsuffix
    · -- nothing has happened since this very withdrawal
      cases heq
      exact ⟨[], rfl, .nil _ _⟩
    · exact hv.silenced hsuffix
  · exact hv.congr hsame h.sameMoment.history

theorem record (hw : Sound w) {x : Happening} (hx : ∀ h, x = .started h → MayStart h w) :
    Sound (w.record x) := by
  refine ⟨hw.indexed.congr ⟨rfl, rfl, rfl, rfl⟩, fun hsuffix => ?_⟩
  obtain ⟨since, hhistory, hsince⟩ := hw.silenced hsuffix
  refine ⟨x :: since, congrArg (x :: ·) hhistory, hsince.cons fun h hh hstarted => ?_⟩
  obtain ⟨hdispatching, since', hhistory', hwithin⟩ := hx h hstarted hsuffix hh
  -- the history since a withdrawal is determined by what it was then
  obtain rfl : since = since' := List.append_cancel_right (hhistory.symm.trans hhistory')
  exact ⟨hdispatching, hwithin⟩

end Sound

/-! ## In the dispatch in progress -/

/-- One world comes out of another in the dispatch that is in progress there. -/
structure Meanwhile (v w : World) : Prop where
  history : ∃ t, w.history = t ++ v.history ∧ WithinDispatch t
  withdrawn : ∀ {file dispatching past earlier},
    .withdrawn file dispatching past :: earlier <:+ w.ledger →
      .withdrawn file dispatching past :: earlier <:+ v.ledger ∨
        (dispatching = true ∧ ∃ t, w.history = t ++ past ∧ WithinDispatch t)

namespace Meanwhile

variable {u v w : World}

theorem of_same (hledger : w.ledger = v.ledger) (hhistory : w.history = v.history) :
    Meanwhile v w :=
  ⟨⟨[], hhistory, .nil⟩, fun hsuffix => .inl (hledger ▸ hsuffix)⟩

theorem trans (huv : Meanwhile u v) (hvw : Meanwhile v w) : Meanwhile u w := by
  obtain ⟨t, ht, htwithin⟩ := huv.history
  obtain ⟨t', ht', htwithin'⟩ := hvw.history
  refine ⟨⟨t' ++ t, by rw [ht', ht, List.append_assoc], htwithin'.append htwithin⟩,
    fun hsuffix => ?_⟩
  -- a withdrawal was made after the second world, between the two, or before the first
  rcases hvw.withdrawn hsuffix with hsuffix | hlater
  · rcases huv.withdrawn hsuffix with hsuffix | ⟨hdispatching, s, hs, hswithin⟩
    · exact .inl hsuffix
    · exact .inr ⟨hdispatching, t' ++ s, by rw [ht', hs, List.append_assoc],
        htwithin'.append hswithin⟩
  · exact .inr hlater

theorem record (w : World) {x : Happening} (hx : x.isBoundary = false) :
    Meanwhile w (w.record x) :=
  ⟨⟨[x], rfl, by simpa [WithinDispatch] using hx⟩, .inl⟩

theorem change (hprocessing : v.processing = true) (h : Change v w) : Meanwhile v w := by
  refine ⟨⟨[], h.sameMoment.history, .nil⟩, fun hsuffix => ?_⟩
  rcases h.registry with ⟨event, condition, body, scope, rfl⟩ | ⟨file, rfl⟩ | hsame
  · rcases List.suffix_cons_iff.mp hsuffix with heq | hsuffix
    · cases heq
    · exact .inl hsuffix
  · rcases List.suffix_cons_iff.mp hsuffix with heq | hsuffix
    · cases heq
      exact .inr ⟨hprocessing, [], rfl, .nil⟩
    · exact .inl hsuffix
  · exact .inl (hsame.ledger ▸ hsuffix)

/-- A handler that was registered when the dispatch began may start in it. -/
theorem mayStart (hv : Indexed v) {h : Handler} (hh : h ∈ standing v.ledger)
    (hvw : Meanwhile v w) : MayStart h w := fun hsuffix hrecorded =>
  (hvw.withdrawn hsuffix).resolve_left fun hearlier => hv.not_recordedFor hh hearlier hrecorded

end Meanwhile

/-! ## The law of silence -/

/-- A computation leaves a sound world sound, and does not leave the dispatch in progress. -/
def Quiet (v w : World) : Prop :=
  Sound v → Sound w ∧ w.processing = v.processing ∧ (v.processing = true → Meanwhile v w)

namespace Quiet

variable {u v w : World}

theorem of_same (h : SameRegistry v w) (hhistory : w.history = v.history)
    (hprocessing : w.processing = v.processing) : Quiet v w := fun hv =>
  ⟨hv.congr h hhistory, hprocessing, fun _ => .of_same h.ledger hhistory⟩

theorem trans (huv : Quiet u v) (hvw : Quiet v w) : Quiet u w := by
  intro hu
  obtain ⟨hv, hprocessing, huv⟩ := huv hu
  obtain ⟨hw, hprocessing', hvw⟩ := hvw hv
  exact ⟨hw, hprocessing'.trans hprocessing,
    fun hp => (huv hp).trans (hvw (hprocessing.trans hp))⟩

theorem change (h : Change v w) : Quiet v w := fun hv =>
  ⟨hv.change h, h.sameMoment.processing, fun hp => .change hp h⟩

theorem record (w : World) {x : Happening} (hboundary : x.isBoundary = false)
    (hstarted : ∀ h, x ≠ .started h) : Quiet w (w.record x) := fun hw =>
  ⟨hw.record fun h hx => absurd hx (hstarted h), rfl, fun _ => .record w hboundary⟩

theorem enqueue (e : QueuedEvent) (w : World) : Quiet w (enqueue e w) :=
  (record w (x := .emitted e) rfl fun _ h => nomatch h).trans
    (of_same ⟨rfl, rfl, rfl, rfl⟩ rfl rfl)

theorem executing {file : Option String} (h : Quiet { v with currentFile := file } w) :
    Quiet v { w with currentFile := v.currentFile } := by
  have hbegin : Quiet v { v with currentFile := file } := of_same ⟨rfl, rfl, rfl, rfl⟩ rfl rfl
  have hend : Quiet w { w with currentFile := v.currentFile } :=
    of_same ⟨rfl, rfl, rfl, rfl⟩ rfl rfl
  exact hbegin.trans (h.trans hend)

theorem calling (h : Quiet { v with callDepth := v.callDepth + 1 } w) :
    Quiet v { w with callDepth := w.callDepth - 1 } := by
  have hbegin : Quiet v { v with callDepth := v.callDepth + 1 } :=
    of_same ⟨rfl, rfl, rfl, rfl⟩ rfl rfl
  have hend : Quiet w { w with callDepth := w.callDepth - 1 } :=
    of_same ⟨rfl, rfl, rfl, rfl⟩ rfl rfl
  exact hbegin.trans (h.trans hend)

end Quiet

/-- Events are being dispatched in a sound world. -/
structure Busy (w : World) : Prop where
  sound : Sound w
  processing : w.processing = true

/-- Behind a dispatch of the queue, finished or not, the world is sound, and in the end nothing is
    dispatched any more. -/
theorem Quiet.processed {v w : World} {e : QueuedEvent} {queue : List QueuedEvent}
    (hp : v.processing = false)
    (h : Busy { Evaluate.enqueue e v with processing := true } → Busy w) :
    Quiet v { w with queue := queue, processing := false } := by
  intro hv
  have hwaiting := (Quiet.enqueue e v hv).1
  have hw := h ⟨hwaiting.congr ⟨rfl, rfl, rfl, rfl⟩ rfl, rfl⟩
  refine ⟨hw.sound.congr ⟨rfl, rfl, rfl, rfl⟩ rfl, hp.symm, fun hp' => ?_⟩
  simp [hp] at hp'

/-- The law of silence: it is the same for computations that fail. -/
def silence : Law where
  done := Quiet
  failed _ := Quiet
  drained v w := Busy v → Busy w
  cut _ v w := Busy v → Busy w
  refl _ := .of_same ⟨rfl, rfl, rfl, rfl⟩ rfl rfl
  trans := .trans
  failed_of_done _ h := h
  trans_failed := .trans
  reported h := h
  change h _ _ := .change h
  executing := .executing
  executing_failed := .executing
  calling := .calling
  calling_failed := .calling
  waiting e _ := .enqueue e _
  processed _ hp h := .processed hp h
  processed_failed _ hp h := .processed hp h

instance : silence.Open := ⟨fun _ => trivial⟩

/-! ## Dispatching -/

/-- The world stands in the dispatch that began in another one. -/
structure InTurn (v w : World) : Prop extends Busy w where
  meanwhile : Meanwhile v w

theorem preserves_of_obeyed {α : Type} {act : Eval α} (hact : silence.Obeyed act) (v : World) :
    Law.Preserves (InTurn v) act := by
  -- both outcomes are related in the same way
  have hkept : ∀ {u w}, Quiet u w → InTurn v u → InTurn v w := fun huw hu => by
    obtain ⟨hw, hprocessing, hmeanwhile⟩ := huw hu.sound
    exact ⟨⟨hw, hprocessing.trans hu.processing⟩, hu.meanwhile.trans (hmeanwhile hu.processing)⟩
  intro u
  have h := hact u
  cases ha : act u with
  | ok a w => rw [ha] at h; exact hkept h
  | error e w => rw [ha] at h; exact hkept h

/-- The body of a handler that was registered when the dispatch began may start. -/
theorem preserves_started {v : World} (hv : Indexed v) {h : Handler}
    (hh : h ∈ standing v.ledger) :
    Law.Preserves (InTurn v) (Eval.record (.started h)) := fun w hw =>
  ⟨⟨hw.sound.record fun _ heq => Happening.started.inj heq ▸ hw.meanwhile.mayStart hv hh,
    hw.processing⟩, hw.meanwhile.trans (.record w rfl)⟩

section Dispatching

variable {run : Runner} (hrun : silence.Runs run)

include hrun

theorem preserves_handle {v : World} (hv : Indexed v) (data : MapRef) {h : Handler}
    (hh : h ∈ standing v.ledger) : Law.Preserves (InTurn v) (handle run data h) := by
  have hguard := Law.obeyed_guardHolds hrun (.of_forall Law.Open.code h) data
  refine Law.preserves_bind (preserves_of_obeyed hguard v) fun holds => ?_
  have hjudged : silence.Obeyed (Eval.record (.judged h holds)) := fun w =>
    .record w rfl fun _ h => nomatch h
  refine Law.preserves_bind (preserves_of_obeyed hjudged v) fun _ => ?_
  split
  · refine Law.preserves_bind (preserves_started hv hh) fun _ => preserves_of_obeyed ?_ v
    exact Law.obeyed_handlerBody hrun (.of_forall Law.Open.code h) data
  · exact preserves_of_obeyed (Law.obeyed_pure _) v

theorem preserves_handleAll {v : World} (hv : Indexed v) (data : MapRef) {hs : List Handler}
    (hhs : ∀ h ∈ hs, h ∈ standing v.ledger) : Law.Preserves (InTurn v) (handleAll run data hs) := by
  induction hs with
  | nil => exact preserves_of_obeyed (Law.obeyed_pure _) v
  | cons h rest ih =>
    exact Law.preserves_bind (preserves_handle hrun hv data (hhs h List.mem_cons_self)) fun _ =>
      ih fun h hh => hhs h (List.mem_cons_of_mem _ hh)

theorem preserves_deliver {v : World} (hv : Indexed v) (e : QueuedEvent) {hs : List Handler}
    (hhs : ∀ h ∈ hs, h ∈ standing v.ledger) : Law.Preserves (InTurn v) (deliver run e hs) := by
  refine Law.preserves_bind (preserves_of_obeyed (Law.obeyed_listenersFor _) v) fun _ => ?_
  refine Law.preserves_bind (preserves_of_obeyed (Law.obeyed_tellAll hrun _ _) v) fun _ => ?_
  refine Law.preserves_bind (preserves_of_obeyed (Law.obeyed_listenersFor _) v) fun _ => ?_
  refine Law.preserves_bind (preserves_of_obeyed (Law.obeyed_tellEach hrun _ _ _) v) fun _ => ?_
  exact preserves_handleAll hrun hv e.data hhs

/-- A dispatch goes through handlers that are registered when it begins. -/
theorem preserves_dispatch (e : QueuedEvent) : Law.Preserves Busy (dispatch run e) := by
  intro w
  -- the dispatch begins in this world, and its handlers are those that stand there
  let v := w.record (.begun e w.handlers)
  rw [dispatch_eq]
  have hdeliver : Busy w →
      Law.Preserves (InTurn v) (deliver run e (w.handlers.getD e.name [])) := by
    intro hw
    have hv : Indexed v := hw.sound.indexed.congr ⟨rfl, rfl, rfl, rfl⟩
    refine preserves_deliver hrun hv e fun h hh => ?_
    rw [hw.sound.indexed.byEvent] at hh
    exact (List.mem_filter.mp hh).1
  have hbegun : Busy w → InTurn v v := fun hw =>
    ⟨⟨hw.sound.record (fun _ h => nomatch h), hw.processing⟩, .of_same rfl rfl⟩
  cases hd : deliver run e (w.handlers.getD e.name []) v with
  | error f u =>
    rw [Eval.run_bind_of_error hd]
    intro hw
    have h := hdeliver hw v
    rw [hd] at h
    exact (h (hbegun hw)).toBusy
  | ok a u =>
    rw [Eval.run_bind_of_ok hd]
    intro hw
    have h := hdeliver hw v
    rw [hd] at h
    have hu := (h (hbegun hw)).toBusy
    exact ⟨hu.sound.record (fun _ h => nomatch h), hu.processing⟩

theorem preserves_drain : Law.Preserves Busy (drain run) := by
  refine Law.preserves_bind (fun w hw => hw) fun w => ?_
  split
  · exact fun w hw => hw
  · refine Law.preserves_bind (fun w hw => ?_) fun _ => ?_
    · exact ⟨hw.sound.congr ⟨rfl, rfl, rfl, rfl⟩ rfl, hw.processing⟩
    · exact Law.preserves_bind (preserves_dispatch hrun _) fun _ => hrun.drain

end Dispatching

/-- Runs follow the law of silence. -/
theorem runs_silence : silence.Runs Evaluate.run :=
  Law.runs_run ⟨fun _ => .of_same ⟨rfl, rfl, rfl, rfl⟩ rfl rfl, fun _ h => h⟩
    fun _ hrun => preserves_drain hrun

theorem Reached.sound {w : World} (hw : Reached w) : Sound w := by
  refine Reached.of_law runs_silence (fun settings hostFunctions => ⟨?_, fun hsuffix => ?_⟩)
    (fun h hv => (h hv).1) (fun h hv => (h hv).1) hw
  · exact Arises.indexed ⟨settings, hostFunctions, .same rfl⟩
  · exact absurd (List.suffix_nil.mp hsuffix) (List.cons_ne_nil _ _)

/-! ## Reloads -/

/-- A reload of a known file withdraws the file when nothing else has happened yet. -/
theorem reload_withdraws {bound : Nat} {source file : String} {v u : World}
    (hknown : v.sources.contains file = true)
    (hok : reload (bounded bound) source file v = .ok () u) :
    .withdrawn file v.processing v.history :: v.ledger <:+ u.ledger := by
  cases hcompile : Program.compile source (some file) with
  | error d =>
    rw [reload_of_refused _ hknown hcompile] at hok
    cases hok
  | ok program =>
    rw [reload_of_compiled _ hknown hcompile] at hok
    obtain ⟨_, _, ran, told, h⟩ := replace_reloaded hok
    refine ⟨told ++ ran, ?_⟩
    rw [h.told, h.ran, ledger_withdrawn, List.append_assoc]
    rfl

/-- No stale handlers after a reload.  A handler that was registered before the reload of a file,
    and while that file was being executed, never starts again, unless the reload is made in a
    dispatch, and then not after that dispatch. -/
theorem Reached.reload_silences {bound : Nat} {source file : String} {v u w : World}
    (hfile : file ≠ "") (hknown : v.sources.contains file = true)
    (hok : reload (bounded bound) source file v = .ok () u) (hlater : Leads u w)
    (hw : Reached w) :
    ∃ since, w.history = since ++ v.history ∧
      ∀ h ∈ registeredIn v.ledger, h.file = some file → ∀ after before,
        since = after ++ .started h :: before → v.processing = true ∧ WithinDispatch before := by
  have hsuffix := (reload_withdraws hknown hok).trans (hlater.of_steady steady_ledger)
  obtain ⟨since, hhistory, hsince⟩ := hw.sound.silenced hsuffix
  refine ⟨since, hhistory, fun h hh hrecorded => hsince h (List.mem_filter.mpr ⟨hh, ?_⟩)⟩
  exact decide_eq_true ((Handler.owner?_eq_some hfile).mpr hrecorded)

/-- A file with a handler. -/
def knockSource (answer : String) : String := "on \"knock\":\n  print(\"" ++ answer ++ "\")\n"

/-- A session in which a handler has answered. -/
def answered : World :=
  Session.serve (Session.start {} [])
    [.load (knockSource "old") "door", .emit (.text "knock") .null]

/-- The file of the handler is reloaded, and its event emitted again: the new handler answers, and
    the old one does not start. -/
theorem reload_silences_answered :
    ∃ u w, answered.sources.contains "door" = true ∧
      reload (bounded runBound) (knockSource "new") "door" answered = .ok () u ∧
      w = Session.serve u [.emit (.text "knock") .null] ∧ Leads u w ∧ Reached w ∧
      (registeredIn answered.ledger).map Handler.file = [some "door"] ∧
      answered.processing = false ∧ w.output = "old\nnew\n" ∧
      ∃ since, w.history = since ++ answered.history ∧
        ∀ h ∈ registeredIn answered.ledger, h.file = some "door" → ∀ after before,
          since = after ++ .started h :: before →
            answered.processing = true ∧ WithinDispatch before := by
  let act := Session.reload (knockSource "new") "door"
  let u := (Session.perform act answered).2
  let w := Session.serve u [.emit (.text "knock") .null]
  obtain ⟨hknown, hok, hfile, hidle, houtput⟩ : answered.sources.contains "door" = true ∧
      (Session.perform act answered).1.isOk = true ∧
      (registeredIn answered.ledger).map Handler.file = [some "door"] ∧
      answered.processing = false ∧ w.output = "old\nnew\n" := by decide +kernel
  have hreload : reload (bounded runBound) (knockSource "new") "door" answered = .ok () u :=
    Session.perform_of_isOk hok
  have hw : Reached w :=
    (Reached.start {} []).serve [.load (knockSource "old") "door", .emit (.text "knock") .null,
      .reload (knockSource "new") "door", .emit (.text "knock") .null]
  have hlater : Leads u w := .serve u _
  exact ⟨u, w, hknown, hreload, rfl, hlater, hw, hfile, hidle, houtput,
    hw.reload_silences (by decide) hknown hreload hlater⟩

/-! ### Handlers that start all the same -/

/-- The handler whose body starts. -/
def Happening.started? : Happening → Option Handler
  | started h => some h
  | _ => none

/-- What happened since the last reload was announced, the last happening first. -/
def World.sinceReload (w : World) : List Happening :=
  w.history.takeWhile fun x => x.emitted?.map (·.name) ≠ some reloadEvent

/-- These are the sources of the files, and a handler starts after the last reload. -/
def World.StartsAmong (w : World) (sources : List (String × String)) : Prop :=
  w.sources.entries = sources ∧ (w.sinceReload.filterMap Happening.started?).isEmpty = false

instance (w : World) (sources : List (String × String)) : Decidable (w.StartsAmong sources) :=
  inferInstanceAs (Decidable (_ ∧ _))

/-- A session in which another file makes a function of the reloaded file register a handler. -/
def armedFromHall : World :=
  Session.serve (Session.start {} [])
    [.load "fn arm():\n  on \"knock\":\n    print(\"old\")\n" "door", .load "arm()\n" "hall",
      .reload "let locked = 1\n" "door", .emit (.text "knock") .null]

/-- A session in which a handler of the reloaded file registers another one. -/
def armedByHandler : World :=
  Session.serve (Session.start {} [])
    [.load "on \"arm\":\n  on \"knock\":\n    print(\"old\")\n" "door",
      .emit (.text "arm") .null, .reload "let locked = 1\n" "door", .emit (.text "knock") .null]

/-- A session in which a function of the old program registers a handler after the reload. -/
def armedAfterwards : World :=
  Session.serve (Session.start {} [])
    [.load "fn arm():\n  on \"knock\":\n    print(\"old\")\n" "door",
      .load "let keep = arm\n" "hall", .reload "keep()\n" "door", .emit (.text "knock") .null]

/-- A session in which a listener reloads a file while one of its handlers waits for its turn. -/
def reloadedMeanwhile : World :=
  Session.serve (Session.start {} [])
    [.load (knockSource "old") "door",
      .newListener fun _ => .reload "let locked = 1\n" "door" (.done .null),
      .subscribe "knock" ⟨0⟩, .emit (.text "knock") .null]

/-- A session in which a file without a name is reloaded. -/
def reloadedNameless : World :=
  Session.serve (Session.start {} [])
    [.load (knockSource "old") "", .reload "let locked = 1\n" "", .emit (.text "knock") .null]

/-- Handlers that are not recorded for the file, or are registered after the reload, or are about to
    have their turn, or belong to a file without a name, start after the reload although no source
    has them any more. -/
theorem stale_handlers_start :
    (Reached armedFromHall ∧
      armedFromHall.StartsAmong [("door", "let locked = 1\n"), ("hall", "arm()\n")]) ∧
    (Reached armedByHandler ∧ armedByHandler.StartsAmong [("door", "let locked = 1\n")]) ∧
    (Reached armedAfterwards ∧
      armedAfterwards.StartsAmong [("door", "keep()\n"), ("hall", "let keep = arm\n")]) ∧
    (Reached reloadedMeanwhile ∧ reloadedMeanwhile.StartsAmong [("door", "let locked = 1\n")]) ∧
    (Reached reloadedNameless ∧ reloadedNameless.StartsAmong [("", "let locked = 1\n")]) := by
  have hreached : ∀ rs, Reached (Session.serve (Session.start {} []) rs) :=
    (Reached.start {} []).serve
  exact ⟨⟨hreached _, by decide +kernel⟩, ⟨hreached _, by decide +kernel⟩,
    ⟨hreached _, by decide +kernel⟩, ⟨hreached _, by decide +kernel⟩,
    ⟨hreached _, by decide +kernel⟩⟩

end EventScript
