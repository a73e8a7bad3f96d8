import EventScript.Proofs.Reached

/-! # Delivery of events

The history of a world says what happened to its events.  Between two requests nothing waits, and
what a request adds to the history is a chain of dispatches: every event that is put into the queue
is dispatched once, the events are dispatched in the order in which they were put there, and one
dispatch is over before the next one begins.  In a dispatch exactly the handlers have their turns
that were registered for the event when it began, in the order of their registration.

* `Turns`, `Dispatches`        what may happen in a dispatch, and while a queue is dispatched
* `delivery`                   the law of delivery
* `request_delivers_events`    what every request of a session adds to the history
-/

namespace EventScript

open Evaluate

/-! ## Histories -/

/-- The event that is put into the queue. -/
def Happening.emitted? : Happening → Option QueuedEvent
  | emitted e => some e
  | _ => none

/-- The event whose dispatch begins. -/
def Happening.begun? : Happening → Option QueuedEvent
  | begun e _ => some e
  | _ => none

/-- The events that are put into the queue, in order. -/
def emittedIn (t : List Happening) : List QueuedEvent := t.filterMap Happening.emitted?

/-- The events that are dispatched, in order. -/
def begunIn (t : List Happening) : List QueuedEvent := t.filterMap Happening.begun?

/-- Under every name there are handlers of that event, in the order of their registration. -/
def InOrder (registry : Table String (List Handler)) : Prop :=
  ∀ name, (∀ h ∈ registry.getD name [], h.event = name) ∧
    (registry.getD name []).Pairwise (·.serial < ·.serial)

/-- What happens while handlers have their turns: one after the other is judged, the body of one
    that has no guard or whose guard holds is started once, and events may be put into the queue
    meanwhile. -/
inductive Turns : List Handler → List Happening → Prop
  | nil : Turns [] []
  | emitted (e : QueuedEvent) {hs : List Handler} {t : List Happening} (ht : Turns hs t) :
    Turns hs (.emitted e :: t)
  | passed {h : Handler} {hs : List Handler} {t : List Happening} (hguard : h.condition ≠ none)
      (ht : Turns hs t) : Turns (h :: hs) (.judged h false :: t)
  | ran {h : Handler} {hs : List Handler} {t : List Happening} (ht : Turns hs t) :
    Turns (h :: hs) (.judged h true :: .started h :: t)

/-- Whole dispatches one after the other, and events that are put into the queue between them. -/
inductive Dispatches : List Happening → Prop
  | nil : Dispatches []
  | emitted (e : QueuedEvent) {t : List Happening} (ht : Dispatches t) :
    Dispatches (.emitted e :: t)
  | dispatched {e : QueuedEvent} {registry : Table String (List Handler)} {turns t : List Happening}
      (horder : InOrder registry) (hturns : Turns (registry.getD e.name []) turns)
      (ht : Dispatches t) : Dispatches (.begun e registry :: (turns ++ .ended e :: t))

/-- Whole dispatches, and one more that stops after the turns of some of its handlers. -/
def CutOff (t : List Happening) : Prop :=
  ∃ whole e registry hs turns, t = whole ++ .begun e registry :: turns ∧ Dispatches whole ∧
    InOrder registry ∧ hs <+: registry.getD e.name [] ∧ Turns hs turns

/-- What a request has done when it fails: every event is delivered, or the dispatch of one fails
    and those behind it are not dispatched, or the steps of the run are used up. -/
def Stopped (e : Failure) (t : List Happening) : Prop :=
  (Dispatches t ∧ begunIn t = emittedIn t) ∨ (CutOff t ∧ begunIn t <+: emittedIn t) ∨
    (e = .outOfFuel ∧ Dispatches t ∧ begunIn t <+: emittedIn t)

@[simp] theorem emittedIn_append (t u : List Happening) :
    emittedIn (t ++ u) = emittedIn t ++ emittedIn u := List.filterMap_append

@[simp] theorem begunIn_append (t u : List Happening) :
    begunIn (t ++ u) = begunIn t ++ begunIn u := List.filterMap_append

@[simp] theorem emittedIn_nil : emittedIn [] = [] := rfl

@[simp] theorem begunIn_nil : begunIn [] = [] := rfl

@[simp] theorem emittedIn_emitted (e : QueuedEvent) (t : List Happening) :
    emittedIn (.emitted e :: t) = e :: emittedIn t := rfl

@[simp] theorem begunIn_emitted (e : QueuedEvent) (t : List Happening) :
    begunIn (.emitted e :: t) = begunIn t := rfl

@[simp] theorem emittedIn_begun (e : QueuedEvent) (registry : Table String (List Handler))
    (t : List Happening) : emittedIn (.begun e registry :: t) = emittedIn t := rfl

@[simp] theorem begunIn_begun (e : QueuedEvent) (registry : Table String (List Handler))
    (t : List Happening) : begunIn (.begun e registry :: t) = e :: begunIn t := rfl

@[simp] theorem emittedIn_ended (e : QueuedEvent) (t : List Happening) :
    emittedIn (.ended e :: t) = emittedIn t := rfl

@[simp] theorem emittedIn_judged (h : Handler) (holds : Bool) (t : List Happening) :
    emittedIn (.judged h holds :: t) = emittedIn t := rfl

@[simp] theorem emittedIn_started (h : Handler) (t : List Happening) :
    emittedIn (.started h :: t) = emittedIn t := rfl

@[simp] theorem begunIn_ended (e : QueuedEvent) (t : List Happening) :
    begunIn (.ended e :: t) = begunIn t := rfl

/-- No dispatch begins while handlers have their turns. -/
theorem Turns.begunIn_eq {hs : List Handler} {t : List Happening} (ht : Turns hs t) :
    begunIn t = [] := by
  induction ht with
  | nil => rfl
  | emitted e _ ih => exact ih
  | passed _ _ ih => exact ih
  | ran _ ih => exact ih

theorem Turns.append {hs hs' : List Handler} {t u : List Happening} (ht : Turns hs t)
    (hu : Turns hs' u) : Turns (hs ++ hs') (t ++ u) := by
  induction ht with
  | nil => exact hu
  | emitted e _ ih => exact .emitted e ih
  | passed hguard _ ih => exact .passed hguard ih
  | ran _ ih => exact .ran ih

theorem Dispatches.append {t u : List Happening} (ht : Dispatches t) (hu : Dispatches u) :
    Dispatches (t ++ u) := by
  induction ht with
  | nil => exact hu
  | emitted e _ ih => exact .emitted e ih
  | dispatched horder hturns _ ih => simpa using Dispatches.dispatched horder hturns ih

theorem Dispatches.append_cutOff {t u : List Happening} (ht : Dispatches t) (hu : CutOff u) :
    CutOff (t ++ u) := by
  obtain ⟨whole, e, registry, hs, turns, rfl, hwhole, rest⟩ := hu
  exact ⟨t ++ whole, e, registry, hs, turns, by simp, ht.append hwhole, rest⟩

/-- What is delivered before a stop stays delivered. -/
theorem Stopped.after {e : Failure} {t u : List Happening} (ht : Dispatches t)
    (heq : begunIn t = emittedIn t) (hu : Stopped e u) : Stopped e (t ++ u) := by
  have hprefix : begunIn u <+: emittedIn u → begunIn (t ++ u) <+: emittedIn (t ++ u) := fun h => by
    simpa [heq] using h
  rcases hu with ⟨hu, hall⟩ | ⟨hu, hall⟩ | ⟨he, hu, hall⟩
  · exact .inl ⟨ht.append hu, by simp [heq, hall]⟩
  · exact .inr (.inl ⟨ht.append_cutOff hu, hprefix hall⟩)
  · exact .inr (.inr ⟨he, ht.append hu, hprefix hall⟩)

/-! ## Registered handlers -/

/-- The registry of handlers is in order, and every serial number that it has was given out. -/
structure Registered (w : World) : Prop where
  inOrder : InOrder w.handlers
  past : ∀ name, ∀ h ∈ w.handlers.getD name [], h.serial < w.nextSerial

/-- Taking handlers out of a registry leaves it in order. -/
theorem InOrder.of_sublist {old new : Table String (List Handler)} (hold : InOrder old)
    (hsub : ∀ name, (new.getD name []).Sublist (old.getD name [])) : InOrder new := fun name =>
  ⟨fun h hh => (hold name).1 h ((hsub name).subset hh), (hold name).2.sublist (hsub name)⟩

/-- A new handler goes behind all others of its event. -/
theorem registered_withHandler {w : World} (hw : Registered w) (event : String)
    (condition : Option Expr) (body : Block) (scope : ScopeRef) :
    Registered (withHandler event condition body scope w) := by
  have hother : ∀ {name}, name ≠ event →
      (withHandler event condition body scope w).handlers.getD name [] =
        w.handlers.getD name [] := fun h => Table.getD_put_of_ne _ _ _ h
  have hself : (withHandler event condition body scope w).handlers.getD event [] =
      w.handlers.getD event [] ++ [⟨w.nextSerial, event, condition, body, scope, w.currentFile⟩] :=
    Table.getD_put_self _ _ _ _
  refine ⟨fun name => ?_, fun name h hh => ?_⟩
  · by_cases hname : name = event
    · subst hname
      rw [hself]
      refine ⟨fun h hh => ?_, List.pairwise_append.mpr ⟨(hw.inOrder name).2, by simp, ?_⟩⟩
      · rcases List.mem_append.mp hh with hh | hh
        · exact (hw.inOrder name).1 h hh
        · rw [List.mem_singleton.mp hh]
      · intro h hh h' hh'
        rw [List.mem_singleton.mp hh']
        exact hw.past name h hh
    · rw [hother hname]
      exact hw.inOrder name
  · change h.serial < w.nextSerial + 1
    by_cases hname : name = event
    · subst hname
      rw [hself] at hh
      rcases List.mem_append.mp hh with hh | hh
      · exact Nat.lt_succ_of_lt (hw.past name h hh)
      · rw [List.mem_singleton.mp hh]
        exact Nat.lt_succ_self _
    · rw [hother hname] at hh
      exact Nat.lt_succ_of_lt (hw.past name h hh)

/-- Single changes keep the registry in order. -/
theorem Registered.change {v w : World} (hv : Registered v) (h : Change v w) : Registered w := by
  rcases h.registry with ⟨event, condition, body, scope, rfl⟩ | ⟨file, rfl⟩ | hsame
  · exact registered_withHandler hv event condition body scope
  · have hsub := dropHandlers_sublist file v
    exact ⟨hv.inOrder.of_sublist hsub, fun name h hh => hv.past name h ((hsub name).subset hh)⟩
  · refine ⟨?_, ?_⟩
    · rw [hsame.handlers]
      exact hv.inOrder
    · rw [hsame.handlers, hsame.nextSerial]
      exact hv.past

/-! ## The law of delivery -/

/-- Nothing waits and nothing is dispatched. -/
structure Idle (w : World) : Prop where
  queue : w.queue = []
  processing : w.processing = false

/-- In a dispatch: some handlers had their turns, and what was emitted waits at the end of the
    queue. -/
structure During (hs : List Handler) (v w : World) : Prop where
  registered : Registered w
  processing : w.processing = true
  turns : ∃ t, Turns hs t ∧ w.queue = v.queue ++ emittedIn t ∧ w.history = t.reverse ++ v.history

/-- Between dispatches: everything that was emitted is delivered. -/
structure Delivered (v w : World) : Prop where
  registered : Registered w
  idle : Idle w
  delivered : ∃ t, w.history = t.reverse ++ v.history ∧ Dispatches t ∧ begunIn t = emittedIn t

/-- Between dispatches: a computation failed. -/
structure Abandoned (e : Failure) (v w : World) : Prop where
  registered : Registered w
  idle : Idle w
  stopped : ∃ t, w.history = t.reverse ++ v.history ∧ Stopped e t

/-- Everything that waited and what was emitted meanwhile is delivered, in this order. -/
structure Drained (v w : World) : Prop where
  registered : Registered w
  queue : w.queue = []
  delivered : ∃ t, w.history = t.reverse ++ v.history ∧ Dispatches t ∧
    begunIn t = v.queue ++ emittedIn t

/-- A dispatch of the queue failed behind a part of what waited and of what was emitted
    meanwhile. -/
structure DrainFailed (e : Failure) (v w : World) : Prop where
  registered : Registered w
  stopped : ∃ t, w.history = t.reverse ++ v.history ∧
    (CutOff t ∨ (e = .outOfFuel ∧ Dispatches t)) ∧ begunIn t <+: v.queue ++ emittedIn t

theorem During.refl {w : World} (hw : Registered w) (hp : w.processing = true) : During [] w w :=
  ⟨hw, hp, [], .nil, by simp, by simp⟩

theorem During.trans {hs hs' : List Handler} {u v w : World} (huv : During hs u v)
    (hvw : During hs' v w) : During (hs ++ hs') u w := by
  obtain ⟨t, ht, hqueue, hhistory⟩ := huv.turns
  obtain ⟨t', ht', hqueue', hhistory'⟩ := hvw.turns
  refine ⟨hvw.registered, hvw.processing, t ++ t', ht.append ht', ?_, ?_⟩
  · rw [hqueue', hqueue, emittedIn_append, List.append_assoc]
  · rw [hhistory', hhistory, List.reverse_append, List.append_assoc]

theorem Delivered.refl {w : World} (hw : Registered w) (hidle : Idle w) : Delivered w w :=
  ⟨hw, hidle, [], by simp, .nil, rfl⟩

theorem Delivered.trans {u v w : World} (huv : Delivered u v) (hvw : Delivered v w) :
    Delivered u w := by
  obtain ⟨t, hhistory, ht, heq⟩ := huv.delivered
  obtain ⟨t', hhistory', ht', heq'⟩ := hvw.delivered
  refine ⟨hvw.registered, hvw.idle, t ++ t', ?_, ht.append ht', by simp [heq, heq']⟩
  rw [hhistory', hhistory, List.reverse_append, List.append_assoc]

theorem Delivered.abandoned {u v w : World} {e : Failure} (huv : Delivered u v)
    (hvw : Abandoned e v w) : Abandoned e u w := by
  obtain ⟨t, hhistory, ht, heq⟩ := huv.delivered
  obtain ⟨t', hhistory', ht'⟩ := hvw.stopped
  refine ⟨hvw.registered, hvw.idle, t ++ t', ?_, ht'.after ht heq⟩
  rw [hhistory', hhistory, List.reverse_append, List.append_assoc]

theorem Stopped.reported {f : Fault} {d : Diagnostic} {t : List Happening}
    (h : Stopped (.fault f) t) : Stopped (.diagnostic d) t := by
  rcases h with h | h | ⟨he, _⟩
  · exact .inl h
  · exact .inr (.inl h)
  · cases he

/-- Two worlds agree on their handlers and events. -/
structure SameEvents (v w : World) : Prop where
  handlers : v.handlers = w.handlers
  nextSerial : v.nextSerial = w.nextSerial
  queue : v.queue = w.queue
  processing : v.processing = w.processing
  history : v.history = w.history

theorem Registered.congr {v w : World} (h : SameEvents v w) (hw : Registered w) :
    Registered v := by
  refine ⟨?_, ?_⟩
  · rw [h.handlers]
    exact hw.inOrder
  · rw [h.handlers, h.nextSerial]
    exact hw.past

theorem Idle.congr {v w : World} (h : SameEvents v w) (hw : Idle w) : Idle v :=
  ⟨h.queue.trans hw.queue, h.processing.trans hw.processing⟩

/-- In a dispatch what is emitted waits; outside of dispatches a relation holds. -/
def Delivers (behind : World → World → Prop) (v w : World) : Prop :=
  Registered v → (v.processing = true → During [] v w) ∧ (Idle v → behind v w)

theorem Delivers.congr {behind : World → World → Prop} {v v' w w' : World}
    (h : Delivers behind v' w') (hv : SameEvents v' v) (hw : SameEvents w w')
    (hbehind : behind v' w' → behind v w) : Delivers behind v w := by
  intro hreg
  obtain ⟨hbusy, hidle⟩ := h (hreg.congr hv)
  refine ⟨fun hp => ?_, fun hi => hbehind (hidle (hi.congr hv))⟩
  obtain ⟨hreg', hp', t, ht, hqueue, hhistory⟩ := hbusy (hv.processing.trans hp)
  refine ⟨hreg'.congr hw, hw.processing.trans hp', t, ht, ?_, ?_⟩
  · rw [hw.queue, hqueue, hv.queue]
  · rw [hw.history, hhistory, hv.history]

theorem Delivered.congr {v v' w w' : World} (hv : SameEvents v' v) (hw : SameEvents w w')
    (h : Delivered v' w') : Delivered v w := by
  obtain ⟨hreg, hidle, t, hhistory, ht⟩ := h
  refine ⟨hreg.congr hw, hidle.congr hw, t, ?_, ht⟩
  rw [hw.history, hhistory, hv.history]

theorem Abandoned.congr {e : Failure} {v v' w w' : World} (hv : SameEvents v' v)
    (hw : SameEvents w w') (h : Abandoned e v' w') : Abandoned e v w := by
  obtain ⟨hreg, hidle, t, hhistory, ht⟩ := h
  refine ⟨hreg.congr hw, hidle.congr hw, t, ?_, ht⟩
  rw [hw.history, hhistory, hv.history]

/-- Running a queue that is not dispatched yet delivers what waits and what is emitted meanwhile. -/
theorem Drained.delivered_of_emit {v w : World} {e : QueuedEvent} (hidle : Idle v)
    (h : Drained { enqueue e v with processing := true } w) :
    Delivered v { w with processing := false } := by
  obtain ⟨hreg, hqueue, t, hhistory, ht, heq⟩ := h
  refine ⟨⟨hreg.inOrder, hreg.past⟩, ⟨hqueue, rfl⟩, .emitted e :: t, ?_, .emitted e ht, ?_⟩
  · simp [hhistory, enqueue, World.record]
  · simp [heq, enqueue, hidle.queue]

theorem DrainFailed.abandoned_of_emit {f : Failure} {v w : World} {e : QueuedEvent}
    (hidle : Idle v) (h : DrainFailed f { enqueue e v with processing := true } w) :
    Abandoned f v { w with queue := [], processing := false } := by
  obtain ⟨hreg, t, hhistory, ht, hall⟩ := h
  have hall' : begunIn (.emitted e :: t) <+: emittedIn (.emitted e :: t) := by
    simpa [enqueue, hidle.queue] using hall
  refine ⟨⟨hreg.inOrder, hreg.past⟩, ⟨rfl, rfl⟩, .emitted e :: t, ?_, ?_⟩
  · simp [hhistory, enqueue, World.record]
  · rcases ht with ht | ⟨hf, ht⟩
    · exact .inr (.inl ⟨Dispatches.append_cutOff (.emitted e .nil) ht, hall'⟩)
    · exact .inr (.inr ⟨hf, .emitted e ht, hall'⟩)

/-- The law of delivery.  A computation in a dispatch leaves what it emits waiting; one outside of
    dispatches delivers everything that it emits. -/
def delivery : Law where
  done := Delivers Delivered
  failed e := Delivers (Abandoned e)
  drained v w := Registered v → v.processing = true → Drained v w
  cut e v w := Registered v → v.processing = true → DrainFailed e v w
  refl w hw := ⟨fun hp => .refl hw hp, fun hidle => .refl hw hidle⟩
  trans huv hvw hu := by
    refine ⟨fun hp => ?_, fun hidle => ?_⟩
    · have hv := (huv hu).1 hp
      exact hv.trans ((hvw hv.registered).1 hv.processing)
    · have hv := (huv hu).2 hidle
      exact hv.trans ((hvw hv.registered).2 hv.idle)
  failed_of_done _ h hv := by
    refine ⟨(h hv).1, fun hidle => ?_⟩
    obtain ⟨hw, hidle', t, hhistory, ht⟩ := (h hv).2 hidle
    exact ⟨hw, hidle', t, hhistory, .inl ht⟩
  trans_failed huv hvw hu := by
    refine ⟨fun hp => ?_, fun hidle => ?_⟩
    · have hv := (huv hu).1 hp
      exact hv.trans ((hvw hv.registered).1 hv.processing)
    · have hv := (huv hu).2 hidle
      exact hv.abandoned ((hvw hv.registered).2 hv.idle)
  reported h hv := by
    refine ⟨(h hv).1, fun hidle => ?_⟩
    obtain ⟨hw, hidle', t, hhistory, ht⟩ := (h hv).2 hidle
    exact ⟨hw, hidle', t, hhistory, ht.reported⟩
  change {v w} h _ _ hv := by
    have hsame := h.sameMoment
    refine ⟨fun hp => ⟨hv.change h, hsame.processing.trans hp, [], .nil, by simp [hsame.queue],
        hsame.history⟩,
      fun hidle => ⟨hv.change h,
        ⟨hsame.queue.trans hidle.queue, hsame.processing.trans hidle.processing⟩, [],
        hsame.history, .nil, rfl⟩⟩
  executing h :=
    h.congr ⟨rfl, rfl, rfl, rfl, rfl⟩ ⟨rfl, rfl, rfl, rfl, rfl⟩ <|
      .congr ⟨rfl, rfl, rfl, rfl, rfl⟩ ⟨rfl, rfl, rfl, rfl, rfl⟩
  executing_failed h :=
    h.congr ⟨rfl, rfl, rfl, rfl, rfl⟩ ⟨rfl, rfl, rfl, rfl, rfl⟩ <|
      .congr ⟨rfl, rfl, rfl, rfl, rfl⟩ ⟨rfl, rfl, rfl, rfl, rfl⟩
  calling h :=
    h.congr ⟨rfl, rfl, rfl, rfl, rfl⟩ ⟨rfl, rfl, rfl, rfl, rfl⟩ <|
      .congr ⟨rfl, rfl, rfl, rfl, rfl⟩ ⟨rfl, rfl, rfl, rfl, rfl⟩
  calling_failed h :=
    h.congr ⟨rfl, rfl, rfl, rfl, rfl⟩ ⟨rfl, rfl, rfl, rfl, rfl⟩ <|
      .congr ⟨rfl, rfl, rfl, rfl, rfl⟩ ⟨rfl, rfl, rfl, rfl, rfl⟩
  waiting {v} e hp hv := by
    refine ⟨fun _ => ?_, fun hidle => by simp [hidle.processing] at hp⟩
    exact ⟨⟨hv.inOrder, hv.past⟩, hp, [.emitted e], .emitted e .nil, rfl, rfl⟩
  processed {v w} e hp h hv := by
    refine ⟨fun hp' => by simp [hp] at hp', fun hidle => ?_⟩
    exact (h ⟨hv.inOrder, hv.past⟩ rfl).delivered_of_emit hidle
  processed_failed {f v w} e hp h hv := by
    refine ⟨fun hp' => by simp [hp] at hp', fun hidle => ?_⟩
    exact (h ⟨hv.inOrder, hv.past⟩ rfl).abandoned_of_emit hidle

instance : delivery.Open := ⟨fun _ => trivial⟩

/-! ## Dispatching -/

/-- In a dispatch the computation gives handlers their turns in a world; if it fails, then only some
    of them had theirs. -/
def ConsidersAt {α : Type} (hs : List Handler) (act : Eval α) (w : World) : Prop :=
  Registered w → w.processing = true →
    match act w with
    | .ok _ v => During hs w v
    | .error _ v => ∃ hs', hs' <+: hs ∧ During hs' w v

/-- A computation that obeys the law of delivery gives no handler its turn. -/
theorem considersAt_nil {α : Type} {act : Eval α} (hact : delivery.Obeyed act) (w : World) :
    ConsidersAt [] act w := by
  intro hw hp
  have h := hact w
  cases ha : act w with
  | ok a v => rw [ha] at h; exact (h hw).1 hp
  | error e v => rw [ha] at h; exact ⟨[], List.nil_prefix, (h hw).1 hp⟩

theorem considersAt_bind {α β : Type} {hs hs' : List Handler} {act : Eval α} {next : α → Eval β}
    {w : World} (hact : ConsidersAt hs act w)
    (hnext : ∀ a v, act w = .ok a v → ConsidersAt hs' (next a) v) :
    ConsidersAt (hs ++ hs') (act >>= next) w := by
  intro hw hp
  have h := hact hw hp
  cases ha : act w with
  | error e v =>
    rw [ha] at h
    rw [Eval.run_bind_of_error ha]
    obtain ⟨some, hsome, hduring⟩ := h
    exact ⟨some, hsome.trans (List.prefix_append hs hs'), hduring⟩
  | ok a v =>
    rw [ha] at h
    rw [Eval.run_bind_of_ok ha]
    have h' := hnext a v ha h.registered h.processing
    cases hb : next a v with
    | ok b u => rw [hb] at h'; exact h.trans h'
    | error e u =>
      rw [hb] at h'
      obtain ⟨some, hsome, hduring⟩ := h'
      exact ⟨hs ++ some, (List.prefix_append_right_inj hs).mpr hsome, h.trans hduring⟩

/-- A handler with a guard that does not hold has its turn. -/
theorem considersAt_passed {h : Handler} (hguard : h.condition ≠ none) (w : World) :
    ConsidersAt [h] (Eval.record (.judged h false)) w := fun hw hp =>
  ⟨⟨hw.inOrder, hw.past⟩, hp, [.judged h false], .passed hguard .nil,
    (List.append_nil _).symm, rfl⟩

/-- A handler has its turn, and its body starts. -/
theorem considersAt_ran (h : Handler) (w : World) :
    ConsidersAt [h] (do Eval.record (.judged h true); Eval.record (.started h)) w := fun hw hp =>
  ⟨⟨hw.inOrder, hw.past⟩, hp, [.judged h true, .started h], .ran .nil,
    (List.append_nil _).symm, rfl⟩

section Dispatching

variable {run : Runner} (hrun : delivery.Runs run)

include hrun

/-- The turn of a handler. -/
theorem considersAt_handle (data : MapRef) (h : Handler) (w : World) :
    ConsidersAt [h] (handle run data h) w := by
  have hjudging : ConsidersAt [] (guardHolds run h data) w :=
    considersAt_nil (Law.obeyed_guardHolds hrun (.of_forall Law.Open.code h) data) w
  refine considersAt_bind hjudging fun holds v hholds => ?_
  cases holds with
  | false =>
    -- a handler without a guard is never passed over
    have hguard : h.condition ≠ none := by
      intro hnone
      simp [guardHolds, hnone] at hholds
    exact considersAt_passed hguard v
  | true =>
    have hbody : ∀ u, ConsidersAt [] (do
        let scope ← eventScope h.scope data
        let _ ← block run h.body scope) u :=
      considersAt_nil (Law.obeyed_handlerBody hrun (.of_forall Law.Open.code h) data)
    exact considersAt_bind (considersAt_ran h v) fun _ u _ => hbody u

theorem considersAt_handleAll (data : MapRef) (hs : List Handler) (w : World) :
    ConsidersAt hs (handleAll run data hs) w := by
  induction hs generalizing w with
  | nil => exact considersAt_nil (Law.obeyed_pure _) w
  | cons h rest ih =>
    exact considersAt_bind (considersAt_handle hrun data h w) fun _ v _ => ih v

/-- A delivery gives the handlers their turns, and no others. -/
theorem considersAt_deliver (e : QueuedEvent) (hs : List Handler) (w : World) :
    ConsidersAt hs (deliver run e hs) w := by
  have htell : ConsidersAt [] (do
      tellAll run e.data (← listenersFor e.name)
      tellEach run e.name e.data (← listenersFor wildcard)) w :=
    considersAt_nil (Law.obeyed_bind (Law.obeyed_listenersFor _) fun _ =>
      Law.obeyed_bind (Law.obeyed_tellAll hrun _ _) fun _ =>
        Law.obeyed_bind (Law.obeyed_listenersFor _) fun _ => Law.obeyed_tellEach hrun _ _ _) w
  have heq : deliver run e hs = (do
      tellAll run e.data (← listenersFor e.name)
      tellEach run e.name e.data (← listenersFor wildcard)) >>= fun _ =>
        handleAll run e.data hs := by
    simp only [deliver, bind_assoc]
  rw [heq]
  exact considersAt_bind htell fun _ v _ => considersAt_handleAll hrun e.data hs v

omit hrun in
/-- A dispatch is recorded around the delivery to the handlers of its beginning. -/
theorem dispatch_eq (e : QueuedEvent) (w : World) :
    dispatch run e w = (deliver run e (w.handlers.getD e.name []) >>= fun _ =>
      Eval.record (.ended e)) (w.record (.begun e w.handlers)) := rfl

/-- A dispatch is recorded from its begin to its end, with the turns of the handlers that are
    registered when it begins; one that fails stops after the turns of some of them. -/
theorem dispatch_recorded (e : QueuedEvent) {w : World} (hw : Registered w)
    (hp : w.processing = true) :
    match dispatch run e w with
    | .ok _ v => Registered v ∧ v.processing = true ∧ ∃ registry turns,
        v.history = (.begun e registry :: (turns ++ [.ended e])).reverse ++ w.history ∧
        v.queue = w.queue ++ emittedIn turns ∧ InOrder registry ∧
        Turns (registry.getD e.name []) turns
    | .error _ v => Registered v ∧ ∃ t, v.history = t.reverse ++ w.history ∧ CutOff t ∧
        begunIn t = [e] := by
  have hdeliver := considersAt_deliver hrun e (w.handlers.getD e.name [])
    (w.record (.begun e w.handlers)) ⟨hw.inOrder, hw.past⟩ hp
  rw [dispatch_eq]
  cases hd : deliver run e (w.handlers.getD e.name []) (w.record (.begun e w.handlers)) with
  | error f v =>
    rw [hd] at hdeliver
    rw [Eval.run_bind_of_error hd]
    obtain ⟨hs, hsome, hreg, -, turns, hturns, -, hhistory⟩ := hdeliver
    refine ⟨hreg, .begun e w.handlers :: turns, ?_, ?_, ?_⟩
    · simp [hhistory, World.record]
    · exact ⟨[], e, w.handlers, hs, turns, rfl, .nil, hw.inOrder, hsome, hturns⟩
    · simp [hturns.begunIn_eq]
  | ok _ v =>
    rw [hd] at hdeliver
    rw [Eval.run_bind_of_ok hd]
    obtain ⟨hreg, hp', turns, hturns, hqueue, hhistory⟩ := hdeliver
    refine ⟨⟨hreg.inOrder, hreg.past⟩, hp', w.handlers, turns, ?_, hqueue, hw.inOrder, hturns⟩
    change .ended e :: v.history = _
    simp [hhistory, World.record]

omit hrun in
theorem drain_of_nil {w : World} (hqueue : w.queue = []) : drain run w = .ok () w := by
  simp [drain, hqueue]

omit hrun in
theorem drain_of_cons {w : World} {e : QueuedEvent} {rest : List QueuedEvent}
    (hqueue : w.queue = e :: rest) :
    drain run w = (dispatch run e >>= fun _ => run .drain) { w with queue := rest } := by
  simp [drain, hqueue]

/-- The dispatch of a queue follows the law of delivery. -/
theorem relates_drain : Law.Relates delivery.drained delivery.cut (drain run) := by
  intro w
  cases hqueue : w.queue with
  | nil =>
    rw [drain_of_nil hqueue]
    exact fun hw _ => ⟨hw, hqueue, [], rfl, .nil, by simp [hqueue]⟩
  | cons e rest =>
    rw [drain_of_cons hqueue]
    have hfirst := @dispatch_recorded run hrun e { w with queue := rest }
    cases hd : dispatch run e { w with queue := rest } with
    | error f v =>
      rw [hd] at hfirst
      rw [Eval.run_bind_of_error hd]
      intro hw hp
      obtain ⟨hreg, t, hhistory, ht, hbegun⟩ := hfirst ⟨hw.inOrder, hw.past⟩ hp
      exact ⟨hreg, t, hhistory, .inl ht, by simp [hbegun, hqueue]⟩
    | ok _ v =>
      rw [hd] at hfirst
      rw [Eval.run_bind_of_ok hd]
      have hdrain := hrun.drain v
      -- what the first dispatch emitted waits behind the rest, and is dispatched with it
      cases hrest : run .drain v with
      | ok _ u =>
        simp only [hrest] at hdrain ⊢
        intro hw hp
        obtain ⟨hreg, hp', registry, turns, hhistory, hqueue', horder, hturns⟩ :=
          hfirst ⟨hw.inOrder, hw.past⟩ hp
        obtain ⟨hreg', hempty, t, hhistory', ht, heq⟩ := hdrain hreg hp'
        refine ⟨hreg', hempty, _, ?_, .dispatched horder hturns ht, ?_⟩
        · simp [hhistory', hhistory]
        · simp [heq, hqueue, hqueue', hturns.begunIn_eq]
      | error f u =>
        simp only [hrest] at hdrain ⊢
        intro hw hp
        obtain ⟨hreg, hp', registry, turns, hhistory, hqueue', horder, hturns⟩ :=
          hfirst ⟨hw.inOrder, hw.past⟩ hp
        obtain ⟨hreg', t, hhistory', ht, hall⟩ := hdrain hreg hp'
        have hwhole : Dispatches (.begun e registry :: (turns ++ [.ended e])) :=
          .dispatched horder hturns .nil
        refine ⟨hreg', .begun e registry :: (turns ++ [.ended e]) ++ t, ?_, ?_, ?_⟩
        · simp [hhistory', hhistory]
        · exact ht.imp hwhole.append_cutOff (And.imp_right hwhole.append)
        · simpa [hqueue, hqueue', hturns.begunIn_eq] using hall

end Dispatching

/-- Nothing is dispatched where the bound is reached. -/
theorem lenient_delivery : delivery.Lenient where
  failed w hw := ⟨fun hp => .refl hw hp, fun hidle => ⟨hw, hidle, [], rfl, .inl ⟨.nil, rfl⟩⟩⟩
  cut w hw _ := ⟨hw, [], by simp, .inr ⟨rfl, .nil⟩, by simp⟩

/-- Runs follow the law of delivery. -/
theorem runs_delivery : delivery.Runs Evaluate.run :=
  Law.runs_run lenient_delivery fun _ hrun => relates_drain hrun

/-! ## Requests -/

/-- Between two requests nothing waits, and the registry of handlers is in order. -/
theorem Reached.idle {w : World} (hw : Reached w) : Registered w ∧ Idle w := by
  have hkept : ∀ {v w}, delivery.done v w → Registered v ∧ Idle v → Registered w ∧ Idle w :=
    fun h hv => ⟨((h hv.1).2 hv.2).registered, ((h hv.1).2 hv.2).idle⟩
  refine Reached.of_law (P := fun w => Registered w ∧ Idle w) runs_delivery ?_ hkept ?_ hw
  · intro settings hostFunctions
    have hnone : ∀ name, (Session.bareWorld settings hostFunctions).handlers.getD name [] = [] :=
      fun _ => rfl
    exact ⟨⟨fun name => by simp [hnone], fun name => by simp [hnone]⟩, ⟨rfl, rfl⟩⟩
  · intro e v w h hv
    exact ⟨((h hv.1).2 hv.2).registered, ((h hv.1).2 hv.2).idle⟩

end EventScript
