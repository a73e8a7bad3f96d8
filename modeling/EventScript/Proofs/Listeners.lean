import EventScript.Proofs.Delivery
import EventScript.Proofs.Law.Steady

/-! # Listeners in a dispatch

The listeners of an event are told before its handlers have their turns: those of its name first,
each with the map of the event itself, and then those of all events, each with a copy of its own
that has the event's name.  What happens is written down as a log of calls.  A listener that fails
ends the dispatch where it stands.

* `Heard`                  calls of listeners, one after the other
* `heard_listen`           the calls that tell about an event
* `Heard.spares`           a copy keeps what is written to it away from the event
* `dispatch_hears_once`    a dispatch calls every registration once, and then the handlers
-/

namespace EventScript

open Evaluate

/-! ## Logs of calls -/

/-- A call of a listener: the name that it is registered under, the map that it is given, what is in
    that map, and what is in the data of the event at the same moment. -/
structure Hearing where
  name : String
  listener : ListenerRef
  given : MapRef
  found : Table Key Value
  present : Table Key Value

/-- One world comes out of another by the calls of a log, which all succeed; at most maps are made
    between them. -/
inductive Heard (run : Runner) (data : MapRef) : List Hearing → World → World → Prop
  | nil (w : World) : Heard run data [] w w
  | made (entries : Table Key Value) {log : List Hearing} {v w : World}
    (h : Heard run data log
      { v with store := { v.store with maps := v.store.maps.push entries } } w) :
    Heard run data log v w
  | called (name : String) {r : ListenerRef} {given : MapRef} {a : Value} {log : List Hearing}
    {u v w : World} (hcall : perform run (u.store.listeners.get r given) u = .ok a v)
    (h : Heard run data log v w) :
    Heard run data (⟨name, r, given, u.store.map given, u.store.map data⟩ :: log) u w

theorem Heard.append {run : Runner} {data : MapRef} {log log' : List Hearing} {u v w : World}
    (h : Heard run data log u v) (h' : Heard run data log' v w) :
    Heard run data (log ++ log') u w := by
  induction h with
  | nil w => exact h'
  | made entries _ ih => exact .made entries (ih h')
  | called name hcall _ ih => exact .called name hcall (ih h')

/-! ## What listeners leave -/

/-- Maps that were made stay. -/
theorem steady_maps : Steady fun v w : World =>
    ∀ r, v.store.maps.Holds r → w.store.maps.Holds r where
  same h r hr := by rw [h]; exact hr
  trans huv hvw r hr := hvw r (huv r hr)
  change {v w} h r hr := by
    cases h with
    | mapMade entries => exact (v.store.maps.extends_push entries).holds hr
    | entryPut q k a => exact (v.store.maps.holds_modify q r _).mpr hr
    | instanceDeclared | importsRecorded | unsubscribed =>
      simpa only [store_withInstance, store_recordImports, store_unsubscribe] using hr
    | _ => exact hr

/-- Listeners that were made stay what they are. -/
theorem steady_listeners : Steady fun v w : World =>
    v.store.listeners.Extends w.store.listeners where
  same h := by rw [h]; exact .refl _
  trans huv hvw := huv.trans hvw
  change {v w} h := by
    cases h with
    | listenerMade listener => exact v.store.listeners.extends_push listener
    | instanceDeclared | importsRecorded | unsubscribed =>
      simpa only [store_withInstance, store_recordImports, store_unsubscribe] using .refl _
    | _ => exact .refl _

/-- The registry of handlers is in order in every world that comes up. -/
theorem Arises.registered {w : World} (hw : Arises w) : Registered w := by
  refine hw.of_steady ⟨fun h hv => ?_, fun huv hvw hu => hvw (huv hu), fun h hv => hv.change h⟩
    fun _ _ => ?_
  · rw [h]
    exact ⟨hv.inOrder, hv.past⟩
  · exact ⟨fun _ => ⟨nofun, .nil⟩, fun _ _ => nofun⟩

/-- No handler has a turn on the way from one world to another. -/
def NoTurn (v w : World) : Prop := ∃ t, w.history = t.reverse ++ v.history ∧ Turns [] t

/-! ## Telling the listeners -/

section Telling

variable {run : Runner}

theorem tell_eq (data : MapRef) (r : ListenerRef) (w : World) :
    tell run data r w = (perform run (w.store.listeners.get r data) >>= fun _ => pure ()) w := rfl

theorem tell_of_ok {r : ListenerRef} {data : MapRef} {a : Value} {w v : World}
    (hcall : perform run (w.store.listeners.get r data) w = .ok a v) :
    tell run data r w = .ok () v := (tell_eq data r w).trans (Eval.run_bind_of_ok hcall)

theorem tell_of_error {r : ListenerRef} {data : MapRef} {f : Failure} {w v : World}
    (hcall : perform run (w.store.listeners.get r data) w = .error f v) :
    tell run data r w = .error f v := (tell_eq data r w).trans (Eval.run_bind_of_error hcall)

/-- A call that is made with the data of the event itself. -/
structure Hearing.Own (e : QueuedEvent) (h : Hearing) : Prop where
  name : h.name = e.name
  given : h.given = e.data

/-- A call that is made with a copy of the data that has the event's name; the copy is not there in
    some world before. -/
structure Hearing.Copied (e : QueuedEvent) (w : World) (h : Hearing) : Prop where
  name : h.name = wildcard
  fresh : ¬ w.store.maps.Holds h.given
  found : h.found = h.present.put eventNameKey (.text e.name)

/-- The listeners of the event's name are called in order, up to one that fails. -/
theorem heard_tellAll (e : QueuedEvent) (rs : List ListenerRef) (w : World) :
    match tellAll run e.data rs w with
    | .ok _ v => ∃ log, Heard run e.data log w v ∧ log.map (·.listener) = rs ∧ ∀ h ∈ log, h.Own e
    | .error f v => ∃ log r rest u, Heard run e.data log w u ∧
        log.map (·.listener) ++ r :: rest = rs ∧ (∀ h ∈ log, h.Own e) ∧
        perform run (u.store.listeners.get r e.data) u = .error f v := by
  induction rs generalizing w with
  | nil => exact ⟨[], .nil w, rfl, nofun⟩
  | cons r rest ih =>
    unfold tellAll
    cases hcall : perform run (w.store.listeners.get r e.data) w with
    | error f v =>
      rw [Eval.run_bind_of_error (tell_of_error hcall)]
      exact ⟨[], r, rest, w, .nil w, rfl, nofun, hcall⟩
    | ok a u =>
      rw [Eval.run_bind_of_ok (tell_of_ok hcall)]
      have hown : Hearing.Own e ⟨e.name, r, e.data, w.store.map e.data, w.store.map e.data⟩ :=
        ⟨rfl, rfl⟩
      have hrest := ih u
      cases htold : tellAll run e.data rest u with
      | ok _ v =>
        rw [htold] at hrest
        obtain ⟨log, hheard, hlisteners, hlog⟩ := hrest
        exact ⟨_ :: log, .called e.name hcall hheard, congrArg (r :: ·) hlisteners,
          List.forall_mem_cons.mpr ⟨hown, hlog⟩⟩
      | error f v =>
        rw [htold] at hrest
        obtain ⟨log, r', rest', u', hheard, hlisteners, hlog, hfailed⟩ := hrest
        exact ⟨_ :: log, r', rest', u', .called e.name hcall hheard, congrArg (r :: ·) hlisteners,
          List.forall_mem_cons.mpr ⟨hown, hlog⟩, hfailed⟩

/-- Each call of a log is made with a copy of its own. -/
structure Copies (e : QueuedEvent) (w : World) (log : List Hearing) : Prop where
  copied : ∀ h ∈ log, h.Copied e w
  distinct : (log.map (·.given)).Nodup

theorem copies_nil (e : QueuedEvent) (w : World) : Copies e w [] := ⟨nofun, .nil⟩

/-- A copy that is not there in a world is not there before. -/
theorem Copies.before {e : QueuedEvent} {v w : World} {log : List Hearing} (h : Copies e w log)
    (hmaps : ∀ r, v.store.maps.Holds r → w.store.maps.Holds r) : Copies e v log :=
  ⟨fun x hx => ⟨(h.copied x hx).name, fun hv => (h.copied x hx).fresh (hmaps _ hv),
    (h.copied x hx).found⟩, h.distinct⟩

/-- One more copy is made before all others. -/
theorem Copies.cons {e : QueuedEvent} {w v : World} {log : List Hearing} {x : Hearing}
    (h : Copies e v log) (hmaps : ∀ r, w.store.maps.Holds r → v.store.maps.Holds r)
    (hx : x.Copied e w) (hgiven : v.store.maps.Holds x.given) : Copies e w (x :: log) := by
  refine ⟨List.forall_mem_cons.mpr ⟨hx, (h.before hmaps).copied⟩, ?_⟩
  refine List.nodup_cons.mpr ⟨fun hmem => ?_, h.distinct⟩
  obtain ⟨y, hy, heq⟩ := List.mem_map.mp hmem
  exact (h.copied y hy).fresh (heq ▸ hgiven)

/-- The world with one more copy of the data of an event, which has the event's name. -/
def withCopy (e : QueuedEvent) (w : World) : World :=
  { w with store := { w.store with
      maps := w.store.maps.push ((w.store.map e.data).put eventNameKey (.text e.name)) } }

theorem map_withCopy {e : QueuedEvent} {w : World} {r : MapRef} (hr : w.store.maps.Holds r) :
    (withCopy e w).store.map r = w.store.map r := Heap.get_push_of_holds _ _ hr

/-- The copy is the next map. -/
theorem tellEach_cons (e : QueuedEvent) (r : ListenerRef) (rest : List ListenerRef) (w : World) :
    tellEach run e.name e.data (r :: rest) w =
      (tell run w.store.maps.next r >>= fun _ => tellEach run e.name e.data rest)
        (withCopy e w) := rfl

/-- The listeners of all events are called in order, up to one that fails. -/
theorem heard_tellEach (hrun : (Law.steady steady_maps).Runs run) {e : QueuedEvent}
    (rs : List ListenerRef) {w : World} (hdata : w.store.maps.Holds e.data) :
    match tellEach run e.name e.data rs w with
    | .ok _ v => ∃ log, Heard run e.data log w v ∧ log.map (·.listener) = rs ∧ Copies e w log
    | .error f v => ∃ log r given rest u, Heard run e.data log w u ∧
        log.map (·.listener) ++ r :: rest = rs ∧ Copies e w log ∧
        perform run (u.store.listeners.get r given) u = .error f v := by
  induction rs generalizing w with
  | nil => exact ⟨[], .nil w, rfl, copies_nil e w⟩
  | cons r rest ih =>
    rw [tellEach_cons]
    have hheld : ∀ q, w.store.maps.Holds q → (withCopy e w).store.maps.Holds q := fun q =>
      (w.store.maps.extends_push _).holds
    have hcopied : Hearing.Copied e w ⟨wildcard, r, w.store.maps.next,
        (withCopy e w).store.map w.store.maps.next, (withCopy e w).store.map e.data⟩ := by
      refine ⟨rfl, Nat.lt_irrefl _, ?_⟩
      change Heap.get (w.store.maps.push _) w.store.maps.next = _
      rw [Heap.get_push_next, map_withCopy hdata]
    cases hcall : perform run ((withCopy e w).store.listeners.get r w.store.maps.next)
        (withCopy e w) with
    | error f v =>
      rw [Eval.run_bind_of_error (tell_of_error hcall)]
      exact ⟨[], r, _, rest, withCopy e w, .made _ (.nil _), rfl, copies_nil e w, hcall⟩
    | ok a u =>
      rw [Eval.run_bind_of_ok (tell_of_ok hcall)]
      have hcalled : ∀ q, (withCopy e w).store.maps.Holds q → u.store.maps.Holds q :=
        (Law.obeyed_perform hrun _).of_ok hcall
      have hgiven : u.store.maps.Holds w.store.maps.next :=
        hcalled _ (w.store.maps.holds_push_next _)
      have hrest := ih (hcalled _ (hheld _ hdata))
      cases htold : tellEach run e.name e.data rest u with
      | ok _ v =>
        rw [htold] at hrest
        obtain ⟨log, hheard, hlisteners, hcopies⟩ := hrest
        exact ⟨_ :: log, .made _ (.called wildcard hcall hheard), congrArg (r :: ·) hlisteners,
          hcopies.cons (fun q hq => hcalled q (hheld q hq)) hcopied hgiven⟩
      | error f v =>
        rw [htold] at hrest
        obtain ⟨log, r', given, rest', u', hheard, hlisteners, hcopies, hfailed⟩ := hrest
        exact ⟨_ :: log, r', given, rest', u', .made _ (.called wildcard hcall hheard),
          congrArg (r :: ·) hlisteners,
          hcopies.cons (fun q hq => hcalled q (hheld q hq)) hcopied hgiven, hfailed⟩

/-- Tell all listeners of an event. -/
def listen (run : Runner) (e : QueuedEvent) : Eval Unit := do
  tellAll run e.data (← listenersFor e.name)
  tellEach run e.name e.data (← listenersFor wildcard)

/-- The listeners are told before handlers have their turns. -/
theorem deliver_eq (e : QueuedEvent) (hs : List Handler) :
    deliver run e hs = (listen run e >>= fun _ => handleAll run e.data hs) := by
  simp only [deliver, listen, bind_assoc]

theorem listen_eq (e : QueuedEvent) (w : World) :
    listen run e w = (tellAll run e.data (w.listeners.getD e.name []) >>= fun _ =>
      listenersFor wildcard >>= tellEach run e.name e.data) w := rfl

end Telling

/-! ## Listeners that leave the data alone -/

/-- In a dispatch, some map is as it was before. -/
structure SameData (data : MapRef) (v w : World) : Prop where
  processing : w.processing = true
  holds : w.store.maps.Holds data
  map_eq : w.store.map data = v.store.map data

/-- In a dispatch the computation leaves a map as it is, whether it fails or not. -/
def Spares {α : Type} (data : MapRef) (act : Eval α) : Prop :=
  ∀ w, w.processing = true → w.store.maps.Holds data →
    match act w with
    | .ok _ v | .error _ v => SameData data w v

theorem SameData.trans {data : MapRef} {u v w : World} (huv : SameData data u v)
    (hvw : SameData data v w) : SameData data u w :=
  ⟨hvw.processing, hvw.holds, hvw.map_eq.trans huv.map_eq⟩

section Sparing

variable {α β : Type} {data : MapRef} {run : Runner}

theorem Spares.of_ok {act : Eval α} (hact : Spares data act) {v w : World} {a : α}
    (hp : v.processing = true) (hdata : v.store.maps.Holds data) (hok : act v = .ok a w) :
    SameData data v w := by
  have h := hact v hp hdata
  rwa [hok] at h

theorem spares_pure (a : α) : Spares data (pure a) := fun _ hp hdata => ⟨hp, hdata, rfl⟩

theorem spares_throw (e : Failure) : Spares data (throw e : Eval α) :=
  fun _ hp hdata => ⟨hp, hdata, rfl⟩

theorem spares_get : Spares data (get : Eval World) := fun _ hp hdata => ⟨hp, hdata, rfl⟩

theorem spares_read (f : Store → α) : Spares data (Eval.read f) :=
  fun _ hp hdata => ⟨hp, hdata, rfl⟩

theorem spares_bind {act : Eval α} {next : α → Eval β} (hact : Spares data act)
    (hnext : ∀ a, Spares data (next a)) : Spares data (act >>= next) := by
  intro w hp hdata
  have hw := hact w hp hdata
  cases ha : act w with
  | error e v =>
    rw [ha] at hw
    rw [Eval.run_bind_of_error ha]
    exact hw
  | ok a v =>
    rw [ha] at hw
    rw [Eval.run_bind_of_ok ha]
    have hv := hnext a v hw.processing hw.holds
    cases hb : next a v with
    | ok b u =>
      rw [hb] at hv
      exact hw.trans hv
    | error e u =>
      rw [hb] at hv
      exact hw.trans hv

/-- A change of anything but the maps leaves a map as it is. -/
theorem spares_modify {f : World → World} (hp : ∀ w, (f w).processing = w.processing)
    (hmaps : ∀ w, (f w).store.maps = w.store.maps) : Spares data (modify f) := by
  intro w hprocessing hdata
  refine ⟨(hp w).trans hprocessing, ?_, ?_⟩
  · rw [hmaps]
    exact hdata
  · exact congrArg (Heap.get · data) (hmaps w)

theorem spares_newMap (entries : Table Key Value) : Spares data (Eval.newMap entries) :=
  fun w hp hdata => ⟨hp, (w.store.maps.extends_push entries).holds hdata,
    w.store.maps.get_push_of_holds entries hdata⟩

theorem spares_newList (items : Array Value) : Spares data (Eval.newList items) :=
  spares_bind (spares_read _) fun _ =>
    spares_bind (spares_modify (fun _ => rfl) fun _ => rfl) fun _ => spares_pure _

/-- What is written to another map stays there. -/
theorem spares_putKey {m : MapRef} (hm : m ≠ data) (k : Key) (v : Value) :
    Spares data (Eval.putKey m k v) :=
  fun w hp hdata => ⟨hp, (w.store.maps.holds_modify m data _).mpr hdata,
    w.store.maps.get_modify_of_ne _ (Ne.symm hm)⟩

theorem spares_ofLiteral (l : Literal) : Spares data (Eval.ofLiteral l) := by
  cases l with
  | number n =>
    change Spares data (Eval.ofNumber n)
    unfold Eval.ofNumber
    split
    · exact spares_bind (spares_read _) fun _ =>
        spares_bind (spares_modify (fun _ => rfl) fun _ => rfl) fun _ => spares_pure _
    · exact spares_pure _
  | _ => exact spares_pure _

theorem spares_lookup (name : String) (r : ScopeRef) (span : Option Span) :
    Spares data (Eval.lookup name r span) := by
  refine spares_bind (spares_read _) fun found => ?_
  cases found with
  | none => exact spares_throw _
  | some v => exact spares_pure v

mutual

theorem spares_build : ∀ d : Datum, Spares data (build d)
  | .literal l => by unfold build; exact spares_ofLiteral l
  | .list items => by
    unfold build
    exact spares_bind (spares_buildAll items) fun vs => spares_newList _
  | .map entries => by
    unfold build
    exact spares_bind (spares_buildEntries .empty entries) fun t =>
      spares_bind (spares_newMap t) fun r => spares_pure _
  | .global name => by unfold build; exact spares_lookup name _ _
  | .host name => by
    unfold build
    refine spares_bind spares_get fun w => ?_
    split
    · exact spares_bind (spares_read _) fun _ =>
        spares_bind (spares_modify (fun _ => rfl) fun _ => rfl) fun _ => spares_pure _
    · exact spares_pure _

theorem spares_buildAll : ∀ ds : List Datum, Spares data (buildAll ds)
  | [] => by unfold buildAll; exact spares_pure _
  | d :: rest => by
    unfold buildAll
    exact spares_bind (spares_build d) fun v =>
      spares_bind (spares_buildAll rest) fun vs => spares_pure _

theorem spares_buildEntries (t : Table Key Value) : ∀ es : List (Key × Datum),
    Spares data (buildEntries t es)
  | [] => by unfold buildEntries; exact spares_pure _
  | (k, d) :: rest => by
    unfold buildEntries
    exact spares_bind (spares_build d) fun v => spares_buildEntries _ rest

end

/-- In a dispatch an event that comes up only waits. -/
theorem spares_emit (name : String) (m : MapRef) : Spares data (emit run name m) := by
  intro w hp hdata
  rw [Law.emit_of_processing name m hp]
  exact ⟨hp, hdata, rfl⟩

theorem spares_emitValues (event v : Value) : Spares data (emitValues run event v) := by
  unfold emitValues
  split
  · exact spares_bind (spares_newMap _) fun m => spares_emit _ m
  · exact spares_emit _ _
  · exact spares_throw _
  · exact spares_throw _

end Sparing

/-- The host writes to other maps only, and what code it runs leaves a map as it is. -/
def HostAction.Spares (run : Runner) (data : MapRef) : HostAction → Prop
  | .done _ | .fail _ => True
  | .note _ _ next | .emit _ _ next | .unsubscribe _ _ next => next.Spares run data
  | .look _ next | .build _ next => ∀ v, (next v).Spares run data
  | .put m _ _ next => m ≠ data ∧ next.Spares run data
  | .load source file next =>
    EventScript.Spares data (Evaluate.load run source file) ∧ next.Spares run data
  | .reload source file next =>
    EventScript.Spares data (Evaluate.reload run source file) ∧ next.Spares run data
  | .call f args next =>
    EventScript.Spares data (Library.callValue run f args) ∧ ∀ v, (next v).Spares run data

theorem spares_perform {run : Runner} {data : MapRef} {a : HostAction} (ha : a.Spares run data) :
    Spares data (perform run a) := by
  induction a with
  | done v => exact spares_pure v
  | fail f => exact spares_throw _
  | note author shown next ih =>
    exact spares_bind (spares_modify (fun _ => rfl) fun _ => rfl) fun _ => ih ha
  | look name next ih => exact spares_bind (spares_read _) fun v => ih _ (ha _)
  | build d next ih => exact spares_bind (spares_build d) fun v => ih v (ha v)
  | put m key v next ih => exact spares_bind (spares_putKey ha.1 _ v) fun _ => ih ha.2
  | emit event v next ih => exact spares_bind (spares_emitValues event v) fun _ => ih ha
  | load source file next ih => exact spares_bind ha.1 fun _ => ih ha.2
  | reload source file next ih => exact spares_bind ha.1 fun _ => ih ha.2
  | call f args next ih => exact spares_bind ha.1 fun v => ih v (ha.2 v)
  | unsubscribe event listener next ih =>
    have hunsubscribe : Spares data (modify (unsubscribe event listener)) := by
      refine spares_modify (fun w => ?_) fun w => congrArg Store.maps (store_unsubscribe _ _ w)
      unfold unsubscribe
      split <;> rfl
    exact spares_bind hunsubscribe fun _ => ih ha

/-- A listener that is given another map leaves the data of an event as it is. -/
def Discreet (run : Runner) (data : MapRef) (w : World) (r : ListenerRef) : Prop :=
  w.store.listeners.Holds r ∧
    ∀ given, given ≠ data → (w.store.listeners.get r given).Spares run data

/-- A listener stays discreet. -/
theorem Discreet.extends {run : Runner} {data : MapRef} {v w : World} {r : ListenerRef}
    (h : Discreet run data v r) (hext : v.store.listeners.Extends w.store.listeners) :
    Discreet run data w r := by
  refine ⟨hext.holds h.1, ?_⟩
  rw [hext.get_eq r h.1]
  exact h.2

/-- Calls of discreet listeners with other maps leave the data of an event as it is. -/
theorem Heard.spares {run : Runner} (hrun : (Law.steady steady_listeners).Runs run)
    {data : MapRef} {log : List Hearing} {v w : World} (h : Heard run data log v w)
    (hp : v.processing = true) (hdata : v.store.maps.Holds data)
    (hlog : ∀ x ∈ log, x.given ≠ data ∧ Discreet run data v x.listener) :
    SameData data v w ∧ ∀ x ∈ log, x.present = v.store.map data := by
  -- each call leaves the data as it was at the first one, and so does making the copy for it
  induction h with
  | nil w => exact ⟨⟨hp, hdata, rfl⟩, nofun⟩
  | @made entries log v w _ ih =>
    obtain ⟨hsame, hpresent⟩ := ih hp ((v.store.maps.extends_push entries).holds hdata) hlog
    have hmap : (v.store.maps.push entries).get data = v.store.maps.get data :=
      v.store.maps.get_push_of_holds entries hdata
    exact ⟨⟨hsame.processing, hsame.holds, hsame.map_eq.trans hmap⟩, fun x hx =>
      (hpresent x hx).trans hmap⟩
  | @called name r given a log u v w hcall _ ih =>
    obtain ⟨⟨hgiven, hdiscreet⟩, hrest⟩ := List.forall_mem_cons.mp hlog
    have hext : u.store.listeners.Extends v.store.listeners :=
      (Law.obeyed_perform hrun _).of_ok hcall
    have hstep : SameData data u v :=
      (spares_perform (hdiscreet.2 given hgiven)).of_ok hp hdata hcall
    obtain ⟨hsame, hpresent⟩ := ih hstep.processing hstep.holds fun x hx =>
      ⟨(hrest x hx).1, (hrest x hx).2.extends hext⟩
    exact ⟨hstep.trans hsame, List.forall_mem_cons.mpr
      ⟨rfl, fun x hx => (hpresent x hx).trans hstep.map_eq⟩⟩

/-! ## A dispatch -/

/-- The calls of a log tell about an event: those under its name come first and are given its own
    data, those under the wildcard are given a copy each. -/
structure Calls (e : QueuedEvent) (w : World) (log : List Hearing) : Prop where
  each : ∀ h ∈ log, h.Own e ∨ h.Copied e w
  order : log.Pairwise fun a b => b.name = e.name → a.name = e.name
  distinct : ((log.filter (·.name = wildcard)).map (·.given)).Nodup

/-- Every registration hears of an event once, before any handler has its turn. -/
structure AllHeard (run : Runner) (e : QueuedEvent) (w : World) (log : List Hearing) (u : World) :
    Prop where
  heard : Heard run e.data log w u
  calls : Calls e w log
  exact : (log.filter (·.name = e.name)).map (·.listener) = w.listeners.getD e.name []
  wildcards : (log.filter (·.name = wildcard)).map (·.listener) = w.listeners.getD wildcard []
  noTurn : NoTurn w u
  /-- A copy keeps what is written to it away from the event. -/
  kept : (∀ r ∈ w.listeners.getD wildcard [], Discreet run e.data w r) →
    ∀ h ∈ log, h.name = wildcard → h.present = u.store.map e.data

/-- The registrations in front of some listener hear of an event once, and the call of this one
    fails; those behind it hear nothing, and no handler has a turn. -/
structure HeardUntil (run : Runner) (e : QueuedEvent) (w : World) (log : List Hearing)
    (r : ListenerRef) (behind : List ListenerRef) (f : Failure) (v : World) : Prop where
  calls : Calls e w log
  listeners : log.map (·.listener) ++ r :: behind =
    w.listeners.getD e.name [] ++ w.listeners.getD wildcard []
  failed : ∃ u given, Heard run e.data log w u ∧
    perform run (u.store.listeners.get r given) u = .error f v
  noTurn : NoTurn w v

section Groups

variable {e : QueuedEvent} {w : World} {own copies : List Hearing}

theorem filter_own (hown : ∀ h ∈ own, h.Own e) : own.filter (·.name = e.name) = own :=
  List.filter_eq_self.mpr fun h hh => by simp [(hown h hh).name]

theorem filter_own_wildcard (hname : e.name ≠ wildcard) (hown : ∀ h ∈ own, h.Own e) :
    own.filter (·.name = wildcard) = [] :=
  List.filter_eq_nil_iff.mpr fun h hh => by simp [(hown h hh).name, hname]

theorem Copies.filter_wildcard (h : Copies e w copies) :
    copies.filter (·.name = wildcard) = copies :=
  List.filter_eq_self.mpr fun x hx => by simp [(h.copied x hx).name]

theorem Copies.filter_name (h : Copies e w copies) (hname : e.name ≠ wildcard) :
    copies.filter (·.name = e.name) = [] :=
  List.filter_eq_nil_iff.mpr fun x hx => by simp [(h.copied x hx).name, Ne.symm hname]

/-- The calls of the two groups, one behind the other. -/
theorem calls_append (hname : e.name ≠ wildcard) (hown : ∀ h ∈ own, h.Own e)
    (hcopies : Copies e w copies) : Calls e w (own ++ copies) where
  each h hh := (List.mem_append.mp hh).imp (hown h) (hcopies.copied h)
  order := by
    refine List.pairwise_append.mpr ⟨?_, ?_, fun a ha _ _ _ => (hown a ha).name⟩
    · exact List.pairwise_of_forall_mem_list fun a ha _ _ _ => (hown a ha).name
    · refine List.pairwise_of_forall_mem_list fun a _ b hb hbname => ?_
      exact absurd (hbname.symm.trans (hcopies.copied b hb).name) hname
  distinct := by
    rw [List.filter_append, filter_own_wildcard hname hown, hcopies.filter_wildcard]
    exact hcopies.distinct

end Groups

/-- No handler has a turn in a computation that obeys the law of delivery. -/
theorem noTurn_of_considersAt {α : Type} {act : Eval α} {w : World} (hact : ConsidersAt [] act w)
    (hreg : Registered w) (hp : w.processing = true) :
    match act w with
    | .ok _ v | .error _ v => v.processing = true ∧ NoTurn w v := by
  have h := hact hreg hp
  cases ha : act w with
  | ok a v =>
    rw [ha] at h
    obtain ⟨-, hp', t, ht, -, hhistory⟩ := h
    exact ⟨hp', t, hhistory, ht⟩
  | error f v =>
    rw [ha] at h
    obtain ⟨hs, hnone, -, hp', t, ht, -, hhistory⟩ := h
    obtain rfl := List.prefix_nil.mp hnone
    exact ⟨hp', t, hhistory, ht⟩

section Dispatching

variable {bound : Nat} {e : QueuedEvent} {w : World}

/-- Runs follow the law of delivery, whatever their bound is. -/
theorem bounded_delivery (bound : Nat) : delivery.Runs (bounded bound) :=
  Law.runs_bounded lenient_delivery (fun _ hrun => relates_drain hrun) bound

/-- The calls that tell about an event. -/
theorem heard_listen (hreg : Registered w) (hp : w.processing = true)
    (hdata : w.store.maps.Holds e.data) (hname : e.name ≠ wildcard)
    (hstay : ∀ u, tellAll (bounded bound) e.data (w.listeners.getD e.name []) w = .ok () u →
      u.listeners.getD wildcard [] = w.listeners.getD wildcard []) :
    match listen (bounded bound) e w with
    | .ok _ u => ∃ log, AllHeard (bounded bound) e w log u
    | .error f v => ∃ log r behind, HeardUntil (bounded bound) e w log r behind f v := by
  have hdelivery := bounded_delivery bound
  have hmaps := Law.bounded_steady steady_maps bound
  have hlisteners := Law.bounded_steady steady_listeners bound
  have hlisten : delivery.Obeyed (listen (bounded bound) e) :=
    Law.obeyed_bind (Law.obeyed_listenersFor _) fun _ =>
      Law.obeyed_bind (Law.obeyed_tellAll hdelivery _ _) fun _ =>
        Law.obeyed_bind (Law.obeyed_listenersFor _) fun _ =>
          Law.obeyed_tellEach hdelivery _ _ _
  have hwhole := noTurn_of_considersAt (considersAt_nil hlisten w) hreg hp
  have hfirst := @heard_tellAll (bounded bound) e (w.listeners.getD e.name []) w
  have hbusy := noTurn_of_considersAt (considersAt_nil
    (Law.obeyed_tellAll hdelivery e.data (w.listeners.getD e.name [])) w) hreg hp
  rw [listen_eq] at hwhole ⊢
  cases hown : tellAll (bounded bound) e.data (w.listeners.getD e.name []) w with
  | error f v =>
    rw [hown] at hfirst
    rw [Eval.run_bind_of_error hown] at hwhole ⊢
    obtain ⟨log, r, rest, u, hheard, hlist, hlog, hfailed⟩ := hfirst
    refine ⟨log, r, rest ++ w.listeners.getD wildcard [], ?_, ?_, ⟨u, _, hheard, hfailed⟩, hwhole.2⟩
    · rw [← List.append_nil log]
      exact calls_append hname hlog (copies_nil e w)
    · rw [← hlist, List.append_assoc, List.cons_append]
  | ok _ m =>
    rw [hown] at hfirst hbusy
    rw [Eval.run_bind_of_ok hown] at hwhole ⊢
    obtain ⟨own, hheard, hlist, hlog⟩ := hfirst
    have hheld : ∀ r, w.store.maps.Holds r → m.store.maps.Holds r :=
      (Law.obeyed_tellAll hmaps _ _).of_ok hown
    have hext : w.store.listeners.Extends m.store.listeners :=
      (Law.obeyed_tellAll hlisteners _ _).of_ok hown
    -- the second group is read from the registry only when the first one has been told
    have hsecond := heard_tellEach hmaps (m.listeners.getD wildcard []) (hheld _ hdata)
    have hthen : (listenersFor wildcard >>= tellEach (bounded bound) e.name e.data) m =
        tellEach (bounded bound) e.name e.data (m.listeners.getD wildcard []) m := rfl
    rw [hthen] at hwhole ⊢
    rw [hstay m hown] at hsecond hwhole ⊢
    cases heach : tellEach (bounded bound) e.name e.data (w.listeners.getD wildcard []) m with
    | error f v =>
      rw [heach] at hsecond hwhole
      obtain ⟨copies, r, given, rest, u, hheard', hlist', hcopies, hfailed⟩ := hsecond
      refine ⟨own ++ copies, r, rest, calls_append hname hlog (hcopies.before hheld), ?_,
        ⟨u, given, hheard.append hheard', hfailed⟩, hwhole.2⟩
      rw [List.map_append, List.append_assoc, hlist, hlist']
    | ok _ u =>
      rw [heach] at hsecond hwhole
      obtain ⟨copies, hheard', hlist', hcopies⟩ := hsecond
      refine ⟨own ++ copies, hheard.append hheard',
        calls_append hname hlog (hcopies.before hheld), ?_, ?_, hwhole.2, fun hdiscreet => ?_⟩
      · rw [List.filter_append, filter_own hlog, hcopies.filter_name hname, List.append_nil, hlist]
      · rw [List.filter_append, filter_own_wildcard hname hlog, hcopies.filter_wildcard,
          List.nil_append, hlist']
      · -- the copies are other maps than the data of the event
        obtain ⟨hsame, hpresent⟩ := hheard'.spares hlisteners hbusy.1 (hheld _ hdata)
          fun x hx => ⟨fun heq => (hcopies.copied x hx).fresh (heq ▸ hheld _ hdata),
            (hdiscreet x.listener (hlist' ▸ List.mem_map_of_mem hx)).extends hext⟩
        intro h hh hwild
        rcases List.mem_append.mp hh with hh | hh
        · exact absurd ((hlog h hh).name.symm.trans hwild) hname
        · exact (hpresent h hh).trans hsame.map_eq.symm

/-- Every listener hears of an event once.  A dispatch of an event of any name but that of the
    wildcard, in any world that comes up and with any data, while the registrations stay as they
    are, calls every registration under the name once with the data of the event itself, and then
    every registration under the wildcard once with a copy of its own of the data, which has the
    event's name; each group is called in the order of its registration.  Only then the handlers
    have their turns, and unless a listener under the wildcard writes to the data in another way
    than through its copy, they see the data that those listeners had copies of.  A listener that
    fails ends the dispatch: those in front of it were called as before, those behind it are not
    called, and no handler has a turn. -/
theorem dispatch_hears_once (hw : Arises w) (hp : w.processing = true)
    (hdata : w.store.maps.Holds e.data) (hname : e.name ≠ wildcard)
    (hstay : ∀ u, tellAll (bounded bound) e.data (w.listeners.getD e.name [])
        (w.record (.begun e w.handlers)) = .ok () u →
      u.listeners.getD wildcard [] = w.listeners.getD wildcard []) :
    match dispatch (bounded bound) e w with
    | .ok _ v => ∃ log u v', AllHeard (bounded bound) e (w.record (.begun e w.handlers)) log u ∧
        handleAll (bounded bound) e.data (w.handlers.getD e.name []) u = .ok () v' ∧
        v = v'.record (.ended e)
    | .error f v =>
      (∃ log r behind,
        HeardUntil (bounded bound) e (w.record (.begun e w.handlers)) log r behind f v) ∨
      ∃ log u, AllHeard (bounded bound) e (w.record (.begun e w.handlers)) log u ∧
        handleAll (bounded bound) e.data (w.handlers.getD e.name []) u = .error f v := by
  have hreg : Registered (w.record (.begun e w.handlers)) :=
    ⟨hw.registered.inOrder, hw.registered.past⟩
  have hlisten := heard_listen hreg hp hdata hname hstay
  rw [dispatch_eq, deliver_eq, bind_assoc]
  cases hl : listen (bounded bound) e (w.record (.begun e w.handlers)) with
  | error f v =>
    rw [hl] at hlisten
    rw [Eval.run_bind_of_error hl]
    exact .inl hlisten
  | ok _ u =>
    rw [hl] at hlisten
    rw [Eval.run_bind_of_ok hl]
    obtain ⟨log, hall⟩ := hlisten
    cases hh : handleAll (bounded bound) e.data (w.handlers.getD e.name []) u with
    | error f v =>
      rw [Eval.run_bind_of_error hh]
      exact .inr ⟨log, u, hall, hh⟩
    | ok _ v =>
      rw [Eval.run_bind_of_ok hh]
      exact ⟨log, u, v, hall, hh, rfl⟩

end Dispatching

/-- A listener that writes to the map that it is given. -/
def marking : Listener := fun given => .put given "seen" (.bool true) (.done .null)

/-- The dispatch of an event begins that one listener hears of under its name and under the
    wildcard. -/
def pinged : World :=
  { Session.serve (Session.bareWorld {} []) [.newListener marking, .subscribe "ping" ⟨0⟩,
      .subscribe wildcard ⟨0⟩, .build (.map [])] with processing := true }

/-- The listener is called once with the data itself and once with a copy, and what it writes to the
    copy does not get into the data. -/
theorem pinged_hears_once :
    ∃ log u, AllHeard (bounded runBound) ⟨"ping", ⟨0⟩⟩
        (pinged.record (.begun ⟨"ping", ⟨0⟩⟩ pinged.handlers)) log u ∧
      ∀ h ∈ log, h.name = wildcard → h.present = u.store.map ⟨0⟩ := by
  have harises : Arises pinged :=
    ⟨{}, [], (Leads.serve (Session.bareWorld {} []) _).trans (.same rfl)⟩
  have htold : (Session.perform (tellAll (bounded runBound) ⟨0⟩ (pinged.listeners.getD "ping" []))
      (pinged.record (.begun ⟨"ping", ⟨0⟩⟩ pinged.handlers))).2.listeners.getD wildcard [] =
        pinged.listeners.getD wildcard [] := by
    decide +kernel
  have hheld : pinged.store.maps.Holds (QueuedEvent.mk "ping" ⟨0⟩).data := by decide +kernel
  have hdispatch := dispatch_hears_once harises rfl hheld (by decide) fun u hu => by
    rwa [Session.perform_of_ok hu] at htold
  have hok : (Session.perform (dispatch (bounded runBound) ⟨"ping", ⟨0⟩⟩) pinged).1.isOk =
      true := by
    decide +kernel
  rw [Session.perform_of_isOk hok] at hdispatch
  obtain ⟨log, u, v, hall, -⟩ := hdispatch
  have hdiscreet : Discreet (bounded runBound) ⟨0⟩
      (pinged.record (.begun ⟨"ping", ⟨0⟩⟩ pinged.handlers)) ⟨0⟩ :=
    ⟨by decide +kernel, fun given hgiven => ⟨hgiven, trivial⟩⟩
  have hregistered : pinged.listeners.getD wildcard [] = [⟨0⟩] := by decide +kernel
  refine ⟨log, u, hall, hall.kept fun r hr => ?_⟩
  obtain rfl : r = ⟨0⟩ := List.mem_singleton.mp (hregistered ▸ hr)
  exact hdiscreet

/-- A listener that writes down what it hears. -/
def noting (name : String) : Listener := fun given =>
  .note (.listener name) [.map given] (.done .null)

/-- A session in which the first of two listeners of an event fails. -/
def interrupted : World :=
  Session.serve (Session.start {} []) [.newListener fun _ => .fail (.host "listener failed"),
    .newListener (noting "b"), .subscribe "ping" ⟨0⟩, .subscribe "ping" ⟨1⟩,
    .emit (.text "ping") .null]

/-- A session in which an event has the name of the wildcard. -/
def starred : World :=
  Session.serve (Session.start {} []) [.newListener (noting "a"), .subscribe wildcard ⟨0⟩,
    .emit (.text wildcard) .null]

/-- A map of the host. -/
def hostMap : MapRef := (Session.start {} []).store.maps.next

/-- A session in which a listener under the wildcard writes to the data of the event itself. -/
def overwritten : World :=
  Session.serve (Session.start {} []) [.build (.map []),
    .newListener fun _ => .put hostMap "seen" (.bool true) (.done .null), .subscribe wildcard ⟨0⟩,
    .emit (.text "ping") (.map hostMap)]

/-- A listener behind one that fails hears nothing, one under the wildcard hears twice of an event
    of this name, and one that has the data of an event at hand changes what handlers see. -/
theorem not_all_hear_once :
    (interrupted.listeners.getD "ping" [] = [⟨0⟩, ⟨1⟩] ∧ interrupted.journal.map (·.author) = []) ∧
    (starred.listeners.getD wildcard [] = [⟨0⟩] ∧
      starred.journal.map (·.author) = [.listener "a", .listener "a"]) ∧
    (overwritten.store.map hostMap).contains (.text "seen") = true := by
  decide +kernel

end EventScript
