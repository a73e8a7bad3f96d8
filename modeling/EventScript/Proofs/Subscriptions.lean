import EventScript.Proofs.Reached

/-! # Registrations of listeners

A host registers listeners for events, the same one perhaps several times, and is given a function
with each registration that takes it back.  What the session keeps is the listeners of each event;
taking back removes the first registration of the same listener for the same event, whichever it
was.  The registrations that the host has not taken back yet are an account of their own,
`remaining`, and the listeners of the session agree with it as long as no function that was called
already is called again while its listener is still registered.

* `Desk.step_sublist`          listeners stay in the order of their registration
* `Desk.Agrees.step_iff`       a call keeps the agreement exactly if it is not surplus
* `Desk.registered_perm_iff`   when the listeners are those of the remaining registrations
-/

namespace EventScript

/-! ## The account of a host -/

/-- A registration of a listener for an event, and whether its function was called. -/
structure Subscription where
  event : String
  listener : ListenerRef
  cancelled : Bool

/-- What a host does about its listeners. -/
inductive HostCall
  /-- Register a listener for an event. -/
  | on (event : String) (listener : ListenerRef)
  /-- Call the function of a registration, by the place of the registration. -/
  | off (place : Nat)

/-- A session together with the registrations that its host made, in their order. -/
structure Desk where
  world : World
  made : List Subscription

/-- The listeners of an event that were registered and not taken back. -/
def remaining (made : List Subscription) (event : String) : List ListenerRef :=
  (made.filter fun s => s.event = event ∧ s.cancelled = false).map (·.listener)

/-- The listeners of an event that were ever registered. -/
def everMade (made : List Subscription) (event : String) : List ListenerRef :=
  (made.filter (·.event = event)).map (·.listener)

namespace HostCall

/-- What is asked of the session. -/
def requests (made : List Subscription) : HostCall → List Request
  | on event listener => [.subscribe event listener]
  | off place => made[place]?.toList.map fun s => .unsubscribe s.event s.listener

/-- The registrations behind it. -/
def account (made : List Subscription) : HostCall → List Subscription
  | on event listener => made ++ [⟨event, listener, false⟩]
  | off place => made.modify place fun s => { s with cancelled := true }

end HostCall

namespace Desk

/-- A session in which nothing is registered. -/
def start (w : World) : Desk := ⟨{ w with listeners := .empty }, []⟩

/-- The desk behind a call of the host. -/
def step (d : Desk) (c : HostCall) : Desk :=
  ⟨Session.serve d.world (c.requests d.made), c.account d.made⟩

/-- The desk behind calls of the host, one after the other. -/
def run (d : Desk) (cs : List HostCall) : Desk := cs.foldl step d

/-- The listeners that the session has for an event. -/
def registered (d : Desk) (event : String) : List ListenerRef := d.world.listeners.getD event []

/-- The call is for a function that was called already, while its listener is still registered. -/
def Surplus (d : Desk) (c : HostCall) : Prop :=
  ∃ place s, c = .off place ∧ d.made[place]? = some s ∧ s.cancelled = true ∧
    s.listener ∈ d.registered s.event

/-- The listeners of the session are those of the remaining registrations. -/
def Agrees (d : Desk) : Prop := ∀ event, (d.registered event).Perm (remaining d.made event)

/-! ## One call -/

variable {d : Desk}

@[simp] theorem made_step (c : HostCall) : (d.step c).made = c.account d.made := rfl

theorem registered_on (event name : String) (l : ListenerRef) :
    (d.step (.on event l)).registered name =
      if name = event then d.registered name ++ [l] else d.registered name :=
  Table.getD_pushTo d.world.listeners event name l

theorem registered_off {place : Nat} {s : Subscription} (hs : d.made[place]? = some s)
    (name : String) :
    (d.step (.off place)).registered name =
      if name = s.event then (d.registered name).erase s.listener else d.registered name := by
  have hstep : (d.step (.off place)).world = Evaluate.unsubscribe s.event s.listener d.world := by
    simp only [step, HostCall.requests, hs]
    rfl
  simp only [registered, hstep, Evaluate.unsubscribe]
  cases hevent : d.world.listeners.get? s.event with
  | none =>
    by_cases hname : name = s.event
    · subst hname
      simp [Table.getD, hevent]
    · simp [hname]
  | some rs =>
    by_cases hname : name = s.event
    · subst hname
      simp [Table.getD, hevent]
    · simp [hname, Table.getD_put_of_ne _ _ _ hname]

theorem registered_off_of_none {place : Nat} (hs : d.made[place]? = none) (name : String) :
    (d.step (.off place)).registered name = d.registered name := by
  simp only [registered, step, HostCall.requests, hs]
  rfl

end Desk

/-! ## The account behind a call -/

theorem remaining_on (made : List Subscription) (event name : String) (l : ListenerRef) :
    remaining (HostCall.account made (.on event l)) name =
      if name = event then remaining made name ++ [l] else remaining made name := by
  by_cases hname : name = event
  · subst hname
    simp [remaining, HostCall.account]
  · simp [remaining, HostCall.account, hname, Ne.symm hname]

/-- A registration that is made goes behind all others. -/
theorem everMade_on (made : List Subscription) (event name : String) (l : ListenerRef) :
    everMade (HostCall.account made (.on event l)) name =
      if name = event then everMade made name ++ [l] else everMade made name := by
  by_cases hname : name = event
  · subst hname
    simp [everMade, HostCall.account]
  · simp [everMade, HostCall.account, hname, Ne.symm hname]

theorem account_off_of_none {made : List Subscription} {place : Nat}
    (hs : made[place]? = none) : HostCall.account made (.off place) = made :=
  List.modify_eq_self (List.getElem?_eq_none_iff.mp hs)

/-- The account around one of its registrations. -/
theorem exists_account_off {made : List Subscription} {place : Nat} {s : Subscription}
    (hs : made[place]? = some s) :
    ∃ before after, made = before ++ s :: after ∧
      HostCall.account made (.off place) = before ++ { s with cancelled := true } :: after := by
  obtain ⟨hplace, rfl⟩ := List.getElem?_eq_some_iff.mp hs
  refine ⟨made.take place, made.drop (place + 1), ?_, List.modify_eq_take_cons_drop hplace⟩
  rw [List.getElem_cons_drop, List.take_append_drop]

theorem everMade_off (made : List Subscription) (place : Nat) (name : String) :
    everMade (HostCall.account made (.off place)) name = everMade made name := by
  cases hs : made[place]? with
  | none => rw [account_off_of_none hs]
  | some s =>
    obtain ⟨before, after, hmade, hoff⟩ := exists_account_off hs
    rw [hoff, hmade]
    by_cases hname : s.event = name
    · simp [everMade, hname]
    · simp [everMade, hname]

/-- A function that was called already changes nothing in the account. -/
theorem remaining_off_of_cancelled {made : List Subscription} {place : Nat} {s : Subscription}
    (hs : made[place]? = some s) (hcancelled : s.cancelled = true) (name : String) :
    remaining (HostCall.account made (.off place)) name = remaining made name := by
  obtain ⟨before, after, hmade, hoff⟩ := exists_account_off hs
  rw [hoff, hmade]
  simp [remaining, hcancelled]

/-- A function that is called for the first time takes one registration of its event out of the
    account. -/
theorem remaining_off {made : List Subscription} {place : Nat} {s : Subscription}
    (hs : made[place]? = some s) (hfirst : s.cancelled = false) (name : String) :
    (remaining made name).Perm
      (if name = s.event then s.listener :: remaining (HostCall.account made (.off place)) name
        else remaining (HostCall.account made (.off place)) name) := by
  obtain ⟨before, after, hmade, hoff⟩ := exists_account_off hs
  rw [hoff, hmade]
  by_cases hname : name = s.event
  · subst hname
    simp [remaining, hfirst]
  · simp [remaining, hname, Ne.symm hname]

/-! ## Agreement -/

namespace Desk

variable {d : Desk}

/-- A call keeps the listeners in the order of their registration. -/
theorem step_sublist (hd : ∀ event, (d.registered event).Sublist (everMade d.made event))
    (c : HostCall) (event : String) :
    ((d.step c).registered event).Sublist (everMade (d.step c).made event) := by
  cases c with
  | on name l =>
    rw [registered_on, made_step, everMade_on]
    split
    · exact (hd event).append (List.Sublist.refl _)
    · exact hd event
  | off place =>
    rw [made_step, everMade_off]
    cases hs : d.made[place]? with
    | none =>
      rw [registered_off_of_none hs]
      exact hd event
    | some s =>
      rw [registered_off hs]
      split
      · exact List.erase_sublist.trans (hd event)
      · exact hd event

/-- A listener and a registration come and go together, but for a surplus call. -/
theorem Agrees.step_iff (hd : d.Agrees) (c : HostCall) : (d.step c).Agrees ↔ ¬ d.Surplus c := by
  cases c with
  | on name l =>
    have hno : ¬ d.Surplus (.on name l) := fun ⟨_, _, h, _⟩ => nomatch h
    refine iff_of_true (fun event => ?_) hno
    rw [registered_on, made_step, remaining_on]
    split
    · exact (hd event).append_right [l]
    · exact hd event
  | off place =>
    cases hs : d.made[place]? with
    | none =>
      have hno : ¬ d.Surplus (.off place) := by
        rintro ⟨_, s, h, hs', -⟩
        cases h
        rw [hs] at hs'
        cases hs'
      refine iff_of_true (fun event => ?_) hno
      rw [registered_off_of_none hs, made_step, account_off_of_none hs]
      exact hd event
    | some s =>
      cases hcancelled : s.cancelled with
      | false =>
        have hno : ¬ d.Surplus (.off place) := by
          rintro ⟨_, s', h, hs', hcancelled', -⟩
          cases h
          obtain rfl : s = s' := by simpa [hs] using hs'
          simp [hcancelled] at hcancelled'
        refine iff_of_true (fun event => ?_) hno
        -- one registration leaves the account, and one listener of it leaves the session
        have hleft := (hd event).trans (remaining_off hs hcancelled event)
        rw [registered_off hs, made_step]
        split
        · rename_i hevent
          rw [if_pos hevent] at hleft
          simpa using hleft.erase s.listener
        · rename_i hevent
          rwa [if_neg hevent] at hleft
      | true =>
        constructor
        · -- the account stays, so the session must not lose a listener
          rintro hstep ⟨_, s', h, hs', -, hmem⟩
          cases h
          obtain rfl : s = s' := by simpa [hs] using hs'
          have hlength := (hstep s.event).length_eq
          rw [registered_off hs, if_pos rfl, made_step, remaining_off_of_cancelled hs hcancelled,
            ← (hd s.event).length_eq, List.length_erase_of_mem hmem] at hlength
          have hpos := List.length_pos_of_mem hmem
          omega
        · intro hno event
          rw [registered_off hs, made_step, remaining_off_of_cancelled hs hcancelled]
          split
          · rename_i hevent
            subst hevent
            have hmem : s.listener ∉ d.registered s.event := fun hmem =>
              hno ⟨place, s, rfl, hs, hcancelled, hmem⟩
            rw [List.erase_of_not_mem hmem]
            exact hd s.event
          · exact hd event

/-- The listeners stay in the order of their registration. -/
theorem run_sublist (hd : ∀ event, (d.registered event).Sublist (everMade d.made event))
    (calls : List HostCall) (event : String) :
    ((d.run calls).registered event).Sublist (everMade (d.run calls).made event) := by
  induction calls generalizing d with
  | nil => exact hd event
  | cons c rest ih => exact ih (step_sublist hd c)

/-- The listeners agree with the account all the way exactly if no call on the way is surplus. -/
theorem Agrees.run_iff (hd : d.Agrees) (calls : List HostCall) :
    (∀ before, before <+: calls → (d.run before).Agrees) ↔
      ∀ before c, before ++ [c] <+: calls → ¬ (d.run before).Surplus c := by
  induction calls generalizing d with
  | nil =>
    refine iff_of_true (fun before hbefore => ?_) fun before c hbefore => ?_
    · rw [List.prefix_nil.mp hbefore]
      exact hd
    · simp at hbefore
  | cons c rest ih =>
    constructor
    · intro hall before c' hbefore
      cases before with
      | nil =>
        obtain rfl : c' = c := by simpa using hbefore
        exact (hd.step_iff c').mp (hall [c'] hbefore)
      | cons b before =>
        obtain ⟨rfl, hrest⟩ := List.cons_prefix_cons.mp hbefore
        have hstep : (d.step b).Agrees := hall [b] (List.prefix_append _ _)
        have hbehind : ∀ before' : List HostCall, before' <+: rest →
            ((d.step b).run before').Agrees := fun before' h =>
          hall (b :: before') (List.cons_prefix_cons.mpr ⟨rfl, h⟩)
        exact (ih hstep).mp hbehind before c' hrest
    · intro hnone before hbefore
      have hstep : (d.step c).Agrees := (hd.step_iff c).mpr (hnone [] c (List.prefix_append _ _))
      cases before with
      | nil => exact hd
      | cons b before =>
        obtain ⟨rfl, hrest⟩ := List.cons_prefix_cons.mp hbefore
        exact (ih hstep).mpr
          (fun before' c' h => hnone (b :: before') c' (List.cons_prefix_cons.mpr ⟨rfl, h⟩))
          before hrest

theorem agrees_start (w : World) : (start w).Agrees := fun _ => .refl _

/-- Listeners and remaining registrations.

    Whatever registrations a host makes and takes back in a session without listeners, the same
    listener several times and under several events among them, the listeners of every event stay in
    the order of their registration.  They are, up to equal listeners, those of the registrations
    that were not taken back, after each of the calls, exactly if no function that was called
    already is called again while its listener is registered for its event. -/
theorem registered_perm_iff (w : World) (calls : List HostCall) :
    (∀ event, (((start w).run calls).registered event).Sublist
      (everMade ((start w).run calls).made event)) ∧
    ((∀ before, before <+: calls → ∀ event, (((start w).run before).registered event).Perm
      (remaining ((start w).run before).made event)) ↔
      ∀ before c, before ++ [c] <+: calls → ¬ ((start w).run before).Surplus c) :=
  ⟨run_sublist (fun _ => .refl _) calls, (agrees_start w).run_iff calls⟩

end Desk

/-- A listener is registered twice, and the function of its first registration is called twice. -/
def calledTwice : List HostCall := [.on "ping" ⟨0⟩, .on "ping" ⟨0⟩, .off 0, .off 0]

/-- The second call of the function takes the other registration of the listener, which was not
    taken back. -/
theorem calledTwice_takes_other :
    ((Desk.start (Session.start {} [])).run calledTwice).registered "ping" = [] ∧
    remaining ((Desk.start (Session.start {} [])).run calledTwice).made "ping" = [⟨0⟩] ∧
    ¬ ∀ before c, before ++ [c] <+: calledTwice →
      ¬ ((Desk.start (Session.start {} [])).run before).Surplus c := by
  have hnone : ((Desk.start (Session.start {} [])).run calledTwice).registered "ping" = [] := by
    decide +kernel
  have hone : remaining ((Desk.start (Session.start {} [])).run calledTwice).made "ping" =
      [⟨0⟩] := by
    decide +kernel
  refine ⟨hnone, hone, fun hnoSurplus => ?_⟩
  have hperm := ((Desk.agrees_start (Session.start {} [])).run_iff calledTwice).mpr hnoSurplus
    calledTwice (List.prefix_refl _) "ping"
  rw [hnone, hone] at hperm
  exact absurd hperm.length_eq (by simp)

end EventScript
