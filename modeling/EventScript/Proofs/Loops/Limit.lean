import EventScript.Proofs.Calls
import EventScript.Proofs.Loops.Completion
import EventScript.Proofs.Law.Steady

/-! # The ceiling on the rounds of a loop

Both loops of the language look for a next round, and if there is one they make it.  Without a
ceiling this ends after some number of rounds, or it goes past each number.  With a ceiling it is
the same as long as no round is about to start behind as many as there may be.

* `Looping.Finishes`, `Looping.GoesPast`   what a loop does without a ceiling
* `Looping.keepsTo`                        what becomes of it with one
* `Looping.ofItems`, `Looping.ofTest`      the two loops of the language
* `ceilings_are_exact`                     both ceilings
-/

namespace EventScript

open Evaluate

/-- No computation changes the settings. -/
theorem steady_settings : Steady fun v w : World => w.settings = v.settings where
  same h := by rw [h]
  trans huv hvw := hvw.trans huv
  change h := h.settings

section

variable {w : World} {rounds limit : Nat} (span : Span)

theorem checkRounds_of_le (hw : w.settings.maxLoopIterations = some limit) (h : rounds ≤ limit) :
    checkRounds rounds span w = .ok () w := by
  rw [checkRounds, Eval.run_get_bind, hw]
  simp [Nat.not_lt.mpr h]

theorem checkRounds_of_lt (hw : w.settings.maxLoopIterations = some limit) (h : limit < rounds) :
    checkRounds rounds span w =
      .error (.diagnostic ⟨.loopLimit limit, some span, none⟩) w := by
  rw [checkRounds, Eval.run_get_bind, hw]
  simp [h, Eval.problem]

end

/-! ## Loops without a ceiling -/

/-- A loop: it looks for a next round, which is about something and leaves something for the rounds
    behind it, and it makes the round. -/
structure Looping (σ ι : Type) where
  next : σ → Eval (Option (ι × σ))
  body : ι → Eval Completion

/-- What a loop completes with when a round completes so, unless it goes on. -/
def Completion.ofLoop? : Completion → Option Completion
  | .broke => some .normal
  | .returned v => some (.returned v)
  | .normal | .continued => none

namespace Looping

variable {σ ι : Type} {l : Looping σ ι} {s : σ} {w v : World} {n m : Nat}
  {r : EStateM.Result Failure World Completion}

/-- The loop ends with an outcome, and its body runs a number of times before. -/
inductive Finishes (l : Looping σ ι) :
    Nat → σ → World → EStateM.Result Failure World Completion → Prop
  /-- There is no next round. -/
  | exhausted {s : σ} {w u : World} (hnext : l.next s w = .ok none u) :
    l.Finishes 0 s w (.ok .normal u)
  /-- Looking for the next round fails. -/
  | undecided {s : σ} {w u : World} {e : Failure} (hnext : l.next s w = .error e u) :
    l.Finishes 0 s w (.error e u)
  /-- A round leaves the loop. -/
  | left {s t : σ} {w u v : World} {i : ι} {c d : Completion}
      (hnext : l.next s w = .ok (some (i, t)) u) (hbody : l.body i u = .ok c v)
      (hc : c.ofLoop? = some d) : l.Finishes 1 s w (.ok d v)
  /-- A round fails. -/
  | failed {s t : σ} {w u v : World} {i : ι} {e : Failure}
      (hnext : l.next s w = .ok (some (i, t)) u) (hbody : l.body i u = .error e v) :
    l.Finishes 1 s w (.error e v)
  /-- A round goes on. -/
  | round {n : Nat} {s t : σ} {w u v : World} {i : ι} {c : Completion}
      {r : EStateM.Result Failure World Completion}
      (hnext : l.next s w = .ok (some (i, t)) u) (hbody : l.body i u = .ok c v)
      (hc : c.ofLoop? = none) (hrest : l.Finishes n t v r) : l.Finishes (n + 1) s w r

/-- Behind a number of rounds that all went on the loop is about to start one more. -/
inductive GoesPast (l : Looping σ ι) : Nat → σ → World → World → Prop
  | start {s t : σ} {w u : World} {i : ι} (hnext : l.next s w = .ok (some (i, t)) u) :
    l.GoesPast 0 s w u
  | round {n : Nat} {s t : σ} {w u v v' : World} {i : ι} {c : Completion}
      (hnext : l.next s w = .ok (some (i, t)) u) (hbody : l.body i u = .ok c v)
      (hc : c.ofLoop? = none) (hrest : l.GoesPast n t v v') : l.GoesPast (n + 1) s w v'

/-- A loop finishes by some number of rounds or goes past it. -/
theorem finishes_or_goesPast (l : Looping σ ι) (limit : Nat) (s : σ) (w : World) :
    (∃ n r, n ≤ limit ∧ l.Finishes n s w r) ∨ ∃ v, l.GoesPast limit s w v := by
  -- one round is made in front of the rest, so that what is left is a loop from where it led to
  induction limit generalizing s w with
  | zero =>
    cases hnext : l.next s w with
    | error e u => exact .inl ⟨0, _, Nat.le_refl _, .undecided hnext⟩
    | ok found u =>
      cases found with
      | none => exact .inl ⟨0, _, Nat.le_refl _, .exhausted hnext⟩
      | some found => exact .inr ⟨u, .start hnext⟩
  | succ limit ih =>
    cases hnext : l.next s w with
    | error e u => exact .inl ⟨0, _, Nat.zero_le _, .undecided hnext⟩
    | ok found u =>
      cases found with
      | none => exact .inl ⟨0, _, Nat.zero_le _, .exhausted hnext⟩
      | some found =>
        obtain ⟨i, t⟩ := found
        cases hbody : l.body i u with
        | error e v => exact .inl ⟨1, _, by omega, .failed hnext hbody⟩
        | ok c v =>
          cases hc : c.ofLoop? with
          | some d => exact .inl ⟨1, _, by omega, .left hnext hbody hc⟩
          | none =>
            obtain ⟨n, r, hn, hrest⟩ | ⟨v', hrest⟩ := ih t v
            · exact .inl ⟨n + 1, r, by omega, .round hnext hbody hc hrest⟩
            · exact .inr ⟨v', .round hnext hbody hc hrest⟩

/-- It does not do both. -/
theorem GoesPast.not_finishes (h : l.GoesPast n s w v) (hm : m ≤ n) : ¬ l.Finishes m s w r := by
  intro hfinishes
  -- both make the same rounds, so they part where one of them ends
  induction h generalizing m with
  | start hnext =>
    cases hfinishes with
    | exhausted hnext' | undecided hnext' => simp [hnext] at hnext'
    | left | failed | round => omega
  | round hnext hbody hc _ ih =>
    cases hfinishes with
    | exhausted hnext' | undecided hnext' => simp [hnext] at hnext'
    | left hnext' hbody' hc' =>
      obtain ⟨⟨rfl, rfl⟩, rfl⟩ := by simpa [hnext] using hnext'
      obtain ⟨rfl, rfl⟩ := by simpa [hbody] using hbody'
      simp [hc] at hc'
    | failed hnext' hbody' =>
      obtain ⟨⟨rfl, rfl⟩, rfl⟩ := by simpa [hnext] using hnext'
      simp [hbody] at hbody'
    | round hnext' hbody' hc' hrest' =>
      obtain ⟨⟨rfl, rfl⟩, rfl⟩ := by simpa [hnext] using hnext'
      obtain ⟨rfl, rfl⟩ := by simpa [hbody] using hbody'
      exact ih (by omega) hrest'

/-! ## Loops with a ceiling -/

/-- What a loop does behind a number of rounds, once it has looked for the next one: a round that is
    to start is checked. -/
def goOn (l : Looping σ ι) (span : Span) (exec : Nat → σ → Eval Completion) (rounds : Nat) :
    Option (ι × σ) → Eval Completion
  | none => return .normal
  | some (i, t) => do
    checkRounds (rounds + 1) span
    match (← l.body i).ofLoop? with
    | some c => return c
    | none => exec (rounds + 1) t

section

variable {span : Span} {exec : Nat → σ → Eval Completion} {rounds limit : Nat}
  (hexec : ∀ rounds s, exec rounds s = l.next s >>= l.goOn span exec rounds)
  (hnext : ∀ s, (Law.steady steady_settings).Obeyed (l.next s))
  (hbody : ∀ i, (Law.steady steady_settings).Obeyed (l.body i))

include hexec

theorem run_of_next {u : World} {found : Option (ι × σ)} (h : l.next s w = .ok found u) :
    exec rounds s w = l.goOn span exec rounds found u := by
  rw [hexec, Eval.run_bind_of_ok h]

include hnext

/-- A round that may start. -/
theorem run_of_round {u : World} {i : ι} {t : σ} (h : l.next s w = .ok (some (i, t)) u)
    (hw : w.settings.maxLoopIterations = some limit) (hmore : rounds + 1 ≤ limit) :
    exec rounds s w = (do
      match (← l.body i).ofLoop? with
      | some c => return c
      | none => exec (rounds + 1) t : Eval Completion) u := by
  have hu : u.settings.maxLoopIterations = some limit := by
    rw [← hw]
    exact congrArg _ ((hnext s).of_ok h)
  rw [run_of_next hexec h]
  exact Eval.run_bind_of_ok (checkRounds_of_le span hu hmore)

include hbody

/-- A loop that finishes soon enough does so, whatever the ceiling is. -/
theorem Finishes.within (h : l.Finishes n s w r)
    (hw : w.settings.maxLoopIterations = some limit) (hn : rounds + n ≤ limit) :
    exec rounds s w = r := by
  induction h generalizing rounds with
  | exhausted h => exact run_of_next hexec h
  | undecided h => rw [hexec, Eval.run_bind_of_error h]
  | left h hb hc =>
    rw [run_of_round hexec hnext h hw hn, Eval.run_bind_of_ok hb, hc]
    rfl
  | failed h hb => rw [run_of_round hexec hnext h hw hn, Eval.run_bind_of_error hb]
  | round h hb hc _ ih =>
    rw [run_of_round hexec hnext h hw (by omega), Eval.run_bind_of_ok hb, hc]
    exact ih (by rw [← hw, (hbody _).of_ok hb, (hnext _).of_ok h]) (by omega)

/-- A loop that goes past the ceiling is refused the first round behind it. -/
theorem GoesPast.refused (h : l.GoesPast n s w v)
    (hw : w.settings.maxLoopIterations = some limit) (hn : rounds + n = limit) :
    exec rounds s w = .error (.diagnostic ⟨.loopLimit limit, some span, none⟩) v := by
  induction h generalizing rounds with
  | start h =>
    -- the check comes once the next round is found, and before its body
    have hu : _ := (hnext _).of_ok h
    rw [run_of_next hexec h]
    exact Eval.run_bind_of_error (checkRounds_of_lt span (by rw [hu, hw]) (by omega))
  | round h hb hc _ ih =>
    rw [run_of_round hexec hnext h hw (by omega), Eval.run_bind_of_ok hb, hc]
    exact ih (by rw [← hw, (hbody _).of_ok hb, (hnext _).of_ok h]) (by omega)

/-- What a ceiling makes of a loop: one that finishes soon enough does so as without the ceiling,
    one that is about to start a round more is refused that round, and every loop does one of
    both. -/
structure KeepsTo (l : Looping σ ι) (span : Span) (limit : Nat) (s : σ) (w : World)
    (outcome : EStateM.Result Failure World Completion) : Prop where
  finishes : ∀ n r, n ≤ limit → l.Finishes n s w r → outcome = r
  refused : ∀ v, l.GoesPast limit s w v →
    outcome = .error (.diagnostic ⟨.loopLimit limit, some span, none⟩) v
  either : (∃ n r, n ≤ limit ∧ l.Finishes n s w r) ∨ ∃ v, l.GoesPast limit s w v
  notBoth : ∀ n r v, n ≤ limit → l.Finishes n s w r → ¬ l.GoesPast limit s w v

theorem keepsTo (hw : w.settings.maxLoopIterations = some limit) :
    l.KeepsTo span limit s w (exec 0 s w) where
  finishes n r hn h := h.within hexec hnext hbody hw (by omega)
  refused v h := h.refused hexec hnext hbody hw (by omega)
  either := l.finishes_or_goesPast limit s w
  notBoth n r v hn h hpast := hpast.not_finishes hn h

end

end Looping

/-! ## The loops of the language -/

/-- A loop over items. -/
def Looping.ofItems (run : Runner) (item : String) (body : Block) (scope : ScopeRef) :
    Looping (List Value) Value where
  next
    | [] => return none
    | v :: rest => return some (v, rest)
  body v := do
    let inner ← Eval.childScope scope
    Eval.define inner item v
    block run body inner

/-- A loop with a condition, which is left a bound on its steps. -/
def Looping.ofTest (test : Expr) (body : Block) (scope : ScopeRef) : Looping Nat Nat where
  next
    | 0 => throw .outOfFuel
    | bound + 1 => do
      if ← Eval.truth (← bounded bound (.eval test scope)) then return some (bound, bound)
      else return none
  body bound := do block (bounded bound) body (← Eval.childScope scope)

section

variable (span : Span) (body : Block) (scope : ScopeRef)

theorem forEach_eq (run : Runner) (item : String) (rounds : Nat) (vs : List Value) :
    forEach run span item body scope rounds vs =
      (Looping.ofItems run item body scope).next vs >>=
        (Looping.ofItems run item body scope).goOn span (forEach run span item body scope)
          rounds := by
  cases vs with
  | nil => rfl
  | cons v rest =>
    simp only [forEach, Looping.ofItems, Looping.goOn, pure_bind, bind_assoc]
    refine bind_congr fun _ => bind_congr fun inner => bind_congr fun _ => bind_congr fun c => ?_
    cases c <;> rfl

theorem bounded_whileLoop_eq (test : Expr) (rounds bound : Nat) :
    bounded bound (.whileLoop span test body scope rounds) =
      (Looping.ofTest test body scope).next bound >>=
        (Looping.ofTest test body scope).goOn span
          (fun rounds bound => bounded bound (.whileLoop span test body scope rounds)) rounds := by
  cases bound with
  | zero => rfl
  | succ bound =>
    simp only [bounded, step, whileLoop, Looping.ofTest, bind_assoc]
    refine bind_congr fun v => bind_congr fun holds => ?_
    split
    · simp only [pure_bind, Looping.goOn, bind_assoc]
      refine bind_congr fun _ => bind_congr fun inner => bind_congr fun c => ?_
      cases c <;> rfl
    · rfl

/-- A loop over items keeps to the ceiling, and so does every other execution of it. -/
theorem keepsTo_forIn {bound limit : Nat} {w v : World} {r : ListRef} {item : String}
    {iterable : Expr} (hlist : bounded bound (.eval iterable scope) w = .ok (.list r) v)
    (hlimit : v.settings.maxLoopIterations = some limit) :
    (Looping.ofItems (bounded bound) item body scope).KeepsTo span limit (v.store.list r).toList v
      (bounded (bound + 1) (.exec (.forIn span item iterable body) scope) w) := by
  have hstart : bounded (bound + 1) (.exec (.forIn span item iterable body) scope) w =
      forEach (bounded bound) span item body scope 0 (v.store.list r).toList v :=
    Eval.run_bind_of_ok hlist
  rw [hstart]
  refine Looping.keepsTo (forEach_eq span body scope _ item) (fun vs => ?_) (fun v => ?_) hlimit
  · cases vs <;> exact Law.obeyed_pure _
  · exact Law.obeyed_bind (Law.obeyed_childScope _) fun _ =>
      Law.obeyed_bind (Law.obeyed_define trivial v) fun _ =>
        Law.obeyed_blockInside (Law.bounded_steady steady_settings _) trivial fun _ => trivial

/-- A loop with a condition keeps to the ceiling. -/
theorem keepsTo_whileLoop {bound limit : Nat} {w : World} {test : Expr}
    (hlimit : w.settings.maxLoopIterations = some limit) :
    (Looping.ofTest test body scope).KeepsTo span limit bound w
      (bounded (bound + 1) (.exec (.whileLoop span test body) scope) w) := by
  have hrun := Law.bounded_steady steady_settings
  refine Looping.keepsTo (bounded_whileLoop_eq span body scope test) (fun bound => ?_)
    (fun bound => ?_) hlimit
  · cases bound with
    | zero => exact fun w => rfl
    | succ bound =>
      refine Law.obeyed_bind ((hrun bound).eval trivial scope) fun v =>
        Law.obeyed_bind (Law.obeyed_truth v) fun _ => ?_
      split <;> exact Law.obeyed_pure _
  · exact Law.obeyed_bind (Law.obeyed_childScope _) fun _ =>
      Law.obeyed_blockInside (hrun bound) trivial fun _ => trivial

end

/-! ## Both ceilings -/

/-- The ceilings are exact.

    Whatever a host asks of a session, the number of calls that its world counts is at every moment
    the number of calls that the work in progress lies inside of, which a run can count without the
    world; and behind the request it is 0 again.  This also holds of every piece of work that starts
    in the middle of a run.  A call is refused, with the code E408, just when as many are in
    progress as may be, whether an expression calls a function or method, the host calls it, or a
    native that was given it as a callback; otherwise its body runs with one more call in progress.

    A ceiling on the rounds of loops leaves an execution of a loop as it is that ends within so many
    runs of its body, for whatever reason.  One that has made so many rounds, all of which went on,
    and is about to start one more, is refused that round, with the code E406.  Every execution of a
    loop does one of both, and starts to count from 0. -/
theorem ceilings_are_exact :
    (∀ w, Reached w → ∀ (r : Request) astray,
      r.via (boundedWithin astray runBound 0) w = r.act w ∧
        LeavesIn (fun v => v.callDepth = 0) (r.act w)) ∧
    (∀ astray bound calls t (w : World), w.callDepth = calls → calls ≤ w.settings.maxCallDepth →
      boundedWithin astray bound calls t w = bounded bound t w ∧
        LeavesIn (fun v => v.callDepth = calls) (bounded bound t w)) ∧
    (∀ bound f args span (w : World),
      (w.settings.maxCallDepth ≤ w.callDepth → bounded (bound + 1) (.call f args span) w =
        .error (.diagnostic ⟨.callDepth w.settings.maxCallDepth, span, none⟩) w) ∧
      (w.callDepth < w.settings.maxCallDepth → bounded (bound + 1) (.call f args span) w =
        Eval.ensuring (invoke (bounded bound) (w.store.function f) args)
          (fun v => { v with callDepth := v.callDepth - 1 })
          { w with callDepth := w.callDepth + 1 })) ∧
    (∀ run scope span callee arguments w f u args v,
      run (.eval callee scope) w = .ok (.function f) u →
      evalAll run scope arguments u = .ok args v →
        expression run scope (.call span callee arguments) w = run (.call f args (some span)) v) ∧
    (∀ f args, Session.call (.function f) args = Evaluate.run (.call f args none)) ∧
    (∀ f (w : World), ∃ r name v, toNative (.function f) w = .ok (.native (.made r)) v ∧
      v.store.native r = .callback f name) ∧
    (∀ run r args f name (w : World), w.store.native r = .callback f name →
      native run (.made r) args w = run (.call f args none) w) ∧
    (∀ bound span item iterable body scope w r v limit,
      bounded bound (.eval iterable scope) w = .ok (.list r) v →
      v.settings.maxLoopIterations = some limit →
        (Looping.ofItems (bounded bound) item body scope).KeepsTo span limit
          (v.store.list r).toList v
          (bounded (bound + 1) (.exec (.forIn span item iterable body) scope) w)) ∧
    (∀ bound span test body scope (w : World) limit,
      w.settings.maxLoopIterations = some limit →
        (Looping.ofTest test body scope).KeepsTo span limit bound w
          (bounded (bound + 1) (.exec (.whileLoop span test body) scope) w)) ∧
    (∀ limit, (Problem.callDepth limit).code = "E408" ∧
      (Problem.loopLimit limit).code = "E406") := by
  refine ⟨fun w hw r astray => r.via_counted hw astray, ?_, ?_, ?_, fun _ _ => rfl, ?_, ?_, ?_, ?_,
    fun _ => ⟨rfl, rfl⟩⟩
  · rintro astray bound _ t w rfl hcalls
    obtain ⟨hsame, hleaves⟩ := agree_boundedWithin astray bound hcalls t w ⟨rfl, rfl⟩
    exact ⟨hsame, hleaves.imp fun _ h => h.callDepth⟩
  · exact fun bound f args span w => ⟨callFunction_of_full _ f args span,
      fun h => callFunction_of_not_full _ f args span (Nat.not_le_of_lt h)⟩
  · intro run scope span callee arguments w f u args v hcallee hargs
    rw [expression, Eval.run_bind_of_ok hcallee, Eval.run_bind_of_ok hargs]
    rfl
  · exact fun f w => ⟨w.store.natives.next, (w.store.function f).name, _, rfl, by
      simp [Store.native]⟩
  · intro run r args f name w hmade
    have hread : Eval.read (fun s => s.native r) w = .ok (.callback f name) w := by
      simp [Eval.read, hmade]
    exact Eval.run_bind_of_ok hread
  · exact fun _ span _ _ body scope _ _ _ _ hlist hlimit =>
      keepsTo_forIn span body scope hlist hlimit
  · exact fun _ span _ body scope _ _ hlimit => keepsTo_whileLoop span body scope hlimit

/-- One call at a time, and two rounds of every loop. -/
def lowCeilings : Settings := { maxCallDepth := 1, maxLoopIterations := some 2 }

/-- A body that does nothing. -/
def idleBody : Block := ⟨default, []⟩

/-- Three items. -/
def threeItems : Expr := .list default [.null default, .null default, .null default]

/-- A function that gives null. -/
def idleFunction : Expr := .lambda default [] (.expr (.null default))

/-- With low ceilings a second call inside of a first one is refused, and a third round of either
    loop. -/
theorem ceilings_are_exact_low :
    let w := Session.bareWorld lowCeilings []
    (∃ v, bounded 3 (.exec (.forIn default "x" threeItems idleBody) ⟨0⟩) w =
      .error (.diagnostic ⟨.loopLimit 2, some default, none⟩) v) ∧
    (∃ v, bounded 6 (.exec (.whileLoop default (.boolean default true) idleBody) ⟨0⟩) w =
      .error (.diagnostic ⟨.loopLimit 2, some default, none⟩) v) ∧
    (∃ v, expression (bounded 1) ⟨0⟩ (.call default idleFunction []) { w with callDepth := 1 } =
      .error (.diagnostic ⟨.callDepth 1, some default, none⟩) v) ∧
    (∃ n v, toNative (.function ⟨0⟩) { w with callDepth := 1 } = .ok (.native n) v ∧
      native (bounded 1) n [] v = .error (.diagnostic ⟨.callDepth 1, none, none⟩) v) ∧
    boundedWithin refusing 2 0 .drain w = bounded 2 .drain w ∧
    (Request.tick .null).via (boundedWithin refusing runBound 0) (Session.start lowCeilings []) =
      (Request.tick .null).act (Session.start lowCeilings []) := by
  intro w
  obtain ⟨hrequest, hcounted, hcall, hdirect, -, -, hcallback, hfor, hwhile, -⟩ :=
    ceilings_are_exact
  refine ⟨?_, ?_, ?_, ?_, ?_, ?_⟩
  · exact ⟨_, (hfor 2 default "x" threeItems idleBody ⟨0⟩ w ⟨0⟩ _ 2 rfl rfl).refused _
      (.round rfl rfl rfl (.round rfl rfl rfl (.start rfl)))⟩
  · exact ⟨_, (hwhile 5 default (.boolean default true) idleBody ⟨0⟩ w 2 rfl).refused _
      (.round rfl rfl rfl (.round rfl rfl rfl (.start rfl)))⟩
  · have hmade : ∃ v, bounded 1 (.eval idleFunction ⟨0⟩) { w with callDepth := 1 } =
        .ok (.function ⟨0⟩) v ∧ v.settings = lowCeilings ∧ v.callDepth = 1 := ⟨_, rfl, rfl, rfl⟩
    obtain ⟨v, hmade, hsettings, hdepth⟩ := hmade
    have hrefused := (hcall 0 ⟨0⟩ [] (some default) v).1 (by rw [hsettings, hdepth]; decide)
    rw [hsettings] at hrefused
    exact ⟨v, (hdirect (bounded 1) ⟨0⟩ default idleFunction [] _ ⟨0⟩ v [] v hmade rfl).trans
      hrefused⟩
  · exact ⟨_, _, rfl, (hcallback (bounded 1) ⟨0⟩ [] ⟨0⟩ _ _ rfl).trans
      ((hcall 0 ⟨0⟩ [] none _).1 (Nat.le_refl 1))⟩
  · exact (hcounted refusing 2 0 .drain w rfl (Nat.zero_le _)).1
  · exact (hrequest _ (.start lowCeilings []) (.tick .null) refusing).1

end EventScript
