import EventScript.Proofs.Patterns.Shapes

/-! # The first case that fits

A match tries its cases one after the other, each in a scope of its own.  A case is refused if the
value does not have the shape of its pattern, or if its guard, which sees the parts of the value
under the names of the pattern, does not hold; the first one that is not refused is the last one
that is looked at.

* `Tried`                  what trying a pattern in a scope comes to
* `Refused`                cases that are refused one after the other
* `FirstFitting`           what a match comes to
* `match_first_fitting`    patterns fit by shape, and a match runs the first case that fits
-/

namespace EventScript

open Evaluate

/-- What trying a pattern on a value in a scope comes to.  It always gives an answer, and does
    nothing but bind names in this scope and make values of literals.  On a value that does not
    contain itself, the answer is whether the value has the shape that the pattern describes, and
    if it has, the names that the pattern binds, and no others, stand for the parts of the value
    behind: each one for the last part of its name. -/
structure Tried (bound : Nat) (scope : ScopeRef) (p : Pattern) (v : Value) (w : World) (fit : Bool)
    (w' : World) : Prop where
  answer : fits (bounded bound) scope p v w = .ok fit w'
  quiet : OnlyBound scope w w'
  acyclic : w.store.Acyclic v → w'.store.Acyclic v
  fit_iff : w.store.Acyclic v → (fit = true ↔ w.store.Describes p v)
  names : w.store.Acyclic v → fit = true → (w.store.parts p v).map Prod.fst = p.binds
  bindings : w.store.Acyclic v → fit = true → ∀ name,
    (w'.store.scope scope).bindings.get? name =
      ((w.store.parts p v).reverse.lookup name).or ((w.store.scope scope).bindings.get? name)

/-- A pattern whose literals are constants can be tried on every value. -/
theorem exists_tried {bound : Nat} {scope : ScopeRef} {p : Pattern}
    (hliterals : ∀ e ∈ p.literals, e.ConstantWithin bound) (v : Value) {w : World}
    (hheld : w.store.scopes.Holds scope) : ∃ fit w', Tried bound scope p v w fit w' := by
  obtain ⟨fit, w', hok, hquiet, hfit, hbindings⟩ :=
    decides_fits (s := w.store) hliterals v w hheld
  have hknown : w.store.Acyclic v → w.store.Grows w.store ∧ w.store.Acyclic v := fun hv =>
    ⟨.refl _, hv⟩
  refine ⟨fit, w', hok, hquiet, fun hv => hv.mono hquiet.grows, fun hv => hfit (hknown hv),
    fun hv hf => Store.parts_names ((hfit (hknown hv)).mp hf), fun hv hf name => ?_⟩
  rw [hbindings (hknown hv) hf, Table.get?_putAll]

/-! ## Cases one after the other -/

/-- The world with a new scope inside of one, which binds nothing yet. -/
def World.withScope (w : World) (scope : ScopeRef) : World :=
  { w with store := { w.store with scopes := w.store.scopes.push ⟨.empty, some scope⟩ } }

theorem run_childScope (scope : ScopeRef) (w : World) :
    Eval.childScope scope w = .ok w.store.scopes.next (w.withScope scope) := rfl

section Cases

variable (bound : Nat) (scope : ScopeRef) (v : Value)

/-- A case of a match in a scope is tried: its pattern is tried in a new scope inside. -/
def CaseTried (c : MatchCase) (w : World) (fit : Bool) (w' : World) : Prop :=
  Tried bound w.store.scopes.next c.pattern v (w.withScope scope) fit w'

/-- A guard, if there is one, is evaluated in a scope and holds. -/
def GuardHolds (inner : ScopeRef) (guard : Option Expr) (w w' : World) : Prop :=
  match guard with
  | none => w' = w
  | some e => ∃ y, bounded bound (.eval e inner) w = .ok y w' ∧ w'.store.isTruthy y = true

/-- The cases are tried one after the other, and each one is refused: the value does not fit, or
    the guard does not hold. -/
inductive Refused : List MatchCase → World → World → Prop
  | nil (w : World) : Refused [] w w
  | unfit {c : MatchCase} {rest : List MatchCase} {w w₁ w' : World}
      (tried : CaseTried bound scope v c w false w₁) (others : Refused rest w₁ w') :
      Refused (c :: rest) w w'
  | guarded {c : MatchCase} {rest : List MatchCase} {w w₁ w₂ w' : World} {e : Expr} {y : Value}
      (tried : CaseTried bound scope v c w true w₁) (guard : c.guard = some e)
      (evaluated : bounded bound (.eval e w.store.scopes.next) w₁ = .ok y w₂)
      (falsy : w₂.store.isTruthy y = false) (others : Refused rest w₂ w') :
      Refused (c :: rest) w w'

/-- What a match with some cases comes to.  If all cases are refused, nothing else is done.  Else
    the first one that is not refused has its body executed in its scope, whatever cases are behind
    it; where already its guard fails, the match fails. -/
inductive FirstFitting (cases : List MatchCase) (w : World) :
    EStateM.Result Failure World Completion → Prop
  | none {w' : World} (refused : Refused bound scope v cases w w') :
      FirstFitting cases w (.ok .normal w')
  | body {before : List MatchCase} {c : MatchCase} {after : List MatchCase} {w₁ w₂ w₃ : World}
      (split : cases = before ++ c :: after) (refused : Refused bound scope v before w w₁)
      (tried : CaseTried bound scope v c w₁ true w₂)
      (holds : GuardHolds bound w₁.store.scopes.next c.guard w₂ w₃) :
      FirstFitting cases w (block (bounded bound) c.body w₁.store.scopes.next w₃)
  | failed {before : List MatchCase} {c : MatchCase} {after : List MatchCase} {w₁ w₂ w₃ : World}
      {e : Expr} {failure : Failure} (split : cases = before ++ c :: after)
      (refused : Refused bound scope v before w w₁) (tried : CaseTried bound scope v c w₁ true w₂)
      (guard : c.guard = some e)
      (evaluated : bounded bound (.eval e w₁.store.scopes.next) w₂ = .error failure w₃) :
      FirstFitting cases w (.error failure w₃)

end Cases

variable {bound : Nat} {scope : ScopeRef} {v : Value}

/-- A refused case in front of the others. -/
theorem FirstFitting.cons {c : MatchCase} {rest : List MatchCase} {w w₁ : World}
    {result : EStateM.Result Failure World Completion}
    (hrefused : ∀ {cases w'}, Refused bound scope v cases w₁ w' →
      Refused bound scope v (c :: cases) w w')
    (h : FirstFitting bound scope v rest w₁ result) :
    FirstFitting bound scope v (c :: rest) w result := by
  cases h with
  | none refused => exact .none (hrefused refused)
  | body split refused tried holds =>
    exact .body (by rw [split, List.cons_append]) (hrefused refused) tried holds
  | failed split refused tried guard evaluated =>
    exact .failed (by rw [split, List.cons_append]) (hrefused refused) tried guard evaluated

/-- A case whose pattern does not fit is passed over. -/
theorem matchCases_of_unfit {c : MatchCase} {w w₁ : World}
    (htried : CaseTried bound scope v c w false w₁) (rest : List MatchCase) :
    matchCases (bounded bound) scope v (c :: rest) w =
      matchCases (bounded bound) scope v rest w₁ := by
  rw [matchCases, Eval.run_bind_of_ok (run_childScope scope w),
    Eval.run_bind_of_ok htried.answer]
  rfl

/-- A case whose pattern fits is up to its guard. -/
theorem matchCases_of_fit {c : MatchCase} {w w₁ : World}
    (htried : CaseTried bound scope v c w true w₁) (rest : List MatchCase) :
    matchCases (bounded bound) scope v (c :: rest) w =
      (do
        if ← caseGuardHolds (bounded bound) w.store.scopes.next c.guard then
          block (bounded bound) c.body w.store.scopes.next
        else matchCases (bounded bound) scope v rest) w₁ := by
  rw [matchCases, Eval.run_bind_of_ok (run_childScope scope w),
    Eval.run_bind_of_ok htried.answer]
  rfl

/-- The cases of a match are tried up to the first one that fits. -/
theorem firstFitting_matchCases {cases : List MatchCase}
    (hliterals : ∀ c ∈ cases, ∀ e ∈ c.pattern.literals, e.ConstantWithin bound) (w : World) :
    FirstFitting bound scope v cases w (matchCases (bounded bound) scope v cases w) := by
  induction cases generalizing w with
  | nil => exact .none (.nil w)
  | cons c rest ih =>
    obtain ⟨hc, hrest⟩ := List.forall_mem_cons.mp hliterals
    obtain ⟨fit, w₁, htried⟩ : ∃ fit w₁, CaseTried bound scope v c w fit w₁ :=
      exists_tried hc v (w.store.scopes.holds_push_next _)
    have hhead : c :: rest = [] ++ c :: rest := rfl
    cases fit with
    | false =>
      -- the others are a match of their own, in the world behind this case
      rw [matchCases_of_unfit htried]
      exact (ih hrest w₁).cons (.unfit htried)
    | true =>
      rw [matchCases_of_fit htried]
      cases hguard : c.guard with
      | none =>
        have hholds : GuardHolds bound w.store.scopes.next c.guard w₁ w₁ := by rw [hguard]; rfl
        exact .body hhead (.nil w) htried hholds
      | some e =>
        cases hy : bounded bound (.eval e w.store.scopes.next) w₁ with
        | error failure w₂ =>
          rw [caseGuardHolds, Eval.run_bind_of_error (Eval.run_bind_of_error hy)]
          exact .failed hhead (.nil w) htried hguard hy
        | ok y w₂ =>
          have hanswer : caseGuardHolds (bounded bound) w.store.scopes.next (some e) w₁ =
              .ok (w₂.store.isTruthy y) w₂ := Eval.run_bind_of_ok hy
          rw [Eval.run_bind_of_ok hanswer]
          -- the guard may have changed anything, so the others are tried in the world behind it
          cases htruth : w₂.store.isTruthy y with
          | false => exact (ih hrest w₂).cons (.guarded htried hguard hy htruth)
          | true =>
            have hholds : GuardHolds bound w.store.scopes.next c.guard w₁ w₂ := by
              rw [hguard]
              exact ⟨y, hy, htruth⟩
            exact .body hhead (.nil w) htried hholds

/-! ## Matches -/

/-- How a match chooses a case, where literals write out constants. -/
structure MatchesFirst (bound : Nat) : Prop where
  /-- A literal is equal to a value exactly if the constant is that it writes out. -/
  literal {e : Expr} {c : Constant} (hc : e.constant? = some c) (hlevels : e.levels ≤ bound)
    (scope : ScopeRef) (w : World) {v : Value} (hv : w.store.Acyclic v) :
    ∃ y w', bounded bound (.eval e scope) w = .ok y w' ∧
      (w'.store.equal y v = true ↔ w.store.Equals c v)
  /-- A pattern fits by the shape of the value, and binds its parts. -/
  pattern {p : Pattern} (hliterals : ∀ e ∈ p.literals, e.ConstantWithin bound) (v : Value)
    {scope : ScopeRef} {w : World} (hheld : w.store.scopes.Holds scope) :
    ∃ fit w', Tried bound scope p v w fit w'
  /-- A match runs the first case that fits the value of its discriminant. -/
  statement {cases : List MatchCase}
    (hliterals : ∀ c ∈ cases, ∀ e ∈ c.pattern.literals, e.ConstantWithin bound) (span : Span)
    {discriminant : Expr} {scope : ScopeRef} {w w₁ : World} {v : Value}
    (hv : bounded bound (.eval discriminant scope) w = .ok v w₁) :
    FirstFitting bound scope v cases w₁
      (bounded (bound + 1) (.exec (.matchOn span discriminant cases) scope) w)

/-- Match runs the first fitting case. -/
theorem match_first_fitting (bound : Nat) : MatchesFirst bound where
  literal hc hlevels scope w _ hv := by
    obtain ⟨y, w', hy, -, hequal⟩ := eval_literal hc hlevels scope w
    exact ⟨y, w', hy, hequal (.refl _) hv⟩
  pattern hliterals v _ _ hheld := exists_tried hliterals v hheld
  statement {cases} hliterals span discriminant scope w w₁ v hv := by
    have hcases : bounded (bound + 1) (.exec (.matchOn span discriminant cases) scope) w =
        matchCases (bounded bound) scope v cases w₁ := Eval.run_bind_of_ok hv
    rw [hcases]
    exact firstFitting_matchCases hliterals w₁

/-- A world in which `v` is the list of 1, `x` and a map from `k` to 2. -/
def nestedWorld : World :=
  { Session.bareWorld {} [] with
    store := { Store.empty with
      lists := ⟨#[#[.int 1, .text "x", .map ⟨0⟩]]⟩
      maps := ⟨#[Table.empty.put (.text "k") (.int 2)]⟩
      scopes := ⟨#[⟨Table.empty.put "v" (.list ⟨0⟩), none⟩]⟩ } }

/-- A pattern that describes such a list and binds `n` twice. -/
def nestedPattern : Pattern :=
  .list default [.name default "n", .literal default (.string default "x"),
    .map default [("k", .name default "n")]]

/-- A case with that pattern and a guard that compares `n` with a number; its body returns `n`. -/
def nestedCase (n : Int) : MatchCase :=
  ⟨default, nestedPattern, some (.binary default .equal (.name default "n")
    (.number default (.int n))), ⟨default, [.returnValue default (some (.name default "n"))]⟩⟩

/-- A match on `v` with a case that does not fit, and two that do. -/
def nestedCases : List MatchCase :=
  [⟨default, .literal default (.null default), none, ⟨default, []⟩⟩, nestedCase 1, nestedCase 2]

/-- Every literal of the match is a constant. -/
theorem nestedCases_constant {bound : Nat} (hbound : 0 < bound) :
    ∀ c ∈ nestedCases, ∀ e ∈ c.pattern.literals, e.ConstantWithin bound := by
  have hnull : Expr.ConstantWithin bound (.null default) := ⟨⟨.null, rfl⟩, hbound⟩
  have htext : Expr.ConstantWithin bound (.string default "x") := ⟨⟨.text "x", rfl⟩, hbound⟩
  simp [nestedCases, nestedCase, nestedPattern, Pattern.literals, Pattern.literalsOfAll,
    Pattern.literalsOfEntries, hnull, htext]

theorem acyclic_nestedWorld : nestedWorld.store.Acyclic (.list ⟨0⟩) := by
  have hmap : nestedWorld.store.Acyclic (.map ⟨0⟩) := by
    refine .map (by decide) fun e he => ?_
    obtain rfl := List.mem_singleton.mp he
    exact .plain nofun nofun
  refine .list (by decide) fun v hv => ?_
  have hitems : v ∈ [Value.int 1, .text "x", .map ⟨0⟩] := hv
  simp only [List.mem_cons, List.not_mem_nil, or_false] at hitems
  obtain rfl | rfl | rfl := hitems
  · exact .plain nofun nofun
  · exact .plain nofun nofun
  · exact hmap

theorem describes_nestedPattern : nestedWorld.store.Describes nestedPattern (.list ⟨0⟩) :=
  ⟨⟨0⟩, rfl, _, _, rfl, trivial, _, _, rfl, ⟨.text "x", rfl, rfl⟩, _, _, rfl,
    ⟨⟨0⟩, rfl, ⟨_, rfl, trivial⟩, trivial⟩, rfl⟩

/-- The `n` of the case that is chosen is the last one, in the map: of the two guards, the one that
    compares with that holds. -/
theorem nestedCases_first_fitting :
    (∃ w', Tried (runBound - 1) globalScope nestedPattern (.list ⟨0⟩) nestedWorld true w' ∧
      (w'.store.scope globalScope).bindings.get? "n" = some (.int 2)) ∧
    FirstFitting (runBound - 1) globalScope (.list ⟨0⟩) nestedCases nestedWorld
      (run (.exec (.matchOn default (.name default "v") nestedCases) globalScope) nestedWorld) ∧
    ∃ w', run (.exec (.matchOn default (.name default "v") nestedCases) globalScope) nestedWorld =
      .ok (.returned (.int 2)) w' := by
  have hliterals : ∀ c ∈ nestedCases, ∀ e ∈ c.pattern.literals,
      e.ConstantWithin (runBound - 1) := nestedCases_constant (by decide)
  have hnested : nestedCase 1 ∈ nestedCases := by simp [nestedCases]
  have hheld : nestedWorld.store.scopes.Holds globalScope := by decide
  refine ⟨?_, (match_first_fitting _).statement hliterals default rfl, _, rfl⟩
  obtain ⟨fit, w', htried⟩ :=
    (match_first_fitting (runBound - 1)).pattern (hliterals _ hnested) (.list ⟨0⟩) hheld
  obtain rfl : fit = true := (htried.fit_iff acyclic_nestedWorld).mpr describes_nestedPattern
  refine ⟨w', htried, ?_⟩
  rw [htried.bindings acyclic_nestedWorld rfl "n"]
  rfl

end EventScript
