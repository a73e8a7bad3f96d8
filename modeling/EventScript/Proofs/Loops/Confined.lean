import EventScript.Proofs.Node

/-! # Where loops are ended

`break` and `continue` mean the innermost loop around them in their own function.  A part of a tree
is `Node.Confined` if each of them in it has such a loop; whether there is one around the part
itself is given.  One that no loop in the part encloses, and no function, is a `Node.Stray` of it.

* `Node.Confined.mono`          loops around a part do no harm
* `Node.Stray.not_confined`     a part with a stray needs a loop around it
* `Node.Exposes`                what a part shows to the loops around it
-/

namespace EventScript

/-- The statement ends a loop or one of its rounds. -/
def Stmt.endsLoop : Stmt → Bool
  | breakLoop _ | continueLoop _ => true
  | _ => false

namespace Node

/-- The part is a statement that ends a loop or one of its rounds. -/
def endsLoop : Node → Bool
  | stmt s => s.endsLoop
  | _ => false

/-- Whether there is a loop around a block directly below a part of a tree, in its own function: the
    body of a loop is inside of one, and the body of a function or handler is not. -/
@[simp] def loopAroundBlock : Node → Bool → Bool
  | stmt (.forIn _ _ _ _), _ | stmt (.whileLoop _ _ _), _ => true
  | stmt (.on _ _ _ _), _ | function _, _ => false
  | _, inLoop => inLoop

/-- Whether there is a loop around a part directly below another one, in its own function. -/
@[simp] def loopAround (x : Node) : Node → Bool → Bool
  | block _, inLoop => x.loopAroundBlock inLoop
  | body _, _ => false
  | _, inLoop => inLoop

/-- Every `break` and `continue` in a part of a tree has a loop around it in its own function, where
    there may be one around the part itself. -/
inductive Confined : Bool → Node → Prop
  | mk {inLoop : Bool} {x : Node} (here : x.endsLoop = true → inLoop = true)
      (below : ∀ child ∈ x.children, Confined (x.loopAround child.2 inLoop) child.2) :
    Confined inLoop x

/-- A `break` or `continue` stands in a part of a tree, and no loop or function in that part is
    around it. -/
inductive Stray : Node → Stmt → Prop
  | itself {s : Stmt} (ends : s.endsLoop = true) : Stray (stmt s) s
  | deeper {x : Node} {child : Nat × Node} {s : Stmt} (mem : child ∈ x.children)
      (opens : ∀ inLoop, x.loopAround child.2 inLoop = inLoop) (inside : Stray child.2 s) :
    Stray x s

/-- What a part of a tree shows to the loops around it: nothing, so that it needs none, or a
    `break` or `continue` that needs one. -/
structure Exposes (o : Option Stmt) (x : Node) : Prop where
  confined : x.Confined o.isSome
  stray : ∀ t ∈ o, x.Stray t

variable {x : Node} {inLoop : Bool} {o o' : Option Stmt}

namespace Confined

theorem child (h : x.Confined inLoop) : ∀ child ∈ x.children,
    child.2.Confined (x.loopAround child.2 inLoop) := by
  cases h
  assumption

theorem ends {s : Stmt} (h : (stmt s).Confined inLoop) (hs : s.endsLoop = true) :
    inLoop = true := by
  cases h with
  | mk here below => exact here hs

/-- What ends no loop itself is confined if the parts below it are. -/
theorem of_children (hx : x.endsLoop = false)
    (h : ∀ child ∈ x.children, child.2.Confined (x.loopAround child.2 inLoop)) :
    x.Confined inLoop := .mk (fun hends => absurd (hx.symm.trans hends) Bool.false_ne_true) h

/-- What needs no loop around it can stand in one. -/
theorem mono (h : x.Confined inLoop) {inLoop' : Bool} (hle : inLoop = true → inLoop' = true) :
    x.Confined inLoop' := by
  induction h generalizing inLoop' with
  | @mk inLoop x here below ih =>
    refine .mk (fun hends => hle (here hends)) fun child hchild => ih child hchild ?_
    unfold loopAround loopAroundBlock
    split <;> (try split) <;> simp_all

/-- What needs no loop around it. -/
theorem inside (h : x.Confined false) : x.Confined inLoop := h.mono nofun

end Confined

/-- A part with a stray is not confined by itself. -/
theorem Stray.not_confined {s : Stmt} (h : x.Stray s) : ¬ x.Confined false := by
  induction h with
  | itself hends => exact fun h => absurd (h.ends hends) nofun
  | deeper hmem hopens _ ih =>
    intro h
    have := h.child _ hmem
    rw [hopens] at this
    exact ih this

namespace Exposes

theorem none_iff : x.Exposes none ↔ x.Confined false := ⟨fun h => h.confined, fun h => ⟨h, nofun⟩⟩

/-- What is shown by the first one of several parts, or by a later one. -/
theorem or_left (h : x.Exposes o) : x.Confined (o.or o').isSome := h.confined.mono (by simp_all)

theorem or_right (h : x.Exposes o) : x.Confined (o'.or o).isSome := h.confined.mono (by simp_all)

/-- What ends no loop itself shows what a part below it shows. -/
theorem of_children (hx : x.endsLoop = false)
    (hchildren : ∀ child ∈ x.children, child.2.Confined (x.loopAround child.2 o.isSome))
    (hstray : ∀ t ∈ o, ∃ child ∈ x.children,
      (∀ inLoop, x.loopAround child.2 inLoop = inLoop) ∧ child.2.Stray t) : x.Exposes o := by
  refine ⟨.of_children hx hchildren, fun t ht => ?_⟩
  obtain ⟨child, hchild, hopens, hstray⟩ := hstray t ht
  exact .deeper hchild hopens hstray

end Exposes

end Node

end EventScript
