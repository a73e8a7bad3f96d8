import EventScript.Proofs.Grammar.Nesting
import EventScript.Proofs.Node

/-! # Where the statements of a tree stand

`Node.Contains` follows the children of a part of a tree down to a statement and adds up how many
indented constructs they stand further in: that is how deep in a tree a statement stands.
`Node.Placed` says that each of them begins in the token list as deep as in the tree.
-/

namespace EventScript

/-- The span of a statement. -/
def Stmt.span : Stmt → Span
  | letName s _ _ | assign s _ _ | forIn s _ _ _ | whileLoop s _ _ | matchOn s _ _
  | returnValue s _ | breakLoop s | continueLoop s | on s _ _ _ | emit s _ _ | schema s _ _ _ _
  | instanceOf s _ _ _ | expression s _ => s
  | function f => f.span
  | ifThen s => s.span
  | importFile i => i.span

namespace Node

/-- A statement stands in a part of a tree, a number of indented constructs further in. -/
inductive Contains : Node → Nat → Stmt → Prop
  | itself (s : Stmt) : Contains (stmt s) 0 s
  | deeper {x y : Node} {n m : Nat} {s : Stmt} (child : (n, y) ∈ x.children)
      (inside : Contains y m s) : Contains x (n + m) s

end Node

/-- A statement stands in a program, a number of indented constructs further in. -/
def Program.Contains (p : Program) (n : Nat) (s : Stmt) : Prop :=
  (∃ t ∈ p.body, Node.Contains (.stmt t) n s) ∨
    n = 0 ∧ ∃ i ∈ p.imports, s = .importFile i

section

variable (tokens : List Token)

/-- A token that is written out begins at a location, with a number of blocks open. -/
def Begins (depth : Int) (l : Location) : Prop :=
  ∃ i t, tokens[i]? = some t ∧ t.kind.isContent = true ∧ t.span.start = l ∧
    depthAt tokens i = depth

/-- Every statement in a part of a tree begins as deep in the token list as in the tree. -/
def Node.Placed (depth : Int) (x : Node) : Prop :=
  ∀ n s, x.Contains n s → Begins tokens (depth + n) s.span.start

end

variable {tokens : List Token} {depth : Int}

/-- A part of a tree is placed if the parts below it are, and it begins where it should if it is a
    statement itself. -/
theorem Node.placed_of_children {x : Node}
    (hself : ∀ s, x = .stmt s → Begins tokens depth s.span.start)
    (hchildren : ∀ child ∈ x.children, child.2.Placed tokens (depth + child.1)) :
    x.Placed tokens depth := by
  intro n s h
  cases h with
  | itself => simpa using hself s rfl
  | @deeper _ y n m _ child inside =>
    have := hchildren _ child m s inside
    rwa [Nat.cast_add, ← add_assoc]

/-- A statement that begins where it should is placed if the parts of it are. -/
theorem Node.placed_stmt {s : Stmt} (hs : Begins tokens depth s.span.start)
    (hchildren : ∀ child ∈ (Node.stmt s).children, child.2.Placed tokens (depth + child.1)) :
    (Node.stmt s).Placed tokens depth := by
  refine Node.placed_of_children ?_ hchildren
  rintro _ ⟨⟩
  exact hs

/-- The target of an assignment has the parts of the expression that it was read as. -/
theorem Node.placed_target {e : Expr} {t : Target} (ht : e.target? = some t)
    (he : (Node.expr e).Placed tokens depth) : (Node.target t).Placed tokens depth := by
  have hchildren : (Node.target t).children = (Node.expr e).children := by
    unfold Expr.target? at ht
    split at ht <;> cases ht <;> rfl
  refine Node.placed_of_children nofun fun child hchild n s hs => ?_
  rw [hchildren] at hchild
  have := he _ s (.deeper hchild hs)
  rwa [Nat.cast_add, ← add_assoc] at this

end EventScript
