import EventScript.Tree

/-! # The parts of a syntax tree

A `Node` is any part of a syntax tree, and `Node.children` are the parts directly below it, each
with the number of indented constructs that it stands further in.

* `Node.inductionOnChildren`   what holds of a part if it holds of those below holds of every part
-/

namespace EventScript

/-- A part of a syntax tree. -/
inductive Node
  | expr (e : Expr)
  | entry (e : MapEntry)
  | param (p : Param)
  | body (b : Body)
  | block (b : Block)
  | pattern (p : Pattern)
  | matchCase (c : MatchCase)
  | target (t : Target)
  | function (f : FunctionDecl)
  | ifStmt (s : IfStmt)
  | alternate (a : Alternate)
  | field (f : SchemaField)
  | stmt (s : Stmt)

namespace Node

/-- The parts directly below a part, with the number of indented constructs in between. -/
@[simp] def children : Node → List (Nat × Node)
  | expr (.vector _ es) | expr (.list _ es) => es.map fun e => (0, expr e)
  | expr (.map _ entries) => entries.map fun e => (0, entry e)
  | expr (.member _ object _) => [(0, expr object)]
  | expr (.index _ object key) => [(0, expr object), (0, expr key)]
  | expr (.call _ callee arguments) =>
    (0, expr callee) :: arguments.map fun e => (0, expr e)
  | expr (.binary _ _ left right) => [(0, expr left), (0, expr right)]
  | expr (.unary _ _ operand) => [(0, expr operand)]
  | expr (.conditional _ test yes no) => [(0, expr test), (0, expr yes), (0, expr no)]
  | expr (.lambda _ params b) => (0, body b) :: params.map fun p => (0, param p)
  | expr _ => []
  | entry ⟨_, .written _, value⟩ => [(0, expr value)]
  | entry ⟨_, .computed key, value⟩ => [(0, expr key), (0, expr value)]
  | param p => p.default.toList.map fun e => (0, expr e)
  | body (.expr e) => [(0, expr e)]
  | body (.block b) => [(0, block b)]
  | block b => b.statements.map fun s => (1, stmt s)
  | pattern (.literal _ value) => [(0, expr value)]
  | pattern (.list _ elements) => elements.map fun p => (0, pattern p)
  | pattern (.map _ entries) => entries.map fun e => (0, pattern e.2)
  | pattern _ => []
  | matchCase c =>
    (0, pattern c.pattern) :: (0, block c.body) :: c.guard.toList.map fun e => (0, expr e)
  | target (.member _ object _) => [(0, expr object)]
  | target (.index _ object key) => [(0, expr object), (0, expr key)]
  | target _ => []
  | function f => (0, block f.body) :: f.params.map fun p => (0, param p)
  | ifStmt s => [(0, expr s.test), (0, block s.consequent), (0, alternate s.alternate)]
  | alternate .nothing => []
  | alternate (.elseBlock b) => [(0, block b)]
  | alternate (.elseIf s) => [(0, ifStmt s)]
  | field f => f.default.toList.map fun e => (0, expr e)
  | stmt (.letName _ _ value) => [(0, expr value)]
  | stmt (.assign _ t value) => [(0, target t), (0, expr value)]
  | stmt (.function f) => [(0, function f)]
  | stmt (.ifThen s) => [(0, ifStmt s)]
  | stmt (.forIn _ _ iterable b) => [(0, expr iterable), (0, block b)]
  | stmt (.whileLoop _ test b) => [(0, expr test), (0, block b)]
  | stmt (.matchOn _ discriminant cases) =>
    (0, expr discriminant) :: cases.map fun c => (1, matchCase c)
  | stmt (.returnValue _ argument) => argument.toList.map fun e => (0, expr e)
  | stmt (.on _ event condition b) =>
    (0, expr event) :: (0, block b) :: condition.toList.map fun e => (0, expr e)
  | stmt (.emit _ event data) => (0, expr event) :: data.toList.map fun e => (0, expr e)
  | stmt (.schema _ _ _ fields methods) =>
    (fields.map fun f => (if f.inSection then 2 else 1, field f)) ++
      methods.map fun m => (1, function m)
  | stmt (.instanceOf _ _ _ fields) => fields.map fun f => (1, expr f.2)
  | stmt (.expression _ e) => [(0, expr e)]
  | stmt (.breakLoop _) | stmt (.continueLoop _) | stmt (.importFile _) => []

/-- The parts below a part are smaller. -/
theorem sizeOf_child (x : Node) : ∀ child ∈ x.children, sizeOf child.2 < sizeOf x := by
  have hmem : ∀ {α : Type} [SizeOf α] {as : List α} {a : α}, a ∈ as → sizeOf a < sizeOf as :=
    List.sizeOf_lt_of_mem
  have hpair : ∀ {α : Type} [SizeOf α] {as : List (String × α)} {s : String} {a : α},
      (s, a) ∈ as → sizeOf a < sizeOf as := by
    intro α _ as s a ha
    have := hmem ha
    simp only [Prod.mk.sizeOf_spec] at this
    omega
  rcases x with e | ⟨_, key, _⟩ | ⟨_, _, default⟩ | b | ⟨_, _⟩ | p | ⟨_, _, guard, _⟩ | t |
    ⟨_, _, _, _⟩ | ⟨_, _, _, _⟩ | a | ⟨_, _, _, _, _, default⟩ | s
  case expr => cases e <;> simp <;> grind
  case entry => cases key <;> simp <;> omega
  case param => cases default <;> simp; grind
  case body => cases b <;> simp
  case block => simp; grind
  case pattern => cases p <;> simp <;> grind
  case matchCase => cases guard <;> simp <;> grind
  case target => cases t <;> simp <;> grind
  case function => simp; grind
  case ifStmt => simp; grind
  case alternate => cases a <;> simp
  case field => cases default <;> simp; grind
  case stmt => cases s <;> simp <;> grind

/-- What holds of a part whenever it holds of all parts directly below it holds of every part. -/
@[elab_as_elim] theorem inductionOnChildren {P : Node → Prop}
    (step : ∀ x : Node, (∀ child ∈ x.children, P child.2) → P x) (x : Node) : P x :=
  (measure (sizeOf : Node → Nat)).wf.induction x fun y ih =>
    step y fun child hchild => ih child.2 (sizeOf_child y child hchild)

end Node

end EventScript
