import EventScript.Proofs.Grammar.Parts
import EventScript.Tree.Outline

/-! # Syntax trees, spans aside

The shape of a tree is its outline with all spans forgotten: two trees of the same shape differ in
nothing but the places that their parts were read from.

* `Outline.withoutSpans`, `Node.shape`, `Program.shape`
* `Node.HasPart`     a part of a tree stands in another one
* `Node.Alike`       two parts of the same shape, the first one with known map literals only
-/

namespace EventScript

namespace Outline

mutual

/-- An outline with all spans forgotten. -/
@[simp] def withoutSpans : Outline → Outline
  | node name _ fields => node name default (fieldsWithoutSpans fields)
  | list items => list (itemsWithoutSpans items)
  | keyed entries => keyed (fieldsWithoutSpans entries)
  | pair key value => pair key value.withoutSpans
  | leaf value => leaf value

/-- Named parts with all spans forgotten. -/
@[simp] def fieldsWithoutSpans : List (String × Outline) → List (String × Outline)
  | [] => []
  | (name, part) :: rest => (name, part.withoutSpans) :: fieldsWithoutSpans rest

/-- Parts in order with all spans forgotten. -/
@[simp] def itemsWithoutSpans : List Outline → List Outline
  | [] => []
  | item :: rest => item.withoutSpans :: itemsWithoutSpans rest

end

theorem itemsWithoutSpans_append (items items' : List Outline) :
    itemsWithoutSpans (items ++ items') = itemsWithoutSpans items ++ itemsWithoutSpans items' := by
  induction items with
  | nil => rfl
  | cons item rest ih => simp [itemsWithoutSpans, ih]

/-- Parts that are the same one by one, spans aside, make the same list. -/
theorem itemsWithoutSpans_eq {α : Type} {R : α → α → Prop} {as as' : List α}
    (h : List.Forall₂ R as as') (outlines : List α → List Outline)
    (hcons : ∀ a as, outlines (a :: as) = outlines [a] ++ outlines as)
    (hR : ∀ a a', R a a' → itemsWithoutSpans (outlines [a]) = itemsWithoutSpans (outlines [a'])) :
    itemsWithoutSpans (outlines as) = itemsWithoutSpans (outlines as') := by
  induction h with
  | nil => rfl
  | @cons a a' as as' ha _ ih =>
    rw [hcons a as, hcons a' as', itemsWithoutSpans_append, itemsWithoutSpans_append, ih,
      hR a a' ha]

end Outline

namespace Node

/-- The outline of a part of a syntax tree. -/
@[simp] def outline : Node → Outline
  | expr e => .ofExpr e
  | entry e => .list (Outline.ofEntries [e])
  | param p => .list (Outline.ofParams [p])
  | body b => .ofBody b
  | block b => .ofBlock b
  | pattern p => .ofPattern p
  | matchCase c => .list (Outline.ofCases [c])
  | target t => .ofTarget t
  | function f => .ofFunction f
  | ifStmt s => .ofIf s
  | alternate a => .ofAlternate a
  | field f => .list (Outline.ofSchemaFields [f])
  | stmt s => .ofStmt s

/-- A part of a syntax tree, spans aside. -/
@[simp] def shape (x : Node) : Outline := x.outline.withoutSpans

/-- A part of a syntax tree has another one in it. -/
inductive HasPart : Node → Node → Prop
  | itself (x : Node) : HasPart x x
  | deeper {x y z : Node} {n : Nat} (child : (n, y) ∈ x.children) (inside : HasPart y z) :
      HasPart x z

end Node

/-- A program, spans aside. -/
def Program.shape (p : Program) : Outline := (Outline.ofProgram p).withoutSpans

/-- A map literal stands in a program. -/
def Program.HasMap (p : Program) (span : Span) (entries : List MapEntry) : Prop :=
  ∃ s ∈ p.body, (Node.stmt s).HasPart (.expr (.map span entries))

namespace Node

variable {onRecord : Span → List MapEntry → Prop}

/-- Two parts of the same shape, where something is known of every map literal in the first one. -/
structure Alike (onRecord : Span → List MapEntry → Prop) (x x' : Node) : Prop where
  shape : x.shape = x'.shape
  maps : ∀ span entries, x.HasPart (.expr (.map span entries)) → onRecord span entries

/-- Two lists of parts that are alike, one by one. -/
abbrev AlikeAll {α : Type} (onRecord : Span → List MapEntry → Prop) (node : α → Node) :
    List α → List α → Prop :=
  List.Forall₂ fun a a' => Alike onRecord (node a) (node a')

/-- What is known of the map literals in the parts below a part, and of itself, is known of all map
    literals in it. -/
theorem Alike.of_children {x x' : Node} (hshape : x.shape = x'.shape)
    (hself : ∀ span entries, x = .expr (.map span entries) → onRecord span entries)
    (hchildren : ∀ child ∈ x.children, ∀ span entries,
      child.2.HasPart (.expr (.map span entries)) → onRecord span entries) :
    Alike onRecord x x' := by
  refine ⟨hshape, fun span entries hpart => ?_⟩
  cases hpart with
  | itself => exact hself span entries rfl
  | deeper child inside => exact hchildren _ child span entries inside

/-! ## Lists -/

theorem AlikeAll.maps {α : Type} {node : α → Node} {as as' : List α}
    (h : AlikeAll onRecord node as as') :
    ∀ a ∈ as, ∀ span entries, (node a).HasPart (.expr (.map span entries)) →
      onRecord span entries := by
  induction h with
  | nil => simp
  | cons ha _ ih => exact List.forall_mem_cons.mpr ⟨ha.maps, ih⟩

section

open Outline

theorem AlikeAll.exprs {es es' : List Expr} (h : AlikeAll onRecord expr es es') :
    itemsWithoutSpans (ofExprs es) = itemsWithoutSpans (ofExprs es') :=
  itemsWithoutSpans_eq h ofExprs (fun _ _ => rfl) fun e e' he => by
    simpa [ofExprs, itemsWithoutSpans, shape, outline] using he.shape

theorem AlikeAll.stmts {ss ss' : List Stmt} (h : AlikeAll onRecord stmt ss ss') :
    itemsWithoutSpans (ofStmts ss) = itemsWithoutSpans (ofStmts ss') :=
  itemsWithoutSpans_eq h ofStmts (fun _ _ => rfl) fun s s' hs => by
    simpa [ofStmts, itemsWithoutSpans, shape, outline] using hs.shape

theorem AlikeAll.patterns {ps ps' : List Pattern} (h : AlikeAll onRecord pattern ps ps') :
    itemsWithoutSpans (ofPatterns ps) = itemsWithoutSpans (ofPatterns ps') :=
  itemsWithoutSpans_eq h ofPatterns (fun _ _ => rfl) fun p p' hp => by
    simpa [ofPatterns, itemsWithoutSpans, shape, outline] using hp.shape

theorem AlikeAll.functions {fs fs' : List FunctionDecl} (h : AlikeAll onRecord function fs fs') :
    itemsWithoutSpans (ofFunctions fs) = itemsWithoutSpans (ofFunctions fs') :=
  itemsWithoutSpans_eq h ofFunctions (fun _ _ => rfl) fun f f' hf => by
    simpa [ofFunctions, itemsWithoutSpans, shape, outline] using hf.shape

theorem AlikeAll.entries {es es' : List MapEntry} (h : AlikeAll onRecord entry es es') :
    itemsWithoutSpans (ofEntries es) = itemsWithoutSpans (ofEntries es') :=
  itemsWithoutSpans_eq h ofEntries (fun ⟨_, _, _⟩ _ => rfl) fun e e' he => by
    simpa [shape, outline, withoutSpans] using he.shape

theorem AlikeAll.params {ps ps' : List Param} (h : AlikeAll onRecord param ps ps') :
    itemsWithoutSpans (ofParams ps) = itemsWithoutSpans (ofParams ps') :=
  itemsWithoutSpans_eq h ofParams (fun ⟨_, _, _⟩ _ => rfl) fun p p' hp => by
    simpa [shape, outline, withoutSpans] using hp.shape

theorem AlikeAll.cases {cs cs' : List MatchCase} (h : AlikeAll onRecord matchCase cs cs') :
    itemsWithoutSpans (ofCases cs) = itemsWithoutSpans (ofCases cs') :=
  itemsWithoutSpans_eq h ofCases (fun ⟨_, _, _, _⟩ _ => rfl) fun c c' hc => by
    simpa [shape, outline, withoutSpans] using hc.shape

theorem AlikeAll.fields {fs fs' : List SchemaField} (h : AlikeAll onRecord field fs fs') :
    itemsWithoutSpans (ofSchemaFields fs) = itemsWithoutSpans (ofSchemaFields fs') :=
  itemsWithoutSpans_eq h ofSchemaFields (fun ⟨_, _, _, _, _, _⟩ _ => rfl) fun f f' hf => by
    simpa [shape, outline, withoutSpans] using hf.shape

/-- Two lists of parts under the same keys that are alike, one by one. -/
abbrev AlikeUnder {α : Type} (onRecord : Span → List MapEntry → Prop) (node : α → Node) :
    List (String × α) → List (String × α) → Prop :=
  List.Forall₂ fun a a' => a.1 = a'.1 ∧ Alike onRecord (node a.2) (node a'.2)

theorem AlikeUnder.maps {α : Type} {node : α → Node} {as as' : List (String × α)}
    (h : AlikeUnder onRecord node as as') :
    ∀ a ∈ as, ∀ span entries, (node a.2).HasPart (.expr (.map span entries)) →
      onRecord span entries := by
  induction h with
  | nil => simp
  | cons ha _ ih => exact List.forall_mem_cons.mpr ⟨ha.2.maps, ih⟩

theorem AlikeUnder.patterns {ps ps' : List (String × Pattern)}
    (h : AlikeUnder onRecord pattern ps ps') :
    itemsWithoutSpans (ofPatternEntries ps) = itemsWithoutSpans (ofPatternEntries ps') :=
  itemsWithoutSpans_eq h ofPatternEntries (fun _ _ => rfl) fun p p' hp => by
    simpa [ofPatternEntries] using ⟨hp.1, hp.2.shape⟩

theorem AlikeUnder.exprs {fs fs' : List (String × Expr)} (h : AlikeUnder onRecord expr fs fs') :
    fieldsWithoutSpans (ofFields fs) = fieldsWithoutSpans (ofFields fs') := by
  induction h with
  | nil => rfl
  | cons hf _ ih => simpa [ofFields] using ⟨⟨hf.1, hf.2.shape⟩, ih⟩

/-- Two expressions that may be missing are both missing, or they are alike. -/
abbrev Alike? (onRecord : Span → List MapEntry → Prop) : Option Expr → Option Expr → Prop :=
  Option.Rel fun e e' => Alike onRecord (expr e) (expr e')

theorem Alike?.shape {e e' : Option Expr} (h : Alike? onRecord e e') :
    (ofExpr? e).withoutSpans = (ofExpr? e').withoutSpans := by
  cases h with
  | none => rfl
  | some he => exact he.shape

theorem Alike?.maps {e e' : Option Expr} (h : Alike? onRecord e e') :
    ∀ a ∈ e, ∀ span entries, (expr a).HasPart (.expr (.map span entries)) →
      onRecord span entries := by
  cases h with
  | none => simp
  | some he => simpa using he.maps

attribute [simp] ofExpr ofExpr? ofEntries ofKey ofParams ofBody ofBlock ofPattern ofCases ofTarget
  ofFunction ofIf ofAlternate ofSchemaFields ofStmt

namespace Alike

variable {span span' : Span}

/-! ## Expressions -/

section

variable {e e' l l' r r' : Expr} {es es' : List Expr}

/-- An expression without parts. -/
theorem leaf (hshape : (expr e).shape = (expr e').shape) (hleaf : (expr e).children = [])
    (hmap : ∀ span entries, e ≠ .map span entries) : Alike onRecord (expr e) (expr e') :=
  .of_children hshape (fun span entries h => absurd (Node.expr.inj h) (hmap span entries))
    (by rw [hleaf]; nofun)

theorem vector (h : AlikeAll onRecord expr es es') :
    Alike onRecord (expr (.vector span es)) (expr (.vector span' es')) :=
  .of_children (by simpa using h.exprs) nofun (by simpa using h.maps)

theorem list (h : AlikeAll onRecord expr es es') :
    Alike onRecord (expr (.list span es)) (expr (.list span' es')) :=
  .of_children (by simpa using h.exprs) nofun (by simpa using h.maps)

theorem map {entries entries' : List MapEntry} (h : AlikeAll onRecord entry entries entries')
    (hmap : onRecord span entries) :
    Alike onRecord (expr (.map span entries)) (expr (.map span' entries')) :=
  .of_children (by simpa using h.entries) (by rintro _ _ ⟨⟩; exact hmap) (by simpa using h.maps)

theorem member {property : String} (he : Alike onRecord (expr e) (expr e')) :
    Alike onRecord (expr (.member span e property)) (expr (.member span' e' property)) :=
  .of_children (by simpa using he.shape) nofun (by simpa using he.maps)

theorem index (hl : Alike onRecord (expr l) (expr l')) (hr : Alike onRecord (expr r) (expr r')) :
    Alike onRecord (expr (.index span l r)) (expr (.index span' l' r')) :=
  .of_children (by simpa using ⟨hl.shape, hr.shape⟩) nofun (by simpa using ⟨hl.maps, hr.maps⟩)

theorem call (he : Alike onRecord (expr e) (expr e')) (hes : AlikeAll onRecord expr es es') :
    Alike onRecord (expr (.call span e es)) (expr (.call span' e' es')) :=
  .of_children (by simpa using ⟨he.shape, hes.exprs⟩) nofun (by simpa using ⟨he.maps, hes.maps⟩)

theorem binary {operator : BinaryOperator} (hl : Alike onRecord (expr l) (expr l'))
    (hr : Alike onRecord (expr r) (expr r')) :
    Alike onRecord (expr (.binary span operator l r)) (expr (.binary span' operator l' r')) :=
  .of_children (by simpa using ⟨hl.shape, hr.shape⟩) nofun (by simpa using ⟨hl.maps, hr.maps⟩)

theorem unary {operator : UnaryOperator} (he : Alike onRecord (expr e) (expr e')) :
    Alike onRecord (expr (.unary span operator e)) (expr (.unary span' operator e')) :=
  .of_children (by simpa using he.shape) nofun (by simpa using he.maps)

theorem conditional (he : Alike onRecord (expr e) (expr e'))
    (hl : Alike onRecord (expr l) (expr l')) (hr : Alike onRecord (expr r) (expr r')) :
    Alike onRecord (expr (.conditional span e l r)) (expr (.conditional span' e' l' r')) :=
  .of_children (by simpa using ⟨he.shape, hl.shape, hr.shape⟩) nofun
    (by simpa using ⟨he.maps, hl.maps, hr.maps⟩)

theorem lambda {ps ps' : List Param} {b b' : Body} (hps : AlikeAll onRecord param ps ps')
    (hb : Alike onRecord (body b) (body b')) :
    Alike onRecord (expr (.lambda span ps b)) (expr (.lambda span' ps' b')) :=
  .of_children (by simpa using ⟨hps.params, hb.shape⟩) nofun (by simpa using ⟨hb.maps, hps.maps⟩)

/-! ## Parts of expressions -/

theorem written {key : String} (he : Alike onRecord (expr e) (expr e')) :
    Alike onRecord (entry ⟨span, .written key, e⟩) (entry ⟨span', .written key, e'⟩) :=
  .of_children (by simpa using he.shape) nofun (by simpa using he.maps)

theorem computed (hl : Alike onRecord (expr l) (expr l')) (hr : Alike onRecord (expr r) (expr r')) :
    Alike onRecord (entry ⟨span, .computed l, r⟩) (entry ⟨span', .computed l', r'⟩) :=
  .of_children (by simpa using ⟨hl.shape, hr.shape⟩) nofun (by simpa using ⟨hl.maps, hr.maps⟩)

theorem param {name : String} {default default' : Option Expr}
    (h : Alike? onRecord default default') :
    Alike onRecord (param ⟨span, name, default⟩) (param ⟨span', name, default'⟩) :=
  .of_children (by simpa using h.shape) nofun (by simpa using h.maps)

theorem exprBody (he : Alike onRecord (expr e) (expr e')) :
    Alike onRecord (body (.expr e)) (body (.expr e')) :=
  .of_children (by simpa using he.shape) nofun (by simpa using he.maps)

theorem blockBody {b b' : Block} (hb : Alike onRecord (block b) (block b')) :
    Alike onRecord (body (.block b)) (body (.block b')) :=
  .of_children (by simpa using hb.shape) nofun (by simpa using hb.maps)

/-- Of two expressions that are alike, both can be assigned to or none, and the targets are alike
    as well. -/
theorem target (he : Alike onRecord (expr e) (expr e')) :
    Option.Rel (fun t t' => Alike onRecord (Node.target t) (Node.target t')) e.target? e'.target? := by
  have hshape := he.shape
  have htarget : ∀ {t t' : Target}, e.target? = some t →
      (Node.target t).shape = (Node.target t').shape →
      Alike onRecord (Node.target t) (Node.target t') := by
    intro t t' ht hshape
    have hchildren : (Node.target t).children = (Node.expr e).children := by
      unfold Expr.target? at ht
      split at ht <;> cases ht <;> rfl
    refine .of_children hshape nofun fun child hchild span entries hpart => ?_
    rw [hchildren] at hchild
    exact he.maps span entries (.deeper hchild hpart)
  cases e <;> cases e' <;> simp at hshape <;>
    first
    | exact .none
    | exact .some (htarget rfl (by simpa using hshape))

end

/-! ## Patterns -/

theorem wildcard : Alike onRecord (pattern (.wildcard span)) (pattern (.wildcard span')) :=
  .of_children (by simp) nofun (by simp)

theorem patternName {name : String} :
    Alike onRecord (pattern (.name span name)) (pattern (.name span' name)) :=
  .of_children (by simp) nofun (by simp)

theorem literal {e e' : Expr} (he : Alike onRecord (expr e) (expr e')) :
    Alike onRecord (pattern (.literal span e)) (pattern (.literal span' e')) :=
  .of_children (by simpa using he.shape) nofun (by simpa using he.maps)

theorem patternList {ps ps' : List Pattern} (h : AlikeAll onRecord pattern ps ps') :
    Alike onRecord (pattern (.list span ps)) (pattern (.list span' ps')) :=
  .of_children (by simpa using h.patterns) nofun (by simpa using h.maps)

theorem patternMap {ps ps' : List (String × Pattern)} (h : AlikeUnder onRecord pattern ps ps') :
    Alike onRecord (pattern (.map span ps)) (pattern (.map span' ps')) :=
  .of_children (by simpa using h.patterns) nofun (List.forall_mem_map.mpr h.maps)

/-! ## Parts of statements -/

section

variable {b b' : Block} {e e' : Expr}

theorem block {ss ss' : List Stmt} (h : AlikeAll onRecord stmt ss ss') :
    Alike onRecord (block ⟨span, ss⟩) (block ⟨span', ss'⟩) :=
  .of_children (by simpa using h.stmts) nofun (by simpa using h.maps)

theorem matchCase {p p' : Pattern} {guard guard' : Option Expr}
    (hp : Alike onRecord (pattern p) (pattern p')) (hguard : Alike? onRecord guard guard')
    (hb : Alike onRecord (Node.block b) (Node.block b')) :
    Alike onRecord (matchCase ⟨span, p, guard, b⟩) (matchCase ⟨span', p', guard', b'⟩) :=
  .of_children (by simpa using ⟨hp.shape, hguard.shape, hb.shape⟩) nofun
    (by simpa using ⟨hp.maps, hb.maps, by simpa using hguard.maps⟩)

theorem function {name : String} {ps ps' : List Param} (hps : AlikeAll onRecord Node.param ps ps')
    (hb : Alike onRecord (Node.block b) (Node.block b')) :
    Alike onRecord (function ⟨span, name, ps, b⟩) (function ⟨span', name, ps', b'⟩) :=
  .of_children (by simpa using ⟨hps.params, hb.shape⟩) nofun (by simpa using ⟨hb.maps, hps.maps⟩)

theorem nothing : Alike onRecord (alternate .nothing) (alternate .nothing) :=
  .of_children rfl nofun (by simp)

theorem elseBlock (hb : Alike onRecord (Node.block b) (Node.block b')) :
    Alike onRecord (alternate (.elseBlock b)) (alternate (.elseBlock b')) :=
  .of_children (by simpa using hb.shape) nofun (by simpa using hb.maps)

theorem elseIf {s s' : IfStmt} (hs : Alike onRecord (ifStmt s) (ifStmt s')) :
    Alike onRecord (alternate (.elseIf s)) (alternate (.elseIf s')) :=
  .of_children (by simpa using hs.shape) nofun (by simpa using hs.maps)

theorem ifStmt {a a' : Alternate} (he : Alike onRecord (expr e) (expr e'))
    (hb : Alike onRecord (Node.block b) (Node.block b'))
    (ha : Alike onRecord (alternate a) (alternate a')) :
    Alike onRecord (ifStmt ⟨span, e, b, a⟩) (ifStmt ⟨span', e', b', a'⟩) :=
  .of_children (by simpa using ⟨he.shape, hb.shape, ha.shape⟩) nofun
    (by simpa using ⟨he.maps, hb.maps, ha.maps⟩)

theorem field {name : String} {type type' : TypeExpr} {required inSection : Bool}
    {default default' : Option Expr}
    (htype : (ofType type).withoutSpans = (ofType type').withoutSpans)
    (h : Alike? onRecord default default') :
    Alike onRecord (field ⟨span, name, type, required, inSection, default⟩)
      (field ⟨span', name, type', required, inSection, default'⟩) :=
  .of_children (by simpa using ⟨htype, h.shape⟩) nofun (by simpa using h.maps)

/-! ## Statements -/

theorem letName {name : String} (he : Alike onRecord (expr e) (expr e')) :
    Alike onRecord (stmt (.letName span name e)) (stmt (.letName span' name e')) :=
  .of_children (by simpa using he.shape) nofun (by simpa using he.maps)

theorem assign {t t' : Target} (ht : Alike onRecord (Node.target t) (Node.target t'))
    (he : Alike onRecord (expr e) (expr e')) :
    Alike onRecord (stmt (.assign span t e)) (stmt (.assign span' t' e')) :=
  .of_children (by simpa using ⟨ht.shape, he.shape⟩) nofun (by simpa using ⟨ht.maps, he.maps⟩)

theorem functionStmt {f f' : FunctionDecl} (hf : Alike onRecord (Node.function f) (Node.function f')) :
    Alike onRecord (stmt (.function f)) (stmt (.function f')) :=
  .of_children (by simpa using hf.shape) nofun (by simpa using hf.maps)

theorem ifThen {s s' : IfStmt} (hs : Alike onRecord (Node.ifStmt s) (Node.ifStmt s')) :
    Alike onRecord (stmt (.ifThen s)) (stmt (.ifThen s')) :=
  .of_children (by simpa using hs.shape) nofun (by simpa using hs.maps)

theorem forIn {name : String} (he : Alike onRecord (expr e) (expr e'))
    (hb : Alike onRecord (Node.block b) (Node.block b')) :
    Alike onRecord (stmt (.forIn span name e b)) (stmt (.forIn span' name e' b')) :=
  .of_children (by simpa using ⟨he.shape, hb.shape⟩) nofun (by simpa using ⟨he.maps, hb.maps⟩)

theorem whileLoop (he : Alike onRecord (expr e) (expr e'))
    (hb : Alike onRecord (Node.block b) (Node.block b')) :
    Alike onRecord (stmt (.whileLoop span e b)) (stmt (.whileLoop span' e' b')) :=
  .of_children (by simpa using ⟨he.shape, hb.shape⟩) nofun (by simpa using ⟨he.maps, hb.maps⟩)

theorem matchOn {cs cs' : List MatchCase} (he : Alike onRecord (expr e) (expr e'))
    (hcs : AlikeAll onRecord Node.matchCase cs cs') :
    Alike onRecord (stmt (.matchOn span e cs)) (stmt (.matchOn span' e' cs')) :=
  .of_children (by simpa using ⟨he.shape, hcs.cases⟩) nofun (by simpa using ⟨he.maps, hcs.maps⟩)

theorem returnValue {value value' : Option Expr} (h : Alike? onRecord value value') :
    Alike onRecord (stmt (.returnValue span value)) (stmt (.returnValue span' value')) :=
  .of_children (by simpa using h.shape) nofun (by simpa using h.maps)

theorem on {condition condition' : Option Expr} (he : Alike onRecord (expr e) (expr e'))
    (h : Alike? onRecord condition condition')
    (hb : Alike onRecord (Node.block b) (Node.block b')) :
    Alike onRecord (stmt (.on span e condition b)) (stmt (.on span' e' condition' b')) :=
  .of_children (by simpa using ⟨he.shape, h.shape, hb.shape⟩) nofun
    (by simpa using ⟨he.maps, hb.maps, by simpa using h.maps⟩)

theorem emit {data data' : Option Expr} (he : Alike onRecord (expr e) (expr e'))
    (h : Alike? onRecord data data') :
    Alike onRecord (stmt (.emit span e data)) (stmt (.emit span' e' data')) :=
  .of_children (by simpa using ⟨he.shape, h.shape⟩) nofun
    (by simpa using ⟨he.maps, by simpa using h.maps⟩)

theorem importFile {i i' : Import} (h : (ofImport i).withoutSpans = (ofImport i').withoutSpans) :
    Alike onRecord (stmt (.importFile i)) (stmt (.importFile i')) :=
  .of_children (by simpa using h) nofun (by simp)

theorem schema {name : String} {parent : Option String} {fs fs' : List SchemaField}
    {ms ms' : List FunctionDecl} (hfs : AlikeAll onRecord Node.field fs fs')
    (hms : AlikeAll onRecord Node.function ms ms') :
    Alike onRecord (stmt (.schema span name parent fs ms))
      (stmt (.schema span' name parent fs' ms')) :=
  .of_children (by simpa using ⟨hfs.fields, hms.functions⟩) nofun
    (List.forall_mem_append.mpr
      ⟨List.forall_mem_map.mpr hfs.maps, List.forall_mem_map.mpr hms.maps⟩)

theorem instanceOf {schema name : String} {fs fs' : List (String × Expr)}
    (h : AlikeUnder onRecord expr fs fs') :
    Alike onRecord (stmt (.instanceOf span schema name fs))
      (stmt (.instanceOf span' schema name fs')) :=
  .of_children (by simpa using h.exprs) nofun (List.forall_mem_map.mpr h.maps)

theorem expression (he : Alike onRecord (expr e) (expr e')) :
    Alike onRecord (stmt (.expression span e)) (stmt (.expression span' e')) :=
  .of_children (by simpa using he.shape) nofun (by simpa using he.maps)

/-- A statement without parts. -/
theorem leafStmt {s s' : Stmt} (hshape : (stmt s).shape = (stmt s').shape)
    (hleaf : (stmt s).children = []) : Alike onRecord (stmt s) (stmt s') :=
  .of_children hshape nofun (by rw [hleaf]; nofun)

end

end Alike

end

end Node

end EventScript
