import EventScript.Proofs.Grammar.Places
import EventScript.Proofs.Token.Positions

/-! # Trees over token lists

A tree that was read from a token list stands over a part of it: `Outline.Within` says that every
node covers tokens of its parent, that the items of a list follow each other, and that the fields of
a node do so as well, in all nodes but those that sort what they are made of.  Where the tokens
stand in the order of the source, the spans of such a tree nest (`Outline.Within.spansNest`).

* `Outline.Within`       a tree stands over a part of a token list
* `Outline.Has`          a node stands in a tree
* `Outline.SpansNest`    the spans of a tree nest
-/

namespace EventScript

/-- One span ends before another one starts. -/
def Span.Before (s s' : Span) : Prop := s.stop.offset ≤ s'.start.offset

/-! ## Spans over tokens -/

section

variable {source : List Char} {file : Option String} {tokens : List Token}
  {first last first' last' : Nat} {span span' : Span}

theorem Covers.ends (h : Covers tokens first last span) :
    (∃ t, tokens[first]? = some t ∧ t.span.start = span.start) ∧
      ∃ t, tokens[last]? = some t ∧ t.span.stop = span.stop :=
  ⟨Option.map_eq_some_iff.mp h.start, Option.map_eq_some_iff.mp h.stop⟩

/-- Tokens further on start at or behind the end of those before them. -/
theorem FaithfulTokens.stop_le_start (hfaithful : FaithfulTokens source file tokens) {i j : Nat}
    {t u : Token} (ht : tokens[i]? = some t) (hu : tokens[j]? = some u) (hij : i < j) :
    t.span.stop.offset ≤ u.span.start.offset := by
  obtain ⟨hi, rfl⟩ := List.getElem?_eq_some_iff.mp ht
  obtain ⟨hj, rfl⟩ := List.getElem?_eq_some_iff.mp hu
  exact List.pairwise_iff_getElem.mp hfaithful.ordered i j hi hj hij

theorem FaithfulTokens.start_le_start (hfaithful : FaithfulTokens source file tokens) {i j : Nat}
    {t u : Token} (ht : tokens[i]? = some t) (hu : tokens[j]? = some u) (hij : i ≤ j) :
    t.span.start.offset ≤ u.span.start.offset := by
  rcases Nat.eq_or_lt_of_le hij with rfl | hlt
  · rw [Option.some.inj (ht.symm.trans hu)]
  · exact Nat.le_trans (hfaithful.standing t (List.mem_of_getElem? ht)).forward
      (hfaithful.stop_le_start ht hu hlt)

theorem FaithfulTokens.stop_le_stop (hfaithful : FaithfulTokens source file tokens) {i j : Nat}
    {t u : Token} (ht : tokens[i]? = some t) (hu : tokens[j]? = some u) (hij : i ≤ j) :
    t.span.stop.offset ≤ u.span.stop.offset := by
  rcases Nat.eq_or_lt_of_le hij with rfl | hlt
  · rw [Option.some.inj (ht.symm.trans hu)]
  · exact Nat.le_trans (hfaithful.stop_le_start ht hu hlt)
      (hfaithful.standing u (List.mem_of_getElem? hu)).forward

variable (hfaithful : FaithfulTokens source file tokens)

include hfaithful

/-- What covers tokens is a part of the source. -/
theorem Covers.inSource (h : Covers tokens first last span) :
    span.start.offset ≤ span.stop.offset ∧ span.stop.offset ≤ source.length := by
  obtain ⟨⟨t, ht, hstart⟩, u, hu, hstop⟩ := h.ends
  have hstands := hfaithful.standing u (List.mem_of_getElem? hu)
  rw [← hstart, ← hstop]
  exact ⟨Nat.le_trans (hfaithful.start_le_start ht hu h.le) hstands.forward, hstands.stop.offset⟩

theorem Covers.inside (h : Covers tokens first last span) (h' : Covers tokens first' last' span')
    (hfirst : first ≤ first') (hlast : last' ≤ last) :
    span.start.offset ≤ span'.start.offset ∧ span'.stop.offset ≤ span.stop.offset := by
  obtain ⟨⟨t, ht, hstart⟩, u, hu, hstop⟩ := h.ends
  obtain ⟨⟨t', ht', hstart'⟩, u', hu', hstop'⟩ := h'.ends
  rw [← hstart, ← hstop, ← hstart', ← hstop']
  exact ⟨hfaithful.start_le_start ht ht' hfirst, hfaithful.stop_le_stop hu' hu hlast⟩

theorem Covers.before (h : Covers tokens first last span) (h' : Covers tokens first' last' span')
    (hlt : last < first') : span.Before span' := by
  obtain ⟨-, u, hu, hstop⟩ := h.ends
  obtain ⟨⟨t', ht', hstart'⟩, -⟩ := h'.ends
  rw [Span.Before, ← hstop, ← hstart']
  exact hfaithful.stop_le_start hu ht' hlt

end

namespace Outline

/-- The node keeps parts of different kinds apart that are mixed in the source: the imports and the
    statements of a file, and the fields and the methods of a schema. -/
def sortsParts (name : String) : Bool := name == "Program" || name == "SchemaDeclaration"

mutual

/-- A tree stands over the tokens from one place up to another one. -/
def Within (tokens : List Token) : Outline → Nat → Nat → Prop
  | node name span fields, i, j =>
    ∃ first last, i ≤ first ∧ last < j ∧ Covers tokens first last span ∧
      if sortsParts name then FieldsWithin tokens fields first (last + 1)
      else FieldsInOrder tokens fields first (last + 1)
  | list items, i, j => ItemsInOrder tokens items i j
  | keyed entries, i, j => FieldsWithin tokens entries i j
  | pair _ value, i, j => Within tokens value i j
  | leaf _, _, _ => True

/-- Every field stands over some of the tokens. -/
def FieldsWithin (tokens : List Token) : List (String × Outline) → Nat → Nat → Prop
  | [], _, _ => True
  | (_, part) :: rest, i, j => Within tokens part i j ∧ FieldsWithin tokens rest i j

/-- The fields stand over tokens one behind the other. -/
def FieldsInOrder (tokens : List Token) : List (String × Outline) → Nat → Nat → Prop
  | [], i, j => i ≤ j
  | (_, part) :: rest, i, j =>
    ∃ k m, i ≤ k ∧ k ≤ m ∧ Within tokens part k m ∧ FieldsInOrder tokens rest m j

/-- The items stand over tokens one behind the other. -/
def ItemsInOrder (tokens : List Token) : List Outline → Nat → Nat → Prop
  | [], i, j => i ≤ j
  | item :: rest, i, j =>
    ∃ k m, i ≤ k ∧ k ≤ m ∧ Within tokens item k m ∧ ItemsInOrder tokens rest m j

end

variable {tokens : List Token} {i i' j j' k : Nat}

theorem itemsInOrder_iff : ∀ {items : List Outline} {i : Nat},
    ItemsInOrder tokens items i j ↔ Successive (fun k m o => Within tokens o k m) i j items
  | [], _ => Iff.rfl
  | _ :: _, _ => by simp only [ItemsInOrder, Successive, itemsInOrder_iff]

/-! ## Wider parts of a token list -/

mutual

theorem Within.mono : ∀ {o : Outline} {i i' j j' : Nat}, Within tokens o i j → i' ≤ i → j ≤ j' →
    Within tokens o i' j'
  | node _ _ _, _, _, _, _, ⟨first, last, hfirst, hlast, hnode⟩, hi, hj =>
    ⟨first, last, Nat.le_trans hi hfirst, Nat.lt_of_lt_of_le hlast hj, hnode⟩
  | list _, _, _, _, _, h, hi, hj => itemsInOrder_iff.mpr ((itemsInOrder_iff.mp h).mono hi hj)
  | keyed _, _, _, _, _, h, hi, hj => FieldsWithin.mono h hi hj
  | pair _ value, _, _, _, _, h, hi, hj => Within.mono (o := value) h hi hj
  | leaf _, _, _, _, _, _, _, _ => trivial

theorem FieldsWithin.mono : ∀ {fields : List (String × Outline)} {i i' j j' : Nat},
    FieldsWithin tokens fields i j → i' ≤ i → j ≤ j' → FieldsWithin tokens fields i' j'
  | [], _, _, _, _, _, _, _ => trivial
  | (_, _) :: _, _, _, _, _, ⟨hpart, hrest⟩, hi, hj => ⟨hpart.mono hi hj, hrest.mono hi hj⟩

end

/-! ## Building trees -/

/-- A tree stands over tokens of its own. -/
def Over (tokens : List Token) (o : Outline) (i j : Nat) : Prop := i < j ∧ Within tokens o i j

theorem Over.mono {o : Outline} (h : o.Over tokens i j) (hi : i' ≤ i) (hj : j ≤ j') :
    o.Over tokens i' j' :=
  ⟨Nat.lt_of_le_of_lt hi (Nat.lt_of_lt_of_le h.1 hj), h.2.mono hi hj⟩

/-- A node whose fields follow each other. -/
theorem Over.ofFields {name : String} {span : Span} {fields : List (String × Outline)}
    (hname : sortsParts name = false) (hcovers : Covers tokens i (j - 1) span) (hij : i < j)
    (hfields : FieldsInOrder tokens fields i j) : (node name span fields).Over tokens i j := by
  refine ⟨hij, i, j - 1, Nat.le_refl i, by omega, hcovers, ?_⟩
  rw [hname, Nat.sub_add_cancel (by omega)]
  simpa using hfields

/-- A node that sorts what it is made of. -/
theorem Over.ofSorted {name : String} {span : Span} {fields : List (String × Outline)}
    (hname : sortsParts name = true) (hcovers : Covers tokens i (j - 1) span) (hij : i < j)
    (hfields : FieldsWithin tokens fields i j) : (node name span fields).Over tokens i j := by
  refine ⟨hij, i, j - 1, Nat.le_refl i, by omega, hcovers, ?_⟩
  rw [hname, Nat.sub_add_cancel (by omega)]
  simpa using hfields

/-- A node for a single token. -/
theorem Over.ofToken {name : String} {t : Token} {fields : List (String × Outline)}
    (hname : sortsParts name = false) (ht : tokens[i]? = some t)
    (hfields : FieldsInOrder tokens fields i (i + 1)) :
    (node name t.span fields).Over tokens i (i + 1) := by
  refine .ofFields hname ⟨Nat.le_refl i, ?_, ?_⟩ (Nat.lt_succ_self i) hfields
  · rw [ht]
    rfl
  · rw [Nat.add_sub_cancel, ht]
    rfl

theorem FieldsInOrder.nil (h : i ≤ j) : FieldsInOrder tokens [] i j := h

theorem FieldsInOrder.leaf {key : String} {value : Literal} {rest : List (String × Outline)}
    (h : FieldsInOrder tokens rest i j) : FieldsInOrder tokens ((key, .leaf value) :: rest) i j :=
  ⟨i, i, Nat.le_refl i, Nat.le_refl i, trivial, h⟩

theorem FieldsInOrder.part {key : String} {o : Outline} {rest : List (String × Outline)} {m : Nat}
    (h : o.Within tokens k m) (hk : i ≤ k) (hkm : k ≤ m) (hrest : FieldsInOrder tokens rest m j) :
    FieldsInOrder tokens ((key, o) :: rest) i j :=
  ⟨k, m, hk, hkm, h, hrest⟩

theorem FieldsInOrder.over {key : String} {o : Outline} {rest : List (String × Outline)} {m : Nat}
    (h : o.Over tokens k m) (hk : i ≤ k) (hrest : FieldsInOrder tokens rest m j) :
    FieldsInOrder tokens ((key, o) :: rest) i j :=
  .part h.2 hk (Nat.le_of_lt h.1) hrest

theorem ItemsInOrder.singleton {o : Outline} (h : o.Over tokens i j) :
    ItemsInOrder tokens [o] i j :=
  ⟨i, j, Nat.le_refl i, Nat.le_of_lt h.1, h.2, Nat.le_refl j⟩

/-- Texts stand over any tokens. -/
theorem Within.texts (names : List String) (h : i ≤ j) :
    (list (names.map text)).Within tokens i j := by
  refine itemsInOrder_iff.mpr ?_
  induction names with
  | nil => exact h
  | cons name names ih => exact ⟨i, i, Nat.le_refl i, Nat.le_refl i, trivial, ih⟩

/-- The items that were read one behind the other. -/
theorem ItemsInOrder.of_successive {α : Type} {R : Nat → Nat → α → Prop}
    {outlines : List α → List Outline} {as : List α} (h : Successive R i j as)
    (hnil : outlines [] = [])
    (hcons : ∀ a as, outlines (a :: as) = outlines [a] ++ outlines as)
    (hR : ∀ k m a, R k m a → ItemsInOrder tokens (outlines [a]) k m) :
    ItemsInOrder tokens (outlines as) i j := by
  have hflat : outlines as = as.flatMap fun a => outlines [a] := by
    induction as with
    | nil => exact hnil
    | cons a as ih =>
      obtain ⟨k, m, _, _, _, has⟩ := h
      rw [hcons, List.flatMap_cons, ih (has.mono (by omega) (Nat.le_refl j))]
  rw [hflat, itemsInOrder_iff]
  exact h.flatMap fun k m a ha => itemsInOrder_iff.mp (hR k m a ha)

/-! ## The spans of a tree -/

mutual

/-- The spans of the nodes that stand in a tree with no other node around them. -/
def spans : Outline → List Span
  | node _ span _ => [span]
  | list items => itemSpans items
  | keyed entries => fieldSpans entries
  | pair _ value => spans value
  | leaf _ => []

/-- The spans of the nodes that stand in fields with no other node around them. -/
def fieldSpans : List (String × Outline) → List Span
  | [] => []
  | (_, part) :: rest => spans part ++ fieldSpans rest

/-- The spans of the nodes that stand in a list with no other node around them. -/
def itemSpans : List Outline → List Span
  | [] => []
  | item :: rest => spans item ++ itemSpans rest

end

/-- A node stands in a tree. -/
inductive Has : Outline → Outline → Prop
  | itself (o : Outline) : Has o o
  | field {name key : String} {span : Span} {fields : List (String × Outline)} {part o : Outline}
      (mem : (key, part) ∈ fields) (inside : Has part o) : Has (node name span fields) o
  | item {items : List Outline} {part o : Outline} (mem : part ∈ items) (inside : Has part o) :
      Has (list items) o
  | entry {entries : List (String × Outline)} {key : String} {part o : Outline}
      (mem : (key, part) ∈ entries) (inside : Has part o) : Has (keyed entries) o
  | value {key : String} {part o : Outline} (inside : Has part o) : Has (pair key part) o

/-- The nodes of one tree end before those of another one start. -/
def Before (o o' : Outline) : Prop := ∀ s ∈ o.spans, ∀ s' ∈ o'.spans, s.Before s'

/-- The spans of a node nest: it is a part of the source, the spans of the nodes below it are parts
    of its own, those that come from one list follow each other, and so do those of different fields
    where a node does not sort its parts. -/
structure SpansNest (length : Nat) (name : String) (span : Span)
    (fields : List (String × Outline)) : Prop where
  ordered : span.start.offset ≤ span.stop.offset
  inSource : span.stop.offset ≤ length
  inside : ∀ field ∈ fields, ∀ s ∈ field.2.spans,
    span.start.offset ≤ s.start.offset ∧ s.stop.offset ≤ span.stop.offset
  items : ∀ field ∈ fields, ∀ items, field.2 = list items → items.Pairwise Before
  fields : sortsParts name = false → fields.Pairwise fun field field' => field.2.Before field'.2

/-! ## From places to spans -/

/-- Every span covers tokens of a part of a token list. -/
def CoverWithin (tokens : List Token) (i j : Nat) (spans : List Span) : Prop :=
  ∀ s ∈ spans, ∃ first last, i ≤ first ∧ last < j ∧ Covers tokens first last s

theorem CoverWithin.append {ss ss' : List Span} (h : CoverWithin tokens i j ss)
    (h' : CoverWithin tokens i j ss') : CoverWithin tokens i j (ss ++ ss') := fun s hs =>
  (List.mem_append.mp hs).elim (h s) (h' s)

theorem CoverWithin.mono {ss : List Span} (h : CoverWithin tokens i j ss) (hi : i' ≤ i)
    (hj : j ≤ j') : CoverWithin tokens i' j' ss := fun s hs => by
  obtain ⟨first, last, hfirst, hlast, hcovers⟩ := h s hs
  exact ⟨first, last, by omega, by omega, hcovers⟩

mutual

theorem Within.coverWithin : ∀ {o : Outline} {i j : Nat}, Within tokens o i j →
    CoverWithin tokens i j o.spans
  | node _ span _, _, _, ⟨first, last, hfirst, hlast, hcovers, _⟩ => by
    intro s hs
    obtain rfl := List.mem_singleton.mp hs
    exact ⟨first, last, hfirst, hlast, hcovers⟩
  | list _, _, _, h => ItemsInOrder.coverWithin h
  | keyed _, _, _, h => FieldsWithin.coverWithin h
  | pair _ value, _, _, h => Within.coverWithin (o := value) h
  | leaf _, _, _, _ => nofun

theorem FieldsWithin.coverWithin : ∀ {fields : List (String × Outline)} {i j : Nat},
    FieldsWithin tokens fields i j → CoverWithin tokens i j (fieldSpans fields)
  | [], _, _, _ => nofun
  | (_, _) :: _, _, _, ⟨hpart, hrest⟩ => hpart.coverWithin.append hrest.coverWithin

theorem ItemsInOrder.coverWithin : ∀ {items : List Outline} {i j : Nat},
    ItemsInOrder tokens items i j → CoverWithin tokens i j (itemSpans items)
  | [], _, _, _ => nofun
  | _ :: _, _, _, ⟨k, m, hk, hkm, hitem, hrest⟩ => by
    have hm := (itemsInOrder_iff.mp hrest).le
    exact (hitem.coverWithin.mono hk hm).append (hrest.coverWithin.mono (by omega) (Nat.le_refl _))

end

variable {source : List Char} {file : Option String}

/-- What covers tokens up to a place is before what covers tokens from there on. -/
theorem CoverWithin.before (hfaithful : FaithfulTokens source file tokens) {ss ss' : List Span}
    (h : CoverWithin tokens i k ss) (h' : CoverWithin tokens k j ss') :
    ∀ s ∈ ss, ∀ s' ∈ ss', s.Before s' := by
  intro s hs s' hs'
  obtain ⟨first, last, -, hlast, hcovers⟩ := h s hs
  obtain ⟨first', last', hfirst', -, hcovers'⟩ := h' s' hs'
  exact hcovers.before hfaithful hcovers' (by omega)

theorem FieldsInOrder.le : ∀ {fields : List (String × Outline)} {i : Nat},
    FieldsInOrder tokens fields i j → i ≤ j
  | [], _, h => h
  | (_, _) :: _, _, ⟨_, _, hk, hkm, _, hrest⟩ => Nat.le_trans hk (Nat.le_trans hkm hrest.le)

theorem FieldsInOrder.fieldsWithin : ∀ {fields : List (String × Outline)} {i : Nat},
    FieldsInOrder tokens fields i j → FieldsWithin tokens fields i j
  | [], _, _ => trivial
  | (_, _) :: _, _, ⟨_, _, hk, hkm, hpart, hrest⟩ =>
    ⟨hpart.mono hk hrest.le, hrest.fieldsWithin.mono (by omega) (Nat.le_refl j)⟩

theorem FieldsWithin.of_mem : ∀ {fields : List (String × Outline)},
    FieldsWithin tokens fields i j → ∀ {field}, field ∈ fields → Within tokens field.2 i j
  | _ :: _, ⟨hpart, hrest⟩, _, hmem => by
    rcases List.mem_cons.mp hmem with rfl | hmem
    · exact hpart
    · exact hrest.of_mem hmem

theorem ItemsInOrder.within_of_mem : ∀ {items : List Outline} {i : Nat},
    ItemsInOrder tokens items i j → ∀ {item}, item ∈ items → ∃ k m, Within tokens item k m
  | _ :: _, _, ⟨k, m, _, _, hitem, hrest⟩, _, hmem => by
    rcases List.mem_cons.mp hmem with rfl | hmem
    · exact ⟨k, m, hitem⟩
    · exact hrest.within_of_mem hmem

theorem mem_itemSpans {s : Span} : ∀ {items : List Outline},
    s ∈ itemSpans items ↔ ∃ item ∈ items, s ∈ item.spans
  | [] => by simp [itemSpans]
  | item :: rest => by simp [itemSpans, mem_itemSpans]

theorem mem_fieldSpans {s : Span} : ∀ {fields : List (String × Outline)},
    s ∈ fieldSpans fields ↔ ∃ field ∈ fields, s ∈ field.2.spans
  | [] => by simp [fieldSpans]
  | (_, part) :: rest => by simp [fieldSpans, mem_fieldSpans]

section

variable (hfaithful : FaithfulTokens source file tokens)

include hfaithful

theorem ItemsInOrder.pairwise : ∀ {items : List Outline} {i : Nat},
    ItemsInOrder tokens items i j → items.Pairwise Before
  | [], _, _ => .nil
  | _ :: _, _, ⟨_, _, _, _, hitem, hrest⟩ => by
    refine .cons (fun item' hmem s hs s' hs' => ?_) hrest.pairwise
    exact hitem.coverWithin.before hfaithful hrest.coverWithin s hs s'
      (mem_itemSpans.mpr ⟨item', hmem, hs'⟩)

theorem FieldsInOrder.pairwise : ∀ {fields : List (String × Outline)} {i : Nat},
    FieldsInOrder tokens fields i j → fields.Pairwise fun field field' => field.2.Before field'.2
  | [], _, _ => .nil
  | (_, _) :: _, _, ⟨_, _, _, _, hpart, hrest⟩ => by
    refine .cons (fun field' hmem s hs s' hs' => ?_) hrest.pairwise
    exact hpart.coverWithin.before hfaithful hrest.fieldsWithin.coverWithin s hs s'
      (mem_fieldSpans.mpr ⟨field', hmem, hs'⟩)

/-- The spans of a node that stands over tokens nest. -/
theorem Within.node_spansNest {name : String} {span : Span} {fields : List (String × Outline)}
    (h : Within tokens (node name span fields) i j) :
    SpansNest source.length name span fields := by
  obtain ⟨first, last, -, -, hcovers, hfields⟩ := h
  obtain ⟨hordered, hinside⟩ := hcovers.inSource hfaithful
  have hwithin : FieldsWithin tokens fields first (last + 1) := by
    split at hfields
    · exact hfields
    · exact hfields.fieldsWithin
  refine ⟨hordered, hinside, fun field hmem s hs => ?_, ?_, fun hsorts => ?_⟩
  · -- tokens of a part are tokens of the node
    obtain ⟨first', last', hfirst, hlast, hcovers'⟩ := (hwithin.of_mem hmem).coverWithin s hs
    exact hcovers.inside hfaithful hcovers' hfirst (by omega)
  · rintro ⟨key, _⟩ hmem items rfl
    have hitems : ItemsInOrder tokens items first (last + 1) := hwithin.of_mem hmem
    exact hitems.pairwise hfaithful
  · rw [hsorts, if_neg Bool.false_ne_true] at hfields
    exact hfields.pairwise hfaithful

/-- The spans of a tree that stands over tokens nest in every node. -/
theorem Within.spansNest {o x : Outline} (h : Within tokens o i j) (hx : o.Has x)
    {name : String} {span : Span} {fields : List (String × Outline)}
    (hnode : x = node name span fields) : SpansNest source.length name span fields := by
  induction hx generalizing i j with
  | itself => exact (hnode ▸ h).node_spansNest hfaithful
  | field mem _ ih =>
    obtain ⟨first, last, -, -, -, hfields⟩ := h
    split at hfields
    · exact ih (hfields.of_mem mem) hnode
    · exact ih (hfields.fieldsWithin.of_mem mem) hnode
  | item mem _ ih =>
    obtain ⟨k, m, hitem⟩ := ItemsInOrder.within_of_mem h mem
    exact ih hitem hnode
  | entry mem _ ih => exact ih (FieldsWithin.of_mem h mem) hnode
  | value _ ih => exact ih h hnode

end

end Outline

end EventScript
