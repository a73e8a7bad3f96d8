import EventScript.Proofs.Depth

/-! # Displaying values

The display of a list or a map is made of the displays of its parts.  It is computed down to some
depth only, but no value that does not contain itself is as deep as that, so that the depth is not
to be seen in its display; and what is made later makes no difference to it.

* `Store.displayBy`            the display of a value, from those of its parts
* `Acyclic.display_eq`         which is how values are displayed that do not contain themselves
* `Acyclic.display_grows`      what is made later
-/

namespace EventScript

namespace Store

/-- The display of a value, given the displays of the values that it holds. -/
def displayBy (s : Store) (part : Value → String) : Value → String
  | .list r => "[" ++ ", ".intercalate ((s.list r).toList.map part) ++ "]"
  | .map r =>
    match (s.map r).entries with
    | [] => "\x7b\x7d"
    | entries =>
      "\x7b " ++ ", ".intercalate (entries.map fun e => e.1.display ++ ": " ++ part e.2) ++ " \x7d"
  | v => s.displayFrom 1 v

variable {s s' : Store} {v : Value}

theorem displayFrom_succ (s : Store) (depth : Nat) (v : Value) :
    s.displayFrom (depth + 1) v = s.displayBy (s.displayFrom depth) v := by
  cases v <;> rfl

/-- Only the displays of the values that it holds make a difference to that of a value. -/
theorem displayBy_congr {part part' : Value → String}
    (h : ∀ x ∈ s.contents v, part x = part' x) : s.displayBy part v = s.displayBy part' v := by
  cases v with
  | list r =>
    have hitems : (s.list r).toList.map part = (s.list r).toList.map part' := List.map_congr_left h
    simp only [displayBy, hitems]
  | map r =>
    have hentries : (s.map r).entries.map (fun e => e.1.display ++ ": " ++ part e.2) =
        (s.map r).entries.map fun e => e.1.display ++ ": " ++ part' e.2 :=
      List.map_congr_left fun e he => by rw [h e.2 (entry_mem_contents he)]
    simp only [displayBy]
    split
    · rfl
    · rw [hentries]
  | _ => rfl

/-- All depths that are beyond the levels of a value show the same of it. -/
theorem displayFrom_eq_of_levelsWithin {n : Nat} : ∀ {v : Value} {depth depth' : Nat},
    s.LevelsWithin n v → n < depth → n < depth' →
      s.displayFrom depth v = s.displayFrom depth' v := by
  induction n with
  | zero =>
    intro v depth depth' hlevels hlt hlt'
    obtain ⟨depth, rfl⟩ : ∃ d, depth = d + 1 := ⟨depth - 1, by omega⟩
    obtain ⟨depth', rfl⟩ : ∃ d, depth' = d + 1 := ⟨depth' - 1, by omega⟩
    have hnone : s.contents v = [] := contents_eq_nil hlevels
    rw [displayFrom_succ, displayFrom_succ]
    exact displayBy_congr fun x hx => by rw [hnone] at hx; cases hx
  | succ n ih =>
    intro v depth depth' hlevels hlt hlt'
    obtain ⟨depth, rfl⟩ : ∃ d, depth = d + 1 := ⟨depth - 1, by omega⟩
    obtain ⟨depth', rfl⟩ : ∃ d, depth' = d + 1 := ⟨depth' - 1, by omega⟩
    rw [displayFrom_succ, displayFrom_succ]
    exact displayBy_congr fun x hx => ih (hlevels x hx) (by omega) (by omega)

/-- What is no list and no map is displayed by the same name in two stores. -/
structure SameNames (s s' : Store) : Prop where
  functions : s'.functions = s.functions
  natives : s'.natives = s.natives
  schemas : s'.schemas = s.schemas
  instances : s'.instances = s.instances

theorem SameNames.displayFrom_eq (h : s.SameNames s') (hv : s.cell? v = none) (depth : Nat) :
    s'.displayFrom depth v = s.displayFrom depth v := by
  obtain ⟨hfunctions, hnatives, hschemas, hinstances⟩ := h
  cases v with
  | list r => cases hv
  | map r => cases hv
  | _ =>
    cases depth <;> simp only [displayFrom, nativeName?, function, native, schema, inst, hfunctions,
      hnatives, hschemas, hinstances]

namespace Acyclic

/-- The bound on the depth is beyond the levels of a value. -/
theorem displayFrom_eq (h : s.Acyclic v) {depth : Nat} (hdepth : s.containers < depth) :
    s.displayFrom depth v = s.display v := by
  refine displayFrom_eq_of_levelsWithin h.levelsWithin hdepth ?_
  unfold containers depthBound
  omega

/-- A value is displayed by the displays of the values that it holds. -/
theorem display_eq (h : s.Acyclic v) : s.display v = s.displayBy s.display v := by
  have hdepth : s.containers < s.containers + 1 + 1 := by omega
  rw [← h.displayFrom_eq hdepth, displayFrom_succ]
  exact displayBy_congr fun x hx => (h.of_mem_contents hx).displayFrom_eq (by omega)

theorem displayFrom_grows (hgrows : s.Grows s') (hnames : s.SameNames s') (h : s.Acyclic v) :
    ∀ depth, s'.displayFrom depth v = s.displayFrom depth v := by
  induction h with
  | @plain v hlist hmap =>
    refine fun depth => hnames.displayFrom_eq ?_ depth
    cases v <;> first | rfl | exact absurd rfl hlist | exact absurd rfl hmap
  | @list r held items ih =>
    intro depth
    cases depth with
    | zero => rfl
    | succ depth =>
      have hlist : s'.list r = s.list r := hgrows.lists.get_eq r held
      have hparts := List.map_congr_left fun x hx => ih x hx depth
      rw [displayFrom_succ, displayFrom_succ, displayBy, displayBy, hlist, hparts]
  | @map r held values ih =>
    intro depth
    cases depth with
    | zero => rfl
    | succ depth =>
      have hmap : s'.map r = s.map r := hgrows.maps.get_eq r held
      have hparts : ∀ x ∈ s.contents (.map r), s'.displayFrom depth x = s.displayFrom depth x := by
        intro x hx
        obtain ⟨e, he, rfl⟩ := List.mem_map.mp hx
        exact ih e he depth
      rw [displayFrom_succ, displayFrom_succ, ← displayBy_congr hparts, displayBy, displayBy, hmap]

/-- What is made later makes no difference to the display of a value. -/
theorem display_grows (hgrows : s.Grows s') (hnames : s.SameNames s') (h : s.Acyclic v) :
    s'.display v = s.display v := by
  have hdepth : s.containers < s'.depthBound := by
    have hlists := hgrows.lists.size_le
    have hmaps := hgrows.maps.size_le
    unfold containers depthBound
    omega
  rw [display, displayFrom_grows hgrows hnames h, h.displayFrom_eq hdepth]

end Acyclic

end Store

end EventScript
