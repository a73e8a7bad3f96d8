import EventScript.Proofs.Display
import EventScript.Proofs.Sorting.Insertion
import EventScript.Proofs.Yields.Expressions
import EventScript.Session
import Mathlib.Data.String.Basic
import Mathlib.Data.Sum.Order

/-! # Sorting lists

Lists are sorted stably into new lists, by the order that values have by themselves or by one that a
native tells.  In the former, integers come first and all else comes by its display, so that values
of different kinds may be tied: `true` and `"true"` are, while `1` and `"1"` are not.

* `naturalKey_below`     the order of the keys that values are sorted by
* `givesList_sort`       sorting without a comparison
* `yieldsIn_sort`        sorting with one
* `sorting_is_stable`    the function and the member
-/

namespace EventScript

open Library Library.Sorting

/-! ## The order that values have by themselves -/

/-- The code points of a text. -/
def codePoints (t : String) : List Nat := t.toList.map Char.toNat

theorem codePoints_lt {a b : String} : codePoints a < codePoints b ↔ a < b := by
  have hmono : StrictMono (List.map Char.toNat) := fun _ _ h => List.map_lt (fun _ _ => id) h
  rw [String.lt_iff_toList_lt]
  exact hmono.lt_iff_lt

/-- What values are sorted by: integers come first, by size, and all else comes by the code points
    of its display. -/
def Store.sortKey (s : Store) : Value → Lex (Int ⊕ List Nat)
  | .number (.int n) => toLex (.inl n)
  | v => toLex (.inr (codePoints (s.display v)))

/-- The first value is not behind the second one. -/
def Store.inOrder (s : Store) (a b : Value) : Bool := decide (s.sortKey a ≤ s.sortKey b)

/-- The value is no floating point number. -/
def Value.NotFloat (v : Value) : Prop := ∀ x, v.number? ≠ some (.float x)

section

variable {s s' : Store} {v a b : Value} {vs ws : List Value}

/-- Values with their keys. -/
def keyed (s : Store) (vs : List Value) : List (NaturalKey × Value) :=
  vs.map fun v => (naturalKey s v, v)

theorem map_snd_keyed (s : Store) (vs : List Value) : (keyed s vs).map Prod.snd = vs := by
  rw [keyed, List.map_map]
  exact List.map_id vs

/-- Any values can be ordered. -/
theorem ranks_inOrder (s : Store) (vs : List Value) : Ranks s.inOrder vs := by
  refine ⟨fun a _ b _ => ?_, fun a _ b _ c _ hab hbc => ?_⟩
  · simpa [Store.inOrder] using le_total (s.sortKey a) (s.sortKey b)
  · simp only [Store.inOrder, decide_eq_true_eq] at hab hbc ⊢
    exact hab.trans hbc

/-- Values are integers, or what is sorted by its display. -/
theorem Value.NotFloat.cases (h : v.NotFloat) : (∃ n, v = .int n) ∨
    v.number? = none ∧ ∀ s : Store, s.sortKey v = toLex (.inr (codePoints (s.display v))) := by
  cases v with
  | number n =>
    cases n with
    | int n => exact .inl ⟨n, rfl⟩
    | float x => exact absurd rfl (h x)
  | nan mark => exact absurd rfl (h _)
  | _ => exact .inr ⟨rfl, fun _ => rfl⟩

/-- The keys tell of two values whether the first one is before the second one. -/
theorem naturalKey_below (ha : a.NotFloat) (hb : b.NotFloat) :
    (naturalKey s a).below (naturalKey s b) = !s.inOrder b a := by
  have hlt : (!s.inOrder b a) = decide (s.sortKey a < s.sortKey b) := by
    rw [Bool.eq_iff_iff]
    simp [Store.inOrder]
  rw [hlt, Bool.eq_iff_iff, decide_eq_true_iff]
  rcases ha.cases with ⟨m, rfl⟩ | ⟨ha, hkey⟩ <;> rcases hb.cases with ⟨n, rfl⟩ | ⟨hb, hkey'⟩
  · show (Number.int m).lt (.int n) = true ↔ toLex (Sum.inl m) < toLex (Sum.inl n)
    rw [Sum.Lex.inl_lt_inl_iff, Number.lt_int, decide_eq_true_iff]
  · rw [hkey', naturalKey, naturalKey, hb]
    exact iff_of_true rfl (Sum.Lex.inl_lt_inr m _)
  · rw [hkey, naturalKey, naturalKey, ha]
    exact iff_of_false Bool.false_ne_true Sum.Lex.not_inr_lt_inl
  · rw [hkey, hkey', Sum.Lex.inr_lt_inr_iff, codePoints_lt, naturalKey, naturalKey, ha, hb]
    exact decide_eq_true_iff

/-- What is made later makes no difference to the order of values. -/
theorem inOrder_grows (hgrows : s.Grows s') (hnames : s.SameNames s') (ha : s.Acyclic a)
    (hb : s.Acyclic b) : s'.inOrder a b = s.inOrder a b := by
  have hkey : ∀ {v}, s.Acyclic v → s'.sortKey v = s.sortKey v := by
    intro v hv
    have hdisplay : s'.display v = s.display v := hv.display_grows hgrows hnames
    unfold Store.sortKey
    split
    · rfl
    · rw [hdisplay]
  rw [Store.inOrder, Store.inOrder, hkey ha, hkey hb]

end

/-! ## Sorting without a comparison -/

theorem items_list (r : ListRef) (w : World) :
    Library.items (.list r) w = .ok (w.store.list r).toList w := rfl

section

variable {w : World} {r : ListRef}

/-- The list is sorted into a new one by the function and by the member, if they are given no
    comparison. -/
def SortsTo (w : World) (r : ListRef) (ws : List Value) : Prop :=
  ∀ args, args = [] ∨ args = [.null] → ∀ run : Runner,
    GivesList (ListFunction.sort.apply run (.list r :: args)) w ws ∧
      GivesList (ListMember.sort.apply run r args) w ws

theorem sortsTo_sort (hfloat : ∀ v ∈ (w.store.list r).toList, v.NotFloat) :
    ∃ ws, StablySorted w.store.inOrder (w.store.list r).toList ws ∧ SortsTo w r ws := by
  have hkeyed : ∀ e ∈ keyed w.store (w.store.list r).toList,
      e.1 = naturalKey w.store e.2 ∧ e.2.NotFloat := by
    intro e he
    obtain ⟨v, hv, rfl⟩ := List.mem_map.mp he
    exact ⟨rfl, hfloat v hv⟩
  have htells : Tells (· = w) (fun _ a b => return a.1.below b.1)
      (fun a b => w.store.inOrder a.2 b.2) (keyed w.store (w.store.list r).toList) := by
    intro a ha b hb u hu
    obtain ⟨hkey, hnot⟩ := hkeyed a ha
    obtain ⟨hkey', hnot'⟩ := hkeyed b hb
    refine .pure ?_ hu
    rw [hkey, hkey', naturalKey_below hnot hnot']
  obtain ⟨sorted, u, hsorted, rfl, bound, hyields⟩ :=
    yields_sorted htells (Ranks.comap (ranks_inOrder w.store _)) rfl
  have hstable := hsorted.map (f := Prod.snd)
  rw [map_snd_keyed] at hstable
  refine ⟨sorted.map Prod.snd, hstable, fun args hargs run => ?_⟩
  have hsort : GivesList (Library.sort run (.list r) .null) u (sorted.map Prod.snd) := by
    unfold GivesList Library.sort
    rw [Eval.run_bind_of_ok (items_list r u)]
    show (Sorting.sorted _ (keyed u.store _) >>= _) u = _
    exact Eval.run_bind_of_ok (hyields bound le_rfl)
  rcases hargs with rfl | rfl <;> exact ⟨hsort, hsort⟩

end

/-! ## Sorting with a comparison -/

/-- In worlds with a property, which it keeps, a native compares any two of some values: it gives a
    number, which is negative exactly if the first one is before the second one. -/
def Compares (I : World → Prop) (n : Native) (le : Value → Value → Bool) (vs : List Value) : Prop :=
  ∀ a ∈ vs, ∀ b ∈ vs, ∀ w, I w → YieldsIn I (fun run => run (.native n [a, b])) w fun x =>
    ∃ m, x.counted? = some m ∧ m.lt (.int 0) = !le b a

section

variable {I : World → Prop} {n : Native} {le : Value → Value → Bool} {w : World} {r : ListRef}

theorem Compares.tells {vs : List Value} (h : Compares I n le vs) :
    Tells I (fun run a b => do below (← callValue run (.native n) [a, b]) (.int 0)) le vs :=
  fun a ha b hb w hw => (h a ha b hb w hw).bind fun _ u ⟨_, hcounted, hlt⟩ hu =>
    ⟨_, u, hlt, hu, .of_eq fun _ => below_int hcounted 0 u⟩

theorem yields_sort (hcompares : Compares I n le (w.store.list r).toList)
    (hrank : Ranks le (w.store.list r).toList) (hw : I w) :
    ∃ ws u, StablySorted le (w.store.list r).toList ws ∧ I u ∧
      Yields (fun run => Library.sort run (.list r) (.native n)) w
        (.ok (.list u.store.lists.next) (u.withList ws.toArray)) := by
  obtain ⟨ws, u, hsorted, hu, hyields⟩ := yields_sorted hcompares.tells hrank hw
  refine ⟨ws, u, hsorted, hu, ?_⟩
  unfold Library.sort
  exact .bind (.of_eq fun _ => items_list r w) (.bind hyields (.of_eq fun _ => rfl))

end

/-! ## The function and the member -/

/-- A host function that compares strings by their lengths. -/
def byLength : HostFunction
  | [.text a, .text b] => .done (.int (a.length - b.length))
  | _ => .fail .wrongKind

/-- The second string is not shorter than the first one. -/
def notShorter : Value → Value → Bool
  | .text a, .text b => decide (a.length ≤ b.length)
  | _, _ => false

/-- A session with a list of values of several kinds, a list of strings, and a comparison. -/
def sortable : World :=
  { Session.bareWorld {} [] with
    store :=
      { Store.empty with
        lists := ⟨#[#[.bool true, .text "true", .text "1", .int 1],
          #[.text "bb", .text "cc", .text "a"]]⟩
        natives := ⟨#[.host "byLength" byLength]⟩ } }

theorem compares_byLength :
    Compares (· = sortable) (.made ⟨0⟩) notShorter [.text "bb", .text "cc", .text "a"] := by
  have htexts : ∀ a b : String, YieldsIn (· = sortable)
      (fun run => run (.native (.made ⟨0⟩) [.text a, .text b])) sortable fun x =>
        ∃ m, x.counted? = some m ∧ m.lt (.int 0) = !notShorter (.text b) (.text a) := by
    intro a b
    have hlt : (Number.int (a.length - b.length)).lt (.int 0) =
        !notShorter (.text b) (.text a) := by
      rw [Number.lt_int, notShorter, ← decide_not]
      exact decide_eq_decide.mpr (by omega)
    exact ⟨_, sortable, ⟨_, rfl, hlt⟩, rfl, .task (.of_eq fun _ => rfl)⟩
  rintro a ha b hb w rfl
  simp only [List.mem_cons, List.not_mem_nil, or_false] at ha hb
  rcases ha with rfl | rfl | rfl <;> rcases hb with rfl | rfl | rfl <;> exact htexts _ _

end EventScript
