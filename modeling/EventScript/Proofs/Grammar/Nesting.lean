import EventScript.Grammar.Cursor
import EventScript.Proofs.Token.Layout
import Mathlib

/-! # Readings that nest

`Nests` says how a reading passes tokens and what it leaves on record: a token that is no part of
layout leaves nothing, an indented construct stands between its two tokens, and the remaining rules
are the ways in which layout can be passed over.  Each of these makes the depth of the layout and
the number of constructs differ, and the record counts by how much (`Nests.depthAt_eq`).  Where the
record shows none of them, every layout token opens or closes one construct, and the two tokens of a
construct are the ones that the layout pairs (`Nests.paired`).

* `depthAt`             how many blocks are open before a token
* `Paired`              a token that opens a block, and the first one that closes it
* `Nests`               how a reading passes tokens
* `Nests.paired`        the two tokens of a construct
* `Nests.count_marks`   every layout token is on record once
-/

namespace EventScript

section

variable (tokens : List Token)

/-- The kind of a token; behind the last one there is nothing but the end of the file. -/
def kindAt (i : Nat) : TokenKind := (tokens[i]?.map Token.kind).getD .endOfFile

/-- How many blocks are open before a token. -/
def depthAt (i : Nat) : Int := ((tokens.take i).map (·.kind.weight)).sum

@[simp] theorem depthAt_zero : depthAt tokens 0 = 0 := rfl

theorem depthAt_succ (i : Nat) :
    depthAt tokens (i + 1) = depthAt tokens i + (kindAt tokens i).weight := by
  simp only [depthAt, kindAt, List.take_add_one]
  cases tokens[i]? <;> simp [TokenKind.weight]

/-- The depth counts the tokens that open a block against those that close one. -/
theorem depthAt_eq_count (i : Nat) :
    depthAt tokens i = ((tokens.take i).map Token.kind).count .indent -
      ((tokens.take i).map Token.kind).count .dedent := by
  unfold depthAt
  induction tokens.take i with
  | nil => rfl
  | cons t ts ih =>
    simp only [List.map_cons, List.sum_cons, ih, List.count_cons]
    cases t.kind <;> simp [TokenKind.weight] <;> omega

/-- A token that opens a block, and the first one behind it that returns to the same depth. -/
structure Paired (i j : Nat) : Prop where
  opens : kindAt tokens i = .indent
  closes : kindAt tokens j = .dedent
  before : i < j
  deeper : ∀ k, i < k → k ≤ j → depthAt tokens i < depthAt tokens k
  returns : depthAt tokens (j + 1) = depthAt tokens i

/-- How a reading passes tokens, from one place to another, and what it puts on record, last first.
    Only between braces layout may be skipped. -/
inductive Nests : Bool → Nat → Nat → List Reading → Prop
  | stay (braces : Bool) (i : Nat) : Nests braces i i []
  | pass (braces : Bool) {i : Nat} (h : (kindAt tokens i).weight = 0) : Nests braces i (i + 1) []
  | trans {braces : Bool} {i j k : Nat} {rs rs' : List Reading} (first : Nests braces i j rs)
      (second : Nests braces j k rs') : Nests braces i k (rs' ++ rs)
  | enclosed (braces : Bool) (construct : Construct) {i j : Nat} {rs : List Reading}
      (opens : kindAt tokens i = .indent) (inside : Nests false (i + 1) j rs)
      (closes : kindAt tokens j = .dedent) :
      Nests braces i (j + 1) (.enclosed construct i (some j) :: rs)
  | unclosed (braces : Bool) (construct : Construct) {i j : Nat} {rs : List Reading}
      (opens : kindAt tokens i = .indent) (inside : Nests false (i + 1) j rs) :
      Nests braces i j (.enclosed construct i none :: rs)
  | unknown (braces : Bool) {i : Nat} (h : kindAt tokens i ≠ .dedent) :
      Nests braces i (i + 1) [.unknown i]
  | atEnd (braces : Bool) {i : Nat} (h : kindAt tokens i = .endOfFile) :
      Nests braces i i [.unknown i]
  | skipped (i : Nat) : Nests true i (i + 1) [.skipped i]
  | braced (braces : Bool) {i j : Nat} {rs : List Reading} {span : Span}
      (opens : kindAt tokens i = .leftBrace) (inside : Nests true (i + 1) j rs)
      (closes : kindAt tokens j = .rightBrace)
      (start : tokens[i]?.map (·.span.start) = some span.start)
      (stop : tokens[j]?.map (·.span.stop) = some span.stop) :
      Nests braces i (j + 1) (.braced i j span :: rs)

/-- By how much the depth of the layout and the number of open constructs come to differ where
    something is put on record. -/
def Reading.excess : Reading → Int
  | .enclosed _ _ closing => if closing.isSome then 0 else 1
  | .braced .. => 0
  | .skipped i | .unknown i => (kindAt tokens i).weight

/-- No layout is passed over where something is put on record. -/
def Reading.Sound : Reading → Prop
  | .enclosed _ _ closing => closing.isSome = true
  | .braced .. => True
  | .skipped i | .unknown i => (kindAt tokens i).weight = 0

end

variable {tokens : List Token} {braces : Bool} {i j : Nat} {rs : List Reading}

theorem Reading.Sound.excess_eq {r : Reading} (hr : r.Sound tokens) : r.excess tokens = 0 := by
  cases r <;> simp_all [Reading.Sound, Reading.excess]

namespace Nests

theorem le (h : Nests tokens braces i j rs) : i ≤ j := by
  induction h <;> omega

/-- What can be read outside of braces can be read between them as well. -/
theorem inBraces (h : Nests tokens false i j rs) (braces : Bool) : Nests tokens braces i j rs := by
  cases braces with
  | false => exact h
  | true =>
    generalize hb : false = b at h
    induction h with
    | stay _ i => exact .stay true i
    | pass _ h => exact .pass true h
    | trans _ _ ih ih' => exact .trans (ih hb) (ih' hb)
    | enclosed _ construct opens inside closes => exact .enclosed true construct opens inside closes
    | unclosed _ construct opens inside => exact .unclosed true construct opens inside
    | unknown _ h => exact .unknown true h
    | atEnd _ h => exact .atEnd true h
    | skipped => cases hb
    | braced _ opens inside closes start stop => exact .braced true opens inside closes start stop

/-! ## Counting -/

/-- The depth of the layout changes by what the record counts. -/
theorem depthAt_eq (h : Nests tokens braces i j rs) :
    depthAt tokens j = depthAt tokens i + (rs.map (Reading.excess tokens)).sum := by
  induction h with
  | stay => simp
  | pass _ h => simp [depthAt_succ, h]
  | trans _ _ ih ih' =>
    rw [ih', ih, List.map_append, List.sum_append]
    omega
  | enclosed _ construct opens _ closes ih =>
    rw [depthAt_succ, ih, depthAt_succ, opens, closes]
    simp [Reading.excess, TokenKind.weight]
    omega
  | unclosed _ construct opens _ ih =>
    rw [ih, depthAt_succ, opens]
    simp [Reading.excess, TokenKind.weight]
    omega
  | unknown | skipped => simp [depthAt_succ, Reading.excess]
  | atEnd _ h => simp [Reading.excess, h, TokenKind.weight]
  | braced _ opens _ closes _ _ ih =>
    rw [depthAt_succ, ih, depthAt_succ, opens, closes]
    simp [Reading.excess, TokenKind.weight]

theorem depthAt_eq_of_sound (h : Nests tokens braces i j rs) (hrs : ∀ r ∈ rs, r.Sound tokens) :
    depthAt tokens j = depthAt tokens i := by
  have hzero : (rs.map (Reading.excess tokens)).sum = 0 := by
    refine List.sum_eq_zero fun x hx => ?_
    obtain ⟨r, hr, rfl⟩ := List.mem_map.mp hx
    exact (hrs r hr).excess_eq
  rw [h.depthAt_eq, hzero, add_zero]

/-- A schema body does not pass over the end of a block. -/
theorem unknown_ne_dedent (h : Nests tokens braces i j rs) {k : Nat} (hk : .unknown k ∈ rs) :
    kindAt tokens k ≠ .dedent := by
  induction h with
  | stay | pass | skipped => simp at hk
  | trans _ _ ih ih' => exact (List.mem_append.mp hk).elim ih' ih
  | enclosed _ _ _ _ _ ih | unclosed _ _ _ _ ih | braced _ _ _ _ _ _ ih => exact ih (by simpa using hk)
  | unknown _ h =>
    obtain rfl : k = _ := by simpa using hk
    exact h
  | atEnd _ h =>
    obtain rfl : k = _ := by simpa using hk
    rw [h]
    decide

/-- If no layout was skipped, and in the end as many blocks are open as at the start, then no layout
    was passed over at all: there is nothing else that would make up for it. -/
theorem sound_of_depthAt_eq (h : Nests tokens braces i j rs)
    (hskipped : ∀ k, .skipped k ∈ rs → (kindAt tokens k).weight = 0)
    (hdepth : depthAt tokens j = depthAt tokens i) : ∀ r ∈ rs, r.Sound tokens := by
  have hnonneg : ∀ r ∈ rs, 0 ≤ r.excess tokens := by
    intro r hr
    cases r with
    | enclosed _ _ closing => cases closing <;> simp [Reading.excess]
    | braced => exact le_refl _
    | skipped k => exact (hskipped k hr).ge
    | unknown k =>
      have := h.unknown_ne_dedent hr
      revert this
      simp only [Reading.excess]
      cases kindAt tokens k <;> simp [TokenKind.weight]
  have hsum : (rs.map (Reading.excess tokens)).sum = 0 := by
    have := h.depthAt_eq
    omega
  have hzero : ∀ r ∈ rs, r.excess tokens = 0 := by
    clear h hskipped hdepth
    induction rs with
    | nil => simp
    | cons r rs ih =>
      rw [List.forall_mem_cons] at hnonneg
      have hrest : 0 ≤ (rs.map (Reading.excess tokens)).sum :=
        List.sum_nonneg (by simpa using hnonneg.2)
      rw [List.map_cons, List.sum_cons] at hsum
      have hr := hnonneg.1
      exact List.forall_mem_cons.mpr ⟨by omega, ih hnonneg.2 (by omega)⟩
  intro r hr
  have := hzero r hr
  cases r with
  | enclosed _ _ closing => cases closing <;> simp_all [Reading.excess, Reading.Sound]
  | braced => trivial
  | skipped | unknown => exact this

/-! ## Pairs -/

/-- Where no layout was passed over, the depth is nowhere less than at the start. -/
theorem depthAt_le (h : Nests tokens braces i j rs) (hrs : ∀ r ∈ rs, r.Sound tokens) {k : Nat}
    (hi : i ≤ k) (hj : k ≤ j) : depthAt tokens i ≤ depthAt tokens k := by
  induction h with
  | stay _ i =>
    obtain rfl : k = i := by omega
    exact le_refl _
  | @pass _ i h =>
    have := depthAt_succ tokens i
    obtain rfl | rfl : k = i ∨ k = i + 1 := by omega
    all_goals omega
  | @trans _ i m j rs rs' first second ih ih' =>
    simp only [List.mem_append, or_imp, forall_and] at hrs
    rcases Nat.le_total k m with hm | hm
    · exact ih hrs.2 hi hm
    · have := ih' hrs.1 hm hj
      have := first.depthAt_eq_of_sound hrs.2
      omega
  | @enclosed _ _ i j rs opens inside closes ih =>
    have hinside := List.forall_mem_cons.mp hrs |>.2
    have hopen := depthAt_succ tokens i
    rw [opens, TokenKind.weight] at hopen
    have hclose := depthAt_succ tokens j
    rw [closes, TokenKind.weight, inside.depthAt_eq_of_sound hinside] at hclose
    obtain rfl | hk | rfl : k = i ∨ (i + 1 ≤ k ∧ k ≤ j) ∨ k = j + 1 := by omega
    · exact le_refl _
    · have := ih hinside hk.1 hk.2
      omega
    · omega
  | unclosed => exact absurd (hrs _ (List.mem_cons_self ..)) (by simp [Reading.Sound])
  | @unknown _ i h =>
    have hr : (kindAt tokens i).weight = 0 := hrs _ (List.mem_singleton_self _)
    have := depthAt_succ tokens i
    obtain rfl | rfl : k = i ∨ k = i + 1 := by omega
    all_goals omega
  | @atEnd _ i h =>
    obtain rfl : k = i := by omega
    exact le_refl _
  | skipped i =>
    have hr : (kindAt tokens i).weight = 0 := hrs _ (List.mem_singleton_self _)
    have := depthAt_succ tokens i
    obtain rfl | rfl : k = i ∨ k = i + 1 := by omega
    all_goals omega
  | @braced _ i j rs _ opens inside closes _ _ ih =>
    have hinside := List.forall_mem_cons.mp hrs |>.2
    have hopen := depthAt_succ tokens i
    rw [opens, show TokenKind.leftBrace.weight = 0 from rfl] at hopen
    have hclose := depthAt_succ tokens j
    rw [closes, show TokenKind.rightBrace.weight = 0 from rfl, inside.depthAt_eq_of_sound hinside] at hclose
    obtain rfl | hk | rfl : k = i ∨ (i + 1 ≤ k ∧ k ≤ j) ∨ k = j + 1 := by omega
    · exact le_refl _
    · have := ih hinside hk.1 hk.2
      omega
    · omega

/-- The tokens of an indented construct are paired by the layout. -/
theorem paired (h : Nests tokens braces i j rs) (hrs : ∀ r ∈ rs, r.Sound tokens)
    {construct : Construct} {opening : Nat} {closing : Option Nat}
    (hr : .enclosed construct opening closing ∈ rs) :
    ∃ last, closing = some last ∧ Paired tokens opening last := by
  induction h with
  | stay | pass | unknown | atEnd | skipped => simp at hr
  | trans _ _ ih ih' =>
    simp only [List.mem_append, or_imp, forall_and] at hrs hr
    exact hr.elim (ih' hrs.1) (ih hrs.2)
  | @enclosed _ _ i j rs opens inside closes ih =>
    have hinside := List.forall_mem_cons.mp hrs |>.2
    have hopen := depthAt_succ tokens i
    rw [opens, TokenKind.weight] at hopen
    have hclose := depthAt_succ tokens j
    rw [closes, TokenKind.weight, inside.depthAt_eq_of_sound hinside] at hclose
    rcases List.mem_cons.mp hr with heq | hr
    · cases heq
      refine ⟨j, rfl, opens, closes, inside.le, fun k hk hkj => ?_, by omega⟩
      have := inside.depthAt_le hinside hk hkj
      omega
    · exact ih hinside hr
  | unclosed => exact absurd (hrs _ (List.mem_cons_self ..)) (by simp [Reading.Sound])
  | braced _ _ _ _ _ _ ih =>
    exact ih (List.forall_mem_cons.mp hrs |>.2) (by simpa using hr)

/-! ## Braces -/

/-- What is skipped lies in the part that was read. -/
theorem skipped_mem (h : Nests tokens braces i j rs) {k : Nat} (hk : .skipped k ∈ rs) :
    i ≤ k ∧ k < j := by
  induction h with
  | stay | pass | unknown | atEnd => simp at hk
  | trans first second ih ih' =>
    have := first.le
    have := second.le
    rcases List.mem_append.mp hk with hk | hk
    · have := ih' hk
      omega
    · have := ih hk
      omega
  | enclosed _ _ _ _ _ ih | unclosed _ _ _ _ ih | braced _ _ _ _ _ _ ih =>
    have := ih (by simpa using hk)
    omega
  | skipped i =>
    obtain rfl : k = i := by simpa using hk
    omega

/-- Outside of braces, what is skipped lies between two braces that were read. -/
theorem skipped_braced (h : Nests tokens braces i j rs) {k : Nat} (hk : .skipped k ∈ rs)
    (hbraces : braces = false) :
    ∃ first last span, .braced first last span ∈ rs ∧ first < k ∧ k < last := by
  induction h with
  | stay | pass | unknown | atEnd => simp at hk
  | trans _ _ ih ih' =>
    rcases List.mem_append.mp hk with hk | hk
    · obtain ⟨first, last, span, hmem, hplace⟩ := ih' hk hbraces
      exact ⟨first, last, span, List.mem_append_left _ hmem, hplace⟩
    · obtain ⟨first, last, span, hmem, hplace⟩ := ih hk hbraces
      exact ⟨first, last, span, List.mem_append_right _ hmem, hplace⟩
  | enclosed _ _ _ _ _ ih | unclosed _ _ _ _ ih =>
    obtain ⟨first, last, span, hmem, hplace⟩ := ih (by simpa using hk) rfl
    exact ⟨first, last, span, List.mem_cons_of_mem _ hmem, hplace⟩
  | skipped => cases hbraces
  | braced _ _ inside _ _ _ _ =>
    have := inside.skipped_mem (by simpa using hk)
    exact ⟨_, _, _, List.mem_cons_self .., by omega, by omega⟩

/-- Where in the source two braces stand. -/
theorem braced_span (h : Nests tokens braces i j rs) {first last : Nat} {span : Span}
    (hr : .braced first last span ∈ rs) :
    kindAt tokens first = .leftBrace ∧ tokens[first]?.map (·.span.start) = some span.start ∧
      kindAt tokens last = .rightBrace ∧ tokens[last]?.map (·.span.stop) = some span.stop := by
  induction h with
  | stay | pass | unknown | atEnd | skipped => simp at hr
  | trans _ _ ih ih' => exact (List.mem_append.mp hr).elim ih' ih
  | enclosed _ _ _ _ _ ih | unclosed _ _ _ _ ih => exact ih (by simpa using hr)
  | braced _ opens _ closes start stop ih =>
    rcases List.mem_cons.mp hr with heq | hr
    · cases heq
      exact ⟨opens, start, closes, stop⟩
    · exact ih hr

end Nests

/-- The places of the tokens that opened constructs, or of those that closed them. -/
def marks (k : TokenKind) (rs : List Reading) : List Nat :=
  rs.filterMap fun
    | .enclosed _ opening closing => if k = .indent then some opening else closing
    | _ => none

/-- Where no layout was passed over, every token that opens or closes a block belongs to exactly one
    construct. -/
theorem Nests.count_marks (h : Nests tokens braces i j rs) (hrs : ∀ r ∈ rs, r.Sound tokens)
    {mark : TokenKind} (hmark : mark = .indent ∨ mark = .dedent) (k : Nat) :
    (marks mark rs).count k = if i ≤ k ∧ k < j ∧ kindAt tokens k = mark then 1 else 0 := by
  have hweight : mark.weight ≠ 0 := by rcases hmark with rfl | rfl <;> decide
  induction h with
  | stay | atEnd =>
    rw [if_neg (by omega)]
    rfl
  | @pass _ i h =>
    refine (if_neg ?_).symm
    rintro ⟨hi, hj, rfl⟩
    obtain rfl : k = i := by omega
    exact hweight h
  | @trans _ i m j rs rs' first second ih ih' =>
    simp only [List.mem_append, or_imp, forall_and] at hrs
    have := first.le
    have := second.le
    rw [marks, List.filterMap_append, List.count_append]
    refine (congrArg₂ (· + ·) (ih' hrs.1) (ih hrs.2)).trans ?_
    by_cases hk : kindAt tokens k = mark <;> simp only [hk, and_true, and_false, if_false]
    split_ifs <;> omega
  | @enclosed _ construct i j rs opens inside closes ih =>
    have hcount := ih (List.forall_mem_cons.mp hrs).2
    have := inside.le
    -- the two tokens of the construct differ in kind, so only one of them is marked
    obtain ⟨own, other, hmarks, hown, hother, hplaces⟩ : ∃ own other,
        marks mark (.enclosed construct i (some j) :: rs) = own :: marks mark rs ∧
          kindAt tokens own = mark ∧ kindAt tokens other ≠ mark ∧
            (own = i ∧ other = j ∨ own = j ∧ other = i) := by
      rcases hmark with rfl | rfl
      · exact ⟨i, j, rfl, opens, by simp [closes], .inl ⟨rfl, rfl⟩⟩
      · exact ⟨j, i, rfl, closes, by simp [opens], .inr ⟨rfl, rfl⟩⟩
    rw [hmarks, List.count_cons, hcount]
    by_cases hk : kindAt tokens k = mark
    · have : k ≠ other := by
        rintro rfl
        exact hother hk
      simp only [hk, and_true, beq_iff_eq]
      split_ifs <;> omega
    · have : own ≠ k := by
        rintro rfl
        exact hk hown
      simp [hk, this]
  | unclosed => exact absurd (hrs _ (List.mem_cons_self ..)) (by simp [Reading.Sound])
  | @unknown _ i _ | skipped i =>
    have hr : (kindAt tokens i).weight = 0 := hrs _ (List.mem_singleton_self _)
    refine (if_neg ?_).symm
    rintro ⟨hi, hj, rfl⟩
    obtain rfl : k = i := by omega
    exact hweight hr
  | @braced _ i j rs _ opens inside closes _ _ ih =>
    refine (ih (List.forall_mem_cons.mp hrs).2).trans ?_
    have := inside.le
    have hi : k = i → kindAt tokens k ≠ mark := by
      rintro rfl rfl
      rw [opens] at hweight
      exact hweight rfl
    have hj : k = j → kindAt tokens k ≠ mark := by
      rintro rfl rfl
      rw [closes] at hweight
      exact hweight rfl
    by_cases hk : kindAt tokens k = mark <;>
      simp only [hk, and_true, and_false, if_false, ne_eq, not_true, imp_false] at hi hj ⊢
    split_ifs <;> omega

end EventScript
