import EventScript.Token
import Mathlib.Data.List.Induction

/-! # The grammar of layout

What the kinds of a token list say about its layout: where statements end, where indented blocks
open and close, and that no block stays open.  A `Tracker` reads the kinds from left to right and
knows at each place what a line may go on with, and how many blocks are open; a list that it reads
to the end is laid out properly.

* `Tracker.step?`          what may follow in a place
* `Tracker.read?_append`   reading on from where the first part has led
* `LaidOut`                the laws of layout
* `laidOut_of_read?`       what is read to the end is laid out
-/

namespace EventScript

/-- The kinds that are written out, by which programs say what they mean. -/
def TokenKind.isContent (k : TokenKind) : Bool := !k.isLayout && k != .endOfFile

theorem TokenKind.isContent_or (k : TokenKind) :
    k.isContent = true ∨ k = .newline ∨ k = .indent ∨ k = .dedent ∨ k = .endOfFile := by
  cases k <;> decide

/-- By how much a token changes the depth of the layout. -/
def TokenKind.weight : TokenKind → Int
  | .indent => 1
  | .dedent => -1
  | _ => 0

theorem TokenKind.weight_of_isContent {k : TokenKind} (hk : k.isContent = true) : k.weight = 0 := by
  unfold weight
  split <;> first | cases hk | rfl

theorem TokenKind.weight_eq_zero {k : TokenKind} :
    k.weight = 0 ↔ k ≠ .indent ∧ k ≠ .dedent := by
  cases k <;> simp [weight]

/-- Where in its line a place of a token list is. -/
inductive LinePlace
  /-- Before the first token. -/
  | atStart
  /-- Behind a token that is written out. -/
  | inLine
  /-- Behind the end of a line. -/
  | lineEnded
  /-- Behind the opening of a block, before the first token of its line. -/
  | opened
  /-- Behind the closing of blocks at the start of a line. -/
  | closed
  /-- Behind the closing of blocks at the end of an unfinished line. -/
  | finishing
  /-- Behind the end of the file. -/
  | done
  deriving DecidableEq

/-- Where a place of a token list is, and how many blocks are open there. -/
structure Tracker where
  place : LinePlace
  depth : Nat

namespace Tracker

/-- The beginning of a token list. -/
def start : Tracker := ⟨.atStart, 0⟩

/-- A token at a place, if the layout allows for it there. -/
def step? (t : Tracker) : TokenKind → Option Tracker
  | .newline => if t.place = .inLine then some { t with place := .lineEnded } else none
  | .indent =>
    if t.place = .atStart ∨ t.place = .lineEnded then some ⟨.opened, t.depth + 1⟩ else none
  | .dedent =>
    if t.depth = 0 then none
    else
      match t.place with
      | .lineEnded | .closed => some ⟨.closed, t.depth - 1⟩
      | .inLine | .finishing => some ⟨.finishing, t.depth - 1⟩
      | _ => none
  | .endOfFile =>
    if t.depth = 0 ∧ t.place ≠ .opened ∧ t.place ≠ .done then some ⟨.done, 0⟩ else none
  | _ =>
    if t.place = .finishing ∨ t.place = .done then none else some { t with place := .inLine }

/-- Read the kinds of several tokens. -/
def read? (t : Tracker) (kinds : List TokenKind) : Option Tracker := kinds.foldlM step? t

@[simp] theorem read?_nil (t : Tracker) : t.read? [] = some t := rfl

theorem read?_cons (t : Tracker) (k : TokenKind) (kinds : List TokenKind) :
    t.read? (k :: kinds) = (t.step? k).bind (read? · kinds) := by
  rw [read?, List.foldlM_cons]
  rfl

theorem read?_append (t : Tracker) (kinds later : List TokenKind) :
    t.read? (kinds ++ later) = (t.read? kinds).bind (read? · later) := by
  rw [read?, List.foldlM_append]
  rfl

theorem read?_singleton (t : Tracker) (k : TokenKind) : t.read? [k] = t.step? k := by
  rw [read?_cons]
  cases t.step? k <;> rfl

/-- A list that is read is read up to each of its places. -/
theorem read?_append_eq_some {t v : Tracker} {kinds later : List TokenKind}
    (h : t.read? (kinds ++ later) = some v) :
    ∃ u, t.read? kinds = some u ∧ u.read? later = some v := by
  rw [read?_append] at h
  exact Option.bind_eq_some_iff.mp h

theorem read?_cons_eq_some {t v : Tracker} {k : TokenKind} {kinds : List TokenKind}
    (h : t.read? (k :: kinds) = some v) :
    ∃ u, t.step? k = some u ∧ u.read? kinds = some v := by
  rw [read?_cons] at h
  exact Option.bind_eq_some_iff.mp h

/-! ## Single tokens -/

theorem step?_content {k : TokenKind} (hk : k.isContent = true) (t : Tracker) :
    t.step? k =
      if t.place = .finishing ∨ t.place = .done then none else some { t with place := .inLine } := by
  unfold step?
  split <;> first | rfl | cases hk

theorem step?_newline_eq_some {t u : Tracker} :
    t.step? .newline = some u ↔ t.place = .inLine ∧ u = { t with place := .lineEnded } := by
  simp only [step?]
  split <;> simp_all [eq_comm]

theorem step?_indent_eq_some {t u : Tracker} :
    t.step? .indent = some u ↔
      (t.place = .atStart ∨ t.place = .lineEnded) ∧ u = ⟨.opened, t.depth + 1⟩ := by
  simp only [step?]
  split <;> simp_all [eq_comm]

/-- A block is closed at the start of a line or at the end of one, and there is one to be closed. -/
theorem step?_dedent_eq_some {t u : Tracker} (h : t.step? .dedent = some u) :
    t.depth = u.depth + 1 ∧
      ((t.place = .lineEnded ∨ t.place = .closed) ∧ u.place = .closed ∨
        (t.place = .inLine ∨ t.place = .finishing) ∧ u.place = .finishing) := by
  obtain ⟨place, depth⟩ := t
  simp only [step?] at h
  split at h
  · cases h
  · cases place <;> cases h <;> exact ⟨(Nat.succ_pred_eq_of_ne_zero ‹_›).symm, by simp⟩

theorem step?_endOfFile_eq_some {t u : Tracker} :
    t.step? .endOfFile = some u ↔
      (t.depth = 0 ∧ t.place ≠ .opened ∧ t.place ≠ .done) ∧ u = ⟨.done, 0⟩ := by
  simp only [step?]
  split <;> simp_all [eq_comm]

/-- Nothing comes behind the end of the file. -/
theorem step?_done {t : Tracker} (ht : t.place = .done) (k : TokenKind) : t.step? k = none := by
  obtain ⟨place, depth⟩ := t
  cases k <;> simp_all [step?]

/-- What a place says about the token before it. -/
theorem step?_place {t u : Tracker} {k : TokenKind} (h : t.step? k = some u) :
    match u.place with
    | .atStart => False
    | .inLine => k.isContent = true
    | .lineEnded => k = .newline
    | .opened => k = .indent
    | .closed | .finishing => k = .dedent
    | .done => k = .endOfFile := by
  rcases k.isContent_or with hk | rfl | rfl | rfl | rfl
  · rw [step?_content hk] at h
    split at h
    · cases h
    · cases h
      exact hk
  · obtain ⟨-, rfl⟩ := step?_newline_eq_some.mp h
    rfl
  · obtain ⟨-, rfl⟩ := step?_indent_eq_some.mp h
    rfl
  · obtain ⟨-, ⟨-, hu⟩ | ⟨-, hu⟩⟩ := step?_dedent_eq_some h <;> rw [hu]
  · obtain ⟨-, rfl⟩ := step?_endOfFile_eq_some.mp h
    rfl

/-! ## Lists of tokens -/

variable {kinds : List TokenKind} {t : Tracker}

/-- What the place behind a list says about its last token. -/
theorem place_read? (h : start.read? kinds = some t) :
    match t.place with
    | .atStart => kinds = []
    | .inLine => ∃ k, kinds.getLast? = some k ∧ k.isContent = true
    | .lineEnded => kinds.getLast? = some .newline
    | .opened => kinds.getLast? = some .indent
    | .closed | .finishing => kinds.getLast? = some .dedent
    | .done => kinds.getLast? = some .endOfFile := by
  induction kinds using List.reverseRecOn with
  | nil =>
    cases h
    rfl
  | append_singleton init k _ =>
    obtain ⟨u, -, hk⟩ := read?_append_eq_some h
    rw [read?_singleton] at hk
    have hplace := step?_place hk
    revert hplace
    cases t.place <;> simp

/-- The depth is the number of blocks that were opened and not closed. -/
theorem count_read? (h : start.read? kinds = some t) :
    kinds.count .indent = kinds.count .dedent + t.depth := by
  induction kinds using List.reverseRecOn generalizing t with
  | nil =>
    cases h
    rfl
  | append_singleton init k ih =>
    obtain ⟨u, hinit, hk⟩ := read?_append_eq_some h
    rw [read?_singleton] at hk
    have hbefore := ih hinit
    simp only [List.count_append, List.count_singleton, beq_iff_eq]
    rcases k.isContent_or with hcontent | rfl | rfl | rfl | rfl
    · have hindent : k ≠ .indent := by rintro rfl; cases hcontent
      have hdedent : k ≠ .dedent := by rintro rfl; cases hcontent
      rw [step?_content hcontent] at hk
      split at hk
      · cases hk
      · cases hk
        simpa [hindent, hdedent] using hbefore
    · obtain ⟨-, rfl⟩ := step?_newline_eq_some.mp hk
      simpa using hbefore
    · obtain ⟨-, rfl⟩ := step?_indent_eq_some.mp hk
      simp
      omega
    · obtain ⟨hdepth, -⟩ := step?_dedent_eq_some hk
      simp
      omega
    · obtain ⟨⟨hdepth, -⟩, rfl⟩ := step?_endOfFile_eq_some.mp hk
      simp
      omega

/-- Several blocks that are closed at one place. -/
theorem read?_replicate_dedent {n : Nat} {u : Tracker}
    (h : t.read? (List.replicate (n + 1) .dedent) = some u) :
    (t.place = .lineEnded ∨ t.place = .closed) ∧ u.place = .closed ∨
      (t.place = .inLine ∨ t.place = .finishing) ∧ u.place = .finishing := by
  induction n generalizing t with
  | zero =>
    rw [List.replicate_one, read?_singleton] at h
    exact (step?_dedent_eq_some h).2
  | succ n ih =>
    rw [List.replicate_succ] at h
    obtain ⟨v, hfirst, hrest⟩ := read?_cons_eq_some h
    obtain ⟨-, hplace⟩ := step?_dedent_eq_some hfirst
    rcases hplace with ⟨ht, hv⟩ | ⟨ht, hv⟩
    · exact .inl ⟨ht, by simpa [hv] using ih hrest⟩
    · exact .inr ⟨ht, by simpa [hv] using ih hrest⟩

/-- Only the end of the file leads behind it. -/
theorem read?_eq_done (h : start.read? kinds = some t) (ht : t.place = .done) :
    ∃ body, kinds = body ++ [.endOfFile] ∧ .endOfFile ∉ body := by
  cases kinds using List.reverseRecOn with
  | nil =>
    cases h
    cases ht
  | append_singleton body k =>
    obtain ⟨u, hbody, hk⟩ := read?_append_eq_some h
    rw [read?_singleton] at hk
    obtain rfl : k = .endOfFile := by simpa [ht] using step?_place hk
    refine ⟨body, rfl, fun hmem => ?_⟩
    obtain ⟨before, after, rfl⟩ := List.append_of_mem hmem
    obtain ⟨v, -, hv⟩ := read?_append_eq_some hbody
    obtain ⟨x, hx, hafter⟩ := read?_cons_eq_some hv
    obtain ⟨-, rfl⟩ := step?_endOfFile_eq_some.mp hx
    -- behind the first end of the file there is nothing, not even the second one
    cases after with
    | nil =>
      cases hafter
      rw [step?_done rfl] at hk
      cases hk
    | cons k' rest =>
      obtain ⟨y, hy, -⟩ := read?_cons_eq_some hafter
      rw [step?_done rfl] at hy
      cases hy

end Tracker

/-! ## The laws -/

/-- A token list is laid out: the end of the file comes once, last; blocks are closed after they
    were opened, and all of them are; a line ends behind a token of its own; a block opens at the
    start of a line that goes on; and where blocks are closed, a line has ended and another goes on,
    or the file ends. -/
structure LaidOut (kinds : List TokenKind) : Prop where
  ended : ∃ body, kinds = body ++ [.endOfFile] ∧ .endOfFile ∉ body
  nested : ∀ before, before <+: kinds → before.count .dedent ≤ before.count .indent
  balanced : kinds.count .indent = kinds.count .dedent
  newline : ∀ before after, kinds = before ++ .newline :: after →
    ∃ k, before.getLast? = some k ∧ k ≠ .newline ∧ k ≠ .indent ∧ k ≠ .dedent
  indent : ∀ before after, kinds = before ++ .indent :: after →
    (before = [] ∨ before.getLast? = some .newline) ∧
      ∃ k, after.head? = some k ∧ k.isContent = true
  dedents : ∀ before n after, kinds = before ++ List.replicate (n + 1) .dedent ++ after →
    before.getLast? ≠ some .dedent → after.head? ≠ some .dedent →
      ∃ k, after.head? = some k ∧
        (k = .endOfFile ∨ k.isContent = true ∧ before.getLast? = some .newline)

/-- A list that can be read up to behind the end of the file is laid out. -/
theorem laidOut_of_read? {kinds : List TokenKind} {t : Tracker}
    (h : Tracker.start.read? kinds = some t) (ht : t.place = .done) : LaidOut kinds := by
  have hend := Tracker.read?_eq_done h ht
  refine ⟨hend, ?_, ?_, ?_, ?_, ?_⟩
  · rintro before ⟨after, rfl⟩
    obtain ⟨u, hbefore, -⟩ := Tracker.read?_append_eq_some h
    have := Tracker.count_read? hbefore
    omega
  · obtain ⟨body, rfl, -⟩ := hend
    obtain ⟨u, -, hlast⟩ := Tracker.read?_append_eq_some h
    rw [Tracker.read?_singleton] at hlast
    obtain ⟨-, rfl⟩ := Tracker.step?_endOfFile_eq_some.mp hlast
    simpa using Tracker.count_read? h
  · rintro before after rfl
    obtain ⟨u, hbefore, hrest⟩ := Tracker.read?_append_eq_some h
    obtain ⟨v, hnewline, -⟩ := Tracker.read?_cons_eq_some hrest
    obtain ⟨hplace, -⟩ := Tracker.step?_newline_eq_some.mp hnewline
    have hlast := Tracker.place_read? hbefore
    rw [hplace] at hlast
    obtain ⟨k, hk, hcontent⟩ := hlast
    refine ⟨k, hk, ?_, ?_, ?_⟩ <;> rintro rfl <;> cases hcontent
  · rintro before after rfl
    obtain ⟨u, hbefore, hrest⟩ := Tracker.read?_append_eq_some h
    obtain ⟨v, hindent, hafter⟩ := Tracker.read?_cons_eq_some hrest
    obtain ⟨hplace, rfl⟩ := Tracker.step?_indent_eq_some.mp hindent
    have hlast := Tracker.place_read? hbefore
    refine ⟨?_, ?_⟩
    · rcases hplace with hplace | hplace <;> rw [hplace] at hlast
      · exact .inl hlast
      · exact .inr hlast
    · cases after with
      | nil =>
        cases hafter
        cases ht
      | cons k rest =>
        obtain ⟨x, hk, -⟩ := Tracker.read?_cons_eq_some hafter
        refine ⟨k, rfl, ?_⟩
        rcases k.isContent_or with hcontent | rfl | rfl | rfl | rfl
        · exact hcontent
        all_goals simp [Tracker.step?] at hk
  · intro before n after heq hfirst hlast
    subst heq
    obtain ⟨v, hrun, hafter⟩ := Tracker.read?_append_eq_some h
    obtain ⟨u, hbefore, hdedents⟩ := Tracker.read?_append_eq_some hrun
    have hplace := Tracker.read?_replicate_dedent hdedents
    have hbehind := Tracker.place_read? hbefore
    cases after with
    | nil =>
      cases hafter
      simp [ht] at hplace
    | cons k rest =>
      obtain ⟨x, hk, -⟩ := Tracker.read?_cons_eq_some hafter
      have hne : k ≠ .dedent := fun hk => hlast (by rw [hk]; rfl)
      refine ⟨k, rfl, ?_⟩
      rcases hplace with ⟨hu, hv⟩ | ⟨hu, hv⟩
      · have hnewline : before.getLast? = some .newline := by
          rcases hu with hu | hu <;> rw [hu] at hbehind
          · exact hbehind
          · exact absurd hbehind hfirst
        rcases k.isContent_or with hcontent | rfl | rfl | rfl | rfl
        · exact .inr ⟨hcontent, hnewline⟩
        · simp [Tracker.step?, hv] at hk
        · simp [Tracker.step?, hv] at hk
        · exact absurd rfl hne
        · exact .inl rfl
      · rcases k.isContent_or with hcontent | rfl | rfl | rfl | rfl
        · simp [Tracker.step?_content hcontent, hv] at hk
        · simp [Tracker.step?, hv] at hk
        · simp [Tracker.step?, hv] at hk
        · exact absurd rfl hne
        · exact .inl rfl

end EventScript
