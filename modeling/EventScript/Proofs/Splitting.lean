import EventScript.Proofs.Yields.Expressions
import Mathlib.Data.List.Basic

/-! # Splitting and joining

A text is split from left to right at the occurrences of a separator that do not overlap, and an
empty separator cuts it into its characters.  Whatever the separator, the pieces and the separators
between them are the text again.  The way back is not as simple: the text that is joined could have
more occurrences than were put into it.  It has none if the separator is one character that is in
none of the pieces.

* `Text.join_split`             the pieces of a text, joined
* `Text.split_join`             pieces without the separator, joined and split again
* `joining_undoes_splitting`    the functions and the members that split and join
-/

namespace EventScript

namespace Text

variable {separator piece text : List Char} {c : Char}

/-! ## Pieces of a text -/

/-- What belongs to an occurrence that was found is in no piece. -/
theorem splitFrom_eq_drop (separator piece text : List Char) (skip : Nat) :
    splitFrom separator skip piece text = splitFrom separator 0 piece (text.drop skip) := by
  induction text generalizing skip with
  | nil => simp [splitFrom]
  | cons c rest ih =>
    cases skip with
    | zero => rfl
    | succ skip => exact ih skip

/-- A piece ends where the separator occurs. -/
theorem splitFrom_append (hne : separator ≠ []) (piece rest : List Char) :
    splitFrom separator 0 piece (separator ++ rest) = piece.reverse :: split separator rest := by
  obtain ⟨c, separator', rfl⟩ := List.exists_cons_of_ne_nil hne
  have hoccurs : (c :: separator').isPrefixOf (c :: (separator' ++ rest)) = true :=
    List.isPrefixOf_iff_prefix.mpr (List.prefix_append _ rest)
  rw [List.cons_append]
  simp only [splitFrom, hoccurs, if_true]
  rw [splitFrom_eq_drop, List.length_cons, Nat.add_sub_cancel, List.drop_left]
  rfl

/-- A piece goes on where the separator does not occur. -/
theorem splitFrom_cons (h : ¬ separator <+: c :: text) (piece : List Char) :
    splitFrom separator 0 piece (c :: text) = splitFrom separator 0 (c :: piece) text := by
  rw [← List.isPrefixOf_iff_prefix] at h
  simp only [splitFrom, h, Bool.false_eq_true, if_false]

theorem splitFrom_ne_nil (separator piece text : List Char) :
    splitFrom separator 0 piece text ≠ [] := by
  induction text generalizing piece with
  | nil => exact List.cons_ne_nil _ _
  | cons c rest ih =>
    by_cases h : separator.isPrefixOf (c :: rest) = true
    · simp [splitFrom, h]
    · simpa [splitFrom, h] using ih (c :: piece)

theorem split_ne_nil (separator text : List Char) : split separator text ≠ [] :=
  splitFrom_ne_nil separator [] text

/-- The pieces of what is left, behind the characters of the current piece. -/
theorem join_splitFrom (hne : separator ≠ []) (piece text : List Char) :
    join separator (splitFrom separator 0 piece text) = piece.reverse ++ text := by
  -- by induction on the length: behind an occurrence, all of it is gone at once
  induction hlength : text.length using Nat.strongRecOn generalizing piece text with
  | ind n ih =>
    subst hlength
    by_cases hoccurs : separator <+: text
    · obtain ⟨rest, rfl⟩ := hoccurs
      have hshorter : rest.length < (separator ++ rest).length := by
        have hpos := List.length_pos_iff.mpr hne
        rw [List.length_append]
        omega
      have hrest : join separator (split separator rest) = rest := ih _ hshorter [] rest rfl
      rw [splitFrom_append hne, join, List.intercalate_cons_of_ne_nil (split_ne_nil separator rest),
        ← join, hrest, List.append_assoc]
    · cases text with
      | nil => simp [splitFrom, join]
      | cons c rest =>
        rw [splitFrom_cons hoccurs, ih _ (Nat.lt_succ_self _) (c :: piece) rest rfl,
          List.reverse_cons, List.append_assoc]
        rfl

/-- The pieces of a text with the separators between them are the text. -/
theorem join_split (hne : separator ≠ []) (text : List Char) :
    join separator (split separator text) = text :=
  join_splitFrom hne [] text

/-- Occurrences are looked for from the left, and do not overlap. -/
example : split "aa".toList "aaaba".toList = ["".toList, "aba".toList] := by decide

/-- The characters of a text, joined without a separator. -/
theorem join_characters (text : List Char) : join [] (text.map ([·])) = text := by
  induction text with
  | nil => rfl
  | cons c rest ih => cases rest <;> simp_all [join]

/-! ## Separators of one character -/

theorem splitFrom_singleton (c : Char) (piece text : List Char) :
    splitFrom [c] 0 piece text = text.splitOnPPrepend (· == c) piece := by
  induction text generalizing piece with
  | nil => rfl
  | cons d rest ih =>
    have hprefix : [c].isPrefixOf (d :: rest) = (d == c) := by simp [List.isPrefixOf, eq_comm]
    simp only [splitFrom, hprefix, List.splitOnPPrepend, List.length_singleton, Nat.sub_self, ih]

/-- Pieces without the separator are found again in the text that they are joined to. -/
theorem split_join {pieces : List (List Char)} (hne : pieces ≠ []) (hc : ∀ p ∈ pieces, c ∉ p) :
    split [c] (join [c] pieces) = pieces := by
  have hsplit : ∀ text, split [c] text = text.splitOn c := fun text => by
    rw [List.splitOn_eq_splitOnP]
    exact splitFrom_singleton c [] text
  rw [hsplit, join, List.splitOn_intercalate c hc hne]

end Text

/-! ## The functions -/

/-- A string is split into pieces, which make a new list. -/
def SplitsInto (t separator : String) (w : World) (pieces : List String) : Prop :=
  GivesList (StringFunction.split.apply [.text t, .text separator]) w (pieces.map .text) ∧
    GivesList (StringMember.split.apply t [.text separator]) w (pieces.map .text)

/-- The items of a list are joined to a string. -/
def JoinsTo (run : Runner) (r : ListRef) (separator : String) (w : World) (t : String) : Prop :=
  StringFunction.join.apply [.list r, .text separator] w = .ok (.text t) w ∧
    ListMember.join.apply run r [.text separator] w = .ok (.text t) w

/-- The pieces of a string. -/
def pieces (separator t : String) : List String :=
  if separator = "" then t.toList.map String.singleton
  else (Text.split separator.toList t.toList).map String.ofList

section

variable {separator t : String} {w : World} {r : ListRef}

theorem splitOn_pieces (t separator : String) (w : World) :
    GivesList (Library.splitOn (.text t) (.text separator)) w ((pieces separator t).map .text) := by
  by_cases h : separator = ""
  · subst h
    rw [pieces, if_pos rfl, List.map_map]
    rfl
  · have hsplit : Library.splitOn (.text t) (.text separator) =
        Library.listOf ((Text.split separator.toList t.toList).map Library.ofChars) := by
      unfold Library.splitOn
      split
      · contradiction
      · rename_i heq
        exact absurd (Value.text.inj heq) h
      · rfl
    rw [pieces, if_neg h, List.map_map, hsplit]
    rfl

theorem splitsInto_pieces (t separator : String) (w : World) :
    SplitsInto t separator w (pieces separator t) :=
  ⟨splitOn_pieces t separator w, splitOn_pieces t separator w⟩

theorem map_display_text (s : Store) (parts : List String) :
    (parts.map Value.text).map s.display = parts := by
  have hdisplay : ∀ t, s.display (.text t) = t := fun t => by
    unfold Store.display
    rw [Store.displayFrom]
  rw [List.map_map]
  exact (List.map_congr_left fun t _ => hdisplay t).trans (List.map_id parts)

theorem joinsTo_intercalate (run : Runner) {parts : List String}
    (h : w.store.list r = (parts.map Value.text).toArray) :
    JoinsTo run r separator w (separator.intercalate parts) := by
  have hjoined : Library.joined separator (w.store.list r).toList w =
      .ok (.text (separator.intercalate parts)) w := by
    rw [h]
    show EStateM.Result.ok (Value.text (separator.intercalate
      ((parts.map Value.text).map w.store.display))) w = _
    rw [map_display_text]
  exact ⟨hjoined, hjoined⟩

theorem intercalate_pieces (separator t : String) :
    separator.intercalate (pieces separator t) = t := by
  rw [← String.toList_inj, String.toList_intercalate]
  unfold pieces
  split
  · rename_i hempty
    subst hempty
    simpa [Function.comp_def, Text.join] using Text.join_characters t.toList
  · rename_i hne
    have hne : separator.toList ≠ [] := by simpa using hne
    rw [List.map_map]
    simpa [Function.comp_def, Text.join] using Text.join_split hne t.toList

theorem pieces_intercalate {c : Char} {parts : List String} (hne : parts ≠ [])
    (hc : ∀ p ∈ parts, c ∉ p.toList) :
    pieces (String.singleton c) ((String.singleton c).intercalate parts) = parts := by
  have hsplit : Text.split [c] (Text.join [c] (parts.map String.toList)) =
      parts.map String.toList :=
    Text.split_join (by simpa using hne) (by simpa using hc)
  have hone : String.singleton c ≠ "" := by simp
  rw [pieces, if_neg hone, String.toList_intercalate, String.toList_singleton, ← Text.join, hsplit,
    List.map_map]
  simp [Function.comp_def]

end

/-- Joining undoes splitting, for every string and every separator, the empty one included: what a
    string is split into by `string.split` or the member `split` is joined to the string again by
    `string.join` or the member `join` with the same separator, whenever a list of it is joined.

    And splitting undoes joining if the separator is one character: strings without it, at least
    one of them, are joined to a string that is split into them again. -/
theorem joining_undoes_splitting (run : Runner) :
    (∀ (t separator : String) (w : World), ∃ parts : List String,
      SplitsInto t separator w parts ∧
      JoinsTo run w.store.lists.next separator (w.withList (parts.map Value.text).toArray) t ∧
      ∀ (u : World) (r : ListRef), u.store.list r = (parts.map Value.text).toArray →
        JoinsTo run r separator u t) ∧
    ∀ (c : Char) (parts : List String), parts ≠ [] → (∀ p ∈ parts, c ∉ p.toList) →
      ∀ (w : World) (r : ListRef), w.store.list r = (parts.map Value.text).toArray →
        ∃ t, JoinsTo run r (String.singleton c) w t ∧
          ∀ u, SplitsInto t (String.singleton c) u parts := by
  refine ⟨fun t separator w => ?_, fun c parts hne hc w r hparts => ?_⟩
  · have hjoins : ∀ (u : World) (r : ListRef),
        u.store.list r = ((pieces separator t).map Value.text).toArray →
        JoinsTo run r separator u t := fun u r h => by
      have hjoins : JoinsTo run r separator u _ := joinsTo_intercalate run h
      rwa [intercalate_pieces] at hjoins
    exact ⟨pieces separator t, splitsInto_pieces t separator w,
      hjoins _ _ (list_withList_next w _), hjoins⟩
  · refine ⟨_, joinsTo_intercalate run hparts, fun u => ?_⟩
    have hsplits := splitsInto_pieces ((String.singleton c).intercalate parts)
      (String.singleton c) u
    rwa [pieces_intercalate hne hc] at hsplits

/-- A session with a list of strings that starts and ends with an empty one. -/
def emptyEnds : World :=
  { Session.bareWorld {} [] with
    store := { Store.empty with lists := ⟨#[#[.text "", .text "a", .text ""]]⟩ } }

theorem joining_undoes_splitting_emptyEnds :
    (["", "a", ""] ≠ [] ∧ ∀ p ∈ ["", "a", ""], ',' ∉ p.toList) ∧
      (∃ t, JoinsTo (Evaluate.bounded 0) ⟨0⟩ "," emptyEnds t ∧
        ∀ u, SplitsInto t "," u ["", "a", ""]) ∧
      ∃ parts, SplitsInto "aaaba" "aa" emptyEnds parts ∧
        JoinsTo (Evaluate.bounded 0) ⟨1⟩ "aa"
          (emptyEnds.withList (parts.map Value.text).toArray) "aaaba" := by
  obtain ⟨hsplit, hjoin⟩ := joining_undoes_splitting (Evaluate.bounded 0)
  have hne : ["", "a", ""] ≠ [] := List.cons_ne_nil _ _
  have hcomma : ∀ p ∈ ["", "a", ""], ',' ∉ p.toList := by decide
  obtain ⟨parts, hparts, hback, -⟩ := hsplit "aaaba" "aa" emptyEnds
  exact ⟨⟨hne, hcomma⟩, hjoin ',' _ hne hcomma emptyEnds ⟨0⟩ rfl, parts, hparts, hback⟩

end EventScript
