import EventScript.Proofs.Token.Relaid

/-! # Layout without meaning

Blank lines, comments, the blanks between tokens, tabs in place of two spaces and carriage returns
before line feeds do not matter: a source that is laid out otherwise in one of these ways is alike
line by line, so it has the same tokens.

* `LayoutEdit`             the edits
* `SameLine`, `Relaid`     one lemma for each way to edit a line, and for the lines around it
* `scan_layoutEdit`        the edits do not change the tokens
-/

namespace EventScript

open Scanner (isIndent indentWidth)

/-- What follows starts a line. -/
def StartsLine (before : List Char) : Prop := ∀ c ∈ before.getLast?, c = '\n'

/-- A carriage return in front of each line feed. -/
def withReturns (text : List Char) : List Char :=
  text.flatMap fun c => if c = '\n' then ['\r', '\n'] else [c]

/-- A source with some tokens is laid out otherwise: with an empty line more, with blanks or a blank
    and a comment more at the end of a line, with other blanks between two tokens of a line, with a
    tab in place of two spaces in front of a line or the reverse, or with carriage returns. -/
inductive LayoutEdit (ts : List Token) : List Char → List Char → Prop
  | emptyLine {before after extra : List Char} (start : StartsLine before) (trivia : Trivia extra)
      (feedless : '\n' ∉ extra) :
    LayoutEdit ts (before ++ after) (before ++ (extra ++ '\n' :: after))
  | lineEnd {before after extra : List Char} (stop : EndsLine after) (trivia : Trivia extra)
      (feedless : '\n' ∉ extra) (apart : extra.head? ≠ some '#') :
    LayoutEdit ts (before ++ after) (before ++ (extra ++ after))
  | blanks {before run run' after : List Char} {earlier later : List Token} {t u : Token}
      (some : Blanks run) (other : Blanks run') (tokens : ts = earlier ++ t :: u :: later)
      (sameLine : t.span.start.line = u.span.start.line)
      (behind : t.span.stop.offset ≤ before.length)
      (ahead : before.length + run.length ≤ u.span.start.offset) :
    LayoutEdit ts (before ++ (run ++ after)) (before ++ (run' ++ after))
  | twoSpaces {before lead after : List Char} (start : StartsLine before)
      (blank : ∀ c ∈ lead, isIndent c = true) :
    LayoutEdit ts (before ++ (lead ++ '\t' :: after)) (before ++ (lead ++ ' ' :: ' ' :: after))
  | tab {before lead after : List Char} (start : StartsLine before)
      (blank : ∀ c ∈ lead, isIndent c = true) :
    LayoutEdit ts (before ++ (lead ++ ' ' :: ' ' :: after)) (before ++ (lead ++ '\t' :: after))
  | carriageReturns {text : List Char} : LayoutEdit ts text (withReturns text)

/-! ## Indentation -/

theorem indentWidth_append (cs ds : List Char) :
    indentWidth (cs ++ ds) = indentWidth cs + indentWidth ds := by
  have hfrom : ∀ n : Nat, ds.foldl (fun n c => n + if c == '\t' then 2 else 1) n =
      n + indentWidth ds := by
    induction ds with
    | nil => exact fun _ => rfl
    | cons d ds ih =>
      intro n
      rw [indentWidth, List.foldl_cons, List.foldl_cons, ih, ih]
      omega
  rw [indentWidth, List.foldl_append]
  exact hfrom _

/-- Leading blanks end where a line has anything else. -/
theorem takeWhile_append_of_exists {p : Char → Bool} {cs : List Char} (h : ∃ c ∈ cs, p c = false)
    (ds : List Char) : (cs ++ ds).takeWhile p = cs.takeWhile p ∧
      (cs ++ ds).dropWhile p = cs.dropWhile p ++ ds := by
  induction cs with
  | nil => simp at h
  | cons c cs ih =>
    simp only [List.cons_append, List.takeWhile_cons, List.dropWhile_cons]
    split
    · rename_i hc
      obtain ⟨d, hd, hpd⟩ := h
      rcases List.mem_cons.mp hd with rfl | hd
      · exact absurd (hc.symm.trans hpd) (by decide)
      · obtain ⟨htake, hdrop⟩ := ih ⟨d, hd, hpd⟩
        exact ⟨congrArg _ htake, hdrop⟩
    · exact ⟨rfl, rfl⟩

theorem LineReads.exists_visible {here : Location} {line : List Char} {ts : List Token}
    (h : LineReads here line ts) (hts : ts ≠ []) : ∃ c ∈ line, isIndent c = false := by
  obtain ⟨c, hc, hgap⟩ := h.tokens.exists_visible hts
  exact ⟨c, hc, (Bool.or_eq_false_iff.mp hgap).1⟩

/-! ## Single lines -/

namespace SameLine

variable {ts : List Token} {here : Location} {line : List Char}

/-- Blanks and a comment at the end of a line. -/
theorem append (hfeed : '\n' ∉ line) (hreturn : '\r' ∉ line) {extra : List Char}
    (htrivia : Trivia extra) (hbreaks : Lexeme.Breaks extra) (hextra : '\n' ∉ extra) :
    SameLine ts here line (line ++ extra) where
  feedless := hfeed
  returnless := hreturn
  reads us hus _ here' := by
    obtain ⟨us', hus', hkeys⟩ := hus.tokens.append htrivia hbreaks here'
    have hnone : us' = [] ↔ us = [] := by
      rw [← List.map_eq_nil_iff (f := Token.key), hkeys, List.map_eq_nil_iff]
    refine ⟨us', ⟨hus', fun h => (List.mem_append.mp h).elim hfeed hextra, fun hhead => ?_⟩, hkeys,
      fun hne => ?_⟩
    · by_contra hne
      have hvisible := hus.exists_visible (mt hnone.mpr hne)
      rw [(takeWhile_append_of_exists hvisible extra).2] at hhead
      cases hdrop : line.dropWhile isIndent with
      | nil =>
        obtain ⟨c, hc, hnot⟩ := hvisible
        exact absurd (List.dropWhile_eq_nil_iff.mp hdrop c hc) (by simp [hnot])
      | cons d ds =>
        rw [hdrop] at hhead
        cases hhead
        exact hreturn ((List.dropWhile_sublist _).subset (hdrop ▸ List.mem_cons_self))
    · rw [(takeWhile_append_of_exists (hus.exists_visible hne) extra).1]

theorem refl (hfeed : '\n' ∉ line) (hreturn : '\r' ∉ line) : SameLine ts here line line := by
  have h : SameLine ts here line (line ++ []) :=
    append hfeed hreturn .nil Lexeme.breaks_nil (by simp)
  rwa [List.append_nil] at h

/-- Other leading blanks of the same width. -/
theorem reindent {lead lead' post : List Char} (hfeed : '\n' ∉ post) (hreturn : '\r' ∉ post)
    (hlead : ∀ c ∈ lead, isIndent c = true) (hlead' : ∀ c ∈ lead', isIndent c = true)
    (hwidth : indentWidth lead' = indentWidth lead) :
    SameLine ts here (lead ++ post) (lead' ++ post) := by
  have hblank : ∀ {run : List Char}, (∀ c ∈ run, isIndent c = true) → '\n' ∉ run ∧ '\r' ∉ run :=
    fun hrun => ⟨fun h => absurd (hrun _ h) (by decide), fun h => absurd (hrun _ h) (by decide)⟩
  refine ⟨fun h => (List.mem_append.mp h).elim (hblank hlead).1 hfeed,
    fun h => (List.mem_append.mp h).elim (hblank hlead).2 hreturn, fun us hus _ here' => ?_⟩
  obtain ⟨us', hus', hkeys⟩ := (hus.tokens.drop_gap fun c hc =>
    Scanner.isGap_of_isIndent (hlead c hc)).shift (here'.after lead')
  refine ⟨us', ⟨hus'.add_gap fun c hc => Scanner.isGap_of_isIndent (hlead' c hc),
    fun h => (List.mem_append.mp h).elim (hblank hlead').1 hfeed, fun hhead => ?_⟩, hkeys,
    fun _ => ?_⟩
  · rw [List.dropWhile_append_of_pos hlead'] at hhead
    exact absurd ((List.dropWhile_sublist _).subset (List.mem_of_mem_head? hhead)) hreturn
  · rw [List.takeWhile_append_of_pos hlead, List.takeWhile_append_of_pos hlead',
      indentWidth_append, indentWidth_append, hwidth]

/-- Other blanks behind the first token of a line and outside all of them. -/
theorem respace {pre run run' post : List Char} (hrun : Blanks run) (hrun' : Blanks run')
    (hfeed : '\n' ∉ pre ++ (run ++ post)) (hreturn : '\r' ∉ pre ++ (run ++ post))
    (hvisible : ∃ c ∈ pre, isIndent c = false)
    (hbetween : ∀ t ∈ ts, t.span.stop.offset ≤ here.offset + pre.length ∨
      here.offset + pre.length + run.length ≤ t.span.start.offset) :
    SameLine ts here (pre ++ (run ++ post)) (pre ++ (run' ++ post)) where
  feedless := hfeed
  returnless := hreturn
  reads us hus hmem here' := by
    obtain ⟨us', hus', hkeys⟩ := hus.tokens.respace hrun hrun' (fun t ht => hbetween t (hmem t ht))
      here'
    simp only [List.mem_append, not_or] at hfeed hreturn
    refine ⟨us', ⟨hus', ?_, fun hhead => ?_⟩, hkeys, fun _ => ?_⟩
    · have hrun'' : '\n' ∉ run' := fun h => absurd (hrun'.blank _ h) (by decide)
      simp [hfeed.1, hrun'', hfeed.2.2]
    · rw [(takeWhile_append_of_exists hvisible _).2] at hhead
      cases hdrop : pre.dropWhile isIndent with
      | nil =>
        obtain ⟨c, hc, hnot⟩ := hvisible
        exact absurd (List.dropWhile_eq_nil_iff.mp hdrop c hc) (by simp [hnot])
      | cons d ds =>
        rw [hdrop] at hhead
        cases hhead
        exact absurd ((List.dropWhile_sublist _).subset (hdrop ▸ List.mem_cons_self)) hreturn.1
    · rw [(takeWhile_append_of_exists hvisible _).1, (takeWhile_append_of_exists hvisible _).1]

end SameLine

/-! ## The lines around an edit -/

theorem exists_startsLine (before : List Char) :
    ∃ lines pre, before = lines ++ pre ∧ StartsLine lines ∧ '\n' ∉ pre := by
  induction before using List.reverseRecOn with
  | nil => exact ⟨[], [], rfl, nofun, by simp⟩
  | append_singleton init c ih =>
    by_cases hc : c = '\n'
    · exact ⟨init ++ [c], [], by simp, by simp [StartsLine, hc], by simp⟩
    · obtain ⟨lines, pre, rfl, hlines, hpre⟩ := ih
      exact ⟨lines, pre ++ [c], by simp, hlines, by simp [hpre, Ne.symm hc]⟩

theorem exists_endsLine (text : List Char) :
    ∃ line tail, text = line ++ tail ∧ '\n' ∉ line ∧ EndsLine tail := by
  refine ⟨_, _, (List.takeWhile_append_dropWhile (p := (· != '\n'))).symm, fun h => ?_,
    fun c hc => ?_⟩
  · exact absurd (List.mem_takeWhile_imp h) (by simp)
  · simpa using head?_dropWhile_eq_false _ hc

theorem withReturns_of_feedless {line : List Char} (h : '\n' ∉ line) : withReturns line = line := by
  induction line with
  | nil => rfl
  | cons c line ih =>
    simp only [List.mem_cons, not_or] at h
    rw [withReturns, List.flatMap_cons, if_neg (Ne.symm h.1), ← withReturns, ih h.2]
    rfl

namespace Relaid

variable {ts : List Token} {here : Location}

/-- The lines before an edit. -/
theorem prepend {before : List Char} (hbefore : StartsLine before) (hreturn : '\r' ∉ before)
    {text text' : List Char} (h : Relaid ts (here.after before) text text') :
    Relaid ts here (before ++ text) (before ++ text') := by
  induction hn : before.length using Nat.strong_induction_on generalizing before here with
  | _ n ih =>
  subst hn
  obtain ⟨line, tail, rfl, hline, htail⟩ := exists_endsLine before
  cases tail with
  | nil =>
    -- the lines are complete, so the last one is followed by a line feed
    cases line using List.reverseRecOn with
    | nil => exact h
    | append_singleton init c =>
      obtain rfl := hbefore c (by simp)
      simp at hline
  | cons c rest =>
    obtain rfl := htail c rfl
    simp only [List.mem_append, List.mem_cons, not_or] at hreturn
    rw [List.append_assoc, List.append_assoc, List.cons_append, List.cons_append]
    refine .line (.refl hline hreturn.1) (ih rest.length (by simp; omega) ?_ hreturn.2.2 ?_ rfl)
    · intro d hd
      refine hbefore d ?_
      rw [List.getLast?_append, List.getLast?_cons, Option.mem_def.mp hd]
      rfl
    · rw [List.append_cons, Location.after_append] at h
      exact h

theorem refl {text : List Char} (hreturn : '\r' ∉ text) : Relaid ts here text text := by
  obtain ⟨lines, line, rfl, hlines, hline⟩ := exists_startsLine text
  simp only [List.mem_append, not_or] at hreturn
  exact prepend hlines hreturn.1 (.last (.refl hline hreturn.2))

/-- One line is edited. -/
theorem replace {before line line' tail : List Char} (hbefore : StartsLine before)
    (htail : EndsLine tail) (hreturn : '\r' ∉ before) (hreturn' : '\r' ∉ tail)
    (h : SameLine ts (here.after before) line line') :
    Relaid ts here (before ++ (line ++ tail)) (before ++ (line' ++ tail)) := by
  refine prepend hbefore hreturn ?_
  cases tail with
  | nil =>
    rw [List.append_nil, List.append_nil]
    exact .last h
  | cons c rest =>
    obtain rfl := htail c rfl
    exact .line h (refl fun h => hreturn' (List.mem_cons_of_mem _ h))

/-- Every line gets a carriage return, unless it is the last one. -/
theorem withReturns {text : List Char} (hreturn : '\r' ∉ text) :
    Relaid ts here text (withReturns text) := by
  induction hn : text.length using Nat.strong_induction_on generalizing text here with
  | _ n ih =>
  subst hn
  obtain ⟨line, tail, rfl, hline, htail⟩ := exists_endsLine text
  have hsame := withReturns_of_feedless hline
  cases tail with
  | nil =>
    rw [List.append_nil] at hreturn ⊢
    rw [hsame]
    exact refl hreturn
  | cons c rest =>
    obtain rfl := htail c rfl
    simp only [List.mem_append, List.mem_cons, not_or] at hreturn
    have hsplit : EventScript.withReturns (line ++ '\n' :: rest) =
        (line ++ ['\r']) ++ '\n' :: EventScript.withReturns rest := by
      rw [EventScript.withReturns, List.flatMap_append, ← EventScript.withReturns, hsame]
      simp [EventScript.withReturns]
    rw [hsplit]
    refine .line (.append hline hreturn.1 (.gap (by simp; decide))
      (Lexeme.breaks_cons (by decide) _) (by simp)) (ih rest.length (by simp; omega) hreturn.2.2 rfl)

end Relaid

/-! ## The edits -/

/-- A location further on is on a later line, if a line feed lies between the two. -/
theorem Location.In.line_lt {source before after : List Char} {file : Option String}
    {l m : Location} (hl : l.In source file) (hm : m.In source file)
    (hsource : source = before ++ '\n' :: after) (hle : l.offset ≤ before.length)
    (hlt : before.length < m.offset) : l.line < m.line := by
  have hbefore : (source.take l.offset).count '\n' ≤ before.count '\n' := by
    rw [hsource, List.take_append_of_le_length hle]
    exact (List.take_sublist _ _).count_le '\n'
  have hbehind : before.count '\n' + 1 ≤ (source.take m.offset).count '\n' := by
    have hprefix : before ++ ['\n'] <+: source.take m.offset := by
      rw [List.prefix_take_iff, hsource]
      exact ⟨⟨after, by simp⟩, by simp; omega⟩
    calc before.count '\n' + 1
        = (before ++ ['\n']).count '\n' := by simp
      _ ≤ (source.take m.offset).count '\n' := hprefix.sublist.count_le '\n'
  rw [hl.line, hm.line]
  omega

namespace FaithfulTokens

variable {source : List Char} {file : Option String} {ts earlier later : List Token} {t u : Token}

/-- No token stands between two that follow each other. -/
theorem outside (h : FaithfulTokens source file ts) (hts : ts = earlier ++ t :: u :: later)
    {first last : Nat} (hfirst : t.span.stop.offset ≤ first) (hlast : last ≤ u.span.start.offset) :
    ∀ x ∈ ts, x.span.stop.offset ≤ first ∨ last ≤ x.span.start.offset := by
  have hordered := h.ordered
  rw [hts, List.pairwise_append, List.pairwise_cons, List.pairwise_cons] at hordered
  obtain ⟨-, ⟨-, hlater, -⟩, hearlier⟩ := hordered
  have ht := (h.standing t (by simp [hts])).forward
  have hu := (h.standing u (by simp [hts])).forward
  intro x hx
  simp only [hts, List.mem_append, List.mem_cons] at hx
  rcases hx with hx | rfl | rfl | hx
  · have := hearlier x hx t (by simp)
    omega
  · exact .inl hfirst
  · exact .inr hlast
  · have := hlater x hx
    omega

/-- Blanks behind a token of a line are not the leading ones of the line. -/
theorem exists_visible {before pre run after : List Char} (h : FaithfulTokens source file ts)
    (hsource : source = before ++ (pre ++ (run ++ after))) (hbefore : StartsLine before)
    (hrun : Blanks run) (ht : t ∈ ts) (hu : u ∈ ts) (hline : t.span.start.line = u.span.start.line)
    (hstop : t.span.stop.offset ≤ before.length + pre.length)
    (hstart : before.length + pre.length + run.length ≤ u.span.start.offset) :
    ∃ c ∈ pre, isIndent c = false := by
  by_contra hblank
  simp only [not_exists, not_and, Bool.not_eq_false] at hblank
  have hpos : 0 < run.length := List.length_pos_iff.mpr hrun.some
  have hstands := h.standing t ht
  have hforward := hstands.forward
  by_cases hbehind : before.length ≤ t.span.start.offset
  · -- the token would start at one of the blanks
    obtain ⟨k, hk⟩ := Nat.exists_eq_add_of_le hbehind
    have hchar : source[t.span.start.offset]? = (pre ++ run)[k]? := by
      rw [hsource, hk, List.getElem?_append_right (Nat.le_add_right ..), Nat.add_sub_cancel_left,
        ← List.append_assoc, List.getElem?_append_left (by rw [List.length_append]; omega)]
    have hk' : k < (pre ++ run).length := by rw [List.length_append]; omega
    have hindent : isIndent (pre ++ run)[k] = true :=
      List.forall_mem_append.mpr ⟨hblank, hrun.blank⟩ _ (List.getElem_mem hk')
    have hvisible := hstands.visible _ (hchar.trans (List.getElem?_eq_getElem hk'))
    simp [isIndent, hvisible.1, hvisible.2] at hindent
  · -- the token would start on an earlier line
    cases before using List.reverseRecOn with
    | nil => exact hbehind (Nat.zero_le _)
    | append_singleton lines c =>
      obtain rfl := hbefore c (by simp)
      simp only [List.length_append, List.length_singleton] at hbehind hstart
      have hsource' : source = lines ++ '\n' :: (pre ++ (run ++ after)) := by
        rw [hsource]
        simp
      have hlt := hstands.start.line_lt (h.standing u hu).start hsource' (by omega) (by omega)
      omega

end FaithfulTokens

/-- A source and an edit of it are alike line by line. -/
theorem LayoutEdit.relaid {source source' : List Char} {file : Option String} {ts : List Token}
    (h : LayoutEdit ts source source') (hfaithful : FaithfulTokens source file ts)
    (hreturn : '\r' ∉ source) : Relaid ts (.start file) source source' := by
  cases h with
  | emptyLine hstart htrivia hfeed =>
    simp only [List.mem_append, not_or] at hreturn
    exact .prepend hstart hreturn.1 (.empty htrivia hfeed (.refl hreturn.2))
  | @lineEnd before after extra hstop htrivia hfeed hapart =>
    obtain ⟨lines, pre, rfl, hlines, hpre⟩ := exists_startsLine before
    simp only [List.mem_append, not_or] at hreturn
    have hbreaks : Lexeme.Breaks extra := by
      cases htrivia with
      | gap hgap => exact fun c hc => by simp [Lexeme.isBreak, hgap c (List.mem_of_mem_head? hc)]
      | @comment gap text hgap _ =>
        cases gap with
        | nil => exact absurd rfl hapart
        | cons c gap => exact Lexeme.breaks_cons (by simp [Lexeme.isBreak, hgap c (by simp)]) _
    have hsame : SameLine ts ((Location.start file).after lines) pre (pre ++ extra) :=
      .append hpre hreturn.1.2 htrivia hbreaks hfeed
    have h := Relaid.replace hlines hstop hreturn.1.1 hreturn.2 hsame
    simpa using h
  | @blanks before run run' after earlier later t u hrun hrun' htokens hline hbehind hahead =>
    obtain ⟨lines, pre, rfl, hlines, hpre⟩ := exists_startsLine before
    obtain ⟨post, tail, rfl, hpost, htail⟩ := exists_endsLine after
    simp only [List.mem_append, not_or] at hreturn
    rw [List.length_append] at hbehind hahead
    have hsource : lines ++ pre ++ (run ++ (post ++ tail)) =
        lines ++ (pre ++ (run ++ (post ++ tail))) := List.append_assoc ..
    have hvisible := hfaithful.exists_visible hsource hlines hrun (by simp [htokens])
      (by simp [htokens]) hline hbehind hahead
    have hfeed : '\n' ∉ run := fun h => absurd (hrun.blank _ h) (by decide)
    have hsame : SameLine ts ((Location.start file).after lines) (pre ++ (run ++ post))
        (pre ++ (run' ++ post)) := by
      refine .respace hrun hrun' (by simp [hpre, hfeed, hpost]) (by simp [hreturn]) hvisible ?_
      rw [Location.offset_start_after]
      exact hfaithful.outside htokens hbehind hahead
    have h := Relaid.replace hlines htail hreturn.1.1 hreturn.2.2.2 hsame
    simpa using h
  | @twoSpaces before lead after hstart hblank =>
    obtain ⟨post, tail, rfl, hpost, htail⟩ := exists_endsLine after
    simp only [List.mem_append, List.mem_cons, not_or] at hreturn
    have hsame : SameLine ts ((Location.start file).after before) ((lead ++ ['\t']) ++ post)
        ((lead ++ [' ', ' ']) ++ post) :=
      .reindent hpost hreturn.2.2.2.1 (List.forall_mem_append.mpr ⟨hblank, by simp; decide⟩)
        (List.forall_mem_append.mpr ⟨hblank, by simp; decide⟩)
        (by rw [indentWidth_append, indentWidth_append]; rfl)
    have h := Relaid.replace hstart htail hreturn.1 hreturn.2.2.2.2 hsame
    simpa using h
  | @tab before lead after hstart hblank =>
    obtain ⟨post, tail, rfl, hpost, htail⟩ := exists_endsLine after
    simp only [List.mem_append, List.mem_cons, not_or] at hreturn
    have hsame : SameLine ts ((Location.start file).after before) ((lead ++ [' ', ' ']) ++ post)
        ((lead ++ ['\t']) ++ post) :=
      .reindent hpost hreturn.2.2.2.2.1 (List.forall_mem_append.mpr ⟨hblank, by simp; decide⟩)
        (List.forall_mem_append.mpr ⟨hblank, by simp; decide⟩)
        (by rw [indentWidth_append, indentWidth_append]; rfl)
    have h := Relaid.replace hstart htail hreturn.1 hreturn.2.2.2.2.2 hsame
    simpa using h
  | carriageReturns => exact .withReturns hreturn

/-- A source without carriage returns that can be scanned, and in which no string goes on over a line
    feed, has the same tokens when it is laid out otherwise. -/
theorem scan_layoutEdit {source source' : String} {file : Option String} {ts : List Token}
    (hscan : Token.scan source file = .ok ts) (hreturn : '\r' ∉ source.toList)
    (hstrings : OneLineStrings ts) (hedit : LayoutEdit ts source.toList source'.toList) :
    ∃ us, Token.scan source' file = .ok us ∧ us.map Token.key = ts.map Token.key := by
  have hfaithful := Token.faithful_of_scan hscan
  have hstart : ∀ text : List Char, (Scanner.start text file).AtLine text :=
    fun text => ⟨rfl, rfl, .inl rfl⟩
  obtain ⟨us, hus, hkeys⟩ := (hedit.relaid hfaithful hreturn).outcome hstrings (hstart _) rfl
    (hstart _) ⟨rfl, rfl⟩ (Token.scan_eq_ok.mp hscan)
  exact ⟨us, Token.scan_eq_ok.mpr hus, hkeys⟩

/-- A source with two blanks between a minus and a number. -/
def spacedSource : String := "a -  1"

/-- Its tokens. -/
def spacedTokens : List Token :=
  [⟨.identifier, .text "a", "a", ⟨⟨1, 1, 0, none⟩, ⟨1, 2, 1, none⟩⟩⟩,
    ⟨.minus, .text "-", "-", ⟨⟨1, 3, 2, none⟩, ⟨1, 4, 3, none⟩⟩⟩,
    ⟨.number, .number (.int 1), "1", ⟨⟨1, 6, 5, none⟩, ⟨1, 7, 6, none⟩⟩⟩,
    ⟨.endOfFile, .null, "", ⟨⟨1, 7, 6, none⟩, ⟨1, 7, 6, none⟩⟩⟩]

theorem scan_layoutEdit_spacedSource :
    Token.scan spacedSource none = .ok spacedTokens ∧ '\r' ∉ spacedSource.toList ∧
      OneLineStrings spacedTokens ∧
      LayoutEdit spacedTokens spacedSource.toList "a -\t1".toList ∧
      ∃ us, Token.scan "a -\t1" none = .ok us ∧ us.map Token.key = spacedTokens.map Token.key := by
  have hscan : Token.scan spacedSource none = .ok spacedTokens := by cbv
  have hsource : spacedSource.toList = ['a', ' ', '-'] ++ ([' ', ' '] ++ ['1']) := by cbv
  have hedited : "a -\t1".toList = ['a', ' ', '-'] ++ (['\t'] ++ ['1']) := by cbv
  have hreturn : '\r' ∉ spacedSource.toList := by
    rw [hsource]
    decide
  have hstrings : OneLineStrings spacedTokens := by
    simp [OneLineStrings, spacedTokens]
  have hedit : LayoutEdit spacedTokens spacedSource.toList "a -\t1".toList := by
    rw [hsource, hedited]
    have htokens : spacedTokens =
        spacedTokens.take 1 ++ spacedTokens[1] :: spacedTokens[2] :: spacedTokens.drop 3 := rfl
    exact .blanks ⟨by simp [isIndent], by simp⟩ ⟨by simp [isIndent], by simp⟩ htokens rfl
      (by decide) (by decide)
  exact ⟨hscan, hreturn, hstrings, hedit, scan_layoutEdit hscan hreturn hstrings hedit⟩

end EventScript
