import EventScript.Proofs.Token.LineTokens
import EventScript.Proofs.Token.Positions

/-! # Two texts with a common beginning

The scanner looks at what stands behind a lexeme only to see where that one ends.  So two texts that
begin alike are scanned alike up to a lexeme behind which both go on with a break, whatever follows
then.

* `Scanner.withRest`      the scanner in front of another text
* `Passes.outcome_fork`   behind a token that both texts have the scan of the other one goes on from
                          the same place
* `Token.exists_behind`   the scan of a source comes to such a place behind each token written out
-/

namespace EventScript

namespace Scanner

open Lexeme (Breaks)

variable {s t : Scanner}

/-- The scanner in front of another text. -/
def withRest (s : Scanner) (rest : List Char) : Scanner := { s with rest := rest }

/-! ## One step -/

section

variable {gap cs behind behind' : List Char} {c : Char}

theorem pushLayouts_withRest (s : Scanner) (k : TokenKind) (n : Nat) (rest : List Char) :
    (s.withRest rest).pushLayouts k n = (s.pushLayouts k n).withRest rest := by
  induction n generalizing s with
  | zero => rfl
  | succ n ih => exact ih (s.pushLayout k)

theorem indentTo_withRest (s : Scanner) (width : Nat) (rest : List Char) :
    (s.withRest rest).indentTo width = (s.indentTo width).withRest rest := by
  unfold indentTo
  split
  · rename_i h
    rw [if_pos (show width > s.levels.head?.getD 0 from h)]
    rfl
  · rename_i h
    rw [if_neg (show ¬ width > s.levels.head?.getD 0 from h)]
    exact pushLayouts_withRest { s with levels := s.levels.dropWhile (· > width) } _ _ rest

theorem isEmptyLine_append (hcs : cs ≠ []) (hbehind : Breaks behind) :
    isEmptyLine (cs ++ behind) = isEmptyLine cs := by
  cases cs with
  | nil => exact absurd rfl hcs
  | cons c cs => simp [isEmptyLine, Lexeme.startsColor_append hbehind]

/-- The layout of a line whose leading blanks are known. -/
theorem layout_eq_ite {lead rest : List Char} (hstart : s.atLineStart = true)
    (hrest : s.rest = lead ++ rest) (hlead : ∀ x ∈ lead, isIndent x = true)
    (hhead : ∀ x ∈ rest.head?, isIndent x = false) :
    s.layout = if isEmptyLine rest = true then { s.behind lead [] rest with atLineStart := false }
      else { s.behind lead [] rest with atLineStart := false }.indentTo (indentWidth lead) := by
  unfold layout
  rw [if_pos hstart, hrest, takeWhile_append_of_forall hlead hhead]
  dsimp only
  rw [advance_eq_behind hrest]
  rfl

/-- The layout of a line and the blanks in front of a character that is none. -/
theorem layout_skipGap_withRest (hgap : ∀ x ∈ gap, isGap x = true) (hc : isGap c = false)
    (hrest : s.rest = gap ++ c :: (cs ++ behind)) (hbehind : Breaks behind)
    (hbehind' : Breaks behind') :
    s.layout.skipGap.rest = c :: (cs ++ behind) ∧
      (s.withRest (gap ++ c :: (cs ++ behind'))).layout.skipGap =
        s.layout.skipGap.withRest (c :: (cs ++ behind')) := by
  have hskip : ∀ {u : Scanner} {gap : List Char} (rest : List Char), (∀ x ∈ gap, isGap x = true) →
      u.rest = gap ++ c :: rest → u.skipGap = u.behind gap [] (c :: rest) :=
    fun rest hgap hu => skipGap_eq_behind hu hgap (by simpa using hc)
  cases hstart : s.atLineStart with
  | false =>
    have hstart' : (s.withRest (gap ++ c :: (cs ++ behind'))).atLineStart = false := hstart
    rw [layout_of_atLineStart hstart, layout_of_atLineStart hstart', hskip _ hgap hrest,
      hskip _ hgap rfl]
    exact ⟨rfl, rfl⟩
  | true =>
    -- the leading blanks are measured first, and what is left of the blanks is passed over
    obtain ⟨lead, more, rfl, hlead, hmore, hhead⟩ : ∃ lead more, gap = lead ++ more ∧
        (∀ x ∈ lead, isIndent x = true) ∧ (∀ x ∈ more, isGap x = true) ∧
        ∀ x ∈ more.head?, isIndent x = false :=
      ⟨_, _, List.takeWhile_append_dropWhile.symm, fun _ => List.mem_takeWhile_imp,
        fun x hx => hgap x ((List.dropWhile_sublist _).subset hx),
        fun _ => head?_dropWhile_eq_false gap⟩
    have hhead' : ∀ rest, ∀ x ∈ (more ++ c :: rest).head?, isIndent x = false := by
      intro rest x hx
      cases more with
      | nil =>
        cases hx
        exact (Bool.or_eq_false_iff.mp hc).1
      | cons y ys => exact hhead x hx
    have hempty : ∀ rest, Breaks rest →
        isEmptyLine (more ++ c :: (cs ++ rest)) = isEmptyLine (more ++ c :: cs) := by
      intro rest hbreaks
      have h := isEmptyLine_append (show more ++ c :: cs ≠ [] by simp) hbreaks
      rwa [List.append_assoc] at h
    have hsplit : ∀ rest, (lead ++ more) ++ c :: rest = lead ++ (more ++ c :: rest) :=
      fun rest => List.append_assoc ..
    have hstart' : (s.withRest ((lead ++ more) ++ c :: (cs ++ behind'))).atLineStart = true :=
      hstart
    rw [layout_eq_ite hstart (hrest.trans (hsplit _)) hlead (hhead' _),
      layout_eq_ite hstart' (hsplit _) hlead (hhead' _), hempty _ hbehind, hempty _ hbehind']
    split
    · rw [hskip _ hmore rfl, hskip _ hmore rfl]
      exact ⟨rfl, rfl⟩
    · rw [hskip (cs ++ behind) hmore (rest_indentTo _ _),
        hskip (cs ++ behind') hmore (rest_indentTo _ _)]
      refine ⟨rfl, ?_⟩
      have hindent := indentTo_withRest
        { s.behind lead [] (more ++ c :: (cs ++ behind)) with atLineStart := false }
        (indentWidth lead) (more ++ c :: (cs ++ behind'))
      have hsame : { (s.withRest ((lead ++ more) ++ c :: (cs ++ behind'))).behind lead []
          (more ++ c :: (cs ++ behind')) with atLineStart := false } =
          ({ s.behind lead [] (more ++ c :: (cs ++ behind)) with atLineStart := false } :
            Scanner).withRest (more ++ c :: (cs ++ behind')) := rfl
      rw [hsame, hindent]
      rfl

/-- Behind the layout and the blanks in front of it, what a step passes. -/
theorem rest_layout_skipGap (s : Scanner) : s.layout.skipGap.rest = s.rest.dropWhile isGap := by
  have hlayout : s.layout.rest =
      if s.atLineStart = true then s.rest.dropWhile isIndent else s.rest := by
    unfold layout
    split
    · dsimp only
      rw [← drop_length_takeWhile]
      split <;> simp
    · rfl
  rw [rest_skipGap, hlayout]
  split
  · induction s.rest with
    | nil => rfl
    | cons c cs ih =>
      cases hc : isIndent c with
      | true => simp [hc, isGap, ih]
      | false => simp [hc]
  · rfl

/-- A step is one of the moves. -/
theorem step_of_moves (h : s.layout.skipGap.Moves t) : s.step = .ok t := by
  unfold step
  generalize s.layout.skipGap = u at h ⊢
  dsimp only
  cases h with
  | ended hrest => rw [hrest]
  | comment hrest hcolor =>
    rw [hrest] at hcolor ⊢
    simp [hcolor]
  | lineFeed hrest =>
    rw [hrest]
    simp
  | lexeme hrest hvisible hwritten hl =>
    obtain ⟨c', cs', hcs', hfeed, hcomment⟩ := hwritten
    cases hrest.symm.trans hcs'
    rw [hrest]
    simp [hcomment, hfeed, hl]

/-- What a step does in front of a character that both texts have: it does not pass the end of what
    they have in common, and there it has found a token that is written out. -/
theorem Moves.withRest {cs' : List Char} (h : s.Moves t) (hrest : s.rest = c :: (cs ++ behind))
    (hafter : t.rest = cs' ++ behind) (hbehind : Breaks behind) (hbehind' : Breaks behind')
    (hnext : cs' ≠ [] ∨ ∃ x, x.kind.isContent = true ∧ t.tokens = x :: s.tokens) :
    (s.withRest (c :: (cs ++ behind'))).Moves (t.withRest (cs' ++ behind')) := by
  have hcolors : ∀ c, Lexeme.startsColor (c :: (cs ++ behind')) =
      Lexeme.startsColor (c :: (cs ++ behind)) := fun c => by
    rw [Lexeme.startsColor_append hbehind, Lexeme.startsColor_append hbehind']
  -- what a step passes of the first text, it passes of the second one
  have hsplit : ∀ {passed : List Char}, s.rest = passed ++ t.rest →
      s.rest = passed ++ (cs' ++ behind) ∧ c :: (cs ++ behind') = passed ++ (cs' ++ behind') := by
    intro passed hpassed
    rw [hafter, hrest] at hpassed
    have hcommon : c :: cs = passed ++ cs' :=
      List.append_cancel_right (show c :: cs ++ behind = passed ++ cs' ++ behind by
        simpa using hpassed)
    refine ⟨hrest.trans hpassed, ?_⟩
    rw [← List.append_assoc, ← hcommon]
    rfl
  cases h with
  | ended hend => cases hrest.symm.trans hend
  | comment hhash hcolor =>
    rw [hrest] at hhash
    cases hhash
    have hline : s.skipComment.rest = s.rest.dropWhile (· != '\n') :=
      drop_length_takeWhile (· != '\n') s.rest
    obtain ⟨hpassed, hpassed'⟩ := hsplit
      (hline ▸ (List.takeWhile_append_dropWhile (p := (· != '\n')) (l := s.rest)).symm)
    have hfeedless : '\n' ∉ s.rest.takeWhile (· != '\n') := fun hmem =>
      absurd (List.mem_takeWhile_imp hmem) (by simp)
    have hfeed : ∀ x ∈ (cs' ++ behind).head?, x = '\n' := fun x hx => by
      rw [← hafter, hline] at hx
      simpa using head?_dropWhile_eq_false _ hx
    have hne : cs' ≠ [] := by
      refine hnext.resolve_right ?_
      rintro ⟨x, -, hx⟩
      exact List.ne_cons_self hx
    have hfeed' : ∀ x ∈ (cs' ++ behind').head?, x = '\n' := by
      cases cs' with
      | nil => exact absurd rfl hne
      | cons d ds => exact hfeed
    have hskip : s.skipComment.withRest (cs' ++ behind') =
        (s.withRest ('#' :: (cs ++ behind'))).skipComment := by
      rw [skipComment_eq_behind hpassed hfeedless hfeed,
        skipComment_eq_behind (s := s.withRest _) hpassed' hfeedless hfeed']
      rfl
    rw [hskip]
    exact .comment rfl (by rw [← hcolor, hrest]; exact hcolors '#')
  | lineFeed hline =>
    rw [hrest] at hline
    cases hline
    have hrest' : s.lineFeed.rest = s.rest.drop 1 := by
      unfold Scanner.lineFeed
      dsimp only
      split <;> rfl
    have hcs' : cs = cs' := by
      rw [hafter, hrest] at hrest'
      exact (List.append_cancel_right hrest').symm
    subst hcs'
    have hfed : s.lineFeed.withRest (cs ++ behind') =
        (s.withRest ('\n' :: (cs ++ behind'))).lineFeed := by
      have hadvance := advance_eq_behind (show s.rest = ['\n'] ++ (cs ++ behind) from hrest)
      have hadvance' := advance_eq_behind (show (s.withRest ('\n' :: (cs ++ behind'))).rest =
        ['\n'] ++ (cs ++ behind') from rfl)
      have hlast : (s.withRest ('\n' :: (cs ++ behind'))).lastKind? = s.lastKind? := rfl
      unfold Scanner.lineFeed
      simp only [List.length_singleton] at hadvance hadvance'
      rw [hlast, hadvance, hadvance']
      dsimp only
      split <;> rfl
    rw [hfed]
    exact .lineFeed rfl
  | @lexeme d rest l hd hvisible hwritten hl =>
    rw [hrest] at hd
    cases hd
    obtain ⟨more, hmore, htail⟩ := Lexeme.read_eq_append hl
    have htaken : s.take l = s.behind l.chars [l.token s.here] more :=
      take_eq_behind (hrest.trans hmore)
    have hchars : s.rest = l.chars ++ (s.take l).rest := by
      rw [htaken]
      exact hrest.trans hmore
    obtain ⟨hpassed, hpassed'⟩ := hsplit hchars
    have hlength : l.tail.length ≤ cs.length := by
      have := congrArg List.length hpassed'
      simp only [List.length_cons, List.length_append, Lexeme.chars] at this
      omega
    have htaken' : (s.take l).withRest (cs' ++ behind') =
        (s.withRest (c :: (cs ++ behind'))).take l := by
      rw [htaken, take_eq_behind (s := s.withRest _) hpassed']
      rfl
    rw [htaken']
    obtain ⟨c', cs₁, hcs₁, hfeed, hcomment⟩ := hwritten
    rw [hrest] at hcs₁
    cases hcs₁
    refine .lexeme rfl hvisible ⟨c, _, rfl, hfeed, ?_⟩
      (Lexeme.read_of_read_append hbehind hl hlength hbehind')
    rw [hcolors]
    exact hcomment

/-- A step that does not pass the end of what two texts have in common does the same in both. -/
theorem step_withRest {cs' : List Char} (h : s.step = .ok t) (hrest : s.rest = cs ++ behind)
    (hafter : t.rest = cs' ++ behind) (hbehind : Breaks behind) (hbehind' : Breaks behind')
    (hnext : cs' ≠ [] ∨ ∃ x, x.kind.isContent = true ∧ t.tokens = x :: s.layout.skipGap.tokens) :
    (s.withRest (cs ++ behind')).step = .ok (t.withRest (cs' ++ behind')) := by
  have hmoves := moves_of_step h
  obtain ⟨gap, more, rfl, hgap, hmore⟩ : ∃ gap more, cs = gap ++ more ∧
      (∀ x ∈ gap, isGap x = true) ∧ ∀ x ∈ more.head?, isGap x = false :=
    ⟨_, _, List.takeWhile_append_dropWhile.symm, fun _ => List.mem_takeWhile_imp,
      fun _ => head?_dropWhile_eq_false cs⟩
  cases more with
  | nil =>
    -- nothing but blanks is left of what the two have in common, so that no token is found in it
    have hu : s.layout.skipGap.rest = behind.dropWhile isGap := by
      rw [rest_layout_skipGap, hrest, List.append_nil, List.dropWhile_append_of_pos hgap]
    have hshort : s.layout.skipGap.rest.length ≤ t.rest.length := by
      rw [hu, hafter, List.length_append]
      have := (List.dropWhile_sublist isGap (l := behind)).length_le
      omega
    by_cases hend : s.layout.skipGap.rest = []
    · cases hmoves with
      | ended => 
        rcases hnext with hne | ⟨x, -, hx⟩
        · rw [hend] at hafter
          exact absurd (List.append_eq_nil_iff.mp hafter.symm).1 hne
        · exact absurd hx (List.ne_cons_self)
      | comment hhash => cases hend.symm.trans hhash
      | lineFeed hline => cases hend.symm.trans hline
      | lexeme hd => cases hend.symm.trans hd
    · have hagain : s.layout.skipGap.step = .ok t :=
        step_of_moves (by rwa [layout_skipGap_idem])
      have := length_rest_step_lt hagain hend
      omega
  | cons c cs =>
    rw [List.append_assoc] at hrest
    obtain ⟨hvisible, hother⟩ := layout_skipGap_withRest hgap (hmore c rfl) hrest hbehind hbehind'
    refine step_of_moves ?_
    rw [List.append_assoc]
    change (s.withRest (gap ++ c :: (cs ++ behind'))).layout.skipGap.Moves _
    rw [hother]
    exact hmoves.withRest hvisible hafter hbehind hbehind' hnext

end

/-! ## A whole scan -/

section

variable {before behind behind' : List Char} {file : Option String}

/-- Before a step the scanner stands in front of more than behind it. -/
theorem Passes.exists_rest_eq (hs : Passes (before ++ behind) file s) (hmore : s.rest ≠ [])
    (htaken : s.step = .ok t) {cs : List Char} (hrest : t.rest = cs ++ behind) :
    ∃ ds, s.rest = ds ++ behind ∧ ds ≠ [] := by
  obtain ⟨passed, htraced⟩ := hs.traced
  have hshorter := length_rest_step_lt htaken hmore
  rw [hrest, List.length_append] at hshorter
  obtain ⟨ds, hds⟩ : behind <:+ s.rest :=
    List.suffix_of_suffix_length_le (List.suffix_append before behind)
      ⟨passed, htraced.split.symm⟩ (by omega)
  refine ⟨ds, hds.symm, ?_⟩
  rintro rfl
  rw [← hds, List.nil_append] at hshorter
  omega

/-- The scanners of the first text, in front of what the two have in common. -/
theorem Passes.outcome_withRest (hbehind : Breaks behind) (hbehind' : Breaks behind')
    (hs : Passes (before ++ behind) file s) {cs : List Char} (hrest : s.rest = cs ++ behind)
    (hcs : cs ≠ []) :
    (Scanner.start (before ++ behind') file).outcome = (s.withRest (cs ++ behind')).outcome := by
  induction hs generalizing cs with
  | start =>
    obtain rfl : before = cs := List.append_cancel_right hrest
    rfl
  | @step s t hs hmore htaken ih =>
    obtain ⟨ds, hds, hne⟩ := hs.exists_rest_eq hmore htaken hrest
    rw [ih hds hne, outcome_eq_bind (s := s.withRest (ds ++ behind')) (by simp [withRest, hne]),
      step_withRest htaken hds hrest hbehind hbehind' (.inl hcs)]
    rfl

/-- Behind a token that is written out, with which both texts begin, the scan of the second one goes
    on from where the scan of the first one is. -/
theorem Passes.outcome_fork (hbehind : Breaks behind) (hbehind' : Breaks behind')
    (hs : Passes (before ++ behind) file s) (htaken : s.step = .ok t) (hrest : t.rest = behind)
    {x : Token} (hx : x.kind.isContent = true) (htokens : t.tokens = x :: s.layout.skipGap.tokens) :
    (Scanner.start (before ++ behind') file).outcome = (t.withRest behind').outcome := by
  have hmore : s.rest ≠ [] := by
    intro hend
    have hlayout := rest_layout_skipGap s
    rw [hend] at hlayout
    cases moves_of_step htaken with
    | ended => exact List.ne_cons_self htokens
    | comment hhash => cases hlayout.symm.trans hhash
    | lineFeed hline => cases hlayout.symm.trans hline
    | lexeme hd => cases hlayout.symm.trans hd
  obtain ⟨ds, hds, hne⟩ := hs.exists_rest_eq hmore htaken (show t.rest = [] ++ behind from hrest)
  rw [hs.outcome_withRest hbehind hbehind' hds hne,
    outcome_eq_bind (s := s.withRest (ds ++ behind')) (by simp [withRest, hne]),
    step_withRest htaken hds (show t.rest = [] ++ behind from hrest) hbehind hbehind'
      (.inr ⟨x, hx, htokens⟩)]
  rfl

end

/-! ## The places behind tokens -/

/-- The layout of a line finds no token that is written out. -/
theorem exists_tokens_layout (s : Scanner) :
    ∃ new, s.layout.tokens = new ++ s.tokens ∧ ∀ x ∈ new, x.kind.isContent = false := by
  unfold layout
  split
  · dsimp only
    split
    · exact ⟨[], rfl, by simp⟩
    · unfold indentTo
      split
      · exact ⟨[_], rfl, by simp [TokenKind.isContent, TokenKind.isLayout]⟩
      · refine ⟨_, tokens_pushLayouts _ _ _, fun x hx => ?_⟩
        rw [List.eq_of_mem_replicate hx]
        rfl
  · exact ⟨[], rfl, by simp⟩

/-- A step finds at most one token that is written out, behind the layout in front of it. -/
theorem exists_tokens_step (h : s.step = .ok t) :
    ∃ new, s.layout.skipGap.tokens = new ++ s.tokens ∧ (∀ x ∈ new, x.kind.isContent = false) ∧
      (t.tokens = s.layout.skipGap.tokens ∨ ∃ x, t.tokens = x :: s.layout.skipGap.tokens) := by
  obtain ⟨new, hnew, hlayout⟩ := exists_tokens_layout s
  have hmoves := moves_of_step h
  refine ⟨new, hnew, hlayout, ?_⟩
  generalize s.layout.skipGap = u at hmoves
  cases hmoves with
  | ended => exact .inl rfl
  | comment => exact .inl rfl
  | lineFeed =>
    unfold lineFeed
    dsimp only
    split <;> first | exact .inl rfl | exact .inr ⟨_, rfl⟩
  | lexeme => exact .inr ⟨_, rfl⟩

theorem mem_of_append_eq {α : Type} {xs ys earlier later : List α} {x : α}
    (h : xs ++ ys = earlier ++ x :: later) (hle : xs.length ≤ earlier.length) : x ∈ ys := by
  have hat := congrArg (·[earlier.length]?) h
  simp only [List.getElem?_append_right hle, List.getElem?_append_right (Nat.le_refl _),
    Nat.sub_self, List.getElem?_cons_zero] at hat
  exact List.mem_of_getElem? hat

/-- The scan finds a token that is written out by a step of its own, behind the tokens before it. -/
theorem Passes.exists_step {source : List Char} {file : Option String} {earlier later : List Token}
    {x : Token} (hs : Passes source file s) (hx : x.kind.isContent = true)
    (h : s.outcome = .ok (earlier ++ x :: later)) (hbefore : s.tokens.length ≤ earlier.length) :
    ∃ u t, Passes source file u ∧ u.rest ≠ [] ∧ u.step = .ok t ∧
      t.tokens = x :: u.layout.skipGap.tokens ∧ u.layout.skipGap.tokens = earlier.reverse ∧
        t.outcome = .ok (earlier ++ x :: later) := by
  induction hn : s.rest.length using Nat.strong_induction_on generalizing s with
  | _ n ih =>
  subst hn
  by_cases hend : s.rest = []
  · -- behind the source there is layout only
    rw [outcome_of_rest_eq_nil hend, finish_eq] at h
    have hmem := mem_of_append_eq (Except.ok.inj h) (by simpa using hbefore)
    rcases List.mem_append.mp hmem with hmem | hmem
    · rw [List.eq_of_mem_replicate hmem] at hx
      cases hx
    · rw [List.mem_singleton.mp hmem] at hx
      cases hx
  · have hbind := outcome_eq_bind hend
    rw [h] at hbind
    cases hstep : s.step with
    | error d =>
      rw [hstep] at hbind
      cases hbind
    | ok t =>
      rw [hstep] at hbind
      have ht : t.outcome = .ok (earlier ++ x :: later) := hbind.symm
      by_cases hle : t.tokens.length ≤ earlier.length
      · exact ih _ (length_rest_step_lt hstep hend) (.step hs hend hstep) ht hle rfl
      · obtain ⟨new, hnew, hlayout, hfound⟩ := exists_tokens_step hstep
        -- the token is none of those that the layout brought
        have hnot : ∀ later, s.tokens.reverse ++ new.reverse ≠ earlier ++ x :: later := by
          intro later heq
          have hmem := mem_of_append_eq heq (by simpa using hbefore)
          rw [hlayout x (List.mem_reverse.mp hmem)] at hx
          cases hx
        obtain ⟨mid, hmid⟩ : ∃ mid, t.tokens.reverse = earlier ++ x :: mid := by
          have hprefix : earlier ++ [x] <+: t.tokens.reverse :=
            List.prefix_of_prefix_length_le ⟨later, by simp⟩ (prefix_of_outcome_eq_ok ht)
              (by simp; omega)
          obtain ⟨mid, hmid⟩ := hprefix
          exact ⟨mid, by simp [← hmid]⟩
        rcases hfound with hfound | ⟨y, hfound⟩
        · rw [hfound, hnew, List.reverse_append] at hmid
          exact absurd hmid (hnot mid)
        · rw [hfound, hnew, List.reverse_cons, List.reverse_append] at hmid
          rcases List.eq_nil_or_concat mid with rfl | ⟨init, last, rfl⟩
          · obtain ⟨hearlier, hlast⟩ := List.append_inj' hmid rfl
            cases hlast
            exact ⟨s, t, hs, hend, hstep, hfound, by rw [hnew, ← hearlier]; simp, ht⟩
          · rw [List.concat_eq_append, ← List.cons_append, ← List.append_assoc] at hmid
            exact absurd (List.append_inj' hmid rfl).1 (hnot init)

/-- The scanner stands behind the token that it has found. -/
theorem here_of_step (h : s.step = .ok t) {x : Token} (hx : x.kind.isContent = true)
    (htokens : t.tokens = x :: s.layout.skipGap.tokens) :
    t.here = x.span.stop ∧ t.atLineStart = false := by
  have hstart : s.layout.skipGap.atLineStart = false := atLineStart_layout s
  have hmoves := moves_of_step h
  generalize s.layout.skipGap = u at htokens hstart hmoves
  cases hmoves with
  | ended => exact absurd htokens List.ne_cons_self
  | comment => exact absurd htokens List.ne_cons_self
  | lineFeed =>
    unfold lineFeed at htokens
    dsimp only at htokens
    split at htokens
    · exact absurd htokens List.ne_cons_self
    · exact absurd htokens List.ne_cons_self
    · exact absurd htokens List.ne_cons_self
    · exact absurd htokens List.ne_cons_self
    · cases htokens
      cases hx
  | lexeme =>
    cases htokens
    exact ⟨rfl, hstart⟩

end Scanner

/-- The scan of a source, seen behind one of its tokens: a scanner with the tokens up to there in
    front of what is left of the source. -/
structure Scanner.Behind (source : List Char) (file : Option String) (earlier : List Token)
    (x : Token) (later : List Token) (s : Scanner) : Prop where
  tokens : s.tokens = x :: earlier.reverse
  here : s.here = x.span.stop
  inLine : s.atLineStart = false
  split : source = source.take x.span.stop.offset ++ s.rest
  outcome : s.outcome = .ok (earlier ++ x :: later)
  /-- Another source that begins alike is scanned alike up to here. -/
  fork : ∀ rest, Lexeme.Breaks s.rest → Lexeme.Breaks rest →
    (Scanner.start (source.take x.span.stop.offset ++ rest) file).outcome =
      (s.withRest rest).outcome

theorem Token.exists_behind {source : String} {file : Option String} {earlier later : List Token}
    {x : Token} (h : Token.scan source file = .ok (earlier ++ x :: later))
    (hx : x.kind.isContent = true) :
    ∃ s, Scanner.Behind source.toList file earlier x later s := by
  obtain ⟨u, s, hu, hmore, hstep, htokens, hearlier, hs⟩ :=
    Scanner.Passes.start.exists_step hx (Token.scan_eq_ok.mp h) (Nat.zero_le _)
  obtain ⟨hhere, hstart⟩ := Scanner.here_of_step hstep hx htokens
  obtain ⟨passed, htraced⟩ := (Scanner.Passes.step hu hmore hstep).traced
  have hoffset : x.span.stop.offset = passed.length := by
    rw [← hhere, htraced.here, Location.offset_start_after]
  have htake : source.toList.take x.span.stop.offset = passed := by
    rw [hoffset, htraced.split, List.take_left]
  refine ⟨s, by rw [htokens, hearlier], hhere, hstart, ?_, hs, fun rest hbehind hrest => ?_⟩
  · rw [htake]
    exact htraced.split
  · rw [htake]
    have hu' : Scanner.Passes (passed ++ s.rest) file u := htraced.split ▸ hu
    exact hu'.outcome_fork hbehind hrest hstep rfl hx htokens

end EventScript
