import EventScript.Library.Strings
import EventScript.Value.Display
import Mathlib.Data.Nat.Digits.Lemmas

/-! # Numerals

The integer at the start of a text is found again, however it was written there: in any base up to
36, with letters of either case, behind white space and a sign, and in front of whatever does not go
on with a digit.  A text is turned to lower case before its digits are read, so that it is the lower
case of what is behind them that must not go on with one.

* `Text.trim_around`             what is left when white space is trimmed
* `lowerFrom_append`             digits in lower case, and what is behind them
* `toInt_of_spells`              what `string.toInt` reads
* `toNumber_display`             what `string.toNumber` reads
* `printed_integers_read_back`   integers that were printed or written in a base
-/

namespace EventScript

open Library

namespace Text

variable {before body rest after : List Char}

/-! ## White space -/

/-- Nothing is dropped of a text that has nothing to drop. -/
theorem dropWhile_of_forall {p : Char → Bool} {cs : List Char} (h : ∀ c ∈ cs, p c = false) :
    cs.dropWhile p = cs := by
  cases cs with
  | nil => rfl
  | cons c cs => exact List.dropWhile_cons_of_neg (by simp [h c List.mem_cons_self])

theorem trimEnd_append_of_blank (cs : List Char) (h : ∀ c ∈ after, isBlank c = true) :
    trimEnd (cs ++ after) = trimEnd cs := by
  have hblank : ∀ c ∈ after.reverse, isBlank c = true := fun c hc => h c (List.mem_reverse.mp hc)
  unfold trimEnd
  rw [List.reverse_append, List.dropWhile_append_of_pos hblank]

theorem trimEnd_prefix (cs : List Char) : trimEnd cs <+: cs := by
  rw [← List.reverse_suffix, trimEnd, List.reverse_reverse]
  exact List.dropWhile_suffix _

/-- White space is trimmed up to a character that is none. -/
theorem trimEnd_append {c : Char} (hc : isBlank c = false) (cs rest : List Char) :
    trimEnd (cs ++ c :: rest) = cs ++ c :: trimEnd rest := by
  have hkept : (c :: cs.reverse).dropWhile isBlank = c :: cs.reverse :=
    List.dropWhile_cons_of_neg (by simp [hc])
  unfold trimEnd
  rw [List.reverse_append, List.reverse_cons, List.append_assoc, List.singleton_append,
    List.dropWhile_append]
  split
  · rename_i hempty
    rw [List.isEmpty_iff.mp hempty, hkept]
    simp
  · simp

/-- White space around something that has none at its ends is trimmed; behind it there may be more,
    which ends in white space or not. -/
theorem trim_around (hbefore : ∀ c ∈ before, isBlank c = true) (hne : body ≠ [])
    (hbody : ∀ c ∈ body, isBlank c = false) (hafter : ∀ c ∈ after, isBlank c = true) :
    trim (before ++ body ++ rest ++ after) = body ++ trimEnd rest := by
  obtain ⟨c, cs, hcs⟩ := List.exists_cons_of_ne_nil hne
  have hstart : trimStart (before ++ body ++ rest ++ after) = body ++ (rest ++ after) := by
    have hc : isBlank c = false := hbody c (hcs ▸ List.mem_cons_self)
    rw [trimStart, List.append_assoc, List.append_assoc, List.dropWhile_append_of_pos hbefore, hcs]
    exact List.dropWhile_cons_of_neg (by simp [hc])
  have hlast : isBlank (body.getLast hne) = false := hbody _ (List.getLast_mem hne)
  have hends : ∀ more, body ++ more = body.dropLast ++ body.getLast hne :: more := fun more => by
    conv_lhs => rw [← List.dropLast_append_getLast hne]
    exact List.append_assoc ..
  rw [trim, hstart, hends, trimEnd_append hlast, trimEnd_append_of_blank rest hafter, ← hends]

end Text

/-! ## Digits -/

/-- A character is the digit of a value, in lower or upper case. -/
def IsDigit (c : Char) (d : Nat) : Prop := digitLetters[d]? = some c.toLower

/-- A text is a natural number in a base: its digits, the most significant one first. -/
def WrittenIn (base n : Nat) (cs : List Char) : Prop :=
  ∃ ds : List Nat, List.Forall₂ IsDigit cs ds ∧ ds ≠ [] ∧ (∀ d ∈ ds, d < base) ∧
    Nat.ofDigits base ds.reverse = n

section

variable {base n d : Nat} {c : Char} {cs rest : List Char} {ds : List Nat}

/-- What is known of the characters that are digits: each of them is the only lower case of itself
    or of another one, and none is white space or a sign. -/
def IsPlain (c : Char) : Prop :=
  Text.lowerChar c = [c.toLower] ∧ c ≠ 'Σ' ∧ Text.isBlank c = false ∧ c ≠ '+' ∧ c ≠ '-'

instance (c : Char) : Decidable (IsPlain c) := inferInstanceAs (Decidable (_ ∧ _))

theorem toNat_lt_of_toLower_mem (h : c.toLower ∈ digitLetters) : c.toNat < 128 := by
  have hletters : ∀ e ∈ digitLetters, e.toNat < 128 := by
    have hall : digitLetters.all (decide <| ·.toNat < 128) = true := by decide
    simpa using hall
  unfold Char.toLower at h
  split at h
  · rename_i hupper
    have hz : c.toNat ≤ 'Z'.toNat := hupper.2
    exact hz.trans_lt (by decide)
  · exact hletters c h

theorem isPlain_of_toLower_mem (h : c.toLower ∈ digitLetters) : IsPlain c := by
  have hall : ∀ k < 128, (Char.ofNat k).toLower ∈ digitLetters → IsPlain (Char.ofNat k) := by
    decide +kernel
  have hc := hall c.toNat (toNat_lt_of_toLower_mem h)
  rw [Char.ofNat_toNat] at hc
  exact hc h

theorem IsDigit.plain (h : IsDigit c d) : IsPlain c :=
  isPlain_of_toLower_mem (List.mem_of_getElem? h)

theorem nodup_digitLetters : digitLetters.Nodup := by decide

theorem IsDigit.idxOf_eq (h : IsDigit c d) : digitLetters.idxOf c.toLower = d := by
  obtain ⟨hd, hc⟩ := List.getElem?_eq_some_iff.mp h
  rw [← hc]
  exact nodup_digitLetters.idxOf_getElem d hd

theorem map_idxOf (h : List.Forall₂ IsDigit cs ds) :
    (cs.map Char.toLower).map digitLetters.idxOf = ds := by
  induction h with
  | nil => rfl
  | cons hc _ ih => rw [List.map_cons, List.map_cons, ih, hc.idxOf_eq]

/-- The letters of a base. -/
theorem mem_take_digitLetters {e : Char} :
    e ∈ digitLetters.take base ↔ ∃ d < base, digitLetters[d]? = some e := by
  have htake : ∀ d, (digitLetters.take base)[d]? = some e ↔ d < base ∧ digitLetters[d]? = some e :=
    fun d => by rw [List.getElem?_take, Option.ite_none_right_eq_some]
  rw [List.mem_iff_getElem?]
  exact exists_congr htake

/-- Digits are turned to lower case one by one, and what is behind them after them. -/
theorem lowerFrom_append (h : List.Forall₂ IsDigit cs ds) (afterCased : Bool) :
    ∃ b, Text.lowerFrom afterCased (cs ++ rest) = cs.map Char.toLower ++ Text.lowerFrom b rest := by
  induction h generalizing afterCased with
  | nil => exact ⟨afterCased, rfl⟩
  | @cons c d cs ds hc hcs ih =>
    obtain ⟨b, hb⟩ := ih (if Text.isCaseIgnorable c then afterCased else Text.isCased c)
    refine ⟨b, ?_⟩
    obtain ⟨hlower, hsigma, -⟩ := hc.plain
    rw [List.cons_append, Text.lowerFrom, hb]
    simp [hlower, hsigma]

/-- The lower case of a text starts with a digit of a base. -/
def GoesOn (base : Nat) (rest : List Char) : Prop :=
  ∃ d < base, ∃ e, digitLetters[d]? = some e ∧ (Text.toLower rest).head? = some e

/-- Whether a text starts with a digit does not depend on what is in front of it, or on what is
    behind its first character. -/
theorem not_mem_of_not_goesOn {part : List Char} (h : ¬ GoesOn base rest) (hpart : part <+: rest)
    {b : Bool} {e : Char} (he : (Text.lowerFrom b part).head? = some e) :
    e ∉ digitLetters.take base := by
  rw [mem_take_digitLetters]
  rintro ⟨d, hd, hletter⟩
  cases part with
  | nil => cases he
  | cons c part =>
    obtain ⟨more, rfl⟩ := hpart
    by_cases hsigma : c = 'Σ'
    · -- a sigma has two lower cases, and none of them is a digit
      have hnone : ∀ e ∈ ['ς', 'σ'], e ∉ digitLetters :=
        List.forall_mem_cons.mpr ⟨by decide, List.forall_mem_singleton.mpr (by decide)⟩
      refine hnone e ?_ (List.mem_of_getElem? hletter)
      subst hsigma
      simp only [Text.lowerFrom, beq_self_eq_true, if_true, List.singleton_append,
        List.head?_cons, Option.some.injEq] at he
      subst he
      split <;> simp
    · have hsame : ∀ b more, (Text.lowerFrom b (c :: more)).head? = (Text.lowerChar c).head? := by
        intro b more
        rw [Text.lowerFrom, if_neg (by simpa using hsigma)]
        unfold Text.lowerChar
        split <;> rfl
      refine h ⟨d, hd, e, hletter, ?_⟩
      rw [Text.toLower, List.cons_append, hsame, ← hsame b part, he]

/-- Digits that are read are those up to a text that does not go on with one. -/
theorem takeWhile_toLower {part : List Char} (hcs : List.Forall₂ IsDigit cs ds)
    (hds : ∀ d ∈ ds, d < base) (h : ¬ GoesOn base rest) (hpart : part <+: rest) :
    (Text.toLower (cs ++ part)).takeWhile (digitLetters.take base).contains =
      cs.map Char.toLower := by
  obtain ⟨b, hb⟩ : ∃ b, Text.lowerFrom false (cs ++ part) =
    cs.map Char.toLower ++ Text.lowerFrom b part := lowerFrom_append hcs false
  have hdigits : ∀ e ∈ cs.map Char.toLower, (digitLetters.take base).contains e = true := by
    intro e he
    rw [List.contains_iff_mem, mem_take_digitLetters]
    obtain ⟨c, hc, rfl⟩ := List.mem_map.mp he
    obtain ⟨k, hk, rfl⟩ := List.getElem_of_mem hc
    have hk' : k < ds.length := hcs.length_eq ▸ hk
    exact ⟨ds[k], hds _ (List.getElem_mem hk'), (List.forall₂_iff_get.mp hcs).2 k hk hk'⟩
  have hbehind : (Text.lowerFrom b part).takeWhile (digitLetters.take base).contains = [] := by
    cases hlower : Text.lowerFrom b part with
    | nil => rfl
    | cons e more =>
      have he : e ∉ digitLetters.take base :=
        not_mem_of_not_goesOn h hpart (hlower ▸ rfl : (Text.lowerFrom b part).head? = some e)
      exact List.takeWhile_cons_of_neg (by simpa using he)
  rw [Text.toLower, hb, List.takeWhile_append_of_pos hdigits, hbehind, List.append_nil]

/-- The value of digits, read from the left. -/
theorem ofDigits_eq (base : Nat) (ds : List Nat) :
    Numeral.ofDigits base ds = Nat.ofDigits base ds.reverse := by
  rw [Nat.ofDigits_eq_foldr, List.foldr_reverse, Numeral.ofDigits]
  congr 1
  funext n d
  simp [Nat.add_comm]

end

/-! ## Reading in any base -/

/-- The sign in front of an integer: a minus for a negative one, and otherwise nothing or a plus. -/
def IsSignOf (sign : List Char) (n : Int) : Prop :=
  sign = ['-'] ∧ n ≤ 0 ∨ (sign = [] ∨ sign = ['+']) ∧ 0 ≤ n

/-- A text begins with an integer in a base: white space, the sign and the digits, then anything
    that does not go on with a digit, and white space again. -/
structure Spells (base : Nat) (n : Int) (digits : List Char) (t : String) : Prop where
  written : WrittenIn base n.natAbs digits
  text : ∃ before sign rest after, t.toList = before ++ (sign ++ digits) ++ rest ++ after ∧
    IsSignOf sign n ∧ ¬ GoesOn base rest ∧
    (∀ c ∈ before, Text.isBlank c = true) ∧ ∀ c ∈ after, Text.isBlank c = true

section

variable {base : Nat} {n : Int} {digits : List Char} {t : String} {w : World}

theorem sliceOf_digitLetters (hbase : base ≤ 36) :
    sliceOf digitLetters none (some base) = digitLetters.take base := by
  have hclamp : clampIndex digitLetters.length base = base := by
    unfold clampIndex
    have hlength : digitLetters.length = 36 := rfl
    rw [if_neg (by omega), hlength]
    omega
  simp only [sliceOf, Option.elim_none, Option.elim_some, List.drop_zero, Nat.sub_zero, hclamp]

/-- There is no white space in a sign and digits. -/
theorem isBlank_of_mem_append {sign : List Char} (hsign : IsSignOf sign n)
    (hdigits : ∀ c ∈ digits, IsPlain c) : ∀ c ∈ sign ++ digits, Text.isBlank c = false := by
  intro c hc
  rcases List.mem_append.mp hc with hc | hc
  · have hnone : Text.isBlank '+' = false ∧ Text.isBlank '-' = false := by decide
    rcases hsign with ⟨rfl, -⟩ | ⟨rfl | rfl, -⟩ <;> simp_all
  · exact (hdigits c hc).2.2.1

/-- The sign of an integer is split off. -/
theorem takeSign_append {sign : List Char} {c : Char} (hsign : IsSignOf sign n) (hc : IsPlain c)
    (cs : List Char) :
    ∃ negative, Numeral.takeSign (sign ++ c :: cs) = (negative, c :: cs) ∧
      (if negative then -(n.natAbs : Int) else n.natAbs) = n := by
  obtain ⟨-, -, -, hplus, hminus⟩ := hc
  rcases hsign with ⟨rfl, hn⟩ | ⟨rfl | rfl, hn⟩
  · exact ⟨true, rfl, by simp only [if_true]; omega⟩
  · refine ⟨false, ?_, by simp only [Bool.false_eq_true, if_false]; omega⟩
    rw [List.nil_append, Numeral.takeSign]
    · simpa using hminus
    · simpa using hplus
  · exact ⟨false, rfl, by simp only [Bool.false_eq_true, if_false]; omega⟩

/-- An integer at the start of a text is read, unless it has too many digits. -/
theorem leadingInteger_of_spells (hlow : 2 ≤ base) (hhigh : base ≤ 36)
    (h : Spells base n digits t) :
    leadingInteger t.toList base w =
      if Numeral.isReadable base digits.length then .ok (.int n) w
      else .error (.fault .wrongValue) w := by
  obtain ⟨⟨ds, hdigits, hne, hds, hvalue⟩, before, sign, rest, after, ht, hsign, hrest, hbefore,
    hafter⟩ := h
  have hplain : ∀ c ∈ digits, IsPlain c := by
    intro c hc
    obtain ⟨k, hk, rfl⟩ := List.getElem_of_mem hc
    exact ((List.forall₂_iff_get.mp hdigits).2 k hk (hdigits.length_eq ▸ hk)).plain
  obtain ⟨c, cs, rfl⟩ : ∃ c cs, digits = c :: cs := by
    cases hdigits with
    | nil => exact absurd rfl hne
    | cons => exact ⟨_, _, rfl⟩
  have htrim : Text.trim t.toList = sign ++ c :: (cs ++ Text.trimEnd rest) := by
    rw [ht, Text.trim_around hbefore (by simp) (isBlank_of_mem_append hsign hplain) hafter,
      List.append_assoc, List.cons_append]
  obtain ⟨negative, hsplit, hn⟩ := takeSign_append hsign (hplain c List.mem_cons_self)
    (cs ++ Text.trimEnd rest)
  have hread := takeWhile_toLower hdigits hds hrest (Text.trimEnd_prefix rest)
  rw [List.cons_append] at hread
  have hmap := map_idxOf hdigits
  have hof : Numeral.ofDigits base ds = n.natAbs := by rw [ofDigits_eq, hvalue]
  have hrange : (decide ((base : Int) < 2) || decide ((base : Int) > 36)) = false := by
    simp only [Bool.or_eq_false_iff, decide_eq_false_iff_not]
    omega
  unfold leadingInteger
  simp only [htrim, hsplit, sliceOf_digitLetters hhigh, hread, hmap, Int.toNat_natCast, hof, hn,
    List.length_map, List.isEmpty_map, List.isEmpty_cons, hrange]
  cases Numeral.isReadable base (c :: cs).length <;> rfl

end

/-! ## Reading decimals -/

theorem isPlain_of_isDigit {c : Char} (h : c.isDigit = true) : IsPlain c := by
  have hall : ∀ k ≤ '9'.toNat, '0'.toNat ≤ k → (Char.ofNat k).toLower ∈ digitLetters := by decide
  simp only [Char.isDigit, Bool.and_eq_true, decide_eq_true_eq] at h
  have hc := hall c.toNat h.2 h.1
  rw [Char.ofNat_toNat] at hc
  exact isPlain_of_toLower_mem hc

theorem digitValue?_of_isDigit {c : Char} (h : c.isDigit = true) :
    Text.digitValue? c = some (c.toNat - '0'.toNat) := by
  rw [Text.digitValue?, if_pos h]

theorem isDecimal_of_isDigit {c : Char} (h : c.isDigit = true) : Text.isDecimal c = true := by
  rw [Text.isDecimal, digitValue?_of_isDigit h]
  rfl

/-- All of a run of digits is read. -/
theorem takeDigits_of_forall {cs : List Char} (h : ∀ c ∈ cs, c.isDigit = true) :
    Numeral.takeDigits cs = (cs.map fun c => c.toNat - '0'.toNat, []) := by
  induction cs with
  | nil => rfl
  | cons c cs ih =>
    have hc := digitValue?_of_isDigit (h c List.mem_cons_self)
    have hcs := ih fun d hd => h d (List.mem_cons_of_mem c hd)
    -- no digit is an underscore, so that the next character is a digit as well
    have hnext : ∀ next rest, cs ≠ '_' :: next :: rest := by
      rintro next rest rfl
      exact absurd (h '_' (by simp)) (by decide)
    rw [Numeral.takeDigits]
    · simp [hc, hcs]
    · exact hnext

/-- What is written of an integer in decimal. -/
theorem toList_toString (n : Int) : ∃ sign, (toString n).toList = sign ++ Nat.toDigits 10 n.natAbs ∧
    IsSignOf sign n := by
  rw [Int.toString_eq_repr, Int.repr_eq_if]
  split
  · rename_i hn
    refine ⟨[], ?_, .inr ⟨.inl rfl, hn⟩⟩
    rw [Nat.toList_repr, List.nil_append]
    congr 1
    omega
  · rename_i hn
    refine ⟨['-'], ?_, .inl ⟨rfl, by omega⟩⟩
    rw [String.toList_append, Nat.toList_repr]
    congr 2
    omega

theorem bare_of_forall {cs : List Char} (h : ∀ c ∈ cs, Text.isBlank c = false) :
    Numeral.bare cs = cs := by
  have hcs : ∀ c ∈ cs, Numeral.isNumeralBlank c = false := fun c hc => by
    rw [Numeral.isNumeralBlank, h c hc, Bool.false_and]
  rw [Numeral.bare, Text.dropWhile_of_forall hcs,
    Text.dropWhile_of_forall fun c hc => hcs c (List.mem_reverse.mp hc), List.reverse_reverse]

section

variable {n : Int} {sign digits : List Char}

/-- A sign and digits are a decimal numeral. -/
theorem leadingNumeral_append (hsign : IsSignOf sign n) (hne : digits ≠ [])
    (hdigits : ∀ c ∈ digits, c.isDigit = true) :
    leadingNumeral (sign ++ digits) = some (sign ++ digits, true) := by
  have hsigns : sign.length ≤ 1 ∧ ∀ c ∈ sign, (c == '+' || c == '-') = true := by
    rcases hsign with ⟨rfl, -⟩ | ⟨rfl | rfl, -⟩ <;> simp
  have hfirst : digits.takeWhile (fun c => c == '+' || c == '-') = [] := by
    obtain ⟨c, cs, rfl⟩ := List.exists_cons_of_ne_nil hne
    obtain ⟨-, -, -, hplus, hminus⟩ := isPlain_of_isDigit (hdigits c List.mem_cons_self)
    exact List.takeWhile_cons_of_neg (by simp [hplus, hminus])
  have htake : (sign ++ digits).takeWhile (fun c => c == '+' || c == '-') = sign := by
    rw [List.takeWhile_append_of_pos hsigns.2, hfirst, List.append_nil]
  have hwhole : leadingDecimals digits = digits := by
    have hall : (digits ++ []).takeWhile Text.isDecimal = digits ++ [].takeWhile Text.isDecimal :=
      List.takeWhile_append_of_pos fun c hc => isDecimal_of_isDigit (hdigits c hc)
    rwa [List.takeWhile_nil, List.append_nil] at hall
  have hsome : digits.isEmpty = false := by simpa using hne
  unfold leadingNumeral
  simp only [htake, List.drop_left, hwhole, List.drop_length, hsome, Bool.false_and]
  rw [if_neg (by omega)]
  simp

theorem integer?_append (hsign : IsSignOf sign n) (hdigits : digits = Nat.toDigits 10 n.natAbs) :
    Numeral.integer? (sign ++ digits) = some n := by
  have hall : ∀ c ∈ digits, c.isDigit = true := fun c hc =>
    Nat.isDigit_of_mem_toDigits (by decide) (Nat.le_refl 10) (hdigits ▸ hc)
  have hvalue : Numeral.ofDigits 10 (digits.map fun c => c.toNat - '0'.toNat) = n.natAbs := by
    rw [hdigits, Numeral.ofDigits, List.foldl_map]
    exact Nat.ofDigitChars_toDigits (by decide) (Nat.le_refl 10)
  obtain ⟨c, cs, rfl⟩ := List.exists_cons_of_ne_nil (hdigits ▸ Nat.toDigits_ne_nil)
  have hbare : Numeral.bare (sign ++ c :: cs) = sign ++ c :: cs :=
    bare_of_forall (isBlank_of_mem_append hsign fun d hd => isPlain_of_isDigit (hall d hd))
  obtain ⟨negative, hsplit, hn⟩ := takeSign_append hsign
    (isPlain_of_isDigit (hall c List.mem_cons_self)) cs
  rw [Numeral.integer?, hbare, hsplit]
  simp only [takeDigits_of_forall hall, List.map_cons] at hvalue ⊢
  rw [hvalue, hn]

/-- The display of an integer is read, unless it has too many digits. -/
theorem toNumber_display (n : Int) (w : World) :
    StringFunction.toNumber.apply [.text (w.store.display (.int n))] w =
      if Numeral.isReadable 10 (Nat.toDigits 10 n.natAbs).length then .ok (.int n) w
      else .error (.fault .wrongValue) w := by
  obtain ⟨sign, hn, hsign⟩ := toList_toString n
  have hdisplay : w.store.display (.int n) = toString n := by
    unfold Store.display Value.int
    rw [Store.displayFrom]
    rfl
  have hdigits : ∀ c ∈ Nat.toDigits 10 n.natAbs, c.isDigit = true := fun c hc =>
    Nat.isDigit_of_mem_toDigits (by decide) (Nat.le_refl 10) hc
  have htrim : Text.trimStart (sign ++ Nat.toDigits 10 n.natAbs) =
      sign ++ Nat.toDigits 10 n.natAbs :=
    Text.dropWhile_of_forall
      (isBlank_of_mem_append hsign fun c hc => isPlain_of_isDigit (hdigits c hc))
  have hcount : (sign ++ Nat.toDigits 10 n.natAbs).countP Text.isDecimal =
      (Nat.toDigits 10 n.natAbs).length := by
    have hnone : sign.countP Text.isDecimal = 0 := by
      rcases hsign with ⟨rfl, -⟩ | ⟨rfl | rfl, -⟩ <;> decide
    rw [List.countP_append, hnone, Nat.zero_add, List.countP_eq_length]
    exact fun c hc => isDecimal_of_isDigit (hdigits c hc)
  rw [hdisplay]
  show leadingNumber (toString n).toList w = _
  rw [hn, leadingNumber, htrim, leadingNumeral_append hsign Nat.toDigits_ne_nil hdigits]
  simp only [hcount, integer?_append hsign rfl, Option.getD_some]
  cases Numeral.isReadable 10 (Nat.toDigits 10 n.natAbs).length <;> rfl

end

/-! ## The functions -/

/-- A number of digits can be read: not too many, or any number where the base is a power of two. -/
theorem isReadable_iff {base k : Nat} :
    Numeral.isReadable base k = true ↔ (∃ e, base = 2 ^ e) ∨ k ≤ Numeral.digitLimit := by
  have hpow : base = 2 ^ base.log2 ↔ ∃ e, base = 2 ^ e :=
    ⟨fun h => ⟨_, h⟩, fun ⟨e, he⟩ => by rw [he, Nat.log2_two_pow]⟩
  rw [Numeral.isReadable, Nat.one_shiftLeft, Bool.or_eq_true, beq_iff_eq, decide_eq_true_iff, hpow]

/-- Integers that were printed are read back, and so are integers that were written in any base from
    two to 36: with digits in either case, behind white space and a sign, and in front of anything
    whose lower case does not go on with a digit of the base.  They are read as long as they have at
    most as many digits as can be read, and in a base that is a power of two always. -/
theorem printed_integers_read_back (w : World) :
    (∀ n : Int, (Nat.digits 10 n.natAbs).length ≤ Numeral.digitLimit →
      StringFunction.toNumber.apply [.text (w.store.display (.int n))] w = .ok (.int n) w) ∧
    ∀ (base : Nat) (n : Int) (digits : List Char) (t : String), 2 ≤ base → base ≤ 36 →
      Spells base n digits t → (∃ e, base = 2 ^ e) ∨ digits.length ≤ Numeral.digitLimit →
      StringFunction.toInt.apply [.text t, .int base] w = .ok (.int n) w ∧
        (base = 10 → StringFunction.toInt.apply [.text t] w = .ok (.int n) w) := by
  refine ⟨fun n hn => ?_, fun base n digits t hlow hhigh ht hlimit => ?_⟩
  · have hten : 1 < 10 := by decide
    rw [Nat.digits_length_le_iff hten, ← Nat.length_toDigits_le_iff hten (by decide)] at hn
    rw [toNumber_display, if_pos (isReadable_iff.mpr (.inr hn))]
  · have hread : leadingInteger t.toList base w = .ok (.int n) w := by
      rw [leadingInteger_of_spells hlow hhigh ht, if_pos (isReadable_iff.mpr hlimit)]
    exact ⟨hread, by rintro rfl; exact hread⟩

/-- Letters of both cases are digits of base 36, also behind white space and a sign, and an
    exclamation mark is none. -/
theorem printed_integers_read_back_mixedCase :
    (Nat.digits 10 (-1295 : Int).natAbs).length ≤ Numeral.digitLimit ∧
      StringFunction.toNumber.apply [.text ((default : World).store.display (.int (-1295)))]
        default = .ok (.int (-1295)) default ∧
      (2 ≤ 36 ∧ 36 ≤ 36 ∧ Spells 36 (-1295) ['z', 'Z'] "\t-zZ! " ∧
        ['z', 'Z'].length ≤ Numeral.digitLimit) ∧
      StringFunction.toInt.apply [.text "\t-zZ! ", .int 36] default =
        .ok (.int (-1295)) default := by
  obtain ⟨hdecimal, hbases⟩ := printed_integers_read_back default
  have hfew : (Nat.digits 10 (-1295 : Int).natAbs).length ≤ Numeral.digitLimit := by
    have hten : 1 < 10 := by decide
    rw [Nat.digits_length_le_iff hten]
    exact Nat.lt_of_lt_of_le (by decide : (-1295 : Int).natAbs < 10 ^ 4)
      (Nat.pow_le_pow_right (by decide) (by decide))
  have hends : ¬ GoesOn 36 ['!'] := by
    rintro ⟨d, -, e, hletter, hhead⟩
    have hmark : Text.toLower ['!'] = ['!'] := by decide +kernel
    rw [hmark] at hhead
    cases hhead
    exact absurd (List.mem_of_getElem? hletter) (by decide)
  have htab : ∀ c ∈ ['\t'], Text.isBlank c = true := List.forall_mem_singleton.mpr (by decide)
  have hspace : ∀ c ∈ [' '], Text.isBlank c = true := List.forall_mem_singleton.mpr (by decide)
  have hspells : Spells 36 (-1295) ['z', 'Z'] "\t-zZ! " :=
    ⟨⟨[35, 35], by repeat constructor, by decide, by decide, by decide⟩,
      ['\t'], ['-'], ['!'], [' '], by decide, .inl ⟨rfl, by decide⟩, hends, htab, hspace⟩
  have hshort : ['z', 'Z'].length ≤ Numeral.digitLimit := by decide
  exact ⟨hfew, hdecimal _ hfew, ⟨by decide, by decide, hspells, hshort⟩,
    (hbases 36 (-1295) _ _ (by decide) (by decide) hspells (.inr hshort)).1⟩

/-- A power of a base is a one with zeros behind it. -/
theorem writtenIn_pow {base : Nat} (hbase : 2 ≤ base) (k : Nat) :
    WrittenIn base (base ^ k) ('1' :: List.replicate k '0') := by
  have hzeros : Nat.ofDigits base (List.replicate k 0) = 0 := by
    induction k with
    | zero => rfl
    | succ k ih => rw [List.replicate_succ, Nat.ofDigits_cons, ih, Nat.mul_zero, Nat.add_zero]
  refine ⟨1 :: List.replicate k 0, .cons rfl ?_, List.cons_ne_nil _ _, ?_, ?_⟩
  · refine List.forall₂_iff_get.mpr ⟨by simp, fun i _ _ => ?_⟩
    simp only [List.get_eq_getElem, List.getElem_replicate]
    rfl
  · simp only [List.mem_cons, List.mem_replicate]
    omega
  · rw [List.reverse_cons, List.reverse_replicate, Nat.ofDigits_append, hzeros,
      Nat.ofDigits_singleton, List.length_replicate, Nat.zero_add, Nat.mul_one]

/-- A power of three that has few digits in decimal has too many in its own base. -/
theorem powerOfThree_is_refused :
    Spells 3 (3 ^ Numeral.digitLimit) ('1' :: List.replicate Numeral.digitLimit '0')
        (String.ofList ('1' :: List.replicate Numeral.digitLimit '0')) ∧
      (Nat.digits 10 (3 ^ Numeral.digitLimit : Int).natAbs).length ≤ Numeral.digitLimit ∧
      StringFunction.toInt.apply
          [.text (String.ofList ('1' :: List.replicate Numeral.digitLimit '0')), .int 3] default =
        .error (.fault .wrongValue) default := by
  -- the limit is kept as a name, so that no power of it is computed
  obtain ⟨k, hk⟩ : ∃ k, k = Numeral.digitLimit := ⟨_, rfl⟩
  have hpos : k ≠ 0 := by
    rw [hk]
    decide
  rw [← hk]
  have hvalue : (3 ^ k : Int).natAbs = 3 ^ k := by
    rw [Int.natAbs_pow]
    rfl
  have hspells : Spells 3 (3 ^ k) ('1' :: List.replicate k '0')
      (String.ofList ('1' :: List.replicate k '0')) := by
    refine ⟨hvalue ▸ writtenIn_pow (by decide) k, [], [], [], [], by simp, .inr ⟨.inl rfl, ?_⟩, ?_,
      by simp, by simp⟩
    · exact pow_nonneg (by decide) k
    · rintro ⟨d, -, e, -, hhead⟩
      cases hhead
  have hlong : Numeral.isReadable 3 ('1' :: List.replicate k '0').length = false := by
    rw [Bool.eq_false_iff, Ne, isReadable_iff, List.length_cons, List.length_replicate, ← hk]
    rintro (⟨e, he⟩ | hlimit)
    · cases e with
      | zero => cases he
      | succ e => omega
    · omega
  refine ⟨hspells, ?_, ?_⟩
  · have hten : 1 < 10 := by decide
    rw [hvalue, Nat.digits_length_le_iff hten]
    exact Nat.pow_lt_pow_left (by decide) hpos
  · have hread := leadingInteger_of_spells (w := default) (by decide) (by decide) hspells
    rw [hlong] at hread
    exact hread

end EventScript
