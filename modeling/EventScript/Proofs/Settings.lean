import EventScript.CommandLine
import Mathlib.Data.List.Nodup
import Mathlib.Data.List.Pairwise
import Mathlib.Logic.Unique
import Mathlib.Tactic.ByContra
import Mathlib.Tactic.SplitIfs

/-! # Settings

A map gives settings exactly where all of its keys are names of settings and all of their values are
as the settings may be; the settings are then the integers of the map, and the defaults where it has
none.  Any other map is refused, and the refusal is reported, with two exceptions: unknown keys that
have no common order are a fault, and so is an integer of the message that has too many digits.

* `checkKeys_eq_ok`, `exists_integerAt?`, `checkCalls_eq_ok`, `ceiling_eq_ok`
                           what each of the checks lets pass
* `ofPlain_map_eq_ok`      what all of them let pass
* `explains_of_error`      why a map is refused
* `settings_or_refusal`    settings, or the reason that there are none
-/

namespace EventScript

namespace Settings

variable {entries : List (Key × Plain)} {keys : List Key} {k l : Key} {p : Plain} {name : String}

/-! ## What is expected -/

/-- The entries are those of a map that gives settings. -/
structure IsSound (entries : List (Key × Plain)) : Prop where
  known : ∀ e ∈ entries, e.1 = .text loopKey ∨ e.1 = .text callKey ∨ e.1 = .text seedKey
  integer : ∀ e ∈ entries, e.2 = .null ∨ ∃ n, e.2 = .int n
  calls : (.text callKey, .null) ∉ entries
  positive : ∀ n : Int,
    (.text loopKey, .int n) ∈ entries ∨ (.text callKey, .int n) ∈ entries → 0 < n

/-- The settings are those of the entries, and the defaults elsewhere. -/
structure Reads (entries : List (Key × Plain)) (s : Settings) : Prop where
  loops : ∀ n : Nat, s.maxLoopIterations = some n ↔ (.text loopKey, .int n) ∈ entries
  calls : ∀ n : Int, (.text callKey, .int n) ∈ entries → s.maxCallDepth = n
  callsElse : (∀ p, (.text callKey, p) ∉ entries) → s.maxCallDepth = ({} : Settings).maxCallDepth
  seed : ∀ n : Int, s.randomSeed = some n ↔ (.text seedKey, .int n) ∈ entries

/-- Two unknown keys have no order with each other. -/
def HasUnordered (entries : List (Key × Plain)) : Prop :=
  ∃ k ∈ entries.map Prod.fst, ∃ l ∈ entries.map Prod.fst,
    isKnown k = false ∧ isKnown l = false ∧ k ≠ l ∧ keyBelow k l = none

/-- An integer has too many digits to be printed. -/
def HasLong (entries : List (Key × Plain)) : Prop :=
  ∃ e ∈ entries, e.1.isPrintable = false ∨ e.2.isPrintable = false

/-- A refusal is what the entries are refused with: it is reported, unless its message cannot be
    made. -/
def Explains (entries : List (Key × Plain)) (r : Refusal) : Prop :=
  (r.fault? = none ∧ ¬ HasUnordered entries) ∨
  (r = .unorderedKeys ∧ HasUnordered entries) ∨
  (r = .unprintable ∧ ¬ HasUnordered entries ∧ HasLong entries)

/-! ## Keys -/

theorem isKnown_iff :
    isKnown k = true ↔ k = .text loopKey ∨ k = .text callKey ∨ k = .text seedKey := by
  cases k <;> simp [isKnown, or_assoc]

theorem isSome_keyBelow_comm (k l : Key) : (keyBelow k l).isSome = (keyBelow l k).isSome := by
  cases k <;> cases l <;> simp [keyBelow, Key.counted?]

/-- Whether keys have an order is a matter of any two of them. -/
theorem areOrdered_iff (h : keys.Nodup) :
    areOrdered keys = true ↔ ∀ k ∈ keys, ∀ l ∈ keys, k ≠ l → keyBelow k l ≠ none := by
  have hpairs : areOrdered keys = true ↔ keys.Pairwise fun k l => (keyBelow k l).isSome = true := by
    clear h
    induction keys with
    | nil => simp [areOrdered]
    | cons k keys ih => rw [areOrdered, Bool.and_eq_true, ih, List.pairwise_cons, List.all_eq_true]
  have : Std.Symm fun k l => (keyBelow k l).isSome = true :=
    ⟨fun k l hkl => isSome_keyBelow_comm k l ▸ hkl⟩
  simp only [hpairs, Option.ne_none_iff_isSome]
  exact ⟨fun hp k hk l hl hne => hp.forall hk hl hne,
    fun hall => h.pairwise_of_forall_ne fun k hk l hl => hall k hk l hl⟩

/-- The unknown keys of entries are in order where no two of them are not. -/
theorem areOrdered_unknown (h : (entries.map Prod.fst).Nodup) :
    areOrdered ((entries.map Prod.fst).filter (!isKnown ·)) = true ↔ ¬ HasUnordered entries := by
  rw [areOrdered_iff (h.filter _)]
  simp only [List.mem_filter, Bool.not_eq_true', HasUnordered, not_exists, not_and]
  exact ⟨fun hall k hk l hl hk' hl' => hall k ⟨hk, hk'⟩ l ⟨hl, hl'⟩,
    fun hall k hk l hl => hall k hk.1 l hl.1 hk.2 hl.2⟩

theorem checkKeys_eq_ok :
    checkKeys keys = .ok () ↔
      ∀ k ∈ keys, k = .text loopKey ∨ k = .text callKey ∨ k = .text seedKey := by
  have hnone : keys.filter (!isKnown ·) = [] ↔ ∀ k ∈ keys, isKnown k = true := by
    simp [List.filter_eq_nil_iff]
  simp only [← isKnown_iff, ← hnone, checkKeys]
  split
  · rename_i hnil
    exact iff_of_true rfl hnil
  · rename_i hsome
    refine iff_of_false ?_ hsome
    split_ifs <;> exact nofun

theorem explains_of_checkKeys (h : (entries.map Prod.fst).Nodup) {r : Refusal}
    (hr : checkKeys (entries.map Prod.fst) = .error r) : Explains entries r := by
  unfold checkKeys at hr
  split at hr
  · cases hr
  have hordered := areOrdered_unknown h
  split at hr
  · rename_i hno
    cases hr
    refine .inr (.inl ⟨rfl, ?_⟩)
    by_contra hnone
    simp [hordered.mpr hnone] at hno
  · rename_i hyes
    have hnone := hordered.mp (by simpa using hyes)
    split at hr
    · rename_i hlong
      cases hr
      obtain ⟨k, hk, hprint⟩ : ∃ k ∈ (entries.map Prod.fst).filter (!isKnown ·),
          k.isPrintable = false := by simpa [and_assoc] using hlong
      obtain ⟨e, he, rfl⟩ := List.mem_map.mp (List.mem_of_mem_filter hk)
      exact .inr (.inr ⟨rfl, hnone, e, he, .inl hprint⟩)
    · cases hr
      exact .inl ⟨rfl, hnone⟩

/-! ## Values -/

/-- The entry of a key that is looked up. -/
theorem lookup_eq_some (h : (entries.map Prod.fst).Nodup) :
    entries.lookup k = some p ↔ (k, p) ∈ entries := by
  induction entries with
  | nil => simp
  | cons e entries ih =>
    obtain ⟨k', p'⟩ := e
    rw [List.map_cons, List.nodup_cons] at h
    by_cases hk : k = k'
    · subst hk
      have hone : (k, p) ∉ entries := fun hmem => h.1 (List.mem_map.mpr ⟨(k, p), hmem, rfl⟩)
      simp [hone, eq_comm]
    · have hk' : (k == k') = false := by simpa using hk
      simp [List.lookup_cons, hk, hk', ih h.2]

/-- A setting is read that is an integer or null. -/
theorem exists_integerAt? (h : (entries.map Prod.fst).Nodup) :
    (∃ v, integerAt? entries name = .ok v) ↔
      ∀ p, (.text name, p) ∈ entries → p = .null ∨ ∃ n, p = .int n := by
  simp only [← lookup_eq_some h, integerAt?]
  split
  · rename_i hnone
    exact iff_of_true ⟨_, rfl⟩ fun p hp => by simp [hnone] at hp
  · rename_i hnull
    exact iff_of_true ⟨_, rfl⟩ fun p hp => .inl (Option.some.inj (hp.symm.trans hnull))
  · rename_i n hn
    exact iff_of_true ⟨_, rfl⟩ fun p hp => .inr ⟨n, Option.some.inj (hp.symm.trans hn)⟩
  · rename_i p hnull hint hp
    refine iff_of_false nofun fun hall => ?_
    rcases hall p hp with rfl | ⟨n, rfl⟩
    · exact hnull rfl
    · exact hint n rfl

/-- The integer that is read is that of the entry. -/
theorem integerAt?_eq_ok (h : (entries.map Prod.fst).Nodup) {v : Option Int}
    (hv : integerAt? entries name = .ok v) (n : Int) :
    v = some n ↔ (.text name, .int n) ∈ entries := by
  rw [← lookup_eq_some h]
  unfold integerAt? at hv
  split at hv
  · rename_i hnone
    simp [hnone, ← Except.ok.inj hv]
  · rename_i hnull
    simp [hnull, ← Except.ok.inj hv, Plain.int]
  · rename_i n hn
    simp [hn, ← Except.ok.inj hv, Plain.int]
  · cases hv

/-- What is no integer is named when it is refused, if it can be printed. -/
theorem explains_of_integerAt? (h : (entries.map Prod.fst).Nodup) (hkeys : ¬ HasUnordered entries)
    {r : Refusal} (hr : integerAt? entries name = .error r) : Explains entries r := by
  unfold integerAt? at hr
  split at hr
  · cases hr
  · cases hr
  · cases hr
  · rename_i p _ _ hp
    cases hr
    split
    · exact .inl ⟨rfl, hkeys⟩
    · rename_i hprint
      exact .inr (.inr ⟨rfl, hkeys, _, (lookup_eq_some h).mp hp, .inr (by simpa using hprint)⟩)

theorem checkCalls_eq_ok (h : (entries.map Prod.fst).Nodup) :
    checkCalls entries = .ok () ↔ (.text callKey, .null) ∉ entries := by
  rw [checkCalls, ← lookup_eq_some h]
  split
  · rename_i hnull
    exact iff_of_false nofun (not_not_intro hnull)
  · rename_i hother
    exact iff_of_true rfl hother

theorem explains_of_checkCalls (hkeys : ¬ HasUnordered entries) {r : Refusal}
    (hr : checkCalls entries = .error r) : Explains entries r := by
  unfold checkCalls at hr
  split at hr
  · cases hr
    exact .inl ⟨rfl, hkeys⟩
  · cases hr

/-- A ceiling is positive. -/
theorem ceiling_eq_ok {v : Option Int} {c : Option Nat} :
    ceiling name v = .ok c ↔ (∀ n, v = some n → 0 < n) ∧ c = v.map Int.toNat := by
  cases v with
  | none =>
    simp [ceiling, pure, Except.pure, eq_comm]
  | some n =>
    rw [ceiling]
    split
    · rename_i hn
      refine iff_of_false nofun fun ⟨hpos, _⟩ => ?_
      have := hpos n rfl
      omega
    · rename_i hn
      simp [pure, Except.pure, eq_comm]
      omega

theorem explains_of_ceiling (h : (entries.map Prod.fst).Nodup) (hkeys : ¬ HasUnordered entries)
    {v : Option Int} (hv : integerAt? entries name = .ok v) {r : Refusal}
    (hr : ceiling name v = .error r) : Explains entries r := by
  unfold ceiling at hr
  split at hr
  · cases hr
  · rename_i n
    split at hr
    · have hsame : (Plain.int n).isPrintable = Numeral.isPrintable n := by
        rw [Plain.int, Plain.isPrintable]
      have hn := (integerAt?_eq_ok h hv n).mp rfl
      rw [← Except.error.inj hr]
      cases hprint : Numeral.isPrintable n with
      | true => exact .inl ⟨rfl, hkeys⟩
      | false => exact .inr (.inr ⟨rfl, hkeys, _, hn, .inr (hsame.trans hprint)⟩)
    · cases hr

/-! ## Settings -/

section

variable {ε α β : Type} {x : Except ε α} {f : α → Except ε β}

private theorem bind_eq_ok {b : β} : (x >>= f) = .ok b ↔ ∃ a, x = .ok a ∧ f a = .ok b := by
  cases x <;> simp [bind, Except.bind]

private theorem bind_eq_error {e : ε} :
    (x >>= f) = .error e ↔ x = .error e ∨ ∃ a, x = .ok a ∧ f a = .error e := by
  cases x <;> simp [bind, Except.bind]

end

variable {s : Settings}

/-- Settings are given where all checks are passed. -/
theorem ofPlain_map_eq_ok :
    ofPlain (.map entries) = .ok s ↔
      checkKeys (entries.map Prod.fst) = .ok () ∧
      ∃ loops, integerAt? entries loopKey = .ok loops ∧
      ∃ calls, integerAt? entries callKey = .ok calls ∧
      ∃ seed, integerAt? entries seedKey = .ok seed ∧
      checkCalls entries = .ok () ∧
      ∃ l, ceiling loopKey loops = .ok l ∧
      ∃ c, ceiling callKey calls = .ok c ∧
      s = { maxLoopIterations := l, maxCallDepth := c.getD 1000, randomSeed := seed } := by
  simp only [ofPlain, bind_eq_ok, Unique.exists_iff, PUnit.default_eq_unit, pure, Except.pure,
    Except.ok.injEq, eq_comm (b := s)]

/-- What the checks let pass is sound, and is read as it stands. -/
theorem isSound_of_ok (h : (entries.map Prod.fst).Nodup) (hs : ofPlain (.map entries) = .ok s) :
    IsSound entries ∧ Reads entries s := by
  obtain ⟨hkeys, loops, hloops, calls, hcalls, seed, hseed, hnull, l, hl, c, hc, rfl⟩ :=
    ofPlain_map_eq_ok.mp hs
  rw [checkKeys_eq_ok, List.forall_mem_map] at hkeys
  rw [checkCalls_eq_ok h] at hnull
  obtain ⟨hloopsPos, rfl⟩ := ceiling_eq_ok.mp hl
  obtain ⟨hcallsPos, rfl⟩ := ceiling_eq_ok.mp hc
  have hread := integerAt?_eq_ok h hloops
  have hcount := integerAt?_eq_ok h hcalls
  have hgiven : ∀ {name v}, integerAt? entries name = .ok v →
      ∀ p, (.text name, p) ∈ entries → p = .null ∨ ∃ n, p = .int n :=
    fun hv => (exists_integerAt? h).mp ⟨_, hv⟩
  refine ⟨⟨hkeys, ?_, hnull, ?_⟩, ⟨?_, ?_, ?_, integerAt?_eq_ok h hseed⟩⟩
  · rintro ⟨k, p⟩ he
    rcases hkeys _ he with rfl | rfl | rfl
    · exact hgiven hloops p he
    · exact hgiven hcalls p he
    · exact hgiven hseed p he
  · rintro n (hn | hn)
    · exact hloopsPos n ((hread n).mpr hn)
    · exact hcallsPos n ((hcount n).mpr hn)
  · intro n
    rw [← hread n]
    cases loops with
    | none => simp
    | some m =>
      have := hloopsPos m rfl
      simp
      omega
  · intro n hn
    rw [← hcount n] at hn
    subst hn
    have := hcallsPos n rfl
    simp
    omega
  · intro hnone
    cases calls with
    | none => rfl
    | some n => exact absurd ((hcount n).mp rfl) (hnone _)

theorem exists_ok_of_isSound (h : (entries.map Prod.fst).Nodup) (hsound : IsSound entries) :
    ∃ s, ofPlain (.map entries) = .ok s := by
  have hgiven : ∀ name, ∃ v, integerAt? entries name = .ok v :=
    fun name => (exists_integerAt? h).mpr fun p hp => hsound.integer _ hp
  obtain ⟨loops, hloops⟩ := hgiven loopKey
  obtain ⟨calls, hcalls⟩ := hgiven callKey
  obtain ⟨seed, hseed⟩ := hgiven seedKey
  have hloopsPos : ∀ n, loops = some n → 0 < n := fun n hn =>
    hsound.positive n (.inl ((integerAt?_eq_ok h hloops n).mp hn))
  have hcallsPos : ∀ n, calls = some n → 0 < n := fun n hn =>
    hsound.positive n (.inr ((integerAt?_eq_ok h hcalls n).mp hn))
  have hkeys := checkKeys_eq_ok.mpr (List.forall_mem_map.mpr hsound.known)
  exact ⟨_, ofPlain_map_eq_ok.mpr ⟨hkeys, loops, hloops, calls, hcalls, seed, hseed,
    (checkCalls_eq_ok h).mpr hsound.calls, _, ceiling_eq_ok.mpr ⟨hloopsPos, rfl⟩,
    _, ceiling_eq_ok.mpr ⟨hcallsPos, rfl⟩, rfl⟩⟩

/-- Each check refuses with a reason of its own. -/
theorem explains_of_error (h : (entries.map Prod.fst).Nodup) {r : Refusal}
    (hr : ofPlain (.map entries) = .error r) : Explains entries r := by
  simp only [ofPlain] at hr
  rcases bind_eq_error.mp hr with hr | ⟨⟨⟩, hkeys, hr⟩
  · exact explains_of_checkKeys h hr
  -- keys that are all known leave nothing to order
  have hordered : ¬ HasUnordered entries := by
    rintro ⟨k, hk, -, -, hunknown, -⟩
    have hknown := isKnown_iff.mpr (checkKeys_eq_ok.mp hkeys k hk)
    simp [hknown] at hunknown
  rcases bind_eq_error.mp hr with hr | ⟨loops, hloops, hr⟩
  · exact explains_of_integerAt? h hordered hr
  rcases bind_eq_error.mp hr with hr | ⟨calls, hcalls, hr⟩
  · exact explains_of_integerAt? h hordered hr
  rcases bind_eq_error.mp hr with hr | ⟨seed, -, hr⟩
  · exact explains_of_integerAt? h hordered hr
  rcases bind_eq_error.mp hr with hr | ⟨⟨⟩, -, hr⟩
  · exact explains_of_checkCalls hordered hr
  rcases bind_eq_error.mp hr with hr | ⟨l, -, hr⟩
  · exact explains_of_ceiling h hordered hloops hr
  rcases bind_eq_error.mp hr with hr | ⟨c, -, hr⟩
  · exact explains_of_ceiling h hordered hcalls hr
  · cases hr

/-- A map is read, or refused with a reason.  It is read exactly where its entries are as they
    should be, and then for what they say.  A refusal is reported, unless two unknown keys have no
    order with each other, or the integer that it is about has too many digits. -/
theorem settings_or_refusal (h : (entries.map Prod.fst).Nodup) :
    (IsSound entries → ∃ s, ofPlain (.map entries) = .ok s ∧ Reads entries s) ∧
      (¬ IsSound entries → ∃ r, ofPlain (.map entries) = .error r ∧ Explains entries r) := by
  constructor
  · intro hsound
    obtain ⟨s, hs⟩ := exists_ok_of_isSound h hsound
    exact ⟨s, hs, (isSound_of_ok h hs).2⟩
  · intro hunsound
    cases hr : ofPlain (.map entries) with
    | ok s => exact absurd (isSound_of_ok h hr).1 hunsound
    | error r => exact ⟨r, rfl, explains_of_error h hr⟩

/-- A number and a text that are both unknown have no order, and their refusal is not reported. -/
theorem settings_or_refusal_numberAndText :
    ([(.int 1, .int 2), (.text "a", .int 3)].map (Prod.fst (α := Key) (β := Plain))).Nodup ∧
      ¬ IsSound [(.int 1, .int 2), (.text "a", .int 3)] ∧
      ofPlain (.map [(.int 1, .int 2), (.text "a", .int 3)]) = .error .unorderedKeys := by
  have hkeys : ([(.int 1, .int 2), (.text "a", .int 3)].map
      (Prod.fst (α := Key) (β := Plain))).Nodup := by decide
  have hunsound : ¬ IsSound [(.int 1, .int 2), (.text "a", .int 3)] := fun hsound => by
    rcases hsound.known _ List.mem_cons_self with hk | hk | hk <;> cases hk
  have hunordered : HasUnordered [(.int 1, .int 2), (.text "a", .int 3)] :=
    ⟨.int 1, by simp, .text "a", by simp, rfl, rfl, nofun, rfl⟩
  obtain ⟨r, hr, hwhy⟩ := (settings_or_refusal hkeys).2 hunsound
  rcases hwhy with ⟨-, hordered⟩ | ⟨rfl, -⟩ | ⟨-, hordered, -⟩
  · exact absurd hunordered hordered
  · exact ⟨hkeys, hunsound, hr⟩
  · exact absurd hunordered hordered

end Settings

end EventScript
