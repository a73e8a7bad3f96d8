/-! # Insertion-ordered tables

A table maps keys to values and keeps its keys in the order in which they were first put: writing
to a key that is there keeps its place.  No key occurs twice, which is part of the type.

* `get?_put_self`, `get?_put_of_ne`   what is read after a write
* `keys_put`                          a new key goes to the end, a known one keeps its place
* `mem_entries_iff`                   the entries are what the keys are looked up to
* `contains_iff_mem_keys`             the keys are those that the table has
-/

namespace EventScript

/-- Keys with their values, in the order of their first insertion. -/
structure Table (κ α : Type) where
  entries : List (κ × α)
  nodup : (entries.map Prod.fst).Nodup

namespace Table

variable {κ α : Type}

/-- The table without keys. -/
def empty : Table κ α := ⟨[], List.Pairwise.nil⟩

instance : Inhabited (Table κ α) := ⟨empty⟩

/-- The keys in order. -/
def keys (t : Table κ α) : List κ := t.entries.map Prod.fst

/-- The values in the order of their keys. -/
def values (t : Table κ α) : List α := t.entries.map Prod.snd

/-- The number of keys. -/
def size (t : Table κ α) : Nat := t.entries.length

variable [DecidableEq κ]

/-- The value of a key. -/
def get? (t : Table κ α) (k : κ) : Option α := t.entries.lookup k

/-- The table has the key. -/
def contains (t : Table κ α) (k : κ) : Bool := (t.get? k).isSome

/-- Entries with a value written to a key. -/
def putEntries (k : κ) (a : α) : List (κ × α) → List (κ × α)
  | [] => [(k, a)]
  | (l, b) :: rest => if l = k then (k, a) :: rest else (l, b) :: putEntries k a rest

theorem map_fst_putEntries (k : κ) (a : α) (es : List (κ × α)) :
    (putEntries k a es).map Prod.fst =
      if k ∈ es.map Prod.fst then es.map Prod.fst else es.map Prod.fst ++ [k] := by
  induction es with
  | nil => simp [putEntries]
  | cons e rest ih =>
    obtain ⟨l, b⟩ := e
    by_cases h : l = k
    · subst h; simp [putEntries]
    · rw [putEntries, if_neg h, List.map_cons, ih]
      have h' : ¬ k = l := fun e => h e.symm
      by_cases hk : k ∈ rest.map Prod.fst
      · rw [if_pos hk, if_pos (by simp [hk])]; rfl
      · rw [if_neg hk, if_neg (by simpa [h'] using hk)]; rfl

/-- Write a value to a key. -/
def put (t : Table κ α) (k : κ) (a : α) : Table κ α :=
  ⟨putEntries k a t.entries, by
    rw [map_fst_putEntries]
    split
    · exact t.nodup
    · rename_i h
      rw [List.nodup_append]
      refine ⟨t.nodup, by simp, ?_⟩
      intro x hx y hy e
      simp only [List.mem_singleton] at hy
      exact h (hy ▸ e ▸ hx)⟩

/-- Drop a key. -/
def erase (t : Table κ α) (k : κ) : Table κ α :=
  ⟨t.entries.filter (·.1 ≠ k), List.Nodup.sublist ((List.filter_sublist).map _) t.nodup⟩

/-- The value of a key, or a default. -/
def getD (t : Table κ α) (k : κ) (default : α) : α := (t.get? k).getD default

/-- Pairs written one after the other. -/
def ofList (es : List (κ × α)) : Table κ α := es.foldl (fun t e => t.put e.1 e.2) empty

/-- Add to the list of a key; a key that is not there starts with the empty list. -/
def pushTo {β : Type} (t : Table κ (List β)) (k : κ) (b : β) : Table κ (List β) :=
  t.put k (t.getD k [] ++ [b])

theorem keys_put (t : Table κ α) (k : κ) (a : α) :
    (t.put k a).keys = if k ∈ t.keys then t.keys else t.keys ++ [k] :=
  map_fst_putEntries k a t.entries

theorem mem_keys_put (t : Table κ α) (k l : κ) (a : α) :
    l ∈ (t.put k a).keys ↔ l ∈ t.keys ∨ l = k := by
  rw [keys_put]
  split
  · rename_i hk
    exact ⟨.inl, fun h => h.elim id fun hl => hl ▸ hk⟩
  · simp

theorem lookup_putEntries_self (k : κ) (a : α) (es : List (κ × α)) :
    (putEntries k a es).lookup k = some a := by
  induction es with
  | nil => simp [putEntries]
  | cons e rest ih =>
    obtain ⟨l, b⟩ := e
    by_cases h : l = k
    · subst h; simp [putEntries]
    · have h' : (k == l) = false := by simpa using fun e => h e.symm
      rw [putEntries, if_neg h, List.lookup_cons, h', ih]

theorem lookup_putEntries_of_ne {k l : κ} (a : α) (es : List (κ × α)) (h : l ≠ k) :
    (putEntries k a es).lookup l = es.lookup l := by
  have hlk : (l == k) = false := by simpa using h
  induction es with
  | nil => simp [putEntries, List.lookup_cons, hlk]
  | cons e rest ih =>
    obtain ⟨m, b⟩ := e
    by_cases hm : m = k
    · subst hm; simp [putEntries, List.lookup_cons, hlk]
    · rw [putEntries, if_neg hm, List.lookup_cons, List.lookup_cons, ih]

@[simp] theorem get?_put_self (t : Table κ α) (k : κ) (a : α) : (t.put k a).get? k = some a :=
  lookup_putEntries_self k a t.entries

theorem get?_put_of_ne (t : Table κ α) {k l : κ} (a : α) (h : l ≠ k) :
    (t.put k a).get? l = t.get? l :=
  lookup_putEntries_of_ne a t.entries h

@[simp] theorem getD_put_self (t : Table κ α) (k : κ) (a d : α) : (t.put k a).getD k d = a := by
  simp [getD]

theorem getD_put_of_ne (t : Table κ α) {k l : κ} (a d : α) (h : l ≠ k) :
    (t.put k a).getD l d = t.getD l d := by
  rw [getD, get?_put_of_ne t a h, getD]

/-- A value goes behind the others of its key. -/
theorem getD_pushTo {β : Type} (t : Table κ (List β)) (k l : κ) (b : β) :
    (t.pushTo k b).getD l [] = if l = k then t.getD l [] ++ [b] else t.getD l [] := by
  by_cases h : l = k
  · subst h
    simp [pushTo]
  · rw [pushTo, getD_put_of_ne t _ _ h, if_neg h]

theorem lookup_filter_self (k : κ) (es : List (κ × α)) :
    (es.filter (·.1 ≠ k)).lookup k = none := by
  induction es with
  | nil => rfl
  | cons e rest ih =>
    by_cases h : e.1 = k
    · rw [List.filter_cons_of_neg (by simp [h]), ih]
    · have h' : (k == e.1) = false := by simpa using fun hk => h hk.symm
      rw [List.filter_cons_of_pos (by simp [h]), List.lookup_cons, h', ih]

theorem lookup_filter_of_ne {k l : κ} (es : List (κ × α)) (h : l ≠ k) :
    (es.filter (·.1 ≠ k)).lookup l = es.lookup l := by
  induction es with
  | nil => rfl
  | cons e rest ih =>
    by_cases he : e.1 = k
    · have h' : (l == e.1) = false := by simpa [he] using h
      rw [List.filter_cons_of_neg (by simp [he]), ih, List.lookup_cons, h']
    · rw [List.filter_cons_of_pos (by simp [he]), List.lookup_cons, List.lookup_cons, ih]

@[simp] theorem get?_erase_self (t : Table κ α) (k : κ) : (t.erase k).get? k = none :=
  lookup_filter_self k t.entries

theorem get?_erase_of_ne (t : Table κ α) {k l : κ} (h : l ≠ k) :
    (t.erase k).get? l = t.get? l := lookup_filter_of_ne t.entries h

/-- An entry of a table is what its key is looked up to. -/
theorem mem_entries_iff (t : Table κ α) (k : κ) (a : α) :
    (k, a) ∈ t.entries ↔ t.get? k = some a := by
  obtain ⟨es, hnodup⟩ := t
  change (k, a) ∈ es ↔ es.lookup k = some a
  induction es with
  | nil => simp
  | cons e rest ih =>
    obtain ⟨l, b⟩ := e
    rw [List.map_cons, List.nodup_cons] at hnodup
    by_cases h : k = l
    · subst h
      have hrest : (k, a) ∉ rest := fun hmem => hnodup.1 (List.mem_map.mpr ⟨_, hmem, rfl⟩)
      simp [hrest, eq_comm]
    · have h' : (k == l) = false := by simpa using h
      simp [List.lookup_cons, h', h, ih hnodup.2]

theorem mem_keys_erase (t : Table κ α) (k l : κ) : l ∈ (t.erase k).keys ↔ l ∈ t.keys ∧ l ≠ k := by
  simp only [keys, erase, List.mem_map, List.mem_filter, decide_eq_true_eq]
  constructor
  · rintro ⟨e, ⟨he, hne⟩, rfl⟩
    exact ⟨⟨e, he, rfl⟩, hne⟩
  · rintro ⟨⟨e, he, rfl⟩, hne⟩
    exact ⟨e, ⟨he, hne⟩, rfl⟩

theorem contains_iff_mem_keys (t : Table κ α) (k : κ) : t.contains k = true ↔ k ∈ t.keys := by
  simp [contains, Option.isSome_iff_exists, keys, ← mem_entries_iff]

end Table

end EventScript
