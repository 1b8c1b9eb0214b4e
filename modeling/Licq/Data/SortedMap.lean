import Mathlib.Data.List.Sigma
import Mathlib.Order.Lattice

/-!
# Data/SortedMap — maps that are iterated in the order of their keys

A `SortedMap` lists its entries by ascending key.  It is determined by what it finds (`ext_find?`);
inserting, erasing and mapping are described by what is found afterwards, and, for what is said
about all entries, by the entries up to order (`perm_insert`, `perm_erase`).
-/

/-- A map as the list of its entries. -/
structure SortedMap (κ : Type*) [LinearOrder κ] (α : Type*) where
  entries : List (Σ _ : κ, α)
  sorted : entries.Pairwise (·.1 < ·.1)
  deriving DecidableEq

namespace SortedMap

open List

variable {κ α β : Type*} [LinearOrder κ]

/-- The entries with one more, or with one replaced. -/
def insertEntry (k : κ) (v : α) : List (Σ _ : κ, α) → List (Σ _ : κ, α)
  | [] => [⟨k, v⟩]
  | e :: es =>
    if k < e.1 then ⟨k, v⟩ :: e :: es
    else if k = e.1 then ⟨k, v⟩ :: es
    else e :: insertEntry k v es

theorem mem_insertEntry {k : κ} {v : α} {e : Σ _ : κ, α} {es : List (Σ _ : κ, α)}
    (h : e ∈ insertEntry k v es) : e = ⟨k, v⟩ ∨ e ∈ es := by
  induction es with
  | nil => exact .inl (mem_singleton.mp h)
  | cons a es ih =>
    rw [insertEntry] at h
    split at h
    · exact mem_cons.mp h
    · split at h
      · exact (mem_cons.mp h).imp_right (mem_cons_of_mem a)
      · rcases mem_cons.mp h with rfl | h
        · exact .inr mem_cons_self
        · exact (ih h).imp_right (mem_cons_of_mem a)

theorem sorted_insertEntry (k : κ) (v : α) {es : List (Σ _ : κ, α)}
    (h : es.Pairwise (·.1 < ·.1)) : (insertEntry k v es).Pairwise (·.1 < ·.1) := by
  induction es with
  | nil => exact pairwise_singleton _ _
  | cons a es ih =>
    obtain ⟨ha, hes⟩ := pairwise_cons.mp h
    rw [insertEntry]
    split
    · rename_i hlt
      refine pairwise_cons.mpr ⟨fun e he => ?_, h⟩
      rcases mem_cons.mp he with rfl | he
      · exact hlt
      · exact lt_trans hlt (ha e he)
    · rename_i hlt
      split
      · rename_i heq
        exact pairwise_cons.mpr ⟨fun e he => heq ▸ ha e he, hes⟩
      · rename_i hne
        refine pairwise_cons.mpr ⟨fun e he => ?_, ih hes⟩
        rcases mem_insertEntry he with rfl | he
        · exact lt_of_le_of_ne (not_lt.mp hlt) (Ne.symm hne)
        · exact ha e he

/-! ## The operations -/

def empty : SortedMap κ α := ⟨[], List.Pairwise.nil⟩

def find? (m : SortedMap κ α) (k : κ) : Option α := m.entries.dlookup k

def insert (m : SortedMap κ α) (k : κ) (v : α) : SortedMap κ α :=
  ⟨insertEntry k v m.entries, sorted_insertEntry k v m.sorted⟩

def erase (m : SortedMap κ α) (k : κ) : SortedMap κ α :=
  ⟨m.entries.kerase k, m.sorted.sublist (List.kerase_sublist k m.entries)⟩

/-- All values changed. -/
def mapVals (m : SortedMap κ α) (f : κ → α → β) : SortedMap κ β where
  entries := m.entries.map fun e => ⟨e.1, f e.1 e.2⟩
  sorted := m.sorted.map _ fun _ _ h => h

/-- Some of the entries only. -/
def filter (m : SortedMap κ α) (p : κ → α → Bool) : SortedMap κ α :=
  ⟨m.entries.filter fun e => p e.1 e.2, m.sorted.filter _⟩

/-- The value of one key changed. -/
def modify (m : SortedMap κ α) (k : κ) (f : α → α) : SortedMap κ α :=
  m.mapVals fun k' v => if k' = k then f v else v

def size (m : SortedMap κ α) : ℕ := m.entries.length

theorem nodupKeys (m : SortedMap κ α) : m.entries.NodupKeys :=
  nodupKeys_iff_pairwise.mpr (m.sorted.imp ne_of_lt)

/-! ## What is found -/

theorem mem_entries_iff {m : SortedMap κ α} {k : κ} {v : α} :
    ⟨k, v⟩ ∈ m.entries ↔ m.find? k = some v :=
  (mem_dlookup_iff m.nodupKeys).symm

/-- A map is what it finds. -/
theorem ext_find? {m n : SortedMap κ α} (h : ∀ k, m.find? k = n.find? k) : m = n := by
  have hperm : m.entries.Perm n.entries :=
    lookup_ext m.nodupKeys n.nodupKeys fun k v => by
      change m.find? k = some v ↔ n.find? k = some v
      rw [h k]
  have heq : m.entries = n.entries :=
    hperm.eq_of_pairwise (fun a b _ _ hab hba => absurd hab (lt_asymm hba)) m.sorted n.sorted
  cases m
  cases n
  cases heq
  rfl

@[simp] theorem find?_empty (k : κ) : (empty : SortedMap κ α).find? k = none := rfl

theorem find?_insert_self (m : SortedMap κ α) (k : κ) (v : α) :
    (m.insert k v).find? k = some v := by
  rw [find?, insert]
  simp only
  induction m.entries with
  | nil => exact dlookup_cons_eq _ _ _
  | cons a es ih =>
    rw [insertEntry]
    split
    · exact dlookup_cons_eq _ _ _
    · split
      · exact dlookup_cons_eq _ _ _
      · rename_i hne
        rw [dlookup_cons_ne _ _ hne, ih]

theorem find?_insert_of_ne (m : SortedMap κ α) {k k' : κ} (v : α) (h : k' ≠ k) :
    (m.insert k v).find? k' = m.find? k' := by
  rw [find?, find?, insert]
  simp only
  induction m.entries with
  | nil => exact dlookup_cons_ne _ _ h
  | cons a es ih =>
    rw [insertEntry]
    split
    · exact dlookup_cons_ne _ _ h
    · split
      · rename_i heq
        obtain ⟨a, w⟩ := a
        obtain rfl : k = a := heq
        rw [dlookup_cons_ne _ _ h, dlookup_cons_ne _ _ h]
      · obtain ⟨a, w⟩ := a
        by_cases ha : k' = a
        · subst ha
          rw [dlookup_cons_eq, dlookup_cons_eq]
        · rw [dlookup_cons_ne _ _ ha, dlookup_cons_ne _ _ ha, ih]

/-- Entries put in one after the other. -/
def insertAll (m : SortedMap κ α) (es : List (Σ _ : κ, α)) : SortedMap κ α :=
  es.foldl (fun m e => m.insert e.1 e.2) m

/-- **Entries with distinct keys are all found.** -/
theorem find?_insertAll {es : List (Σ _ : κ, α)} (h : es.NodupKeys) (m : SortedMap κ α) (k : κ) :
    (m.insertAll es).find? k = (es.dlookup k).or (m.find? k) := by
  induction es generalizing m with
  | nil => rfl
  | cons e es ih =>
    obtain ⟨a, v⟩ := e
    rw [nodupKeys_cons] at h
    rw [insertAll, foldl_cons, ← insertAll, ih h.2]
    by_cases hk : k = a
    · subst hk
      rw [dlookup_eq_none.mpr h.1, dlookup_cons_eq, find?_insert_self]
      rfl
    · rw [dlookup_cons_ne _ _ hk, find?_insert_of_ne _ _ hk]

theorem find?_erase_self (m : SortedMap κ α) (k : κ) : (m.erase k).find? k = none :=
  dlookup_kerase k m.nodupKeys

theorem find?_erase_of_ne (m : SortedMap κ α) {k k' : κ} (h : k' ≠ k) :
    (m.erase k).find? k' = m.find? k' :=
  dlookup_kerase_ne h

theorem isSome_find?_insert (m : SortedMap κ α) (k k' : κ) (v : α) :
    ((m.insert k v).find? k').isSome ↔ k' = k ∨ (m.find? k').isSome := by
  by_cases h : k' = k
  · subst h
    simp only [find?_insert_self, Option.isSome_some, true_or]
  · simp only [find?_insert_of_ne m v h, h, false_or]

theorem isSome_find?_erase (m : SortedMap κ α) (k k' : κ) :
    ((m.erase k).find? k').isSome ↔ k' ≠ k ∧ (m.find? k').isSome := by
  by_cases h : k' = k
  · subst h
    simp only [find?_erase_self, Option.isSome_none, Bool.false_eq_true, ne_eq, not_true_eq_false,
      false_and]
  · simp only [find?_erase_of_ne m h, ne_eq, h, not_false_eq_true, true_and]

theorem find?_mapVals (m : SortedMap κ α) (f : κ → α → β) (k : κ) :
    (m.mapVals f).find? k = (m.find? k).map (f k) := by
  rw [find?, find?, mapVals]
  simp only
  induction m.entries with
  | nil => rfl
  | cons a es ih =>
    obtain ⟨a, w⟩ := a
    rw [map_cons]
    by_cases h : k = a
    · subst h
      rw [dlookup_cons_eq, dlookup_cons_eq, Option.map_some]
    · rw [dlookup_cons_ne _ _ h, dlookup_cons_ne _ _ h, ih]

theorem find?_filter (m : SortedMap κ α) (p : κ → α → Bool) (k : κ) :
    (m.filter p).find? k = (m.find? k).filter (p k) := by
  refine Option.ext fun v => ?_
  rw [← mem_entries_iff, Option.filter_eq_some_iff, ← mem_entries_iff, filter, mem_filter]

theorem find?_modify_self (m : SortedMap κ α) (k : κ) (f : α → α) :
    (m.modify k f).find? k = (m.find? k).map f := by
  rw [modify, find?_mapVals]
  simp only [if_true]

theorem find?_modify_of_ne (m : SortedMap κ α) {k k' : κ} (f : α → α) (h : k' ≠ k) :
    (m.modify k f).find? k' = m.find? k' := by
  rw [modify, find?_mapVals]
  simp only [h, if_false, Option.map_id_fun', id]

@[simp] theorem isSome_find?_modify (m : SortedMap κ α) (k k' : κ) (f : α → α) :
    ((m.modify k f).find? k').isSome = (m.find? k').isSome := by
  rw [modify, find?_mapVals, Option.isSome_map]

/-! ## The entries up to order -/

theorem perm_insert {m : SortedMap κ α} {k : κ} (h : m.find? k = none) (v : α) :
    (m.insert k v).entries.Perm (⟨k, v⟩ :: m.entries) := by
  have hkeys : ∀ e ∈ m.entries, e.1 ≠ k := by
    rintro ⟨a, w⟩ he rfl
    rw [mem_entries_iff.mp he] at h
    cases h
  rw [insert]
  simp only
  clear h
  revert hkeys
  induction m.entries with
  | nil => exact fun _ => List.Perm.refl _
  | cons a es ih =>
    intro hkeys
    rw [insertEntry]
    split
    · exact List.Perm.refl _
    · rw [if_neg (hkeys a mem_cons_self).symm]
      exact ((ih fun e he => hkeys e (mem_cons_of_mem a he)).cons a).trans
        (List.Perm.swap _ _ _)

theorem perm_erase {m : SortedMap κ α} {k : κ} {v : α} (h : m.find? k = some v) :
    m.entries.Perm (⟨k, v⟩ :: (m.erase k).entries) := by
  have hmem := mem_entries_iff.mpr h
  obtain ⟨w, l₁, l₂, -, hl, herase⟩ := exists_of_kerase (mem_keys_of_mem hmem)
  have hw : w = v := by
    have hw : ⟨k, w⟩ ∈ m.entries := by
      rw [hl]
      exact mem_append_right _ mem_cons_self
    rw [mem_entries_iff, h, Option.some.injEq] at hw
    exact hw.symm
  subst hw
  rw [erase]
  simp only
  rw [herase, hl]
  exact perm_middle

theorem size_insert {m : SortedMap κ α} {k : κ} (h : m.find? k = none) (v : α) :
    (m.insert k v).size = m.size + 1 :=
  (perm_insert h v).length_eq

theorem size_erase {m : SortedMap κ α} {k : κ} {v : α} (h : m.find? k = some v) :
    (m.erase k).size + 1 = m.size :=
  (perm_erase h).length_eq.symm

@[simp] theorem size_mapVals (m : SortedMap κ α) (f : κ → α → β) : (m.mapVals f).size = m.size :=
  length_map _

end SortedMap
