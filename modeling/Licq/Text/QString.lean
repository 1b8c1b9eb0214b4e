import Mathlib.Data.List.Chain
import Mathlib.Data.List.GetD
import Mathlib.Data.List.TakeWhile

/-!
# Text/QString — putting texts in for the placeholders of a template

`arg s x` puts `x` in for every placeholder of `s` that has the lowest number.  A chain of them
fills a template one placeholder after the other, and each looks at what those before it have put
in.

`NoneTaken` says that at each step of a chain the lowest placeholder is the next one of the template
and stands in one place only, so that nothing that was put in is taken for it.  A template is
literal text with holes; a chain fills it as it should exactly when no text but the last has a
placeholder with a number of the chain, or one below (`Chain.noneTaken_iff`, `Chain.text_eq`).
-/

namespace QString

open List

/-- The value of a character as a decimal digit; outside of ASCII it is the library's business. -/
structure Digits where
  digitValue : Char → Option ℕ
  ascii : ∀ c, c.toNat < 128 → digitValue c = if c.isDigit then some (c.toNat - 48) else none

variable (q : Digits)

/-! ## Placeholders -/

/-- The number behind a percent sign, an `L` apart of one digit or two, and how many characters it
takes. -/
def number (s : List Char) : Option (ℕ × ℕ) :=
  let l := if s.head? = some 'L' then 1 else 0
  match s.drop l with
  | [] => none
  | c :: t =>
    (q.digitValue c).map fun d =>
      match t.head?.bind q.digitValue with
      | some e => (10 * d + e, l + 2)
      | none => (d, l + 1)

/-- The numbers of the placeholders of a text. -/
def placeholders : List Char → List ℕ
  | [] => []
  | c :: s =>
    if c = '%' then
      match number q s with
      | some (k, _) => k :: placeholders s
      | none => placeholders s
    else placeholders s

/-- Every placeholder with a number is replaced, past what the last one takes. -/
def replace (j : ℕ) (x : List Char) : ℕ → List Char → List Char
  | _, [] => []
  | n + 1, _ :: s => replace j x n s
  | 0, c :: s =>
    if c = '%' then
      match number q s with
      | some (k, n) => if k = j then x ++ replace j x n s else c :: replace j x 0 s
      | none => c :: replace j x 0 s
    else c :: replace j x 0 s

/-- `QString::arg` -/
def arg (s x : List Char) : List Char :=
  match (placeholders q s).min? with
  | some j => replace q j x 0 s
  | none => s

def args (s : List Char) (xs : List (List Char)) : List Char := xs.foldl (arg q) s

/-- In the chain from number `j` on, the lowest placeholder is always the next one, in one place. -/
def NoneTaken : List Char → ℕ → List (List Char) → Prop
  | _, _, [] => True
  | s, j, x :: xs =>
    (placeholders q s).filter (· ≤ j) = [j] ∧ NoneTaken (arg q s x) (j + 1) xs

/-! ## Texts side by side -/

variable {q} {a b s x : List Char} {j k n : ℕ}

/-- A text that does not go on with a number that has begun before it. -/
def Neutral (q : Digits) (s : List Char) : Prop :=
  ∀ c, s.head? = some c → q.digitValue c = none ∧ c ≠ 'L'

theorem number_append (hb : Neutral q b) (a : List Char) : number q (a ++ b) = number q a := by
  have hnone : ∀ l, (if b.head? = some 'L' then 1 else 0) = l → l = 0 := by
    rintro _ rfl
    exact if_neg fun h => (hb 'L' h).2 rfl
  have hb' : number q b = none := by
    rw [number, hnone _ rfl]
    cases b with
    | nil => rfl
    | cons c b => simp only [drop_zero, (hb c rfl).1, Option.map_none]
  cases a with
  | nil =>
    rw [nil_append, hb']
    rfl
  | cons c a =>
    have hdigits : ∀ (l : ℕ) (t : List Char),
        (match t ++ b with
          | [] => none
          | c :: t => (q.digitValue c).map fun d =>
            match t.head?.bind q.digitValue with
            | some e => (10 * d + e, l + 2)
            | none => (d, l + 1)) =
        match t with
          | [] => none
          | c :: t => (q.digitValue c).map fun d =>
            match t.head?.bind q.digitValue with
            | some e => (10 * d + e, l + 2)
            | none => (d, l + 1) := by
      intro l t
      cases t with
      | nil =>
        cases b with
        | nil => rfl
        | cons c b => simp only [nil_append, (hb c rfl).1, Option.map_none]
      | cons c t =>
        cases t with
        | nil =>
          cases b with
          | nil => rfl
          | cons d b =>
            simp only [cons_append, nil_append, head?_cons, Option.bind_some,
              (hb d rfl).1, head?_nil, Option.bind_none]
        | cons d t => rfl
    rw [number, number, cons_append, head?_cons, head?_cons]
    split_ifs
    · exact hdigits 1 a
    · exact hdigits 0 (c :: a)

theorem number_le {s : List Char} (h : number q s = some (k, n)) : n ≤ s.length := by
  rw [number] at h
  have hl : (if s.head? = some 'L' then 1 else 0) ≤ s.length := by
    split_ifs with hhead
    · cases s with
      | nil => cases hhead
      | cons c s => exact Nat.succ_pos _
    · exact Nat.zero_le _
  generalize (if s.head? = some 'L' then 1 else 0) = l at h hl
  cases hdrop : s.drop l with
  | nil =>
    rw [hdrop] at h
    cases h
  | cons c t =>
    have hlen := congrArg List.length hdrop
    rw [length_drop, length_cons] at hlen
    rw [hdrop] at h
    obtain ⟨d, -, hd⟩ := Option.map_eq_some_iff.mp h
    cases t with
    | nil =>
      obtain ⟨-, rfl⟩ := Prod.mk.inj hd
      omega
    | cons e t =>
      rw [length_cons] at hlen
      split at hd
      · obtain ⟨-, rfl⟩ := Prod.mk.inj hd
        omega
      · obtain ⟨-, rfl⟩ := Prod.mk.inj hd
        omega

theorem placeholders_append (hb : Neutral q b) (a : List Char) :
    placeholders q (a ++ b) = placeholders q a ++ placeholders q b := by
  induction a with
  | nil => rfl
  | cons c a ih =>
    rw [cons_append, placeholders, placeholders, number_append hb, ih]
    split_ifs
    · cases number q a with
      | none => rfl
      | some p => rfl
    · rfl

theorem replace_append (hb : Neutral q b) (hn : n ≤ a.length) :
    replace q j x n (a ++ b) = replace q j x n a ++ replace q j x 0 b := by
  induction a generalizing n with
  | nil =>
    obtain rfl := Nat.le_zero.mp hn
    rfl
  | cons c a ih =>
    cases n with
    | succ n => exact ih (Nat.le_of_succ_le_succ hn)
    | zero =>
      have hzero := ih (Nat.zero_le _)
      rw [cons_append, replace, replace, number_append hb]
      split_ifs with hc
      · cases hnum : number q a with
        | none => simp only [hzero, cons_append]
        | some p =>
          obtain ⟨k, m⟩ := p
          simp only
          split_ifs
          · rw [ih (number_le hnum), append_assoc]
          · rw [hzero, cons_append]
      · rw [hzero, cons_append]

/-- Without its number a text stays as it is. -/
theorem replace_of_notMem (h : j ∉ placeholders q s) : replace q j x 0 s = s := by
  induction s with
  | nil => rfl
  | cons c s ih =>
    rw [placeholders] at h
    rw [replace]
    split_ifs with hc
    · rw [if_pos hc] at h
      cases hnum : number q s with
      | none =>
        rw [hnum] at h
        simp only [ih h]
      | some p =>
        obtain ⟨k, m⟩ := p
        rw [hnum] at h
        simp only [mem_cons, not_or] at h
        simp only [if_neg (Ne.symm h.1), ih h.2]
    · rw [if_neg hc] at h
      rw [ih h]

/-- Literal text has no placeholders, and leaves those behind it as they are. -/
theorem placeholders_lit (ha : '%' ∉ a) : placeholders q (a ++ b) = placeholders q b := by
  induction a with
  | nil => rfl
  | cons c a ih =>
    rw [mem_cons, not_or] at ha
    rw [cons_append, placeholders, if_neg (Ne.symm ha.1), ih ha.2]

theorem replace_lit (ha : '%' ∉ a) : replace q j x 0 (a ++ b) = a ++ replace q j x 0 b := by
  induction a with
  | nil => rfl
  | cons c a ih =>
    rw [mem_cons, not_or] at ha
    rw [cons_append, replace, if_neg (Ne.symm ha.1), ih ha.2, cons_append]

/-! ## A placeholder of a template -/

/-- The placeholder of a number below ten. -/
def hole (k : ℕ) : List Char := ['%', Char.ofNat (48 + k)]

theorem digitValue_percent : q.digitValue '%' = none := by
  rw [q.ascii '%' (by decide)]
  rfl

theorem digit_facts (hk : k ≤ 9) :
    q.digitValue (Char.ofNat (48 + k)) = some k ∧ Char.ofNat (48 + k) ≠ '%' ∧
      Char.ofNat (48 + k) ≠ 'L' := by
  have hascii : ∀ k ≤ 9, (Char.ofNat (48 + k)).toNat < 128 ∧ (Char.ofNat (48 + k)).isDigit = true ∧
      (Char.ofNat (48 + k)).toNat - 48 = k ∧ Char.ofNat (48 + k) ≠ '%' ∧
      Char.ofNat (48 + k) ≠ 'L' := by
    decide
  obtain ⟨hlt, hdigit, hval, hpercent, hL⟩ := hascii k hk
  rw [q.ascii _ hlt, if_pos hdigit, hval]
  exact ⟨rfl, hpercent, hL⟩

theorem number_hole (hk : k ≤ 9) (hb : Neutral q b) :
    number q (Char.ofNat (48 + k) :: b) = some (k, 1) := by
  obtain ⟨hval, -, hL⟩ := digit_facts (q := q) hk
  have hone : number q [Char.ofNat (48 + k)] = some (k, 1) := by
    simp only [number, head?_cons, Option.some.injEq, hL, if_false, drop_zero, hval,
      Option.map_some, head?_nil, Option.bind_none, Nat.zero_add]
  rw [← singleton_append, number_append hb, hone]

theorem placeholders_hole (hk : k ≤ 9) (hb : Neutral q b) :
    placeholders q (hole k ++ b) = k :: placeholders q b := by
  obtain ⟨-, hpercent, -⟩ := digit_facts (q := q) hk
  rw [hole, cons_append, singleton_append, placeholders, if_pos rfl, number_hole hk hb]
  simp only [placeholders, if_neg hpercent]

theorem replace_hole (hk : k ≤ 9) (hb : Neutral q b) :
    replace q j x 0 (hole k ++ b) = (if k = j then x else hole k) ++ replace q j x 0 b := by
  obtain ⟨-, hpercent, -⟩ := digit_facts (q := q) hk
  rw [hole, cons_append, singleton_append, replace, if_pos rfl, number_hole hk hb]
  simp only
  split_ifs
  · rfl
  · simp only [replace, if_neg hpercent, cons_append, nil_append]

theorem neutral_hole (k : ℕ) (b : List Char) : Neutral q (hole k ++ b) := by
  intro c hc
  cases hc
  exact ⟨digitValue_percent, by decide⟩

/-! ## Templates -/

/-- A placeholder of a template: its number, the text that it is for, and the literal text up to the
next one. -/
structure Slot where
  number : ℕ
  value : List Char
  after : List Char

/-- A slot before step `j` of a chain. -/
def Slot.spell (j : ℕ) (t : Slot) : List Char :=
  (if t.number < j then t.value else hole t.number) ++ t.after

/-- The slots before step `j` of a chain. -/
def fill (j : ℕ) (slots : List Slot) : List Char := slots.flatMap (Slot.spell j)

/-- Literal text that no placeholder before it goes on with. -/
def Fences (s : List Char) : Prop :=
  '%' ∉ s ∧ ∀ c, s.head? = some c → c.toNat < 128 ∧ c.isDigit = false ∧ c ≠ 'L'

instance (s : List Char) : Decidable (Fences s) := by
  unfold Fences
  cases s with
  | nil => exact decidable_of_iff True (by simp)
  | cons c s =>
    exact decidable_of_iff ('%' ∉ c :: s ∧ c.toNat < 128 ∧ c.isDigit = false ∧ c ≠ 'L') (by simp)

/-- The slots of a template up to number `n`: behind each there is literal text, unless it is the
last one or the next one is the one with number `n`. -/
def Spaced (n : ℕ) : List Slot → Prop
  | [] => True
  | t :: slots =>
    t.number ≤ 9 ∧ Fences t.after ∧
      (t.after = [] → ∀ t', slots.head? = some t' → t'.number = n) ∧ Spaced n slots

/-- The texts of a chain from number `j` on are those of the slots, each of one. -/
def Matches (slots : List Slot) : ℕ → List (List Char) → Prop
  | _, [] => True
  | j, x :: xs =>
    ((slots.filter fun t => t.number = j).map Slot.value) = [x] ∧ Matches slots (j + 1) xs

variable {slots : List Slot} {t₀ : List Char} {xs : List (List Char)} {m : ℕ}

theorem Fences.neutral (h : Fences a) (hne : a ≠ []) (b : List Char) : Neutral q (a ++ b) := by
  obtain ⟨c, a, rfl⟩ := exists_cons_of_ne_nil hne
  intro d hd
  cases hd
  obtain ⟨hascii, hdigit, hL⟩ := h.2 c rfl
  rw [q.ascii c hascii, hdigit]
  exact ⟨rfl, hL⟩

theorem neutral_nil : Neutral q [] := fun c hc => by cases hc

/-- What is behind a slot does not go on with its number. -/
theorem neutral_after {t : Slot} (h : Spaced n (t :: slots)) (hj : j ≤ n) :
    Neutral q (t.after ++ fill j slots) := by
  obtain ⟨-, hfence, hnext, -⟩ := h
  by_cases hafter : t.after = []
  · rw [hafter, nil_append]
    cases slots with
    | nil => exact neutral_nil
    | cons t' slots =>
      have hlast := hnext hafter t' rfl
      rw [fill, flatMap_cons, Slot.spell, if_neg (by omega), append_assoc]
      exact neutral_hole _ _
  · exact hfence.neutral hafter _

/-- The placeholders before step `j`: those of the texts put in so far, and those still to be
filled. -/
theorem placeholders_fill (h : Spaced n slots) (hj : j ≤ n) :
    placeholders q (fill j slots) =
      slots.flatMap fun t => if t.number < j then placeholders q t.value else [t.number] := by
  induction slots with
  | nil => rfl
  | cons t slots ih =>
    have hneutral := neutral_after (q := q) h hj
    obtain ⟨hnine, hfence, -, hrest⟩ := h
    rw [flatMap_cons, ← ih hrest]
    rw [fill, flatMap_cons, Slot.spell, append_assoc]
    change placeholders q ((if _ then _ else _) ++ (t.after ++ fill j slots)) = _
    rw [← placeholders_lit (b := fill j slots) hfence.1]
    split_ifs
    · exact placeholders_append hneutral _
    · exact placeholders_hole hnine hneutral

/-- Step `j` fills the slot with number `j`, when no text that was put in has that number. -/
theorem replace_fill (h : Spaced n slots) (hj : j ≤ n)
    (hvalue : ∀ t ∈ slots, t.number = j → t.value = x)
    (hfree : ∀ t ∈ slots, t.number < j → j ∉ placeholders q t.value) :
    replace q j x 0 (fill j slots) = fill (j + 1) slots := by
  induction slots with
  | nil => rfl
  | cons t slots ih =>
    have hneutral := neutral_after (q := q) h hj
    obtain ⟨hnine, hfence, -, hrest⟩ := h
    have ih := ih hrest (fun t ht => hvalue t (mem_cons_of_mem _ ht))
      fun t ht => hfree t (mem_cons_of_mem _ ht)
    have htail : replace q j x 0 (t.after ++ fill j slots) = t.after ++ fill (j + 1) slots := by
      rw [replace_lit hfence.1, ih]
    rw [fill, fill, flatMap_cons, flatMap_cons, Slot.spell, Slot.spell, append_assoc,
      append_assoc]
    change replace q j x 0 (_ ++ (t.after ++ fill j slots)) = _ ++ (t.after ++ fill (j + 1) slots)
    rcases Nat.lt_trichotomy t.number j with hlt | heq | hgt
    · rw [if_pos hlt, if_pos (Nat.lt_succ_of_lt hlt), replace_append hneutral (Nat.zero_le _),
        htail, replace_of_notMem (hfree t mem_cons_self hlt)]
    · rw [if_neg heq.not_lt, if_pos (by omega), replace_hole hnine hneutral, if_pos heq, htail,
        hvalue t mem_cons_self heq]
    · rw [if_neg (by omega), if_neg (by omega), replace_hole hnine hneutral, if_neg hgt.ne', htail]

/-! ## Chains -/

/-- No text put in before step `j` has a placeholder up to it. -/
def FreeAt (q : Digits) (slots : List Slot) (j : ℕ) : Prop :=
  ∀ t ∈ slots, t.number < j → ∀ k ∈ placeholders q t.value, j < k

/-- At step `j` its placeholder is the lowest, in one place, exactly when no text that was put in
has one up to it. -/
theorem filter_placeholders_iff (ht₀ : '%' ∉ t₀) (h : Spaced n slots) (hj : j ≤ n)
    (hone : ((slots.filter fun t => t.number = j).map Slot.value) = [x]) :
    (placeholders q (t₀ ++ fill j slots)).filter (· ≤ j) = [j] ↔ FreeAt q slots j := by
  have hslot : ∀ t : Slot,
      (if t.number < j then placeholders q t.value else [t.number]).filter (· ≤ j) =
      if t.number < j then (placeholders q t.value).filter (· ≤ j)
      else if t.number = j then [j] else [] := by
    intro t
    rcases Nat.lt_trichotomy t.number j with hlt | heq | hgt
    · rw [if_pos hlt, if_pos hlt]
    · rw [if_neg heq.not_lt, if_neg heq.not_lt, if_pos heq, heq]
      simp
    · rw [if_neg (by omega), if_neg (by omega), if_neg hgt.ne']
      simp [hgt]
  obtain ⟨t, ht, -⟩ := map_eq_singleton_iff.mp hone
  obtain ⟨l, r, rfl, hl, hnum, hr⟩ := filter_eq_cons_iff.mp ht
  have hnum : t.number = j := by simpa using hnum
  have hr : ∀ t' ∈ r, t'.number ≠ j := by
    have := filter_eq_nil_iff.mp hr
    simpa using this
  have hl : ∀ t' ∈ l, t'.number ≠ j := by simpa using hl
  have hpart : ∀ ts : List Slot, (∀ t' ∈ ts, t'.number ≠ j) →
      ((ts.flatMap fun t => if t.number < j then (placeholders q t.value).filter (· ≤ j)
        else if t.number = j then [j] else []) = [] ↔ FreeAt q ts j) := by
    intro ts hts
    rw [flatMap_eq_nil_iff, FreeAt]
    refine forall₂_congr fun t' ht' => ?_
    rcases Nat.lt_or_ge t'.number j with hlt | hge
    · simp [hlt, filter_eq_nil_iff]
    · simp [hge.not_gt, hts t' ht']
  rw [placeholders_lit ht₀, placeholders_fill h hj, filter_flatMap]
  simp only [hslot]
  rw [flatMap_append, flatMap_cons, if_neg hnum.not_lt, if_pos hnum]
  have hsplit : FreeAt q (l ++ t :: r) j ↔ FreeAt q l j ∧ FreeAt q r j := by
    simp only [FreeAt, forall_mem_append, forall_mem_cons]
    refine and_congr_right fun _ => and_iff_right ?_
    intro hlt
    omega
  rw [hsplit, ← hpart l hl, ← hpart r hr]
  constructor
  · intro heq
    have hlen := congrArg List.length heq
    simp only [length_append, length_cons, length_nil] at hlen
    exact ⟨eq_nil_of_length_eq_zero (by omega), eq_nil_of_length_eq_zero (by omega)⟩
  · rintro ⟨hnil, hnil'⟩
    rw [hnil, hnil']
    rfl

/-- **Step `j`** of a chain. -/
theorem arg_fill (ht₀ : '%' ∉ t₀) (h : Spaced n slots) (hj : j ≤ n)
    (hone : ((slots.filter fun t => t.number = j).map Slot.value) = [x])
    (hfree : FreeAt q slots j) :
    arg q (t₀ ++ fill j slots) x = t₀ ++ fill (j + 1) slots := by
  have hlow := (filter_placeholders_iff ht₀ h hj hone).mpr hfree
  have hmem : ∀ k, k ∈ (placeholders q (t₀ ++ fill j slots)).filter (· ≤ j) ↔ k = j := by
    intro k
    rw [hlow, mem_singleton]
  have hmin : (placeholders q (t₀ ++ fill j slots)).min? = some j := by
    rw [min?_eq_some_iff]
    refine ⟨mem_of_mem_filter ((hmem j).mpr rfl), fun k hk => ?_⟩
    by_contra hlt
    have := (hmem k).mp (mem_filter.mpr ⟨hk, by simpa using (Nat.lt_of_not_le hlt).le⟩)
    omega
  have hvalue : ∀ t ∈ slots, t.number = j → t.value = x := by
    intro t ht hnum
    have hin : t.value ∈ (slots.filter fun t => t.number = j).map Slot.value :=
      mem_map_of_mem (mem_filter.mpr ⟨ht, by simpa using hnum⟩)
    rwa [hone, mem_singleton] at hin
  rw [arg, hmin]
  simp only
  rw [replace_lit ht₀, replace_fill h hj hvalue fun t ht hlt hmem =>
    absurd (hfree t ht hlt j hmem) (lt_irrefl j)]

/-- A chain from step `j` on takes nothing for a placeholder exactly when no step does. -/
theorem noneTaken_fill_iff (ht₀ : '%' ∉ t₀) (h : Spaced n slots) (hlen : j + xs.length ≤ n + 1)
    (hmatch : Matches slots j xs) :
    NoneTaken q (t₀ ++ fill j slots) j xs ↔ ∀ i, j ≤ i → i < j + xs.length → FreeAt q slots i := by
  induction xs generalizing j with
  | nil => exact iff_of_true trivial fun i hi hlt => by simp at hlt; omega
  | cons x xs ih =>
    obtain ⟨hone, hmatch⟩ := hmatch
    rw [length_cons] at hlen ⊢
    rw [NoneTaken, filter_placeholders_iff ht₀ h (by omega) hone]
    constructor
    · rintro ⟨hfree, hrest⟩ i hi hlt
      rw [arg_fill ht₀ h (by omega) hone hfree] at hrest
      rcases Nat.eq_or_lt_of_le hi with rfl | hgt
      · exact hfree
      · exact (ih (by omega) hmatch).mp hrest i hgt (by omega)
    · intro hall
      have hfree := hall j le_rfl (by omega)
      refine ⟨hfree, ?_⟩
      rw [arg_fill ht₀ h (by omega) hone hfree]
      exact (ih (by omega) hmatch).mpr fun i hi hlt => hall i (by omega) (by omega)

/-- **The result of a chain** that takes nothing for a placeholder. -/
theorem args_fill (ht₀ : '%' ∉ t₀) (h : Spaced n slots) (hlen : j + xs.length ≤ n + 1)
    (hmatch : Matches slots j xs) (hnone : NoneTaken q (t₀ ++ fill j slots) j xs) :
    args q (t₀ ++ fill j slots) xs = t₀ ++ fill (j + xs.length) slots := by
  induction xs generalizing j with
  | nil => rfl
  | cons x xs ih =>
    obtain ⟨hone, hmatch⟩ := hmatch
    obtain ⟨hlow, hrest⟩ := hnone
    rw [length_cons] at hlen ⊢
    have hfree := (filter_placeholders_iff ht₀ h (by omega) hone).mp hlow
    rw [args, foldl_cons, arg_fill ht₀ h (by omega) hone hfree] at *
    rw [show j + (xs.length + 1) = j + 1 + xs.length by omega]
    exact ih (by omega) hmatch hrest

/-! ## Placeholders side by side -/

/-- The placeholders from number `j` on, `n` of them, with nothing between. -/
def holesFrom (j n : ℕ) : List Char := (List.range' j n).flatMap hole

theorem neutral_holesFrom (j n : ℕ) : Neutral q (holesFrom j n) := by
  cases n with
  | zero => exact neutral_nil
  | succ n => exact neutral_hole _ _

theorem placeholders_holesFrom (h : j + n ≤ 10) :
    placeholders q (holesFrom j n) = List.range' j n := by
  induction n generalizing j with
  | zero => rfl
  | succ n ih =>
    rw [range'_succ, ← ih (by omega)]
    exact placeholders_hole (by omega) (neutral_holesFrom _ _)

/-- Texts without percent signs fill placeholders that stand side by side. -/
theorem args_holesFrom (hxs : ∀ x ∈ xs, '%' ∉ x) (ha : '%' ∉ a) (h : j + xs.length ≤ 10) :
    NoneTaken q (a ++ holesFrom j xs.length) j xs ∧
      args q (a ++ holesFrom j xs.length) xs = a ++ xs.flatten := by
  induction xs generalizing a j with
  | nil => exact ⟨trivial, rfl⟩
  | cons x xs ih =>
    rw [length_cons] at h ⊢
    have hplaces : placeholders q (a ++ holesFrom j (xs.length + 1)) =
        j :: range' (j + 1) xs.length := by
      rw [placeholders_lit ha, placeholders_holesFrom h, range'_succ]
    have hlow : ∀ k ∈ range' (j + 1) xs.length, j < k := fun k hk =>
      (mem_range'_1.mp hk).1
    have hstep : arg q (a ++ holesFrom j (xs.length + 1)) x =
        a ++ x ++ holesFrom (j + 1) xs.length := by
      have hmin : (j :: range' (j + 1) xs.length).min? = some j := by
        rw [min?_eq_some_iff]
        refine ⟨mem_cons_self, fun k hk => ?_⟩
        rcases mem_cons.mp hk with rfl | hk
        · exact le_rfl
        · exact (hlow k hk).le
      have hrest : j ∉ placeholders q (holesFrom (j + 1) xs.length) := by
        rw [placeholders_holesFrom (by omega)]
        exact fun hmem => lt_irrefl j (hlow j hmem)
      have hcut : holesFrom j (xs.length + 1) = hole j ++ holesFrom (j + 1) xs.length := by
        rw [holesFrom, range'_succ, flatMap_cons, holesFrom]
      rw [arg, hplaces, hmin]
      simp only
      rw [replace_lit ha, hcut, replace_hole (by omega) (neutral_holesFrom _ _), if_pos rfl,
        replace_of_notMem hrest, append_assoc]
    obtain ⟨hx, hxs⟩ := forall_mem_cons.mp hxs
    have hax : '%' ∉ a ++ x := by
      rw [mem_append, not_or]
      exact ⟨ha, hx⟩
    obtain ⟨hnone, hargs⟩ := ih hxs hax (j := j + 1) (by omega)
    refine ⟨⟨?_, ?_⟩, ?_⟩
    · rw [hplaces, filter_cons_of_pos (by simp), filter_eq_nil_iff.mpr]
      intro k hk
      simpa using hlow k hk
    · rw [hstep]
      exact hnone
    · rw [args, foldl_cons, hstep]
      rw [args] at hargs
      rw [hargs, flatten_cons, append_assoc]

/-! ## Templates as texts -/

/-- The literal text up to the first placeholder, and the placeholders, each with the literal text
behind it. -/
structure Template where
  lead : List Char
  holes : List (ℕ × List Char)

/-- A template read from a text with placeholders of one digit. -/
def Template.parse : List Char → Template
  | [] => ⟨[], []⟩
  | [c] => ⟨[c], []⟩
  | c :: d :: s =>
    if c = '%' then ⟨[], (d.toNat - 48, (parse s).lead) :: (parse s).holes⟩
    else ⟨c :: (parse (d :: s)).lead, (parse (d :: s)).holes⟩

/-- A row of texts put into a template, the first one for the placeholder `first`. -/
def Template.filled (t : Template) (first : ℕ) (xs : List (List Char)) : List Char :=
  t.lead ++ t.holes.flatMap fun h => xs.getD (h.1 - first) [] ++ h.2

def Template.row (t : Template) (first : ℕ) (xs : List (List Char)) : List Slot :=
  t.holes.map fun h => ⟨h.1, xs.getD (h.1 - first) [], h.2⟩

/-- A template with one hole for each number from `first` on, `n` in all, and literal text between
any two but before the last number. -/
structure Template.Sound (t : Template) (first n : ℕ) : Prop where
  lead : '%' ∉ t.lead
  fences : ∀ h ∈ t.holes, h.1 ≤ 9 ∧ Fences h.2 ∧ first ≤ h.1 ∧ h.1 < first + n
  once : ∀ i < n, (t.holes.filter fun h => h.1 = first + i).length = 1
  apart : t.holes.IsChain fun h h' => h.2 = [] → h'.1 = first + n - 1

instance (t : Template) (first n : ℕ) : Decidable (t.Sound first n) :=
  decidable_of_iff ('%' ∉ t.lead ∧
    (∀ h ∈ t.holes, h.1 ≤ 9 ∧ Fences h.2 ∧ first ≤ h.1 ∧ h.1 < first + n) ∧
    (∀ i < n, (t.holes.filter fun h => h.1 = first + i).length = 1) ∧
    t.holes.IsChain fun h h' => h.2 = [] → h'.1 = first + n - 1)
    ⟨fun ⟨a, b, c, d⟩ => ⟨a, b, c, d⟩, fun ⟨a, b, c, d⟩ => ⟨a, b, c, d⟩⟩

/-- A template and the texts put into it one after the other. -/
structure Chain where
  template : List Char
  first : ℕ
  texts : List (List Char)

def Chain.text (q : Digits) (c : Chain) : List Char := args q c.template c.texts

/-- The text when each is put in its own place. -/
def Chain.literal (c : Chain) : List Char := (Template.parse c.template).filled c.first c.texts

def Chain.NoneTaken (q : Digits) (c : Chain) : Prop :=
  QString.NoneTaken q c.template c.first c.texts

/-- No text but the last has a placeholder that the chain would come to. -/
def Chain.Harmless (q : Digits) (c : Chain) : Prop :=
  ∀ x ∈ c.texts.dropLast, ∀ k ∈ placeholders q x, c.first + c.texts.length ≤ k

/-- A text is the template read from it, with `n` holes from `first` on. -/
def IsTemplate (s : List Char) (first n : ℕ) : Prop :=
  (Template.parse s).lead ++ (Template.parse s).holes.flatMap (fun h => hole h.1 ++ h.2) = s ∧
    (Template.parse s).Sound first n

instance (s : List Char) (first n : ℕ) : Decidable (IsTemplate s first n) :=
  inferInstanceAs (Decidable (_ ∧ _))

/-- The template has a hole for each of the texts. -/
def Chain.Sound (c : Chain) : Prop := IsTemplate c.template c.first c.texts.length

variable {t : Template} {first : ℕ}

theorem Template.Sound.spaced (h : t.Sound first n) (xs : List (List Char)) :
    Spaced (first + n - 1) (t.row first xs) := by
  have hfences := h.fences
  have hapart := h.apart
  rw [Template.row]
  generalize t.holes = holes at hfences hapart
  induction holes with
  | nil => trivial
  | cons g holes ih =>
    obtain ⟨hnine, hfence, -, -⟩ := hfences g mem_cons_self
    refine ⟨hnine, hfence, fun hafter t' ht' => ?_,
      ih (fun g' hg' => hfences g' (mem_cons_of_mem _ hg')) hapart.tail⟩
    cases holes with
    | nil => cases ht'
    | cons g' holes =>
      cases ht'
      exact hapart.rel_head? rfl hafter

/-- The slot of each number is for the text with that number. -/
theorem Template.Sound.filter_row (h : t.Sound first n) (xs : List (List Char)) {i : ℕ}
    (hi : i < n) :
    ((t.row first xs).filter fun u => u.number = first + i).map Slot.value = [xs.getD i []] := by
  obtain ⟨g, hg⟩ := length_eq_one_iff.mp (h.once i hi)
  have hnum : g.1 = first + i := by
    have hmem : g ∈ t.holes.filter fun h => h.1 = first + i := by
      rw [hg]
      exact mem_singleton_self g
    simpa using (mem_filter.mp hmem).2
  have hcomp : ((fun u : Slot => decide (u.number = first + i)) ∘
      fun h : ℕ × List Char => Slot.mk h.1 (xs.getD (h.1 - first) []) h.2) =
      fun h => decide (h.1 = first + i) := rfl
  rw [Template.row, filter_map, hcomp, hg]
  simp only [map_cons, map_nil, hnum, Nat.add_sub_cancel_left]

theorem Template.Sound.matches (h : t.Sound first n) (xs : List (List Char)) (hn : xs.length = n)
    {i : ℕ} {ys : List (List Char)} (hys : ys = xs.drop i) :
    Matches (t.row first xs) (first + i) ys := by
  induction ys generalizing i with
  | nil => trivial
  | cons y ys ih =>
    have hi : i < xs.length := by
      by_contra hge
      rw [drop_eq_nil_of_le (Nat.le_of_not_lt hge)] at hys
      cases hys
    rw [drop_eq_getElem_cons hi] at hys
    obtain ⟨rfl, hrest⟩ := List.cons.inj hys
    refine ⟨?_, ih hrest⟩
    rw [h.filter_row xs (hn ▸ hi), getD_eq_getElem _ _ hi]

/-- What the slots of a template have been filled with, up to a number. -/
theorem Template.Sound.forall_row_iff (h : t.Sound first n) {xs : List (List Char)}
    (hn : xs.length = n) {j : ℕ} (hj : j ≤ n) {P : List Char → Prop} :
    (∀ u ∈ t.row first xs, u.number < first + j → P u.value) ↔ ∀ x ∈ xs.take j, P x := by
  subst hn
  constructor
  · intro hall x hx
    obtain ⟨i, hi, rfl⟩ := mem_iff_getElem.mp hx
    rw [length_take] at hi
    have hmem : xs.getD i [] ∈ ((t.row first xs).filter fun u => u.number = first + i).map
        Slot.value := by
      rw [h.filter_row xs (by omega)]
      exact mem_singleton_self _
    obtain ⟨u, hu, hval⟩ := mem_map.mp hmem
    obtain ⟨hu, hnum⟩ := mem_filter.mp hu
    have hnum : u.number = first + i := by simpa using hnum
    have := hall u hu (by omega)
    rwa [hval, getD_eq_getElem _ _ (by omega), ← getElem_take (h := by simpa using hi)]
      at this
  · intro hall u hu hlt
    obtain ⟨g, hg, rfl⟩ := mem_map.mp hu
    obtain ⟨-, -, hfirst, hlast⟩ := h.fences g hg
    simp only at hlt ⊢
    rw [getD_eq_getElem _ _ (by omega)]
    refine hall _ (mem_iff_getElem.mpr ⟨g.1 - first, ?_, getElem_take⟩)
    rw [length_take]
    omega

variable {c : Chain}

theorem Chain.Sound.template_eq (h : c.Sound) :
    c.template = (Template.parse c.template).lead ++
      fill c.first ((Template.parse c.template).row c.first c.texts) := by
  conv_lhs => rw [← h.1]
  rw [fill, Template.row, flatMap_map]
  refine congrArg _ (flatMap_congr fun g hg => ?_)
  obtain ⟨-, -, hfirst, -⟩ := h.2.fences g hg
  rw [Slot.spell, if_neg (Nat.not_lt.mpr hfirst)]

/-- **A chain takes no text for a placeholder** exactly when it is harmless. -/
theorem Chain.noneTaken_iff (h : c.Sound) : c.NoneTaken q ↔ c.Harmless q := by
  by_cases hnil : c.texts = []
  · rw [Chain.NoneTaken, Chain.Harmless, hnil]
    exact iff_of_true trivial fun x hx => by cases hx
  have hpos := length_pos_iff.mpr hnil
  have hmatch : Matches _ c.first c.texts := h.2.matches (i := 0) c.texts rfl rfl
  rw [Chain.NoneTaken, h.template_eq,
    noneTaken_fill_iff h.2.lead (h.2.spaced c.texts) (by omega) hmatch,
    Chain.Harmless, dropLast_eq_take]
  rw [← h.2.forall_row_iff rfl (Nat.sub_le _ 1)
    (P := fun x => ∀ k ∈ placeholders q x, c.first + c.texts.length ≤ k)]
  constructor
  · intro hall u hu hlt k hk
    have := hall (c.first + (c.texts.length - 1)) (by omega) (by omega) u hu hlt k hk
    omega
  · intro hall i hi hlt u hu hlow k hk
    have := hall u hu (by omega) k hk
    omega

/-- **The text of a chain that takes nothing for a placeholder.** -/
theorem Chain.text_eq (h : c.Sound) (hnone : c.NoneTaken q) : c.text q = c.literal := by
  have hmatch : Matches _ c.first c.texts := h.2.matches (i := 0) c.texts rfl rfl
  rw [Chain.NoneTaken, h.template_eq] at hnone
  rw [Chain.text, h.template_eq, args_fill h.2.lead (h.2.spaced c.texts) (by omega)
    hmatch hnone, Chain.literal, Template.filled, fill, Template.row, flatMap_map]
  refine congrArg _ (flatMap_congr fun g hg => ?_)
  obtain ⟨-, -, -, hlast⟩ := h.2.fences g hg
  rw [Slot.spell, if_pos hlast]

end QString
