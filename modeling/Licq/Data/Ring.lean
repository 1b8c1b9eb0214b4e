import Mathlib.Algebra.Group.Fin.Basic
import Mathlib.Data.Fin.VecNotation
import Mathlib.Data.List.FinRange
import Mathlib.Data.Nat.Find
import Mathlib.Tactic.Abel

/-!
# Data/Ring — walking round a ring of places

A walk goes through an additive group by one step `g` at a time.  `FirstAfter g hit x y` says that
`y` is the first place behind `x` that is hit.  Two facts carry a search round such a ring:

* `FirstAfter.back` — from one hit to the next and back again is no walk at all.
* `firstAfter_cyclicGet` — in the ring of the numbers up to `n` the walk by one goes through the
  hits in their order, and from the last to the first.
-/

namespace RingWalk

open Nat

variable {G : Type*} [AddGroup G] {g x y z : G} {hit : G → Prop}

/-! ## The first hit behind a place -/

/-- `y` is hit, and reached from `x` by one step or more with no hit in between. -/
def FirstAfter (g : G) (hit : G → Prop) (x y : G) : Prop :=
  ∃ k, 0 < k ∧ y = x + k • g ∧ hit y ∧ ∀ j, 0 < j → j < k → ¬hit (x + j • g)

theorem FirstAfter.isHit (h : FirstAfter g hit x y) : hit y := by
  obtain ⟨k, -, -, hy, -⟩ := h
  exact hy

/-- There is one first hit at most. -/
theorem FirstAfter.unique (hy : FirstAfter g hit x y) (hz : FirstAfter g hit x z) : y = z := by
  obtain ⟨k, hk, rfl, hhit, hfree⟩ := hy
  obtain ⟨k', hk', rfl, hhit', hfree'⟩ := hz
  rcases Nat.lt_trichotomy k k' with hlt | rfl | hlt
  · exact absurd hhit (hfree' k hk hlt)
  · rfl
  · exact absurd hhit' (hfree k' hk' hlt)

/-- **Back again**: when `x` is hit too, it is the first hit the other way round from `y`. -/
theorem FirstAfter.back (hx : hit x) (h : FirstAfter g hit x y) : FirstAfter (-g) hit y x := by
  obtain ⟨k, hk, rfl, -, hfree⟩ := h
  have hturn : ∀ j ≤ k, x + k • g + j • (-g) = x + (k - j) • g := by
    intro j hj
    have hsum : k • g = (k - j) • g + j • g := by rw [← add_nsmul, Nat.sub_add_cancel hj]
    rw [hsum, add_assoc, add_assoc, neg_nsmul, add_neg_cancel, add_zero]
  refine ⟨k, hk, ?_, hx, fun j hj hjk => ?_⟩
  · rw [hturn k le_rfl, Nat.sub_self, zero_nsmul, add_zero]
  · rw [hturn j hjk.le]
    exact hfree (k - j) (by omega) (by omega)

/-- A walk that meets a hit at all meets a first one. -/
theorem exists_firstAfter {k : ℕ} (hk : 0 < k) (hhit : hit (x + k • g)) :
    ∃ y, FirstAfter g hit x y := by
  classical
  have hex : ∃ k, 0 < k ∧ hit (x + k • g) := ⟨k, hk, hhit⟩
  refine ⟨_, Nat.find hex, (Nat.find_spec hex).1, rfl, (Nat.find_spec hex).2, ?_⟩
  intro j hj hlt hj'
  exact Nat.find_min hex hlt ⟨hj, hj'⟩

/-- Once round the ring a first hit has been met. -/
theorem FirstAfter.exists_le {m : ℕ} (hround : m • g = 0) (hm : 0 < m)
    (h : FirstAfter g hit x y) :
    ∃ k, 0 < k ∧ k ≤ m ∧ y = x + k • g ∧ hit y ∧ ∀ j, 0 < j → j < k → ¬hit (x + j • g) := by
  obtain ⟨k, hk, rfl, hhit, hfree⟩ := h
  refine ⟨k, hk, ?_, rfl, hhit, hfree⟩
  by_contra hgt
  refine hfree (k - m) (by omega) (by omega) ?_
  have hsum : k • g = (k - m) • g + m • g := by rw [← add_nsmul, Nat.sub_add_cancel (by omega)]
  rwa [hsum, hround, add_zero] at hhit

/-! ## The numbers up to `n` -/

section Numbers

variable {n : ℕ} {x y : Fin (n + 1)} {hit : Fin (n + 1) → Prop}

theorem val_add_nsmul_one (x : Fin (n + 1)) (k : ℕ) :
    (x + k • (1 : Fin (n + 1))).val = (x.val + k) % (n + 1) := by
  induction k with
  | zero => rw [zero_nsmul, add_zero, add_zero, mod_eq_of_lt x.isLt]
  | succ k ih =>
    rw [succ_nsmul, ← add_assoc, Fin.val_add, ih, ← add_assoc, add_mod (x.val + k) 1,
      Fin.val_one']

theorem nsmul_one_eq_zero : (n + 1) • (1 : Fin (n + 1)) = 0 := by
  refine Fin.ext ?_
  rw [← zero_add ((n + 1) • (1 : Fin (n + 1))), val_add_nsmul_one, Fin.val_zero, zero_add,
    mod_self]

theorem nsmul_neg_one_eq_zero : (n + 1) • (-1 : Fin (n + 1)) = 0 := by
  rw [neg_nsmul, nsmul_one_eq_zero, neg_zero]

/-- Every place is reached from every place, by one step or more. -/
theorem exists_eq_add_nsmul_one (x y : Fin (n + 1)) : ∃ k, 0 < k ∧ y = x + k • 1 := by
  refine ⟨y.val + (n + 1) - x.val, by omega, Fin.ext ?_⟩
  rw [val_add_nsmul_one, show x.val + (y.val + (n + 1) - x.val) = y.val + (n + 1) by omega,
    add_mod_right, mod_eq_of_lt y.isLt]

theorem exists_eq_add_nsmul_neg_one (x y : Fin (n + 1)) : ∃ k, 0 < k ∧ y = x + k • (-1) := by
  obtain ⟨k, hk, hxy⟩ := exists_eq_add_nsmul_one y x
  refine ⟨k, hk, ?_⟩
  rw [hxy, add_assoc, neg_nsmul, add_neg_cancel, add_zero]

/-- A walk that is not round the ring yet has not come back. -/
theorem add_nsmul_one_ne (x : Fin (n + 1)) {k : ℕ} (hk : 0 < k) (hlt : k < n + 1) :
    x + k • 1 ≠ x := by
  intro heq
  have hval := val_add_nsmul_one x k
  rw [heq] at hval
  rcases Nat.lt_or_ge (x.val + k) (n + 1) with h | h
  · rw [mod_eq_of_lt h] at hval
    omega
  · rw [mod_eq_sub_mod h, mod_eq_of_lt (by omega)] at hval
    omega

theorem add_nsmul_neg_one_ne (x : Fin (n + 1)) {k : ℕ} (hk : 0 < k) (hlt : k < n + 1) :
    x + k • (-1) ≠ x := by
  intro heq
  refine add_nsmul_one_ne x hk hlt ?_
  calc x + k • 1 = x + k • (-1) + k • 1 := by rw [heq]
    _ = x := by rw [neg_nsmul, add_assoc, neg_add_cancel, add_zero]

/-- The first hit is further up. -/
theorem firstAfter_of_lt (hxy : x < y) (hy : hit y) (hfree : ∀ z, x < z → z < y → ¬hit z) :
    FirstAfter 1 hit x y := by
  have hval := Fin.lt_def.mp hxy
  refine ⟨y.val - x.val, by omega, Fin.ext ?_, hy, fun j hj hjk => hfree _ ?_ ?_⟩
  · rw [val_add_nsmul_one, mod_eq_of_lt (by omega)]
    omega
  · rw [Fin.lt_def, val_add_nsmul_one, mod_eq_of_lt (by omega)]
    omega
  · rw [Fin.lt_def, val_add_nsmul_one, mod_eq_of_lt (by omega)]
    omega

/-- The first hit is behind the end, from the beginning on. -/
theorem firstAfter_of_le (hyx : y ≤ x) (hy : hit y) (hafter : ∀ z, x < z → ¬hit z)
    (hbefore : ∀ z, z < y → ¬hit z) : FirstAfter 1 hit x y := by
  have hval := Fin.le_def.mp hyx
  refine ⟨y.val + (n + 1) - x.val, by omega, Fin.ext ?_, hy, fun j hj hjk => ?_⟩
  · rw [val_add_nsmul_one, show x.val + (y.val + (n + 1) - x.val) = y.val + (n + 1) by omega,
      add_mod_right, mod_eq_of_lt y.isLt]
  · rcases Nat.lt_or_ge (x.val + j) (n + 1) with hlt | hge
    · refine hafter _ ?_
      rw [Fin.lt_def, val_add_nsmul_one, mod_eq_of_lt hlt]
      omega
    · refine hbefore _ ?_
      rw [Fin.lt_def, val_add_nsmul_one, mod_eq_sub_mod hge, mod_eq_of_lt (by omega)]
      omega

end Numbers

/-! ## The hits in their order -/

section Order

variable {α : Type*}

/-- The entry of a list at a place that goes round it. -/
def cyclicGet (xs : List α) (i : ℤ) : Option α := xs[(i % xs.length).toNat]?

variable {n : ℕ} {xs : List (Fin (n + 1))} {hit : Fin (n + 1) → Prop} {x y : Fin (n + 1)} {i : ℤ}

theorem cyclicGet_natCast {xs : List α} {k : ℕ} (hk : k < xs.length) :
    cyclicGet xs k = some xs[k] := by
  rw [cyclicGet, ← Int.natCast_mod, Int.toNat_natCast, mod_eq_of_lt hk,
    List.getElem?_eq_getElem hk]

theorem exists_cyclicGet (hne : xs ≠ []) (i : ℤ) : ∃ x, cyclicGet xs i = some x := by
  have hpos : (0 : ℤ) < xs.length := by exact_mod_cast List.length_pos_iff.mpr hne
  have hlt := Int.emod_lt_of_pos i hpos
  have hnonneg := Int.emod_nonneg i hpos.ne'
  exact ⟨_, List.getElem?_eq_getElem (by omega)⟩

theorem mem_of_cyclicGet (h : cyclicGet xs i = some x) : x ∈ xs := List.mem_of_getElem? h

/-- **Round the hits**: when the hits are listed in their order, the walk by one goes from each of
them to the next one, and from the last to the first. -/
theorem firstAfter_cyclicGet (hsorted : xs.Pairwise (· < ·)) (hmem : ∀ z, z ∈ xs ↔ hit z)
    (hx : cyclicGet xs i = some x) (hy : cyclicGet xs (i + 1) = some y) :
    FirstAfter 1 hit x y := by
  have hne : xs ≠ [] := List.ne_nil_of_mem (mem_of_cyclicGet hx)
  have hpos : (0 : ℤ) < xs.length := by exact_mod_cast List.length_pos_iff.mpr hne
  have hmono := List.pairwise_iff_getElem.mp hsorted
  have hhit : hit y := (hmem y).mp (mem_of_cyclicGet hy)
  obtain ⟨hlt, rfl⟩ := List.getElem?_eq_some_iff.mp hx
  obtain ⟨hlt', rfl⟩ := List.getElem?_eq_some_iff.mp hy
  have hnonneg := Int.emod_nonneg i hpos.ne'
  generalize hk : (i % xs.length).toNat = k at hlt hhit ⊢
  have hik : i % xs.length = k := by omega
  have hnext : ((i + 1) % xs.length).toNat = (k + 1) % xs.length := by
    rw [← Int.emod_add_emod, hik, ← cast_succ, ← Int.natCast_mod, Int.toNat_natCast]
  generalize hk' : ((i + 1) % xs.length).toNat = k' at hlt' hhit ⊢
  rw [hk'] at hnext
  rcases Nat.lt_or_ge (k + 1) xs.length with hin | hend
  · rw [mod_eq_of_lt hin] at hnext
    subst hnext
    refine firstAfter_of_lt (hmono k (k + 1) hlt hlt' (by omega)) hhit fun z hxz hzy hz => ?_
    obtain ⟨m, hm, rfl⟩ := List.mem_iff_getElem.mp ((hmem z).mpr hz)
    rcases Nat.lt_trichotomy m k with h | rfl | h
    · exact absurd (hmono m k hm hlt h) (lt_asymm hxz)
    · exact lt_irrefl _ hxz
    · rcases Nat.lt_trichotomy m (k + 1) with h' | rfl | h'
      · omega
      · exact lt_irrefl _ hzy
      · exact absurd (hmono (k + 1) m hlt' hm h') (lt_asymm hzy)
  · rw [show k + 1 = xs.length by omega, mod_self] at hnext
    subst hnext
    refine firstAfter_of_le ?_ hhit ?_ ?_
    · rcases Nat.eq_zero_or_pos k with rfl | hkpos
      · exact le_rfl
      · exact (hmono 0 k hlt' hlt hkpos).le
    · intro z hxz hz
      obtain ⟨m, hm, rfl⟩ := List.mem_iff_getElem.mp ((hmem z).mpr hz)
      rcases Nat.lt_trichotomy m k with h | rfl | h
      · exact lt_asymm hxz (hmono m k hm hlt h)
      · exact lt_irrefl _ hxz
      · omega
    · intro z hzy hz
      obtain ⟨m, hm, rfl⟩ := List.mem_iff_getElem.mp ((hmem z).mpr hz)
      rcases Nat.eq_zero_or_pos m with rfl | hmpos
      · exact lt_irrefl _ hzy
      · exact lt_asymm hzy (hmono 0 m hlt' hm hmpos)

/-- The walk the other way goes through the hits in the reverse order. -/
theorem firstAfter_cyclicGet_neg (hsorted : xs.Pairwise (· < ·)) (hmem : ∀ z, z ∈ xs ↔ hit z)
    (hx : cyclicGet xs i = some x) (hy : cyclicGet xs (i - 1) = some y) :
    FirstAfter (-1) hit x y := by
  refine FirstAfter.back ((hmem y).mp (mem_of_cyclicGet hy)) ?_
  refine firstAfter_cyclicGet hsorted hmem hy ?_
  rwa [sub_add_cancel]

end Order

end RingWalk
