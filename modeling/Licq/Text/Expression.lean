import Mathlib.Data.List.Range

/-!
# Text/Expression — the leftmost match of an expression

An expression is what it matches at each position of a text.  A search gives the first position from
its start on with a match, so a search from a later start gives the same match as long as the start
is not behind it (`indexOf_of_le`).
-/

namespace Text

/-- An expression on a text of a length: how much it matches at a position. -/
structure Expression (n : ℕ) where
  matchAt : ℕ → Option ℕ
  fits : ∀ {q l : ℕ}, matchAt q = some l → q + l ≤ n

namespace Expression

variable {n : ℕ} {e : Expression n} {p q l : ℕ}

/-- The leftmost match at or behind a position, with its length. -/
def indexOf (e : Expression n) (p : ℕ) : Option (ℕ × ℕ) :=
  (List.range' p (n + 1 - p)).findSome? fun q => (e.matchAt q).map (q, ·)

theorem indexOf_eq_none_iff : e.indexOf p = none ↔ ∀ q, p ≤ q → e.matchAt q = none := by
  rw [indexOf, List.findSome?_eq_none_iff]
  constructor
  · intro h q hq
    cases hmatch : e.matchAt q with
    | none => rfl
    | some l =>
      have hfits := e.fits hmatch
      have hnone := h q (List.mem_range'_1.mpr ⟨hq, by omega⟩)
      rw [hmatch] at hnone
      cases hnone
  · intro h q hq
    rw [h q (List.mem_range'_1.mp hq).1]
    rfl

theorem indexOf_eq_some_iff : e.indexOf p = some (q, l) ↔
    p ≤ q ∧ e.matchAt q = some l ∧ ∀ r, p ≤ r → r < q → e.matchAt r = none := by
  rw [indexOf, List.findSome?_eq_some_iff]
  constructor
  · rintro ⟨before, r, after, hrange, hmatch, hbefore⟩
    obtain ⟨k, hk, heq⟩ := Option.map_eq_some_iff.mp hmatch
    obtain ⟨rfl, rfl⟩ := Prod.mk.inj heq
    obtain ⟨m, hm, hpre, hafter⟩ := List.range'_eq_append_iff.mp hrange
    obtain ⟨hr, -⟩ := List.range'_eq_cons_iff.mp hafter.symm
    refine ⟨by omega, hk, fun x hx hlt => ?_⟩
    have hmem : x ∈ before := by
      rw [hpre]
      exact List.mem_range'_1.mpr ⟨hx, by omega⟩
    exact Option.map_eq_none_iff.mp (hbefore x hmem)
  · rintro ⟨hle, hmatch, hbefore⟩
    have hfits := e.fits hmatch
    refine ⟨List.range' p (q - p), q, List.range' (q + 1) (n - q), ?_, ?_, ?_⟩
    · rw [List.range'_eq_append_iff]
      refine ⟨q - p, by omega, rfl, ?_⟩
      rw [eq_comm, List.range'_eq_cons_iff]
      refine ⟨by omega, by omega, ?_⟩
      congr 1
      omega
    · rw [hmatch]
      rfl
    · intro x hx
      obtain ⟨hpx, hlt⟩ := List.mem_range'_1.mp hx
      rw [hbefore x hpx (by omega)]
      rfl

theorem le_of_indexOf (h : e.indexOf p = some (q, l)) : p ≤ q := (indexOf_eq_some_iff.mp h).1

theorem fits_of_indexOf (h : e.indexOf p = some (q, l)) : q + l ≤ n :=
  e.fits (indexOf_eq_some_iff.mp h).2.1

/-- **A later start gives the same match**, if it is not behind the match. -/
theorem indexOf_of_le {p' : ℕ} (hp : p ≤ p') (h : ∀ q l, e.indexOf p = some (q, l) → p' ≤ q) :
    e.indexOf p' = e.indexOf p := by
  cases hfind : e.indexOf p with
  | none =>
    have hnone := indexOf_eq_none_iff.mp hfind
    exact indexOf_eq_none_iff.mpr fun q hq => hnone q (hp.trans hq)
  | some found =>
    obtain ⟨q, l⟩ := found
    obtain ⟨-, hmatch, hbefore⟩ := indexOf_eq_some_iff.mp hfind
    exact indexOf_eq_some_iff.mpr
      ⟨h q l hfind, hmatch, fun r hr hlt => hbefore r (hp.trans hr) hlt⟩

/-- The expression with one match. -/
def single (q l : ℕ) (h : q + l ≤ n) : Expression n where
  matchAt r := if r = q then some l else none
  fits := by
    intro r m hmatch
    rw [Option.ite_none_right_eq_some] at hmatch
    obtain ⟨rfl, hl⟩ := hmatch
    rwa [← Option.some.inj hl]

theorem single_ne_zero {h : q + l ≤ n} (hl : l ≠ 0) {r m : ℕ}
    (hmatch : (single q l h).matchAt r = some m) : m ≠ 0 := by
  have hm := (Option.ite_none_right_eq_some.mp hmatch).2
  rwa [← Option.some.inj hm]

end Expression

end Text
