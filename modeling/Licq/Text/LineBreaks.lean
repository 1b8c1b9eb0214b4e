import Licq.Text.Translator

/-!
# Text/LineBreaks — line breaks on the way to Unix

`returnToUnix` takes the carriage return behind a line feed away, which is the pair that
`returnToDos` writes, and makes a line feed of every other carriage return.  The pair in the order
carriage return, line feed thus becomes two line feeds, unless another carriage return comes behind.

The **main result** `keepsBreaks_iff`: every line break becomes one line feed exactly when every
such pair has a carriage return behind it.
-/

namespace Licq

open List

/-! ## Line breaks -/

/-- Two bytes are one line break, in either order. -/
def IsPair (c d : UInt8) : Prop := (c = cr ∧ d = lf) ∨ (c = lf ∧ d = cr)

instance (c d : UInt8) : Decidable (IsPair c d) := inferInstanceAs (Decidable (_ ∨ _))

/-- Every line break, read from the left, as one line feed. -/
def unixBreaks : List UInt8 → List UInt8
  | [] => []
  | [c] => [if c = cr then lf else c]
  | c :: d :: s =>
    if IsPair c d then lf :: unixBreaks s else (if c = cr then lf else c) :: unixBreaks (d :: s)

/-- The bytes that are not of line breaks. -/
def otherBytes (s : List UInt8) : List UInt8 := s.filter fun c => c ≠ cr ∧ c ≠ lf

/-- Every line break becomes one line feed, what `returnToDos` makes is turned back, and the other
bytes stay. -/
structure KeepsBreaks (s : List UInt8) : Prop where
  breaks : returnToUnix s = unixBreaks s
  back : cr ∉ s → returnToUnix (returnToDos s) = s
  unix : otherBytes (returnToUnix s) = otherBytes s
  dos : otherBytes (returnToDos s) = otherBytes s

/-- Every line break of a carriage return and a line feed has a carriage return behind it. -/
def ReturnFollows : List UInt8 → Prop
  | [] | [_] => True
  | c :: d :: s =>
    if c = cr ∧ d = lf then s.head? = some cr ∧ ReturnFollows s
    else if c = lf ∧ d = cr then ReturnFollows s
    else ReturnFollows (d :: s)

/-! ## One break -/

theorem returnToUnix_cr (s : List UInt8) : returnToUnix (cr :: s) = lf :: returnToUnix s := by
  rw [returnToUnix, dropReturns_cons_of_ne (by decide), map_cons, if_pos rfl, returnToUnix]

theorem returnToUnix_lf {s : List UInt8} (h : s.head? ≠ some cr) :
    returnToUnix (lf :: s) = lf :: returnToUnix s := by
  rw [returnToUnix, dropReturns_lf h, map_cons, if_neg (by decide), returnToUnix]

theorem returnToUnix_lf_cr (s : List UInt8) :
    returnToUnix (lf :: cr :: s) = lf :: returnToUnix s := by
  rw [returnToUnix, dropReturns_lf_cr, map_cons, if_neg (by decide), returnToUnix]

theorem returnToUnix_cons {c : UInt8} (h : c ≠ lf) (s : List UInt8) :
    returnToUnix (c :: s) = (if c = cr then lf else c) :: returnToUnix s := by
  rw [returnToUnix, dropReturns_cons_of_ne h, map_cons, returnToUnix]

/-- What is no pair is read alone. -/
theorem returnToUnix_of_not_pair {c d : UInt8} (h : ¬ IsPair c d) (s : List UInt8) :
    returnToUnix (c :: d :: s) = (if c = cr then lf else c) :: returnToUnix (d :: s) := by
  by_cases hc : c = lf
  · subst hc
    have hd : (d :: s).head? ≠ some cr := fun hhead => h (.inr ⟨rfl, Option.some.inj hhead⟩)
    rw [returnToUnix_lf hd, if_neg (by decide)]
  · exact returnToUnix_cons hc (d :: s)

/-! ## Texts -/

/-- No line break is lost. -/
theorem length_unixBreaks_le (s : List UInt8) :
    (unixBreaks s).length ≤ (returnToUnix s).length := by
  fun_induction unixBreaks s with
  | case1 => exact le_rfl
  | case2 c => exact le_rfl
  | case3 c d s hpair ih =>
    rcases hpair with ⟨rfl, rfl⟩ | ⟨rfl, rfl⟩
    · by_cases hs : s.head? = some cr
      · obtain ⟨s, rfl⟩ := head?_eq_some_iff.mp hs
        rw [returnToUnix_cr] at ih
        rw [returnToUnix_cr, returnToUnix_lf_cr]
        exact Nat.succ_le_succ ih
      · rw [returnToUnix_cr, returnToUnix_lf hs]
        exact Nat.succ_le_succ (ih.trans (Nat.le_succ _))
    · rw [returnToUnix_lf_cr]
      exact Nat.succ_le_succ ih
  | case4 c d s hpair ih =>
    rw [returnToUnix_of_not_pair hpair]
    exact Nat.succ_le_succ ih

/-- **Every line break becomes one line feed** exactly when a carriage return follows where the
order is the other one. -/
theorem returnToUnix_eq_unixBreaks_iff (s : List UInt8) :
    returnToUnix s = unixBreaks s ↔ ReturnFollows s := by
  fun_induction unixBreaks s with
  | case1 => exact iff_of_true rfl trivial
  | case2 c => exact iff_of_true rfl trivial
  | case3 c d s hpair ih =>
    rw [ReturnFollows]
    rcases hpair with ⟨rfl, rfl⟩ | ⟨rfl, rfl⟩
    · rw [if_pos ⟨rfl, rfl⟩, returnToUnix_cr]
      by_cases hs : s.head? = some cr
      · obtain ⟨t, rfl⟩ := head?_eq_some_iff.mp hs
        rw [returnToUnix_cr] at ih
        rw [returnToUnix_lf_cr, and_iff_right hs, ← ih, cons_inj_right]
      · refine iff_of_false (fun heq => ?_) fun h => hs h.1
        have hlen := congrArg List.length heq
        rw [returnToUnix_lf hs, length_cons, length_cons, length_cons] at hlen
        have := length_unixBreaks_le s
        omega
    · rw [if_neg (by decide), if_pos ⟨rfl, rfl⟩, returnToUnix_lf_cr, cons_inj_right, ih]
  | case4 c d s hpair ih =>
    obtain ⟨hcr, hlf⟩ := not_or.mp hpair
    rw [ReturnFollows, if_neg hcr, if_neg hlf, returnToUnix_of_not_pair hpair, cons_inj_right,
      ih]

theorem otherBytes_cons (c : UInt8) (s : List UInt8) :
    otherBytes (c :: s) = otherBytes [c] ++ otherBytes s :=
  filter_append [c] s

theorem otherBytes_dropReturns (s : List UInt8) : otherBytes (dropReturns s) = otherBytes s := by
  fun_induction dropReturns s with
  | case1 => rfl
  | case2 c => rfl
  | case3 c d s h ih =>
    obtain ⟨rfl, rfl⟩ := h
    exact ih
  | case4 c d s h ih =>
    rw [otherBytes_cons, ih, ← otherBytes_cons]

/-- The other bytes stay on the way to Unix. -/
theorem otherBytes_returnToUnix (s : List UInt8) : otherBytes (returnToUnix s) = otherBytes s := by
  have hmap : ∀ s : List UInt8,
      otherBytes (s.map fun c => if c = cr then lf else c) = otherBytes s := by
    intro s
    induction s with
    | nil => rfl
    | cons c s ih =>
      rw [map_cons, otherBytes_cons, ih, otherBytes_cons c]
      by_cases hc : c = cr
      · subst hc
        rfl
      · rw [if_neg hc]
  rw [returnToUnix, hmap, otherBytes_dropReturns]

/-- The other bytes stay on the way to DOS. -/
theorem otherBytes_returnToDos (s : List UInt8) : otherBytes (returnToDos s) = otherBytes s := by
  induction s with
  | nil => rfl
  | cons c s ih =>
    rw [returnToDos]
    split_ifs with h
    · obtain ⟨rfl, -⟩ := h
      exact ih
    · rw [otherBytes_cons, ih, ← otherBytes_cons]

/-- **The texts whose line breaks come out right**: those in which every carriage return and line
feed of one break have a carriage return behind them.  The rest holds for every text. -/
theorem keepsBreaks_iff (s : List UInt8) : KeepsBreaks s ↔ ReturnFollows s := by
  rw [← returnToUnix_eq_unixBreaks_iff]
  refine ⟨KeepsBreaks.breaks, fun h => ⟨h, fun hcr => ?_, otherBytes_returnToUnix s,
    otherBytes_returnToDos s⟩⟩
  rw [returnToUnix_returnToDos, returnToUnix_eq_self_iff]
  exact hcr

/-- A break of the DOS kind becomes two. -/
theorem not_keepsBreaks_crlf : ¬ KeepsBreaks [0x61, cr, lf, 0x62] := fun h =>
  absurd h.breaks (by decide)

end Licq
