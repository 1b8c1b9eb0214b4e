import Mathlib.Data.List.Perm.Basic
import Mathlib.Data.List.Range

/-!
# Data/Numbering — rows that are numbered without gaps

The rows of some items are full when they are the numbers below the count of the items, in any order.
A new item is given the next free row, and when an item goes those behind it move up by one.
-/

namespace Numbering

open List

/-- The rows are the numbers below their count. -/
def Full (rows : List ℕ) : Prop := rows.Perm (List.range rows.length)

variable {rows : List ℕ} {row : ℕ}

theorem full_nil : Full [] := List.Perm.refl _

theorem full_of_perm {rows' : List ℕ} (hperm : rows.Perm rows') (h : Full rows) : Full rows' := by
  rw [Full, ← hperm.length_eq]
  exact hperm.symm.trans h

theorem Full.nodup (h : Full rows) : rows.Nodup := h.nodup_iff.mpr nodup_range

theorem Full.mem_iff (h : Full rows) : row ∈ rows ↔ row < rows.length := by
  rw [List.Perm.mem_iff h, mem_range]

/-- **The next row** keeps the rows full. -/
theorem full_concat (h : Full rows) : Full (rows ++ [rows.length]) := by
  rw [Full, length_append, length_singleton, range_succ]
  exact h.append_right _

/-- The row behind all rows. -/
def next (rows : List ℕ) : ℕ := rows.foldl (fun n row => if n ≤ row then row + 1 else n) 0

theorem next_range (n : ℕ) : next (List.range n) = n := by
  induction n with
  | zero => rfl
  | succ n ih =>
    rw [next] at ih ⊢
    rw [range_succ, foldl_append, ih, foldl_cons, foldl_nil, if_pos le_rfl]

/-- **The row behind all rows** is their count. -/
theorem next_eq (h : Full rows) : next rows = rows.length := by
  refine (List.Perm.foldl_eq' h (fun a _ b _ n => ?_) 0).trans (next_range _)
  split_ifs <;> omega

/-- The row of an item when one of this row has gone. -/
def close (gone row : ℕ) : ℕ := if gone < row then row - 1 else row

/-- **An item goes**: the others are full again when those behind it have moved up. -/
theorem full_close (h : Full (row :: rows)) : Full (rows.map (close row)) := by
  have hlt : row < rows.length + 1 := h.mem_iff.mp mem_cons_self
  have hrows : rows.Perm ((range (rows.length + 1)).erase row) := by
    have herase := List.Perm.erase row h
    rwa [erase_cons_head] at herase
  rw [Full, length_map]
  refine (hrows.map _).trans ?_
  rw [erase_range, map_append, min_eq_right hlt.le]
  have hlow : (range row).map (close row) = range row := by
    refine (map_congr_left fun x hx => ?_).trans (map_id _)
    rw [mem_range] at hx
    exact if_neg (by omega)
  have hhigh : (range' (row + 1) (rows.length + 1 - (row + 1))).map (close row) =
      range' row (rows.length - row) := by
    refine ext_getElem (by simp) fun i h1 h2 => ?_
    simp only [getElem_map, getElem_range', close]
    split_ifs <;> omega
  rw [hlow, hhigh, range_eq_range', range_eq_range']
  have happend := range'_append_1 (s := 0) (m := row) (n := rows.length - row)
  rw [Nat.zero_add, Nat.add_sub_cancel' (Nat.lt_succ_iff.mp hlt)] at happend
  rw [happend]

end Numbering
