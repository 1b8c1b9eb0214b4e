import Mathlib.Data.List.Basic

/-!
# Data/Blocks — a list taken block by block

A state takes in the whole blocks of a list, one after the other, and leaves what is shorter than a
block.  A list that comes in parts, each taken behind what the parts before have left, gives the
state and the rest of the whole list (`append_eq`): the cuts do not matter.
-/

namespace Blocks

open List

variable {α σ : Type*} (size : ℕ) (f : σ → List α → σ)

/-- The state after the first `k` blocks. -/
def fold : ℕ → σ → List α → σ
  | 0, s, _ => s
  | k + 1, s, l => fold k (f s (l.take size)) (l.drop size)

/-- The state after all whole blocks. -/
def state (s : σ) (l : List α) : σ := fold size f (l.length / size) s l

/-- What is left behind the whole blocks. -/
def rest (l : List α) : List α := l.drop (l.length / size * size)

variable {size f} {a b l : List α} {s : σ}

theorem length_rest (l : List α) : (rest size l).length = l.length % size := by
  rw [rest, length_drop, Nat.mod_eq_sub_div_mul]

theorem state_of_lt (h : l.length < size) : state size f s l = s := by
  rw [state, Nat.div_eq_of_lt h, fold]

theorem rest_of_lt (h : l.length < size) : rest size l = l := by
  rw [rest, Nat.div_eq_of_lt h, Nat.zero_mul, drop_zero]

/-- A list with a whole block is the block and what is behind it. -/
theorem state_of_le (hsize : 0 < size) (h : size ≤ l.length) :
    state size f s l = state size f (f s (l.take size)) (l.drop size) := by
  rw [state, state, Nat.div_eq_sub_div hsize h, fold, length_drop]

theorem rest_of_le (hsize : 0 < size) (h : size ≤ l.length) :
    rest size l = rest size (l.drop size) := by
  rw [rest, rest, Nat.div_eq_sub_div hsize h, length_drop, drop_drop, Nat.succ_mul, Nat.add_comm]

theorem state_append (hsize : 0 < size) (h : a.length = size) (b : List α) :
    state size f s (a ++ b) = state size f (f s a) b := by
  rw [state_of_le hsize (by rw [length_append]; omega), take_left' h, drop_left' h]

theorem state_of_eq (hsize : 0 < size) (h : l.length = size) : state size f s l = f s l := by
  rw [← append_nil l, state_append hsize h, append_nil, state_of_lt hsize]

/-- **The parts of a list** can be taken one after the other. -/
theorem append_eq (hsize : 0 < size) (a b : List α) (s : σ) :
    state size f s (a ++ b) = state size f (state size f s a) (rest size a ++ b) ∧
      rest size (a ++ b) = rest size (rest size a ++ b) := by
  induction hn : a.length using Nat.strongRecOn generalizing a s with
  | _ n ih =>
    by_cases hlt : a.length < size
    · rw [state_of_lt hlt, rest_of_lt hlt]
      exact ⟨rfl, rfl⟩
    · have hle : size ≤ a.length := Nat.le_of_not_lt hlt
      have hle' : size ≤ (a ++ b).length := by
        rw [length_append]
        omega
      have hshort : (a.drop size).length < n := by
        rw [length_drop]
        omega
      obtain ⟨hstate, hrest⟩ := ih _ hshort (a.drop size) (f s (a.take size)) rfl
      rw [state_of_le hsize hle', rest_of_le hsize hle', take_append_of_le_length hle,
        drop_append_of_le_length hle, state_of_le (l := a) hsize hle, rest_of_le (l := a) hsize hle]
      exact ⟨hstate, hrest⟩

end Blocks
