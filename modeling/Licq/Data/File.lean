import Mathlib.Data.List.Basic

/-!
# Data/File — writing a file at an offset

A file is the list of its bytes.  A write replaces the bytes from the offset on, as far as it goes,
and leaves the others.
-/

namespace File

variable {α : Type*}

/-- The file after a write at an offset that is not behind its end. -/
def writeAt (file : List α) (offset : ℕ) (bytes : List α) : List α :=
  file.take offset ++ bytes ++ file.drop (offset + bytes.length)

variable {file bytes : List α} {offset : ℕ}

theorem length_writeAt (h : offset ≤ file.length) :
    (writeAt file offset bytes).length = max file.length (offset + bytes.length) := by
  simp only [writeAt, List.length_append, List.length_take, List.length_drop]
  omega

/-- **Up to the end of a write** there is what was there before it, and what is written. -/
theorem take_writeAt (h : offset ≤ file.length) :
    (writeAt file offset bytes).take (offset + bytes.length) = file.take offset ++ bytes := by
  refine List.take_left' ?_
  rw [List.length_append, List.length_take, Nat.min_eq_left h]

/-- A file that is no longer than what has been written is just that. -/
theorem eq_take_of_length_le (h : file.length ≤ offset) : file = file.take offset :=
  (List.take_of_length_le h).symm

end File
