import Licq.Buffer.Basic
import Licq.Text.Bytes

/-!
# Text/Printf — formatted texts in buffers

A format is a list of pieces.  `%s` prints its string up to the first NUL, and `snprintf` cuts what
is printed to the size of the buffer.

`snprintf_eq_iff` says when nothing is lost.
-/

namespace Text

open Licq (cStr)

/-- A literal of the source. -/
def literal (s : String) : List UInt8 := asciiBytes s.toList

/-- A literal, `%s` of a string, `%c` of a character, or `%lu` of a number. -/
inductive Chunk
  | lit (s : String)
  | str (s : List UInt8)
  | chr (c : Char)
  | num (n : ℕ)

/-- A piece with all of its string. -/
def Chunk.full : Chunk → List UInt8
  | lit s => literal s
  | str s => s
  | chr c => asciiBytes [c]
  | num n => decimalBytes n

def Chunk.printed : Chunk → List UInt8
  | lit s => literal s
  | str s => cStr s
  | chr c => asciiBytes [c]
  | num n => decimalBytes n

/-- The text with all of its strings. -/
def full (pieces : List Chunk) : List UInt8 := pieces.flatMap Chunk.full

def printed (pieces : List Chunk) : List UInt8 := pieces.flatMap Chunk.printed

def snprintf (size : ℕ) (pieces : List Chunk) : List UInt8 := (printed pieces).take (size - 1)

variable {pieces : List Chunk} {size : ℕ}

/-! ## Literals side by side -/

theorem literal_append_literal (a b : String) : literal a ++ literal b = literal (a ++ b) := by
  rw [literal, literal, literal, String.toList_append, asciiBytes, asciiBytes, asciiBytes,
    List.map_append]

theorem literal_append_literal_append (a b : String) (s : List UInt8) :
    literal a ++ (literal b ++ s) = literal (a ++ b) ++ s := by
  rw [← List.append_assoc, literal_append_literal]

/-! ## Lengths -/

theorem length_literal (s : String) : (literal s).length = s.length := by
  rw [literal, asciiBytes, List.length_map, String.length_toList]

/-- The length of the literals. -/
def fixedLength : List Chunk → ℕ
  | [] => 0
  | .lit s :: pieces => s.length + fixedLength pieces
  | _ :: pieces => fixedLength pieces

/-- The length of what is put in. -/
def givenLength : List Chunk → ℕ
  | [] => 0
  | .lit _ :: pieces => givenLength pieces
  | p :: pieces => p.full.length + givenLength pieces

theorem length_full (pieces : List Chunk) :
    (full pieces).length = givenLength pieces + fixedLength pieces := by
  induction pieces with
  | nil => rfl
  | cons p pieces ih =>
    rw [full, List.flatMap_cons, List.length_append]
    change p.full.length + (full pieces).length = _
    rw [ih]
    cases p with
    | lit s =>
      rw [Chunk.full, length_literal, givenLength, fixedLength]
      omega
    | _ => exact (Nat.add_assoc _ _ _).symm

/-! ## What is lost -/

theorem length_cStr_le (s : List UInt8) : (cStr s).length ≤ s.length :=
  (List.takeWhile_prefix _).length_le

theorem cStr_eq_self_iff {s : List UInt8} : cStr s = s ↔ 0 ∉ s := by
  rw [cStr, List.takeWhile_eq_self_iff]
  constructor
  · intro h hmem
    exact absurd (h 0 hmem) (by decide)
  · intro h c hc
    exact decide_eq_true fun heq => h (heq ▸ hc)

theorem Chunk.length_printed_le (p : Chunk) : p.printed.length ≤ p.full.length := by
  cases p with
  | str s => exact length_cStr_le s
  | _ => exact Nat.le_refl _

theorem length_printed_le (pieces : List Chunk) :
    (printed pieces).length ≤ (full pieces).length := by
  induction pieces with
  | nil => exact Nat.le_refl _
  | cons p pieces ih =>
    rw [printed, full, List.flatMap_cons, List.flatMap_cons, List.length_append, List.length_append]
    exact Nat.add_le_add p.length_printed_le ih

/-- A piece is printed in full when its string has no NUL. -/
theorem Chunk.printed_eq_full_iff (p : Chunk) :
    p.printed = p.full ↔ ∀ s, p = str s → 0 ∉ s := by
  cases p with
  | str s =>
    rw [printed, full, cStr_eq_self_iff]
    exact ⟨fun h s' heq => by cases heq; exact h, fun h => h s rfl⟩
  | _ => exact iff_of_true rfl fun s heq => by cases heq

/-- What is as long as the full text is the full text. -/
theorem printed_eq_full (h : (printed pieces).length = (full pieces).length) :
    printed pieces = full pieces ∧ ∀ p ∈ pieces, p.printed = p.full := by
  induction pieces with
  | nil => exact ⟨rfl, by simp⟩
  | cons p pieces ih =>
    have hp := p.length_printed_le
    have hrest := length_printed_le pieces
    rw [printed, full, List.flatMap_cons, List.flatMap_cons, List.length_append,
      List.length_append] at h
    change p.printed.length + (printed pieces).length = p.full.length + (full pieces).length at h
    obtain ⟨heq, hall⟩ := ih (by omega)
    have hlength : p.printed.length = p.full.length := by omega
    have hhead : p.printed = p.full := by
      cases p with
      | str s => exact (List.takeWhile_prefix _).eq_of_length hlength
      | _ => rfl
    refine ⟨?_, List.forall_mem_cons.mpr ⟨hhead, hall⟩⟩
    rw [printed, full, List.flatMap_cons, List.flatMap_cons, hhead]
    exact congrArg _ heq

theorem length_snprintf_le (size : ℕ) (pieces : List Chunk) :
    (snprintf size pieces).length ≤ (full pieces).length := by
  rw [snprintf, List.length_take]
  exact (Nat.min_le_right _ _).trans (length_printed_le pieces)

theorem length_snprintf_lt (h : 0 < size) (pieces : List Chunk) :
    (snprintf size pieces).length < size := by
  rw [snprintf, List.length_take]
  omega

/-- What is as long as the full text is the full text, also in a buffer. -/
theorem snprintf_eq_full (h : (snprintf size pieces).length = (full pieces).length) :
    snprintf size pieces = full pieces := by
  have hle := length_printed_le pieces
  rw [snprintf, List.length_take] at h
  rw [snprintf, List.take_of_length_le (by omega)]
  exact (printed_eq_full (by omega)).1

/-- **Nothing is lost** when no string has a NUL and the text fits its buffer. -/
theorem snprintf_eq_iff : snprintf size pieces = full pieces ↔
    (∀ s, Chunk.str s ∈ pieces → 0 ∉ s) ∧ (full pieces).length ≤ size - 1 := by
  constructor
  · intro h
    have hlength := congrArg List.length h
    have hle := length_printed_le pieces
    rw [snprintf, List.length_take] at hlength
    obtain ⟨-, hall⟩ := printed_eq_full (show (printed pieces).length = _ by omega)
    refine ⟨fun s hs => ?_, by omega⟩
    exact (Chunk.printed_eq_full_iff _).mp (hall _ hs) s rfl
  · rintro ⟨hnul, hle⟩
    have hprinted : printed pieces = full pieces :=
      List.flatMap_congr fun p hp =>
        p.printed_eq_full_iff.mpr fun s heq => hnul s (heq ▸ hp)
    rw [snprintf, hprinted]
    exact List.take_of_length_le hle

end Text
