import Licq.Wire.Words

/-!
# Buffer/Basic — the packet buffer

`Licq::Buffer` of `buffer.h` and `buffer.cpp`: a piece of memory with a position up to which it has
been written and one up to which it has been read.  The data is what stands between the start and
the write position; both positions keep within their bounds by construction, because every
operation checks them before it moves one.  The one that does not is `incDataPosRead`, and there
the model has no value where the read position leaves the data.
-/

open Wire

namespace Licq

/-- The string that a `const char*` points to. -/
def cStr (s : List UInt8) : List UInt8 := s.takeWhile (· ≠ 0)

/-- A buffer: whether it has memory, how much, what has been written to it and how much of that has
been read. -/
structure Buffer where
  allocated : Bool
  /-- `m_nDataSize` -/
  maxSize : ℕ
  /-- The bytes between `m_pDataStart` and `m_pDataPosWrite`. -/
  data : List UInt8
  /-- `m_pDataPosRead - m_pDataStart` -/
  posRead : ℕ
  data_le : data.length ≤ maxSize
  posRead_le : posRead ≤ data.length
  deriving DecidableEq, Repr

namespace Buffer

/-! ## Memory -/

/-- A buffer without memory, as `Buffer()` and `Clear` leave it. -/
def clear : Buffer := ⟨false, 0, [], 0, Nat.le_refl 0, Nat.le_refl 0⟩

/-- `Buffer(_nDataSize)`. -/
def ofSize (n : ℕ) : Buffer := ⟨n ≠ 0, n, [], 0, Nat.zero_le n, Nat.le_refl 0⟩

/-- `Create`, which keeps the old size when it is given none. -/
def create (b : Buffer) (n : ℕ) : Buffer :=
  ⟨true, if n ≠ 0 then n else b.maxSize, [], 0, Nat.zero_le _, Nat.le_refl 0⟩

/-- A buffer that holds data received, at its start. -/
def ofData (data : List UInt8) : Buffer :=
  ⟨true, data.length, data, 0, Nat.le_refl _, Nat.zero_le _⟩

def empty (b : Buffer) : Bool := !b.allocated

def getDataSize (b : Buffer) : ℕ := b.data.length

def full (b : Buffer) : Bool := !b.empty && b.maxSize ≤ b.getDataSize

def remainingDataToWrite (b : Buffer) : ℕ := b.maxSize - b.data.length

def remainingDataToRead (b : Buffer) : ℕ := b.data.length - b.posRead

/-! ## Writing -/

/-- `packRaw`: data that does not fit is not written at all. -/
def packRaw (b : Buffer) (data : List UInt8) : Buffer :=
  if h : b.remainingDataToWrite < data.length then b
  else
    { b with
      data := b.data ++ data
      data_le := by
        have := b.data_le
        rw [List.length_append]
        rw [remainingDataToWrite] at h
        omega
      posRead_le := by
        have := b.posRead_le
        rw [List.length_append]
        omega }

def packUInt8 (b : Buffer) (n : UInt8) : Buffer := b.packRaw [n]

def packUInt16LE (b : Buffer) (n : UInt16) : Buffer := b.packRaw (bytesLE 2 n.toNat)

def packUInt32LE (b : Buffer) (n : UInt32) : Buffer := b.packRaw (bytesLE 4 n.toNat)

/-- `packShortNullStringLE`: the length with the terminator, the string and the terminator. -/
def packShortNullStringLE (b : Buffer) (s : List UInt8) : Buffer :=
  b.packRaw (bytesLE 2 (s.length + 1) ++ s ++ [0])

/-! ## Reading -/

/-- Moving the read position over bytes that are there. -/
def advance (b : Buffer) (n : ℕ) (h : n ≤ b.remainingDataToRead) : Buffer :=
  { b with
    posRead := b.posRead + n
    posRead_le := by
      have := b.posRead_le
      rw [remainingDataToRead] at h
      omega }

/-- `incDataPosRead`, which checks nothing: none where the read position leaves the data.  Its
argument is an `unsigned long`, so that a negative number moves the position back. -/
def incDataPosRead (b : Buffer) (c : ℤ) : Option Buffer :=
  if h : 0 ≤ b.posRead + c ∧ b.posRead + c ≤ b.data.length then
    some { b with posRead := (b.posRead + c).toNat, posRead_le := by omega }
  else none

/-- The next `n` bytes; where fewer remain none is read. -/
@[irreducible] def unpack (b : Buffer) (n : ℕ) : List UInt8 × Buffer :=
  if h : b.remainingDataToRead < n then ([], b)
  else ((b.data.drop b.posRead).take n, b.advance n (Nat.not_lt.mp h))

/-- `unpackRawString`: as much of the string as remains. -/
def unpackRawString (b : Buffer) (size : ℕ) : List UInt8 × Buffer :=
  b.unpack (min size b.remainingDataToRead)

def unpackUInt8 (b : Buffer) : UInt8 × Buffer :=
  (UInt8.ofNat (valueLE (b.unpack 1).1), (b.unpack 1).2)

def unpackUInt16LE (b : Buffer) : UInt16 × Buffer :=
  (UInt16.ofNat (valueLE (b.unpack 2).1), (b.unpack 2).2)

def unpackUInt16BE (b : Buffer) : UInt16 × Buffer :=
  (UInt16.ofNat (valueBE (b.unpack 2).1), (b.unpack 2).2)

def unpackUInt32LE (b : Buffer) : UInt32 × Buffer :=
  (UInt32.ofNat (valueLE (b.unpack 4).1), (b.unpack 4).2)

def unpackUInt32BE (b : Buffer) : UInt32 × Buffer :=
  (UInt32.ofNat (valueBE (b.unpack 4).1), (b.unpack 4).2)

def unpackByteString (b : Buffer) : List UInt8 × Buffer :=
  b.unpackUInt8.2.unpackRawString b.unpackUInt8.1.toNat

/-! ## Laws -/

theorem full_iff {b : Buffer} :
    b.full = true ↔ b.allocated = true ∧ b.maxSize ≤ b.data.length := by
  rw [full, empty, Bool.not_not, Bool.and_eq_true, decide_eq_true_iff, getDataSize]

theorem create_maxSize (b : Buffer) {n : ℕ} (h : n ≠ 0) : (b.create n).maxSize = n := by
  change (if n ≠ 0 then n else b.maxSize) = n
  rw [if_pos h]

theorem packRaw_data {b : Buffer} {data : List UInt8} (h : data.length ≤ b.remainingDataToWrite) :
    (b.packRaw data).data = b.data ++ data := by
  rw [packRaw, dif_neg (Nat.not_lt.mpr h)]

theorem packRaw_of_lt {b : Buffer} {data : List UInt8} (h : b.remainingDataToWrite < data.length) :
    b.packRaw data = b := by
  rw [packRaw, dif_pos h]

@[simp] theorem packRaw_maxSize (b : Buffer) (data : List UInt8) :
    (b.packRaw data).maxSize = b.maxSize := by
  rw [packRaw]
  split <;> rfl

@[simp] theorem packRaw_allocated (b : Buffer) (data : List UInt8) :
    (b.packRaw data).allocated = b.allocated := by
  rw [packRaw]
  split <;> rfl

@[simp] theorem packRaw_posRead (b : Buffer) (data : List UInt8) :
    (b.packRaw data).posRead = b.posRead := by
  rw [packRaw]
  split <;> rfl

theorem unpack_of_le {b : Buffer} {n : ℕ} (h : n ≤ b.remainingDataToRead) :
    (b.unpack n).1 = (b.data.drop b.posRead).take n ∧
      (b.unpack n).2.posRead = b.posRead + n := by
  rw [unpack, dif_neg (Nat.not_lt.mpr h)]
  exact ⟨rfl, rfl⟩

@[simp] theorem unpack_data (b : Buffer) (n : ℕ) : (b.unpack n).2.data = b.data := by
  rw [unpack]
  split <;> rfl

@[simp] theorem unpack_maxSize (b : Buffer) (n : ℕ) : (b.unpack n).2.maxSize = b.maxSize := by
  rw [unpack]
  split <;> rfl

@[simp] theorem unpack_allocated (b : Buffer) (n : ℕ) :
    (b.unpack n).2.allocated = b.allocated := by
  rw [unpack]
  split <;> rfl

end Buffer

end Licq
