import Licq.Buffer.Reading

/-!
# Buffer/Fields — a sequence of fields, packed and unpacked

The packers and unpackers of `buffer.cpp`, one for every kind of field.  What a packer appends is
`Field.bytes`; an unpacker that finds these bytes next takes just them (`Next` and its lemmas).

The **main result** `readsBack_iff` says which sequences of fields come back.  A string that is
packed with a terminator never does: `unpackShortStringLE` returns the terminator as its last
character.  A string with a length before it does where the length fits in its word.
-/

open Wire

namespace Licq

open List

namespace Buffer

/-! ## Packers -/

def packInt8 (b : Buffer) (n : Int8) : Buffer := b.packRaw [n.toUInt8]

def packUInt16BE (b : Buffer) (n : UInt16) : Buffer := b.packRaw (bytesBE 2 n.toNat)

def packUInt32BE (b : Buffer) (n : UInt32) : Buffer := b.packRaw (bytesBE 4 n.toNat)

/-- `packString16BE`, which asserts that the string fits. -/
def packString16BE (b : Buffer) (s : List UInt8) : Option Buffer :=
  if s.length + 2 ≤ b.remainingDataToWrite then some (b.packRaw (bytesBE 2 s.length ++ s))
  else none

/-- `packString32LE`, which asserts that the string fits. -/
def packString32LE (b : Buffer) (s : List UInt8) : Option Buffer :=
  if s.length + 4 ≤ b.remainingDataToWrite then some (b.packRaw (bytesLE 4 s.length ++ s))
  else none

attribute [ext] Buffer

@[simp] theorem packRaw_nil (b : Buffer) : b.packRaw [] = b := by
  have h := @packRaw_data b [] (Nat.zero_le _)
  ext1
  · exact packRaw_allocated b []
  · exact packRaw_maxSize b []
  · rw [h, append_nil]
  · exact packRaw_posRead b []

/-- Packing twice is packing once, where both fit. -/
theorem packRaw_packRaw {b : Buffer} {data data' : List UInt8}
    (h : (data ++ data').length ≤ b.remainingDataToWrite) :
    (b.packRaw data).packRaw data' = b.packRaw (data ++ data') := by
  have hboth := packRaw_data h
  rw [length_append] at h
  have hfst : (b.packRaw data).data = b.data ++ data := packRaw_data (by omega)
  have hsnd : data'.length ≤ (b.packRaw data).remainingDataToWrite := by
    rw [remainingDataToWrite, packRaw_maxSize, hfst, length_append]
    rw [remainingDataToWrite] at h
    omega
  ext1
  · rw [packRaw_allocated, packRaw_allocated, packRaw_allocated]
  · rw [packRaw_maxSize, packRaw_maxSize, packRaw_maxSize]
  · rw [packRaw_data hsnd, hfst, hboth, append_assoc]
  · rw [packRaw_posRead, packRaw_posRead, packRaw_posRead]

/-- What is in the buffer stays at its start. -/
theorem packRaw_prefix (b : Buffer) (data : List UInt8) : b.data <+: (b.packRaw data).data := by
  rw [packRaw]
  split
  · exact prefix_refl _
  · exact prefix_append _ _

/-! ## Unpackers -/

def unpackInt8 (b : Buffer) : Int8 × Buffer := (b.unpackUInt8.1.toInt8, b.unpackUInt8.2)

def unpackShortStringLE (b : Buffer) : List UInt8 × Buffer :=
  b.unpackUInt16LE.2.unpackRawString b.unpackUInt16LE.1.toNat

def unpackShortStringBE (b : Buffer) : List UInt8 × Buffer :=
  b.unpackUInt16BE.2.unpackRawString b.unpackUInt16BE.1.toNat

def unpackLongStringLE (b : Buffer) : List UInt8 × Buffer :=
  b.unpackUInt32LE.2.unpackRawString b.unpackUInt32LE.1.toNat

def unpackLongStringBE (b : Buffer) : List UInt8 × Buffer :=
  b.unpackUInt32BE.2.unpackRawString b.unpackUInt32BE.1.toNat

/-- `End`: the read position has come to the write position. -/
def isEnd (b : Buffer) : Bool := b.getDataSize ≤ b.posRead

/-! ## What comes next -/

section Next

variable {b : Buffer} {bytes tail : List UInt8}

theorem unpack_append (h : b.rest = bytes ++ tail) :
    (b.unpack bytes.length).1 = bytes ∧ (b.unpack bytes.length).2.rest = tail := by
  have hle : bytes.length ≤ b.rest.length := by
    rw [h, length_append]
    exact Nat.le_add_right _ _
  obtain ⟨hbytes, hrest⟩ := unpack_rest hle
  rw [hbytes, hrest, h]
  exact ⟨take_left, drop_left⟩

/-- A string of which the reader knows the size, cut where the data ends. -/
theorem unpackRawString_eq (b : Buffer) (size : ℕ) :
    (b.unpackRawString size).1 = b.rest.take size := by
  have hle : min size b.remainingDataToRead ≤ b.rest.length := by
    rw [length_rest]
    exact Nat.min_le_right _ _
  rw [unpackRawString, (unpack_rest hle).1, ← length_rest]
  exact take_eq_take_iff.mpr (by omega)

theorem unpackRawString_append (h : b.rest = bytes ++ tail) :
    (b.unpackRawString bytes.length).1 = bytes ∧
      (b.unpackRawString bytes.length).2.rest = tail := by
  rw [unpackRawString_eq, unpackRawString_rest, h]
  exact ⟨take_left, drop_left⟩

theorem unpackInt8_rest {n : Int8} (h : b.rest = n.toUInt8 :: tail) :
    b.unpackInt8.1 = n ∧ b.unpackInt8.2.rest = tail := by
  obtain ⟨hvalue, hrest⟩ := unpackUInt8_rest h
  refine ⟨?_, hrest⟩
  change b.unpackUInt8.1.toInt8 = n
  rw [hvalue, Int8.toInt8_toUInt8]

variable {n : ℕ}

theorem unpackUInt16LE_append (h : b.rest = bytesLE 2 n ++ tail) :
    b.unpackUInt16LE.1 = UInt16.ofNat n ∧ b.unpackUInt16LE.2.rest = tail := by
  obtain ⟨hbytes, hrest⟩ := unpack_append h
  rw [length_bytesLE] at hbytes hrest
  refine ⟨?_, hrest⟩
  change UInt16.ofNat (valueLE (b.unpack 2).1) = _
  rw [hbytes, valueLE_bytesLE]
  exact UInt16.ofNat_mod_size

theorem unpackUInt16BE_append (h : b.rest = bytesBE 2 n ++ tail) :
    b.unpackUInt16BE.1 = UInt16.ofNat n ∧ b.unpackUInt16BE.2.rest = tail := by
  obtain ⟨hbytes, hrest⟩ := unpack_append h
  rw [length_bytesBE] at hbytes hrest
  refine ⟨?_, hrest⟩
  change UInt16.ofNat (valueBE (b.unpack 2).1) = _
  rw [hbytes, valueBE_bytesBE]
  exact UInt16.ofNat_mod_size

theorem unpackUInt32LE_append (h : b.rest = bytesLE 4 n ++ tail) :
    b.unpackUInt32LE.1 = UInt32.ofNat n ∧ b.unpackUInt32LE.2.rest = tail := by
  obtain ⟨hbytes, hrest⟩ := unpack_append h
  rw [length_bytesLE] at hbytes hrest
  refine ⟨?_, hrest⟩
  change UInt32.ofNat (valueLE (b.unpack 4).1) = _
  rw [hbytes, valueLE_bytesLE]
  exact UInt32.ofNat_mod_size

theorem unpackUInt32BE_append (h : b.rest = bytesBE 4 n ++ tail) :
    b.unpackUInt32BE.1 = UInt32.ofNat n ∧ b.unpackUInt32BE.2.rest = tail := by
  obtain ⟨hbytes, hrest⟩ := unpack_append h
  rw [length_bytesBE] at hbytes hrest
  refine ⟨?_, hrest⟩
  change UInt32.ofNat (valueBE (b.unpack 4).1) = _
  rw [hbytes, valueBE_bytesBE]
  exact UInt32.ofNat_mod_size

/-- A string of which the length `n` was announced in a word of 16 bits. -/
theorem unpackShortStringLE_append (h : b.rest = bytesLE 2 n ++ tail) :
    b.unpackShortStringLE.1 = tail.take (n % 2 ^ 16) ∧
      b.unpackShortStringLE.2.rest = tail.drop (n % 2 ^ 16) := by
  obtain ⟨hvalue, hrest⟩ := unpackUInt16LE_append h
  rw [unpackShortStringLE, unpackRawString_eq, unpackRawString_rest, hrest, hvalue,
    UInt16.toNat_ofNat']
  exact ⟨rfl, rfl⟩

theorem unpackShortStringBE_append (h : b.rest = bytesBE 2 n ++ tail) :
    b.unpackShortStringBE.1 = tail.take (n % 2 ^ 16) ∧
      b.unpackShortStringBE.2.rest = tail.drop (n % 2 ^ 16) := by
  obtain ⟨hvalue, hrest⟩ := unpackUInt16BE_append h
  rw [unpackShortStringBE, unpackRawString_eq, unpackRawString_rest, hrest, hvalue,
    UInt16.toNat_ofNat']
  exact ⟨rfl, rfl⟩

theorem unpackLongStringLE_append (h : b.rest = bytesLE 4 n ++ tail) :
    b.unpackLongStringLE.1 = tail.take (n % 2 ^ 32) ∧
      b.unpackLongStringLE.2.rest = tail.drop (n % 2 ^ 32) := by
  obtain ⟨hvalue, hrest⟩ := unpackUInt32LE_append h
  rw [unpackLongStringLE, unpackRawString_eq, unpackRawString_rest, hrest, hvalue,
    UInt32.toNat_ofNat']
  exact ⟨rfl, rfl⟩

end Next

/-! ## Fields -/

/-- What a packer is called with. -/
inductive Field
  | uint8 (n : UInt8)
  | int8 (n : Int8)
  | uint16LE (n : UInt16)
  | uint16BE (n : UInt16)
  | uint32LE (n : UInt32)
  | uint32BE (n : UInt32)
  | raw (data : List UInt8)
  | shortNullStringLE (s : List UInt8)
  | string16BE (s : List UInt8)
  | string32LE (s : List UInt8)
  deriving DecidableEq, Repr

/-- What a reader knows of a field that it is to unpack. -/
inductive FieldKind
  | uint8 | int8 | uint16LE | uint16BE | uint32LE | uint32BE
  | raw (size : ℕ)
  | shortNullStringLE | string16BE | string32LE
  deriving DecidableEq, Repr

namespace Field

/-- `PackUnsignedLong` of an `unsigned long`. -/
def long (n : ℕ) : Field := .uint32LE (UInt32.ofNat n)

/-- `PackChar` of an `int`. -/
def char (n : ℤ) : Field := .int8 (Int8.ofInt n)

def kind : Field → FieldKind
  | uint8 _ => .uint8
  | int8 _ => .int8
  | uint16LE _ => .uint16LE
  | uint16BE _ => .uint16BE
  | uint32LE _ => .uint32LE
  | uint32BE _ => .uint32BE
  | raw data => .raw data.length
  | shortNullStringLE _ => .shortNullStringLE
  | string16BE _ => .string16BE
  | string32LE _ => .string32LE

/-- The packer for a field; none where an assertion fails. -/
def pack (b : Buffer) : Field → Option Buffer
  | uint8 n => some (b.packUInt8 n)
  | int8 n => some (b.packInt8 n)
  | uint16LE n => some (b.packUInt16LE n)
  | uint16BE n => some (b.packUInt16BE n)
  | uint32LE n => some (b.packUInt32LE n)
  | uint32BE n => some (b.packUInt32BE n)
  | raw data => some (b.packRaw data)
  | shortNullStringLE s => some (b.packShortNullStringLE s)
  | string16BE s => b.packString16BE s
  | string32LE s => b.packString32LE s

/-- The bytes that a packer appends where they fit. -/
def bytes : Field → List UInt8
  | uint8 n => [n]
  | int8 n => [n.toUInt8]
  | uint16LE n => bytesLE 2 n.toNat
  | uint16BE n => bytesBE 2 n.toNat
  | uint32LE n => bytesLE 4 n.toNat
  | uint32BE n => bytesBE 4 n.toNat
  | raw data => data
  | shortNullStringLE s => bytesLE 2 (s.length + 1) ++ s ++ [0]
  | string16BE s => bytesBE 2 s.length ++ s
  | string32LE s => bytesLE 4 s.length ++ s

/-- The fields that an unpacker gives back: no string with a terminator, and no string that is too
long for the word with its length. -/
def ComesBack : Field → Prop
  | shortNullStringLE _ => False
  | string16BE s => s.length < 2 ^ 16
  | string32LE s => s.length < 2 ^ 32
  | _ => True

instance (f : Field) : Decidable f.ComesBack := by
  cases f <;> unfold ComesBack <;> infer_instance

theorem pack_of_fits {b : Buffer} {f : Field} (h : f.bytes.length ≤ b.remainingDataToWrite) :
    f.pack b = some (b.packRaw f.bytes) := by
  cases f with
  | string16BE s =>
    rw [bytes, length_append, length_bytesBE, Nat.add_comm] at h
    exact if_pos h
  | string32LE s =>
    rw [bytes, length_append, length_bytesLE, Nat.add_comm] at h
    exact if_pos h
  | _ => rfl

end Field

/-- The unpacker for a kind of field. -/
def FieldKind.unpack (b : Buffer) : FieldKind → Field × Buffer
  | uint8 => (.uint8 b.unpackUInt8.1, b.unpackUInt8.2)
  | int8 => (.int8 b.unpackInt8.1, b.unpackInt8.2)
  | uint16LE => (.uint16LE b.unpackUInt16LE.1, b.unpackUInt16LE.2)
  | uint16BE => (.uint16BE b.unpackUInt16BE.1, b.unpackUInt16BE.2)
  | uint32LE => (.uint32LE b.unpackUInt32LE.1, b.unpackUInt32LE.2)
  | uint32BE => (.uint32BE b.unpackUInt32BE.1, b.unpackUInt32BE.2)
  | raw size => (.raw (b.unpackRawString size).1, (b.unpackRawString size).2)
  | shortNullStringLE => (.shortNullStringLE b.unpackShortStringLE.1, b.unpackShortStringLE.2)
  | string16BE => (.string16BE b.unpackShortStringBE.1, b.unpackShortStringBE.2)
  | string32LE => (.string32LE b.unpackLongStringLE.1, b.unpackLongStringLE.2)

/-! ## What a reader finds -/

/-- These fields come next, and then this tail. -/
def Next (b : Buffer) (fields : List Field) (tail : List UInt8) : Prop :=
  b.rest = fields.flatMap Field.bytes ++ tail

namespace Next

variable {b : Buffer} {fields : List Field} {tail : List UInt8}

theorem cons {f : Field} (h : b.Next (f :: fields) tail) :
    b.rest = f.bytes ++ (fields.flatMap Field.bytes ++ tail) := by
  rw [Next, flatMap_cons, append_assoc] at h
  exact h

theorem uint8 {n : UInt8} (h : b.Next (.uint8 n :: fields) tail) :
    b.unpackUInt8.1 = n ∧ b.unpackUInt8.2.Next fields tail :=
  unpackUInt8_rest h.cons

theorem int8 {n : Int8} (h : b.Next (.int8 n :: fields) tail) :
    b.unpackInt8.1 = n ∧ b.unpackInt8.2.Next fields tail :=
  unpackInt8_rest h.cons

theorem uint16LE {n : UInt16} (h : b.Next (.uint16LE n :: fields) tail) :
    b.unpackUInt16LE.1 = n ∧ b.unpackUInt16LE.2.Next fields tail := by
  obtain ⟨hvalue, hrest⟩ := unpackUInt16LE_append h.cons
  exact ⟨hvalue.trans UInt16.ofNat_toNat, hrest⟩

theorem uint16BE {n : UInt16} (h : b.Next (.uint16BE n :: fields) tail) :
    b.unpackUInt16BE.1 = n ∧ b.unpackUInt16BE.2.Next fields tail := by
  obtain ⟨hvalue, hrest⟩ := unpackUInt16BE_append h.cons
  exact ⟨hvalue.trans UInt16.ofNat_toNat, hrest⟩

theorem uint32LE {n : UInt32} (h : b.Next (.uint32LE n :: fields) tail) :
    b.unpackUInt32LE.1 = n ∧ b.unpackUInt32LE.2.Next fields tail := by
  obtain ⟨hvalue, hrest⟩ := unpackUInt32LE_append h.cons
  exact ⟨hvalue.trans UInt32.ofNat_toNat, hrest⟩

theorem long {n : ℕ} (h : b.Next (.long n :: fields) tail) :
    b.unpackUInt32LE.1.toNat = n % 2 ^ 32 ∧ b.unpackUInt32LE.2.Next fields tail := by
  obtain ⟨hvalue, hnext⟩ := h.uint32LE
  exact ⟨hvalue ▸ UInt32.toNat_ofNat', hnext⟩

theorem char {n : ℤ} (h : b.Next (.char n :: fields) tail) :
    b.unpackInt8.1 = Int8.ofInt n ∧ b.unpackInt8.2.Next fields tail := h.int8

theorem uint32BE {n : UInt32} (h : b.Next (.uint32BE n :: fields) tail) :
    b.unpackUInt32BE.1 = n ∧ b.unpackUInt32BE.2.Next fields tail := by
  obtain ⟨hvalue, hrest⟩ := unpackUInt32BE_append h.cons
  exact ⟨hvalue.trans UInt32.ofNat_toNat, hrest⟩

theorem raw {data : List UInt8} (h : b.Next (.raw data :: fields) tail) :
    (b.unpackRawString data.length).1 = data ∧
      (b.unpackRawString data.length).2.Next fields tail :=
  unpackRawString_append h.cons

/-- The terminator is unpacked as well. -/
theorem shortNullStringLE {s : List UInt8} (hs : s.length + 1 < 2 ^ 16)
    (h : b.Next (.shortNullStringLE s :: fields) tail) :
    b.unpackShortStringLE.1 = s ++ [0] ∧ b.unpackShortStringLE.2.Next fields tail := by
  have hcons := h.cons
  rw [Field.bytes, append_assoc (bytesLE _ _), append_assoc] at hcons
  obtain ⟨hvalue, hrest⟩ := unpackShortStringLE_append hcons
  have hmod : (s.length + 1) % 2 ^ 16 = (s ++ [0]).length := by
    rw [Nat.mod_eq_of_lt hs, length_append, length_singleton]
  rw [hmod, take_left] at hvalue
  rw [hmod, drop_left] at hrest
  exact ⟨hvalue, hrest⟩

theorem string16BE {s : List UInt8} (hs : s.length < 2 ^ 16)
    (h : b.Next (.string16BE s :: fields) tail) :
    b.unpackShortStringBE.1 = s ∧ b.unpackShortStringBE.2.Next fields tail := by
  have hcons := h.cons
  rw [Field.bytes, append_assoc] at hcons
  obtain ⟨hvalue, hrest⟩ := unpackShortStringBE_append hcons
  rw [Nat.mod_eq_of_lt hs, take_left] at hvalue
  rw [Nat.mod_eq_of_lt hs, drop_left] at hrest
  exact ⟨hvalue, hrest⟩

theorem string32LE {s : List UInt8} (hs : s.length < 2 ^ 32)
    (h : b.Next (.string32LE s :: fields) tail) :
    b.unpackLongStringLE.1 = s ∧ b.unpackLongStringLE.2.Next fields tail := by
  have hcons := h.cons
  rw [Field.bytes, append_assoc] at hcons
  obtain ⟨hvalue, hrest⟩ := unpackLongStringLE_append hcons
  rw [Nat.mod_eq_of_lt hs, take_left] at hvalue
  rw [Nat.mod_eq_of_lt hs, drop_left] at hrest
  exact ⟨hvalue, hrest⟩

end Next

/-- **An unpacker takes the bytes of its field.** -/
theorem FieldKind.unpack_next {b : Buffer} {f : Field} {fields : List Field} {tail : List UInt8}
    (hf : f.ComesBack) (h : b.Next (f :: fields) tail) :
    (f.kind.unpack b).1 = f ∧ (f.kind.unpack b).2.Next fields tail := by
  cases f with
  | uint8 n => exact ⟨congrArg Field.uint8 h.uint8.1, h.uint8.2⟩
  | int8 n => exact ⟨congrArg Field.int8 h.int8.1, h.int8.2⟩
  | uint16LE n => exact ⟨congrArg Field.uint16LE h.uint16LE.1, h.uint16LE.2⟩
  | uint16BE n => exact ⟨congrArg Field.uint16BE h.uint16BE.1, h.uint16BE.2⟩
  | uint32LE n => exact ⟨congrArg Field.uint32LE h.uint32LE.1, h.uint32LE.2⟩
  | uint32BE n => exact ⟨congrArg Field.uint32BE h.uint32BE.1, h.uint32BE.2⟩
  | raw data => exact ⟨congrArg Field.raw h.raw.1, h.raw.2⟩
  | shortNullStringLE s => exact absurd hf id
  | string16BE s => exact ⟨congrArg Field.string16BE (h.string16BE hf).1, (h.string16BE hf).2⟩
  | string32LE s => exact ⟨congrArg Field.string32LE (h.string32LE hf).1, (h.string32LE hf).2⟩

/-- The others do not come back, whatever stands behind them. -/
theorem FieldKind.unpack_ne {b : Buffer} {f : Field} {fields : List Field} {tail : List UInt8}
    (hf : ¬f.ComesBack) (hnext : b.Next (f :: fields) tail) : (f.kind.unpack b).1 ≠ f := by
  have h := hnext.cons
  cases f with
  | shortNullStringLE s =>
    rw [Field.bytes, append_assoc, append_assoc] at h
    intro heq
    have hvalue := (Buffer.unpackShortStringLE_append h).1
    have hlength := congrArg List.length (hvalue.symm.trans (Field.shortNullStringLE.inj heq))
    rw [length_take, length_append, length_append, length_singleton]
      at hlength
    omega
  | string16BE s =>
    rw [Field.bytes, append_assoc] at h
    intro heq
    have hlong : 2 ^ 16 ≤ s.length := Nat.not_lt.mp hf
    have hvalue := (Buffer.unpackShortStringBE_append h).1
    have hlength := congrArg List.length (hvalue.symm.trans (Field.string16BE.inj heq))
    rw [length_take, length_append] at hlength
    omega
  | string32LE s =>
    rw [Field.bytes, append_assoc] at h
    intro heq
    have hlong : 2 ^ 32 ≤ s.length := Nat.not_lt.mp hf
    have hvalue := (Buffer.unpackLongStringLE_append h).1
    have hlength := congrArg List.length (hvalue.symm.trans (Field.string32LE.inj heq))
    rw [length_take, length_append] at hlength
    omega
  | _ => exact absurd trivial hf

/-! ## Sequences of fields -/

/-- The packers called one after the other. -/
def packAll (b : Buffer) (fields : List Field) : Option Buffer := fields.foldlM Field.pack b

/-- The unpackers called one after the other. -/
def unpackAll (b : Buffer) : List FieldKind → List Field × Buffer
  | [] => ([], b)
  | k :: kinds => ((k.unpack b).1 :: ((k.unpack b).2.unpackAll kinds).1,
      ((k.unpack b).2.unpackAll kinds).2)

/-- The bytes of all fields fit into the buffer. -/
def Fits (b : Buffer) (fields : List Field) : Prop :=
  (fields.flatMap Field.bytes).length ≤ b.remainingDataToWrite

instance (b : Buffer) (fields : List Field) : Decidable (b.Fits fields) :=
  inferInstanceAs (Decidable (_ ≤ _))

/-- What was in the buffer before is read as it was, then the unpackers give back the fields, and
nothing is left. -/
def ReadsBack (b : Buffer) (fields : List Field) : Prop :=
  ∃ packed, b.packAll fields = some packed ∧
    let before := packed.unpackRawString b.remainingDataToRead
    let after := before.2.unpackAll (fields.map Field.kind)
    before.1 = b.rest ∧ after.1 = fields ∧ after.2.isEnd = true

/-- **Fields that fit are packed behind each other.** -/
theorem packAll_of_fits {b : Buffer} {fields : List Field} (h : b.Fits fields) :
    ∃ packed, b.packAll fields = some packed ∧
      packed.data = b.data ++ fields.flatMap Field.bytes ∧ packed.posRead = b.posRead := by
  induction fields generalizing b with
  | nil => exact ⟨b, rfl, by rw [flatMap_nil, append_nil], rfl⟩
  | cons f fields ih =>
    rw [Fits, flatMap_cons, length_append] at h
    have hf : f.bytes.length ≤ b.remainingDataToWrite := by omega
    have hdata := packRaw_data hf
    have hrest : (b.packRaw f.bytes).Fits fields := by
      rw [Fits, remainingDataToWrite, packRaw_maxSize, hdata, length_append]
      rw [remainingDataToWrite] at h
      omega
    obtain ⟨packed, hpacked, hbytes, hpos⟩ := ih hrest
    refine ⟨packed, ?_, ?_, ?_⟩
    · rw [packAll, foldlM_cons, Field.pack_of_fits hf]
      exact hpacked
    · rw [hbytes, hdata, append_assoc, flatMap_cons]
    · rw [hpos, packRaw_posRead]

theorem isEnd_iff {b : Buffer} : b.isEnd = true ↔ b.rest = [] := by
  rw [isEnd, decide_eq_true_iff, getDataSize, rest, drop_eq_nil_iff]

/-- **The unpackers, on the bytes of the fields.** -/
theorem unpackAll_next {b : Buffer} {fields : List Field} (h : b.Next fields []) :
    (b.unpackAll (fields.map Field.kind)).1 = fields ∧
        (b.unpackAll (fields.map Field.kind)).2.isEnd = true ↔
      ∀ f ∈ fields, f.ComesBack := by
  induction fields generalizing b with
  | nil => exact ⟨nofun, fun _ => ⟨rfl, isEnd_iff.mpr h⟩⟩
  | cons f fields ih =>
    rw [map_cons, unpackAll, forall_mem_cons]
    by_cases hf : f.ComesBack
    · obtain ⟨hvalue, hrest⟩ := FieldKind.unpack_next hf h
      rw [hvalue, List.cons.injEq]
      simp only [hf, true_and]
      exact ih hrest
    · have hne := FieldKind.unpack_ne hf h
      rw [List.cons.injEq]
      simp only [hf, hne, false_and]

/-- **Which sequences of fields come back.** -/
theorem readsBack_iff (b : Buffer) (fields : List Field) (h : b.Fits fields) :
    b.ReadsBack fields ↔ ∀ f ∈ fields, f.ComesBack := by
  obtain ⟨packed, hpacked, hdata, hpos⟩ := packAll_of_fits h
  have hrest : packed.rest = b.rest ++ (fields.flatMap Field.bytes ++ []) := by
    rw [rest, hdata, hpos, List.drop_append_of_le_length b.posRead_le, rest, List.append_nil]
  obtain ⟨hbefore, hafter⟩ := unpackRawString_append hrest
  rw [length_rest] at hbefore hafter
  rw [← unpackAll_next hafter]
  constructor
  · rintro ⟨packed', hpacked', -, hfields⟩
    obtain rfl : packed = packed' := Option.some.inj (hpacked.symm.trans hpacked')
    exact hfields
  · exact fun hfields => ⟨packed, hpacked, hbefore, hfields⟩

theorem readsBack_mixed : (ofSize 12).Fits [.uint16BE 0x0102, .string32LE [65, 66]] ∧
    (ofSize 12).ReadsBack [.uint16BE 0x0102, .string32LE [65, 66]] :=
  ⟨by decide, (readsBack_iff (ofSize 12) [.uint16BE 0x0102, .string32LE [65, 66]] (by decide)).mpr
    (by decide)⟩

/-- A string of one character is unpacked with two. -/
theorem not_readsBack_shortNullStringLE :
    (ofSize 4).Fits [.shortNullStringLE [65]] ∧
      ¬(ofSize 4).ReadsBack [.shortNullStringLE [65]] := by
  refine ⟨by decide, ?_⟩
  rintro ⟨packed, hpacked, -, hfields, -⟩
  obtain rfl : packed = (ofSize 4).packRaw [2, 0, 65, 0] := Option.some.inj hpacked.symm
  have hnext : (((ofSize 4).packRaw [2, 0, 65, 0]).unpackRawString 0).2.Next
      [.shortNullStringLE [65]] [] := unpackRawString_rest _ 0
  exact FieldKind.unpack_ne id hnext (List.cons.inj hfields).1

example : (ofData [2, 0, 65, 0]).unpackShortStringLE.1 = [65, 0] := by decide +kernel

end Buffer

end Licq
