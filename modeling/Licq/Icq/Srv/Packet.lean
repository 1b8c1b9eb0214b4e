import Licq.Buffer.Fields

/-!
# Icq/Srv/Packet — packets for the server

A constructor of `packet-srv.cpp` adds up the size of its packet in `m_nSize`, `InitBuffer` makes a
buffer of this size and packs the headers, and the constructor packs its fields one by one.  A
packer that finds too little room packs nothing.

A `Layout` is the list of the fields, and with it every length that one of them announces.  Where
the size was added up right the buffer is just the headers and the fields (`buffer_of_fits`).
-/

open Wire

namespace Licq

open List Buffer Buffer.Field

/-! ## Layouts -/

/-- The fields of a packet, and for every length in it what it announces and the size of what it
describes. -/
structure Layout where
  fields : List Buffer.Field
  lengths : List (ℕ × ℕ)

namespace Layout

instance : EmptyCollection Layout := ⟨⟨[], []⟩⟩

instance : Append Layout := ⟨fun l l' => ⟨l.fields ++ l'.fields, l.lengths ++ l'.lengths⟩⟩

/-- Fields without a length among them. -/
def ofFields (fields : List Buffer.Field) : Layout := ⟨fields, []⟩

def bytes (l : Layout) : List UInt8 := l.fields.flatMap Buffer.Field.bytes

def size (l : Layout) : ℕ := l.bytes.length

/-- A length of sixteen bits, and what it describes. -/
def sizedBE (n : ℕ) (content : Layout) : Layout :=
  ⟨.uint16BE (UInt16.ofNat n) :: content.fields,
    (n % 2 ^ 16, content.size) :: content.lengths⟩

def sizedLE (n : ℕ) (content : Layout) : Layout :=
  ⟨.uint16LE (UInt16.ofNat n) :: content.fields,
    (n % 2 ^ 16, content.size) :: content.lengths⟩

/-- A type, a length and what it describes. -/
def tlv (type : UInt16) (n : ℕ) (content : Layout) : Layout :=
  ofFields [.uint16BE type] ++ sizedBE n content

/-- Every length is the size of what it describes. -/
def LengthsRight (l : Layout) : Prop := ∀ p ∈ l.lengths, p.1 = p.2

section Laws

variable (l l' : Layout) (fields : List Buffer.Field) (type : UInt16) (n : ℕ)

@[simp] theorem fields_append : (l ++ l').fields = l.fields ++ l'.fields := rfl

@[simp] theorem bytes_append : (l ++ l').bytes = l.bytes ++ l'.bytes := flatMap_append

@[simp] theorem bytes_empty : (∅ : Layout).bytes = [] := rfl

@[simp] theorem bytes_ofFields : (ofFields fields).bytes = fields.flatMap Buffer.Field.bytes := rfl

/-- A length is cut to its word as it is packed. -/
theorem bytesBE_ofNat : bytesBE 2 (UInt16.ofNat n).toNat = bytesBE 2 n :=
  (congrArg (bytesBE 2) UInt16.toNat_ofNat').trans (bytesBE_mod 2 n)

@[simp] theorem bytes_sizedBE : (sizedBE n l).bytes = bytesBE 2 n ++ l.bytes := by
  rw [bytes, sizedBE, flatMap_cons, Buffer.Field.bytes, bytesBE_ofNat, bytes]

@[simp] theorem bytes_tlv :
    (tlv type n l).bytes = bytesBE 2 type.toNat ++ (bytesBE 2 n ++ l.bytes) := by
  rw [tlv, bytes_append, bytes_sizedBE]
  rfl

end Laws

end Layout

/-! ## Packets -/

/-- What a constructor leaves: the channel, `m_nSize` and what it packs behind the first header. -/
structure SrvPacket where
  icqChannel : UInt8
  nSize : UInt16
  layout : Layout

namespace SrvPacket

/-- What `InitBuffer` packs. -/
def header (p : SrvPacket) (nSequence : UInt16) : List Buffer.Field :=
  [.uint8 0x2a, .uint8 p.icqChannel, .uint16BE nSequence, .uint16BE p.nSize]

/-- The finished buffer; none where an assertion of a packer fails. -/
def buffer (p : SrvPacket) (nSequence : UInt16) : Option Buffer :=
  (Buffer.ofSize (p.nSize.toNat + 6)).packAll (p.header nSequence ++ p.layout.fields)

theorem length_header (p : SrvPacket) (nSequence : UInt16) :
    ((p.header nSequence).flatMap Buffer.Field.bytes).length = 6 := by
  simp [header, bytes, length_bytesBE]

/-- **Where the fields fit, the buffer is the header and the fields.** -/
theorem buffer_of_fits {p : SrvPacket} (nSequence : UInt16) (h : p.layout.size ≤ p.nSize.toNat) :
    ∃ b, p.buffer nSequence = some b ∧
      b.data = (p.header nSequence).flatMap Buffer.Field.bytes ++ p.layout.bytes := by
  have hfits : (ofSize (p.nSize.toNat + 6)).Fits (p.header nSequence ++ p.layout.fields) := by
    change (flatMap bytes (p.header nSequence ++ p.layout.fields)).length
      ≤ p.nSize.toNat + 6
    rw [flatMap_append, length_append, length_header]
    exact (Nat.add_le_add_left h 6).trans (Nat.add_comm 6 _).le
  obtain ⟨b, hb, hdata, -⟩ := packAll_of_fits hfits
  refine ⟨b, hb, hdata.trans ?_⟩
  rw [flatMap_append]
  rfl

/-- No packer changes the size of the buffer. -/
theorem packAll_maxSize {b b' : Buffer} {fields : List Buffer.Field}
    (h : b.packAll fields = some b') :
    b'.maxSize = b.maxSize := by
  induction fields generalizing b with
  | nil => cases h; rfl
  | cons f fields ih =>
    rw [packAll, foldlM_cons] at h
    obtain ⟨c, hc, hrest⟩ := Option.bind_eq_some_iff.mp h
    refine (ih hrest).trans ?_
    cases f with
    | string16BE s =>
      obtain ⟨-, hpacked⟩ := Option.ite_none_right_eq_some.mp hc
      cases hpacked
      exact packRaw_maxSize b _
    | string32LE s =>
      obtain ⟨-, hpacked⟩ := Option.ite_none_right_eq_some.mp hc
      cases hpacked
      exact packRaw_maxSize b _
    | _ =>
      cases hc
      exact packRaw_maxSize b _

/-- Fields of which no packer asserts that there is room. -/
def Lenient (f : Buffer.Field) : Prop :=
  match f with
  | .string16BE _ => False
  | .string32LE _ => False
  | _ => True

instance (f : Buffer.Field) : Decidable (Lenient f) :=
  match f with
  | .string16BE _ | .string32LE _ => isFalse id
  | .uint8 _ | .int8 _ | .uint16LE _ | .uint16BE _ | .uint32LE _ | .uint32BE _ | .raw _
  | .shortNullStringLE _ => isTrue trivial

/-- Whatever is packed later, what is in the buffer stays at its start. -/
theorem packAll_of_lenient {fields : List Buffer.Field} (h : ∀ f ∈ fields, Lenient f) (b : Buffer) :
    ∃ b', b.packAll fields = some b' ∧ b.data <+: b'.data := by
  induction fields generalizing b with
  | nil => exact ⟨b, rfl, prefix_refl _⟩
  | cons f fields ih =>
    obtain ⟨hf, hrest⟩ := forall_mem_cons.mp h
    have hone : ∃ c, f.pack b = some c ∧ b.data <+: c.data := by
      cases f with
      | string16BE s => exact absurd hf id
      | string32LE s => exact absurd hf id
      | _ => exact ⟨_, rfl, packRaw_prefix b _⟩
    obtain ⟨c, hc, hbefore⟩ := hone
    obtain ⟨b', hb', hafter⟩ := ih hrest c
    refine ⟨b', ?_, hbefore.trans hafter⟩
    rw [packAll, foldlM_cons, hc]
    exact hb'

/-- The fields that fit are at the start of the buffer, whether or not those behind them fit. -/
theorem buffer_of_prefix_fits {p : SrvPacket} (nSequence : UInt16) {pre post : List Buffer.Field}
    (hfields : p.layout.fields = pre ++ post)
    (hfits : (pre.flatMap Buffer.Field.bytes).length ≤ p.nSize.toNat)
    (hpost : ∀ f ∈ post, Lenient f) :
    ∃ b, p.buffer nSequence = some b ∧
      (p.header nSequence ++ pre).flatMap Buffer.Field.bytes <+: b.data := by
  have hroom : (ofSize (p.nSize.toNat + 6)).Fits (p.header nSequence ++ pre) := by
    change (flatMap bytes (p.header nSequence ++ pre)).length ≤ p.nSize.toNat + 6
    rw [flatMap_append, length_append, length_header]
    exact (Nat.add_le_add_left hfits 6).trans (Nat.add_comm 6 _).le
  obtain ⟨c, hc, hdata, -⟩ := packAll_of_fits hroom
  obtain ⟨b, hb, hprefix⟩ := packAll_of_lenient hpost c
  refine ⟨b, ?_, ?_⟩
  · rw [buffer, hfields, ← append_assoc, packAll, foldlM_append, ← packAll, hc]
    exact hb
  · rw [hdata] at hprefix
    exact hprefix

/-- However much is packed, there is no more in the buffer than was asked for. -/
theorem length_data_le {p : SrvPacket} {nSequence : UInt16} {b : Buffer}
    (h : p.buffer nSequence = some b) : b.data.length ≤ p.nSize.toNat + 6 :=
  b.data_le.trans (packAll_maxSize h).le

end SrvPacket

/-! ## Packets of a family -/

/-- `ICQ_CHNxDATA` -/
def icqChnData : UInt8 := 0x02

/-- The header that `CPU_CommonFamily::InitBuffer` packs. -/
def snacHeader (nFamily nSubType nSubSequence : UInt16) : List Buffer.Field :=
  [.uint16BE nFamily, .uint16BE nSubType, .uint32BE 0, .uint16BE nSubSequence]

/-- A packet of a family; its constructor adds `nSize` to `m_nSize`. -/
def cpuCommonFamily (nFamily nSubType nSubSequence : UInt16) (nSize : ℕ) (content : Layout) :
    SrvPacket where
  icqChannel := icqChnData
  nSize := UInt16.ofNat (10 + nSize)
  layout := .ofFields (snacHeader nFamily nSubType nSubSequence) ++ content

theorem length_snacHeader (nFamily nSubType nSubSequence : UInt16) :
    ((snacHeader nFamily nSubType nSubSequence).flatMap Buffer.Field.bytes).length = 10 := by
  simp [snacHeader, bytes, length_bytesBE]

end Licq
