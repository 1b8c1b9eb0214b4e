import Licq.Buffer.Reading
import Licq.Buffer.Fields

/-!
# Icq/Srv/Online — the capabilities of a user that comes online

The packet has the short capabilities of the user, two bytes for each one, in one tagged value, and
the full ones in another.  `ProcessBuddyFam` puts both together in a string of sixteen bytes for
each one, from which the client is detected.  The short ones are read from the value, but the full
ones from the packet, behind the tagged values.

The **main result** `assembles_iff` says when the string is what the two values say.
-/

namespace Licq

open Buffer

namespace Buffer

def hasTLV (tlvs : List OscarTlv) (nType : UInt16) : Bool :=
  (tlvs.find? fun tlv => tlv.myType == nType).isSome

end Buffer

namespace Online

/-! ## The code -/

/-- A short capability in its full form. -/
def fullcap (a b : UInt8) : List UInt8 :=
  [0x09, 0x46, a, b, 0x4C, 0x7F, 0x11, 0xD1, 0x82, 0x22, 0x44, 0x45, 0x53, 0x54, 0x00, 0x00]

/-- Convert to full capabilities: the loop over the short ones. -/
def convert (capbuf : Buffer) (caps : List UInt8) : List UInt8 :=
  if _ : 2 ≤ capbuf.remainingDataToRead then
    let a := capbuf.unpackUInt8
    let b := a.2.unpackUInt8
    convert b.2 (caps ++ fullcap a.1 b.1)
  else caps
termination_by capbuf.remainingDataToRead
decreasing_by
  have hfirst : capbuf.unpackUInt8.2.remainingDataToRead < capbuf.remainingDataToRead := by
    rw [Buffer.remainingDataToRead, Buffer.remainingDataToRead]
    change (capbuf.unpack 1).2.data.length - (capbuf.unpack 1).2.posRead < _
    rw [Buffer.unpack_data, Buffer.unpack_posRead, if_neg (by omega)]
    rw [Buffer.remainingDataToRead] at *
    omega
  exact lt_of_le_of_lt (Buffer.unpack_remaining_le _ 1) hfirst

/-- The capabilities that the client is detected from, and the packet behind them. -/
def capabilities (packet : Buffer) (tlvs : List OscarTlv) : List UInt8 × Buffer :=
  -- Short capabilities
  let caps := if Buffer.hasTLV tlvs 0x0019 then convert (Buffer.unpackTLV tlvs 0x0019) [] else []
  -- Full capabilities
  if Buffer.hasTLV tlvs 0x000D then
    let capBuf := Buffer.unpackTLV tlvs 0x000D
    let full := packet.unpackRawString capBuf.remainingDataToRead
    (caps ++ full.1, full.2)
  else (caps, packet)

/-- The tagged values of the packet of a user that is online, and the packet behind them. -/
def readOnline (packet : Buffer) : List OscarTlv × Buffer :=
  let packet := packet.unpackUInt32BE.2
  let packet := packet.unpackUInt16BE.2
  let packet := packet.unpackByteString.2
  let packet := packet.unpackUInt32BE.2
  (packet.readTLV (-1) (-1)).2

/-! ## What is said -/

/-- The data of the tagged value of a type. -/
def tlvData (tlvs : List OscarTlv) (nType : UInt16) : List UInt8 :=
  ((tlvs.find? fun tlv => tlv.myType == nType).map OscarTlv.myData).getD []

/-- The short capabilities in their full form. -/
def expand : List UInt8 → List UInt8
  | a :: b :: s => fullcap a b ++ expand s
  | _ => []

/-- **The capabilities are put together**: the short ones, each in its full form, and behind them
the full ones.  The packet is where it was. -/
def Assembles (packet : Buffer) : Prop :=
  let (tlvs, packet) := readOnline packet
  capabilities packet tlvs = (expand (tlvData tlvs 0x0019) ++ tlvData tlvs 0x000D, packet)

/-! ## The values -/

theorem rest_packRaw_ofSize (data : List UInt8) :
    ((Buffer.ofSize data.length).packRaw data).rest = data := by
  have hroom : data.length ≤ (ofSize data.length).remainingDataToWrite := Nat.le_refl _
  rw [rest, packRaw_data hroom, packRaw_posRead]
  rfl

/-- The buffer of a tagged value has its data. -/
theorem rest_unpackTLV (tlvs : List OscarTlv) (nType : UInt16) :
    (Buffer.unpackTLV tlvs nType).rest = tlvData tlvs nType := by
  rw [unpackTLV, tlvData]
  cases tlvs.find? fun tlv => tlv.myType == nType with
  | none => rfl
  | some tlv => exact rest_packRaw_ofSize tlv.myData

theorem tlvData_of_not_hasTLV {tlvs : List OscarTlv} {nType : UInt16}
    (h : Buffer.hasTLV tlvs nType = false) : tlvData tlvs nType = [] := by
  rw [hasTLV, Option.isSome_eq_false_iff, Option.isNone_iff_eq_none] at h
  rw [tlvData, h]
  rfl

/-- **The loop gives the short capabilities in their full form.** -/
theorem convert_eq (s : List UInt8) {capbuf : Buffer} (h : capbuf.rest = s) (caps : List UInt8) :
    convert capbuf caps = caps ++ expand s := by
  induction s using expand.induct generalizing capbuf caps with
  | case1 a b s ih =>
    obtain ⟨ha, hrest⟩ := unpackUInt8_rest h
    obtain ⟨hb, hrest⟩ := unpackUInt8_rest hrest
    have hmore : 2 ≤ capbuf.remainingDataToRead := by
      rw [← length_rest, h]
      exact Nat.le_add_left _ _
    rw [convert, dif_pos hmore]
    simp only [ha, hb]
    rw [ih hrest, expand, List.append_assoc]
  | case2 s hshort =>
    have hend : ¬ 2 ≤ capbuf.remainingDataToRead := by
      rw [← length_rest, h]
      match s, hshort with
      | [], _ => exact Nat.not_succ_le_zero 1
      | [_], _ => exact Nat.lt_irrefl 1
      | a :: b :: s, hshort => exact absurd rfl (hshort a b s)
    rw [convert, dif_neg hend, expand, List.append_nil]
    exact hshort

/-! ## The main result -/

/-- Reading nothing, and only that, leaves the packet where it was. -/
theorem unpackRawString_eq_self_iff (packet : Buffer) (data : List UInt8) :
    packet.unpackRawString data.length = (data, packet) ↔ data = [] := by
  constructor
  · intro h
    have hrest := packet.unpackRawString_rest data.length
    have hdata := packet.unpackRawString_eq data.length
    rw [h] at hrest hdata
    change packet.rest = _ at hrest
    change data = _ at hdata
    have hlength := congrArg List.length hrest
    rw [List.length_drop] at hlength
    rcases Nat.eq_zero_or_pos data.length with hzero | hpos
    · exact List.eq_nil_of_length_eq_zero hzero
    · have hnil : packet.rest = [] := List.eq_nil_of_length_eq_zero (by omega)
      rw [hdata, hnil, List.take_nil]
  · rintro rfl
    rw [unpackRawString, List.length_nil, Nat.zero_min, unpack,
      dif_neg (Nat.not_lt_zero _)]
    rfl

/-- What is put together. -/
theorem capabilities_eq (packet : Buffer) (tlvs : List OscarTlv) : capabilities packet tlvs =
    (expand (tlvData tlvs 0x0019) ++ (packet.unpackRawString (tlvData tlvs 0x000D).length).1,
      (packet.unpackRawString (tlvData tlvs 0x000D).length).2) := by
  have hshort : (if hasTLV tlvs 0x0019 then convert (unpackTLV tlvs 0x0019) []
      else []) = expand (tlvData tlvs 0x0019) := by
    cases hhas : hasTLV tlvs 0x0019 with
    | true => exact convert_eq _ (rest_unpackTLV tlvs 0x0019) []
    | false => rw [tlvData_of_not_hasTLV hhas]; rfl
  rw [capabilities, hshort]
  cases hhas : hasTLV tlvs 0x000D with
  | true => simp only [if_true, ← rest_unpackTLV tlvs 0x000D, length_rest]
  | false =>
    have hnil : packet.unpackRawString 0 = ([], packet) :=
      (unpackRawString_eq_self_iff packet []).mpr rfl
    rw [tlvData_of_not_hasTLV hhas, List.length_nil, hnil, List.append_nil]
    rfl

/-- **The capabilities are put together exactly if there are no full ones.** -/
theorem assembles_iff (packet : Buffer) :
    Assembles packet ↔ tlvData (readOnline packet).1 0x000D = [] := by
  have hself := unpackRawString_eq_self_iff (readOnline packet).2
    (tlvData (readOnline packet).1 0x000D)
  rw [Prod.ext_iff] at hself
  rw [Assembles, ← hself]
  simp only [capabilities_eq, Prod.mk.injEq, List.append_cancel_left_eq]

/-- The packet of the user 1 with a tagged value. -/
def packetOf (tlv : List UInt8) : Buffer :=
  Buffer.ofData ([0, 0, 0, 0, 0, 0, 1, 0x31, 0, 0, 0, 1] ++ tlv)

/-- **The capability for UTF-8 in its full form is not read.** -/
theorem not_assembles_full :
    ¬ Assembles (packetOf ([0x00, 0x0D, 0x00, 0x10] ++ fullcap 0x13 0x4E)) := by
  have hfull : ¬ tlvData (readOnline (packetOf
      ([0x00, 0x0D, 0x00, 0x10] ++ fullcap 0x13 0x4E))).1 0x000D = [] := by decide +kernel
  intro h
  rw [Assembles] at h
  simp only [capabilities_eq, Prod.mk.injEq, List.append_cancel_left_eq] at h
  exact hfull ((unpackRawString_eq_self_iff _ _).mp (Prod.ext h.1 h.2))

end Online

end Licq
