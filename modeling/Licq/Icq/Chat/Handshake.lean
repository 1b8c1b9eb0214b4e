import Licq.Buffer.Fields
import Licq.Icq.Chat.Commands

/-!
# Icq/Chat/Handshake — the packets that open a chat

`CPChat_Color`, `CPChat_ColorFont` and `CPChat_Font`, each with the constructor that encodes it and
the one that decodes it.  By their parameters, both constructors agree (`ofBuffer_cpChatColor` and
the lemmas after it): numbers come back cut to the bytes they are sent in and strings with their
terminators.

The **main result** `decodesAs_iff` is about the packets as a chat manager builds them.  It hands its
background colour over as red, green and blue, and the constructors take red, blue and green.
-/

open Wire Licq.Buffer Nat

namespace Licq

open List Buffer.Field

/-! ## Fields -/

namespace Buffer

/-- `(unsigned char)b.UnpackChar()`, kept in an `int`. -/
def unpackColor (b : Buffer) : ℤ × Buffer := (b.unpackInt8.1.toUInt8.toNat, b.unpackInt8.2)

namespace Next

variable {b : Buffer} {fields : List Buffer.Field} {tail : List UInt8}

theorem color {n : ℤ} (h : b.Next (.char n :: fields) tail) :
    (unpackColor b).1 = n % 256 ∧ (unpackColor b).2.Next fields tail := by
  obtain ⟨hvalue, hnext⟩ := h.char
  refine ⟨?_, hnext⟩
  change (b.unpackInt8.1.toUInt8.toNat : ℤ) = n % 256
  have hbits : (Int8.ofInt n).toUInt8.toNat = (BitVec.ofInt 8 n).toNat := rfl
  rw [hvalue, hbits, BitVec.toNat_ofInt]
  omega

end Next

end Buffer

/-- A colour, of three `int`. -/
structure Rgb where
  red : ℤ
  green : ℤ
  blue : ℤ
  deriving DecidableEq

/-- What is left of a colour in bytes. -/
def Rgb.wire (c : Rgb) : Rgb := ⟨c.red % 256, c.green % 256, c.blue % 256⟩

/-- Every part is one that a byte has. -/
structure Rgb.IsColor (c : Rgb) : Prop where
  red : 0 ≤ c.red ∧ c.red < 256
  green : 0 ≤ c.green ∧ c.green < 256
  blue : 0 ≤ c.blue ∧ c.blue < 256

/-! ## Clients -/

/-- `ChatClient`, without the `m_nId` that is neither set nor sent. -/
structure ChatClient where
  nVersion : ℕ
  nPort : UInt16
  myUin : ℕ
  nIp : ℕ
  nIntIp : ℕ
  nMode : Int8
  nSession : UInt16
  nHandshake : ℕ
  deriving DecidableEq

namespace ChatClient

/-- `sizeof(ChatClient)`, where an `unsigned long` has 64 bits. -/
def sizeof : ℕ := 64

/-- What `CPChat_ColorFont` packs of a client. -/
def fields (c : ChatClient) : List Buffer.Field :=
  [.long c.nVersion, .long c.nPort.toNat, .long c.myUin, .long c.nIp, .long c.nIntIp, .int8 c.nMode,
    .uint16LE c.nPort, .uint16LE c.nSession, .long c.nHandshake]

def loadFromBuffer (b : Buffer) : ChatClient × Buffer :=
  let nVersion := b.unpackUInt32LE
  let nPort := nVersion.2.unpackUInt16LE
  let skipped := nPort.2.unpackUInt16LE
  let myUin := skipped.2.unpackUInt32LE
  let nIp := myUin.2.unpackUInt32LE
  let nIntIp := nIp.2.unpackUInt32LE
  let nMode := nIntIp.2.unpackInt8
  let port := nMode.2.unpackUInt16LE
  let nSession := port.2.unpackUInt16LE
  let nHandshake := nSession.2.unpackUInt32LE
  (⟨nVersion.1.toNat, nPort.1, myUin.1.toNat, nIp.1.toNat, nIntIp.1.toNat, nMode.1, nSession.1,
    nHandshake.1.toNat⟩, nHandshake.2)

/-- The loop over the clients of a packet. -/
def loadAll : ℕ → Buffer → List ChatClient × Buffer
  | 0, b => ([], b)
  | n + 1, b => ((loadFromBuffer b).1 :: (loadAll n (loadFromBuffer b).2).1,
      (loadAll n (loadFromBuffer b).2).2)

/-- What is left of a client in the bytes of a packet. -/
def wire (c : ChatClient) : ChatClient :=
  { c with
    nVersion := c.nVersion % 2 ^ 32
    myUin := c.myUin % 2 ^ 32
    nIp := c.nIp % 2 ^ 32
    nIntIp := c.nIntIp % 2 ^ 32
    nHandshake := c.nHandshake % 2 ^ 32 }

/-- The numbers of the client have 32 bits. -/
structure Is32 (c : ChatClient) : Prop where
  nVersion : c.nVersion < 2 ^ 32
  myUin : c.myUin < 2 ^ 32
  nIp : c.nIp < 2 ^ 32
  nIntIp : c.nIntIp < 2 ^ 32
  nHandshake : c.nHandshake < 2 ^ 32

theorem wire_eq_iff {c : ChatClient} : c.wire = c ↔ c.Is32 := by
  constructor
  · intro h
    have hlt : ∀ {m n : ℕ}, m % 2 ^ 32 = n → n < 2 ^ 32 := fun h => h ▸ mod_lt _ (by decide)
    exact ⟨hlt (congrArg nVersion h), hlt (congrArg myUin h), hlt (congrArg nIp h),
      hlt (congrArg nIntIp h), hlt (congrArg nHandshake h)⟩
  · rintro ⟨hVersion, hUin, hIp, hIntIp, hHandshake⟩
    rw [wire, mod_eq_of_lt hVersion, mod_eq_of_lt hUin, mod_eq_of_lt hIp,
      mod_eq_of_lt hIntIp, mod_eq_of_lt hHandshake]

end ChatClient

/-! ## The constructors that encode -/

/-- `FONT_BOLD` and the others, or `FONT_PLAIN`. -/
def fontFace (bFontBold bFontItalic bFontUnderline bFontStrikeOut : Bool) : ℕ :=
  bFontBold.toNat + 2 * bFontItalic.toNat + 4 * bFontUnderline.toNat + 8 * bFontStrikeOut.toNat

/-- `CPChat_Color`, for an owner with the number `myUin`. -/
def cpChatColor (myUin : ℕ) (localName : List UInt8) (nLocalPort : UInt16)
    (nColorForeRed nColorForeGreen nColorForeBlue nColorBackRed nColorBackBlue
      nColorBackGreen : ℤ) : Option Buffer :=
  let nSize := (10 + localName.length + 16) % 2 ^ 16
  (Buffer.ofSize nSize).packAll
    [.long 0x65, .long (2 ^ 64 - 8), .long myUin, .shortNullStringLE (cStr localName),
      .uint16BE nLocalPort, .char nColorForeRed, .char nColorForeGreen, .char nColorForeBlue,
      .char 0, .char nColorBackRed, .char nColorBackGreen, .char nColorBackBlue, .char 0, .char 0]

/-- What a font has in a packet. -/
structure ChatFont where
  nFontSize : ℕ
  bFontBold : Bool
  bFontItalic : Bool
  bFontUnderline : Bool
  bFontStrikeOut : Bool
  fontFamily : List UInt8
  nFontEncoding : UInt8
  nFontStyle : UInt8

/-- `m_nFontFace` -/
def ChatFont.nFontFace (f : ChatFont) : ℕ :=
  fontFace f.bFontBold f.bFontItalic f.bFontUnderline f.bFontStrikeOut

/-- The addresses of the sender, `s_nLocalIp` and `s_nRealIp`, and whether it can be connected to. -/
structure ChatAddress where
  nLocalIp : ℕ
  nRealIp : ℕ
  directMode : Bool

/-- `MODE_DIRECT` or `MODE_INDIRECT` -/
def ChatAddress.mode (a : ChatAddress) : ℤ := if a.directMode then 4 else 2

/-- What `CPChat_ColorFont` and `CPChat_Font` pack alike. -/
def fontFields (a : ChatAddress) (nLocalPort nSession : UInt16) (f : ChatFont) :
    List Buffer.Field :=
  [.long 8, .long nLocalPort.toNat, .long a.nLocalIp, .long a.nRealIp, .char a.mode,
    .uint16LE nSession, .long f.nFontSize, .long f.nFontFace,
    .shortNullStringLE (cStr f.fontFamily), .int8 f.nFontEncoding.toInt8, .int8 f.nFontStyle.toInt8]

/-- `CPChat_ColorFont` -/
def cpChatColorFont (a : ChatAddress) (myUin : ℕ) (localName : List UInt8)
    (nLocalPort nSession : UInt16) (nColorForeRed nColorForeGreen nColorForeBlue nColorBackRed
      nColorBackBlue nColorBackGreen : ℤ) (f : ChatFont) (clientList : List ChatClient) :
    Option Buffer :=
  let nSize := (10 + localName.length + 38 + f.fontFamily.length + 4
    + clientList.length * (ChatClient.sizeof + 2)) % 2 ^ 16
  (Buffer.ofSize nSize).packAll
    ([.long 0x65, .long myUin, .shortNullStringLE (cStr localName), .char nColorForeRed,
      .char nColorForeGreen, .char nColorForeBlue, .char 0, .char nColorBackRed,
      .char nColorBackGreen, .char nColorBackBlue, .char 0] ++ fontFields a nLocalPort nSession f ++
      .char clientList.length :: clientList.flatMap ChatClient.fields)

/-- `CPChat_Font` -/
def cpChatFont (a : ChatAddress) (nLocalPort nSession : UInt16) (f : ChatFont) : Option Buffer :=
  let nSize := (29 + f.fontFamily.length + 3) % 2 ^ 16
  (Buffer.ofSize nSize).packAll (fontFields a nLocalPort nSession f)

/-! ## The constructors that decode -/

structure CPChatColor where
  myUin : ℕ
  myName : List UInt8
  nPort : UInt16
  nColorFore : Rgb
  nColorBack : Rgb

/-- `CPChat_Color(CBuffer&)` -/
def CPChatColor.ofBuffer (b : Buffer) : CPChatColor :=
  let length := b.unpackUInt16LE
  let handshake := length.2.unpackUInt32LE
  let version := handshake.2.unpackUInt32LE
  let myUin := version.2.unpackUInt32LE
  let myName := myUin.2.unpackShortStringLE
  let nPort := myName.2.unpackUInt16LE
  let foreRed := unpackColor nPort.2
  let foreGreen := unpackColor foreRed.2
  let foreBlue := unpackColor foreGreen.2
  let skipped := foreBlue.2.unpackInt8
  let backRed := unpackColor skipped.2
  let backGreen := unpackColor backRed.2
  let backBlue := unpackColor backGreen.2
  ⟨myUin.1.toNat, myName.1, (nPort.1 >>> 8) + (nPort.1 <<< 8),
    ⟨foreRed.1, foreGreen.1, foreBlue.1⟩, ⟨backRed.1, backGreen.1, backBlue.1⟩⟩

structure CPChatFont where
  nPort : UInt16
  nSession : UInt16
  nFontSize : ℕ
  nFontFace : ℕ
  myFontFamily : List UInt8
  nFontEncoding : UInt8
  nFontStyle : UInt8

/-- What `CPChat_ColorFont(CBuffer&)` and `CPChat_Font(CBuffer&)` unpack alike. -/
def unpackFont (b : Buffer) : CPChatFont × Buffer :=
  let version := b.unpackUInt32LE
  let nPort := version.2.unpackUInt32LE
  let localIp := nPort.2.unpackUInt32LE
  let realIp := localIp.2.unpackUInt32LE
  let mode := realIp.2.unpackInt8
  let nSession := mode.2.unpackUInt16LE
  let nFontSize := nSession.2.unpackUInt32LE
  let nFontFace := nFontSize.2.unpackUInt32LE
  let fontFamily := nFontFace.2.unpackShortStringLE
  let nFontEncoding := fontFamily.2.unpackInt8
  let nFontStyle := nFontEncoding.2.unpackInt8
  (⟨UInt16.ofNat nPort.1.toNat, nSession.1, nFontSize.1.toNat, nFontFace.1.toNat, fontFamily.1,
    nFontEncoding.1.toUInt8, nFontStyle.1.toUInt8⟩, nFontStyle.2)

/-- `CPChat_Font(CBuffer&)` -/
def CPChatFont.ofBuffer (b : Buffer) : CPChatFont := (unpackFont b.unpackUInt16LE.2).1

structure CPChatColorFont where
  myUin : ℕ
  myName : List UInt8
  nColorFore : Rgb
  nColorBack : Rgb
  font : CPChatFont
  chatClients : List ChatClient

/-- `CPChat_ColorFont(CBuffer&)`; the number of clients is a `char` in an `unsigned short`. -/
def CPChatColorFont.ofBuffer (b : Buffer) : CPChatColorFont :=
  let length := b.unpackUInt16LE
  let handshake := length.2.unpackUInt32LE
  let myUin := handshake.2.unpackUInt32LE
  let myName := myUin.2.unpackShortStringLE
  let foreRed := unpackColor myName.2
  let foreGreen := unpackColor foreRed.2
  let foreBlue := unpackColor foreGreen.2
  let skipped := foreBlue.2.unpackInt8
  let backRed := unpackColor skipped.2
  let backGreen := unpackColor backRed.2
  let backBlue := unpackColor backGreen.2
  let skipped := backBlue.2.unpackInt8
  let font := unpackFont skipped.2
  let nc := font.2.unpackInt8
  ⟨myUin.1.toNat, myName.1, ⟨foreRed.1, foreGreen.1, foreBlue.1⟩,
    ⟨backRed.1, backGreen.1, backBlue.1⟩, font.1,
    (ChatClient.loadAll (nc.1.toInt % 2 ^ 16).toNat nc.2).1⟩

/-! ## What the packets hold -/

/-- A packet that has been received, behind its length. -/
def received (packet : Buffer) : Buffer :=
  ofData ((Buffer.Field.uint16LE (UInt16.ofNat packet.data.length)).bytes ++ packet.data)

/-- **The fields of a packet that is large enough are what its receiver finds.** -/
theorem next_received {n : ℕ} {fields : List Buffer.Field}
    (h : (fields.flatMap Buffer.Field.bytes).length ≤ n) : ∃ packet,
      (Buffer.ofSize n).packAll fields = some packet ∧
      (received packet).unpackUInt16LE.2.Next fields [] := by
  obtain ⟨packet, hpacket, hdata, -⟩ := @packAll_of_fits (Buffer.ofSize n) fields h
  refine ⟨packet, hpacket, ?_⟩
  have hnext : (received packet).Next
      (.uint16LE (UInt16.ofNat packet.data.length) :: fields) [] := by
    rw [Next, append_nil, flatMap_cons]
    exact congrArg (bytes _ ++ ·) hdata
  exact hnext.uint16LE.2

theorem length_cStr_le (s : List UInt8) : (cStr s).length ≤ s.length :=
  (takeWhile_sublist _).length_le

theorem ChatClient.length_fields (c : ChatClient) :
    (c.fields.flatMap Buffer.Field.bytes).length = 29 := by
  simp [ChatClient.fields, bytes, long]

theorem ChatClient.length_flatMap_fields (l : List ChatClient) :
    ((l.flatMap ChatClient.fields).flatMap Buffer.Field.bytes).length = 29 * l.length := by
  induction l with
  | nil => rfl
  | cons c l ih =>
    rw [flatMap_cons, flatMap_append, length_append, ih, c.length_fields,
      length_cons]
    omega

theorem length_fontFields (a : ChatAddress) (nLocalPort nSession : UInt16) (f : ChatFont) :
    ((fontFields a nLocalPort nSession f).flatMap Buffer.Field.bytes).length
      = 32 + (cStr f.fontFamily).length := by
  simp [fontFields, bytes, long, char]
  omega

namespace Buffer.Next

variable {b : Buffer} {fields : List Buffer.Field} {tail : List UInt8}

/-- A port in 32 bits, read as one of 16 bits and zero. -/
theorem port {p : UInt16} (h : b.Next (.long p.toNat :: fields) tail) :
    b.unpackUInt16LE.1 = p ∧ b.unpackUInt16LE.2.unpackUInt16LE.2.Next fields tail := by
  have hlt := p.toNat_lt
  have hlong : (Buffer.Field.long p.toNat).bytes
      = (Buffer.Field.uint16LE p).bytes ++ (Buffer.Field.uint16LE 0).bytes := by
    have hvalue : (UInt32.ofNat p.toNat).toNat = p.toNat :=
      UInt32.toNat_ofNat_of_lt' (lt_trans hlt (by decide))
    have hzero : p.toNat / 256 / 256 = 0 := by omega
    simp only [Buffer.Field.long, Buffer.Field.bytes, hvalue, bytesLE, hzero]
    rfl
  have hnext : b.Next (.uint16LE p :: .uint16LE 0 :: fields) tail := by
    have hcons := h.cons
    rw [Next, flatMap_cons, flatMap_cons, hcons, hlong]
    simp only [append_assoc]
  exact ⟨hnext.uint16LE.1, hnext.uint16LE.2.uint16LE.2⟩

theorem client {c : ChatClient} (h : b.Next (c.fields ++ fields) tail) :
    (ChatClient.loadFromBuffer b).1 = c.wire ∧
      (ChatClient.loadFromBuffer b).2.Next fields tail := by
  simp only [ChatClient.fields, cons_append, nil_append] at h
  obtain ⟨hVersion, h⟩ := h.long
  obtain ⟨hPort, h⟩ := h.port
  obtain ⟨hUin, h⟩ := h.long
  obtain ⟨hIp, h⟩ := h.long
  obtain ⟨hIntIp, h⟩ := h.long
  obtain ⟨hMode, h⟩ := h.int8
  obtain ⟨-, h⟩ := h.uint16LE
  obtain ⟨hSession, h⟩ := h.uint16LE
  obtain ⟨hHandshake, h⟩ := h.long
  refine ⟨?_, h⟩
  simp only [ChatClient.loadFromBuffer, ChatClient.wire, hVersion, hPort, hUin, hIp, hIntIp, hMode,
    hSession, hHandshake]

theorem clients {l : List ChatClient} (h : b.Next (l.flatMap ChatClient.fields) tail) :
    (ChatClient.loadAll l.length b).1 = l.map ChatClient.wire := by
  induction l generalizing b with
  | nil => rfl
  | cons c l ih =>
    obtain ⟨hvalue, hnext⟩ := h.client
    rw [length_cons, ChatClient.loadAll, hvalue, ih hnext, map_cons]

/-- What is left of a font. -/
theorem font {a : ChatAddress} {nLocalPort nSession : UInt16} {f : ChatFont}
    (hfamily : f.fontFamily.length + 1 < 2 ^ 16)
    (h : b.Next (fontFields a nLocalPort nSession f ++ fields) tail) :
    (unpackFont b).1 = ⟨nLocalPort, nSession, f.nFontSize % 2 ^ 32, f.nFontFace,
        cStr f.fontFamily ++ [0], f.nFontEncoding, f.nFontStyle⟩ ∧
      (unpackFont b).2.Next fields tail := by
  have hcStr := length_cStr_le f.fontFamily
  simp only [fontFields, cons_append, nil_append] at h
  obtain ⟨-, h⟩ := h.long
  obtain ⟨hPort, h⟩ := h.long
  obtain ⟨-, h⟩ := h.long
  obtain ⟨-, h⟩ := h.long
  obtain ⟨-, h⟩ := h.char
  obtain ⟨hSession, h⟩ := h.uint16LE
  obtain ⟨hSize, h⟩ := h.long
  obtain ⟨hFace, h⟩ := h.long
  obtain ⟨hFamily, h⟩ := h.shortNullStringLE (by omega)
  obtain ⟨hEncoding, h⟩ := h.int8
  obtain ⟨hStyle, h⟩ := h.int8
  have hport : UInt16.ofNat (nLocalPort.toNat % 2 ^ 32) = nLocalPort := by
    have hlt := nLocalPort.toNat_lt
    rw [mod_eq_of_lt (by omega), UInt16.ofNat_toNat]
  have hface : f.nFontFace % 2 ^ 32 = f.nFontFace := by
    have hle : ∀ c : Bool, c.toNat ≤ 1 := Bool.toNat_le
    have := hle f.bFontBold
    have := hle f.bFontItalic
    have := hle f.bFontUnderline
    have := hle f.bFontStrikeOut
    rw [ChatFont.nFontFace, fontFace]
    omega
  refine ⟨?_, h⟩
  simp only [unpackFont, hPort, hSession, hSize, hFace, hFamily, hEncoding, hStyle, hport, hface,
    UInt8.toUInt8_toInt8]

end Buffer.Next

theorem length_loadAll (n : ℕ) (b : Buffer) : (ChatClient.loadAll n b).1.length = n := by
  induction n generalizing b with
  | zero => rfl
  | succ n ih => rw [ChatClient.loadAll, length_cons, ih]

/-! ## The constructors, by their parameters -/

section Constructors

variable {a : ChatAddress} {myUin : ℕ} {localName : List UInt8} {nLocalPort nSession : UInt16}
  {foreRed foreGreen foreBlue backRed backBlue backGreen : ℤ} {f : ChatFont}
  {clientList : List ChatClient}

/-- The bytes of a 16-bit number exchanged. -/
theorem swap_unpackUInt16BE {p : UInt16} {b : Buffer} {fields : List Buffer.Field}
    {tail : List UInt8}
    (h : b.Next (.uint16BE p :: fields) tail) :
    (b.unpackUInt16LE.1 >>> 8) + (b.unpackUInt16LE.1 <<< 8) = p ∧
      b.unpackUInt16LE.2.Next fields tail := by
  have hlt := p.toNat_lt
  obtain ⟨hvalue, hnext⟩ := @unpackUInt16LE_append b _ (valueLE (bytesBE 2 p.toNat)) (by
    have hcons := h.cons
    rwa [← bytesLE_valueLE (bytes (.uint16BE p))] at hcons)
  refine ⟨?_, hnext⟩
  have hbytes : valueLE (bytesBE 2 p.toNat) = p.toNat / 256 + 256 * (p.toNat % 256) := by
    have hhigh : (UInt8.ofNat (p.toNat / 256)).toNat = p.toNat / 256 % 256 := UInt8.toNat_ofNat'
    have hlow : (UInt8.ofNat p.toNat).toNat = p.toNat % 256 := UInt8.toNat_ofNat'
    change (UInt8.ofNat (p.toNat / 256)).toNat + 256 * ((UInt8.ofNat p.toNat).toNat + 256 * 0) = _
    omega
  have hshift : UInt16.toNat 8 % 16 = 8 := rfl
  generalize hn : p.toNat / 256 + 256 * (p.toNat % 256) = n at hvalue hbytes
  have hmod : n % 2 ^ 16 = n := by omega
  have hdiv : n / 2 ^ 8 = p.toNat % 256 := by omega
  have hmul : n * 2 ^ 8 % 2 ^ 16 = 256 * (p.toNat / 256) := by omega
  rw [hvalue, hbytes]
  refine UInt16.toNat_inj.mp ?_
  simp only [UInt16.toNat_add, UInt16.toNat_shiftRight, UInt16.toNat_shiftLeft, UInt16.toNat_ofNat',
    shiftRight_eq_div_pow, shiftLeft_eq, hshift, hmod, hdiv, hmul]
  omega

theorem ofBuffer_cpChatColor (h : 26 + localName.length < 2 ^ 16) : ∃ packet,
    cpChatColor myUin localName nLocalPort foreRed foreGreen foreBlue backRed backBlue backGreen
      = some packet ∧
    CPChatColor.ofBuffer (received packet) = ⟨myUin % 2 ^ 32, cStr localName ++ [0], nLocalPort,
      Rgb.wire ⟨foreRed, foreGreen, foreBlue⟩, Rgb.wire ⟨backRed, backGreen, backBlue⟩⟩ := by
  have hcStr := length_cStr_le localName
  obtain ⟨packet, hpacket, h⟩ := @next_received ((10 + localName.length + 16) % 2 ^ 16)
    [.long 0x65, .long (2 ^ 64 - 8), .long myUin, .shortNullStringLE (cStr localName),
      .uint16BE nLocalPort, .char foreRed, .char foreGreen, .char foreBlue, .char 0,
      .char backRed, .char backGreen, .char backBlue, .char 0, .char 0] (by
    rw [mod_eq_of_lt (by omega)]
    simp [bytes, long, char]
    omega)
  refine ⟨packet, hpacket, ?_⟩
  obtain ⟨-, h⟩ := h.long
  obtain ⟨-, h⟩ := h.long
  obtain ⟨hUin, h⟩ := h.long
  obtain ⟨hName, h⟩ := h.shortNullStringLE (by omega)
  obtain ⟨hPort, h⟩ := swap_unpackUInt16BE h
  obtain ⟨hForeRed, h⟩ := h.color
  obtain ⟨hForeGreen, h⟩ := h.color
  obtain ⟨hForeBlue, h⟩ := h.color
  obtain ⟨-, h⟩ := h.char
  obtain ⟨hBackRed, h⟩ := h.color
  obtain ⟨hBackGreen, h⟩ := h.color
  obtain ⟨hBackBlue, -⟩ := h.color
  simp only [CPChatColor.ofBuffer, hUin, hName, hPort, hForeRed, hForeGreen, hForeBlue, hBackRed,
    hBackGreen, hBackBlue, Rgb.wire]

theorem ofBuffer_cpChatFont (h : 32 + f.fontFamily.length < 2 ^ 16) : ∃ packet,
    cpChatFont a nLocalPort nSession f = some packet ∧
    CPChatFont.ofBuffer (received packet) = ⟨nLocalPort, nSession, f.nFontSize % 2 ^ 32,
      f.nFontFace, cStr f.fontFamily ++ [0], f.nFontEncoding, f.nFontStyle⟩ := by
  have hcStr := length_cStr_le f.fontFamily
  obtain ⟨packet, hpacket, h⟩ := @next_received ((29 + f.fontFamily.length + 3) % 2 ^ 16)
    (fontFields a nLocalPort nSession f) (by
    rw [mod_eq_of_lt (by omega), length_fontFields]
    omega)
  refine ⟨packet, hpacket, ?_⟩
  rw [← append_nil (fontFields _ _ _ _)] at h
  exact (h.font (by omega)).1

/-- The number of clients that is read, for a list of `n`. -/
theorem clientCount (n : ℕ) :
    ((Int8.ofInt n).toInt % 2 ^ 16).toNat = if n % 256 < 128 then n % 256 else n % 256 + 65280 := by
  have hbits : (Int8.ofInt n).toInt = (BitVec.ofInt 8 n).toInt := rfl
  rw [hbits, BitVec.toInt_ofInt, Int.bmod_def]
  split_ifs <;> omega

theorem ofBuffer_cpChatColorFont (h : 52 + localName.length + f.fontFamily.length
      + clientList.length * (ChatClient.sizeof + 2) < 2 ^ 16) : ∃ packet,
    cpChatColorFont a myUin localName nLocalPort nSession foreRed foreGreen foreBlue backRed
      backBlue backGreen f clientList = some packet ∧
    ∃ chatClients, CPChatColorFont.ofBuffer (received packet) = ⟨myUin % 2 ^ 32,
      cStr localName ++ [0], Rgb.wire ⟨foreRed, foreGreen, foreBlue⟩,
      Rgb.wire ⟨backRed, backGreen, backBlue⟩, ⟨nLocalPort, nSession, f.nFontSize % 2 ^ 32,
        f.nFontFace, cStr f.fontFamily ++ [0], f.nFontEncoding, f.nFontStyle⟩, chatClients⟩ ∧
      (chatClients.length = clientList.length ↔ clientList.length < 128) ∧
      (clientList.length < 128 → chatClients = clientList.map ChatClient.wire) := by
  have hcStr := length_cStr_le localName
  have hcStr' := length_cStr_le f.fontFamily
  have hsizeof : clientList.length * (ChatClient.sizeof + 2) = 66 * clientList.length :=
    Nat.mul_comm _ _
  have hclients := ChatClient.length_flatMap_fields clientList
  obtain ⟨packet, hpacket, h⟩ := @next_received ((10 + localName.length + 38 + f.fontFamily.length
      + 4 + clientList.length * (ChatClient.sizeof + 2)) % 2 ^ 16)
    ([.long 0x65, .long myUin, .shortNullStringLE (cStr localName), .char foreRed,
      .char foreGreen, .char foreBlue, .char 0, .char backRed,
      .char backGreen, .char backBlue, .char 0] ++ fontFields a nLocalPort nSession f ++
      .char clientList.length :: clientList.flatMap ChatClient.fields) (by
    rw [mod_eq_of_lt (by omega)]
    simp only [flatMap_append, flatMap_cons, length_append, length_fontFields,
      hclients]
    simp [bytes, long, char]
    omega)
  refine ⟨packet, hpacket, ?_⟩
  simp only [cons_append, nil_append] at h
  obtain ⟨-, h⟩ := h.long
  obtain ⟨hUin, h⟩ := h.long
  obtain ⟨hName, h⟩ := h.shortNullStringLE (by omega)
  obtain ⟨hForeRed, h⟩ := h.color
  obtain ⟨hForeGreen, h⟩ := h.color
  obtain ⟨hForeBlue, h⟩ := h.color
  obtain ⟨-, h⟩ := h.char
  obtain ⟨hBackRed, h⟩ := h.color
  obtain ⟨hBackGreen, h⟩ := h.color
  obtain ⟨hBackBlue, h⟩ := h.color
  obtain ⟨-, h⟩ := h.char
  obtain ⟨hFont, h⟩ := h.font (by omega)
  obtain ⟨hCount, h⟩ := h.char
  have hcount := clientCount clientList.length
  refine ⟨(CPChatColorFont.ofBuffer (received packet)).chatClients, ?_, ?_, fun hlt => ?_⟩
  · simp only [CPChatColorFont.ofBuffer, hUin, hName, hForeRed, hForeGreen, hForeBlue, hBackRed,
      hBackGreen, hBackBlue, hFont, Rgb.wire]
  · simp only [CPChatColorFont.ofBuffer]
    rw [length_loadAll, hCount, hcount]
    split_ifs <;> omega
  · simp only [CPChatColorFont.ofBuffer]
    rw [hCount, hcount, if_pos (by omega), mod_eq_of_lt (by omega)]
    exact h.clients

end Constructors

/-! ## The packets of a chat manager -/

/-- What a chat manager sends of itself in the packets. -/
structure ChatSender where
  address : ChatAddress
  myUin : ℕ
  myName : List UInt8
  localPort : UInt16
  nSession : UInt16
  nColorFore : Rgb
  nColorBack : Rgb
  font : ChatFont

/-- The three packets, and the clients that one of them lists. -/
inductive HandshakePacket
  | color
  | colorFont (clientList : List ChatClient)
  | font

namespace ChatSender

variable (s : ChatSender)

/-- The size that the constructor computes, before it is cut to an `unsigned short`. -/
def nSize : HandshakePacket → ℕ
  | .color => 26 + s.myName.length
  | .colorFont clientList => 52 + s.myName.length + s.font.fontFamily.length
      + clientList.length * (ChatClient.sizeof + 2)
  | .font => 32 + s.font.fontFamily.length

/-- The packet as `SendChatHandshake` and `ProcessPacket` construct it: the parts of the colours in
the order in which they are kept. -/
def encode : HandshakePacket → Option Buffer
  | .color => cpChatColor s.myUin s.myName s.localPort s.nColorFore.red s.nColorFore.green
      s.nColorFore.blue s.nColorBack.red s.nColorBack.green s.nColorBack.blue
  | .colorFont clientList => cpChatColorFont s.address s.myUin s.myName s.localPort s.nSession
      s.nColorFore.red s.nColorFore.green s.nColorFore.blue s.nColorBack.red s.nColorBack.green
      s.nColorBack.blue s.font clientList
  | .font => cpChatFont s.address s.localPort s.nSession s.font

/-- The font of a packet is that of the sender, where `read` takes what counts of its name. -/
def SameFont (read : List UInt8 → List UInt8) (font : CPChatFont) : Prop :=
  font.nPort = s.localPort ∧ font.nSession = s.nSession ∧ font.nFontSize = s.font.nFontSize ∧
    font.nFontFace = s.font.nFontFace ∧ read font.myFontFamily = s.font.fontFamily ∧
    font.nFontEncoding = s.font.nFontEncoding ∧ font.nFontStyle = s.font.nFontStyle

/-- The packet is decoded to what was sent. -/
def DecodesAs (read : List UInt8 → List UInt8) : HandshakePacket → Prop
  | .color => ∃ packet, s.encode .color = some packet ∧
      let p := CPChatColor.ofBuffer (received packet)
      p.nPort = s.localPort ∧ p.nColorFore = s.nColorFore ∧ p.nColorBack = s.nColorBack
  | .colorFont clientList => ∃ packet, s.encode (.colorFont clientList) = some packet ∧
      let p := CPChatColorFont.ofBuffer (received packet)
      p.nColorFore = s.nColorFore ∧ p.nColorBack = s.nColorBack ∧ s.SameFont read p.font ∧
        p.chatClients = clientList
  | .font => ∃ packet, s.encode .font = some packet ∧
      s.SameFont read (CPChatFont.ofBuffer (received packet))

/-- The colours are colours, and there is as much green as blue in the background. -/
structure ColorsSurvive : Prop where
  fore : s.nColorFore.IsColor
  back : s.nColorBack.IsColor
  green_eq_blue : s.nColorBack.green = s.nColorBack.blue

/-- The font size has 32 bits, and the family is what is read where it stands with a terminator. -/
structure FontSurvives (read : List UInt8 → List UInt8) : Prop where
  nFontSize : s.font.nFontSize < 2 ^ 32
  fontFamily : read (cStr s.font.fontFamily ++ [0]) = s.font.fontFamily

/-- What the packet is decoded as is what was sent. -/
def Survives (read : List UInt8 → List UInt8) : HandshakePacket → Prop
  | .color => s.ColorsSurvive
  | .colorFont clientList => s.ColorsSurvive ∧ s.FontSurvives read ∧
      clientList.length < 128 ∧ ∀ c ∈ clientList, c.Is32
  | .font => s.FontSurvives read

variable {s}

theorem wire_eq_iff_isColor {c : Rgb} : c.wire = c ↔ c.IsColor := by
  have hpart : ∀ {n : ℤ}, n % 256 = n ↔ 0 ≤ n ∧ n < 256 := by
    intro n
    omega
  obtain ⟨r, g, b⟩ := c
  rw [Rgb.wire, Rgb.mk.injEq, hpart, hpart, hpart]
  exact ⟨fun ⟨hr, hg, hb⟩ => ⟨hr, hg, hb⟩, fun ⟨hr, hg, hb⟩ => ⟨hr, hg, hb⟩⟩

/-- The background comes back with its green and blue exchanged. -/
theorem colorsSurvive_iff : (Rgb.wire s.nColorFore = s.nColorFore ∧
      Rgb.wire ⟨s.nColorBack.red, s.nColorBack.blue, s.nColorBack.green⟩ = s.nColorBack) ↔
    s.ColorsSurvive := by
  constructor
  · rintro ⟨hfore, hback⟩
    have hred := congrArg Rgb.red hback
    have hgreen := congrArg Rgb.green hback
    have hblue := congrArg Rgb.blue hback
    simp only [Rgb.wire] at hred hgreen hblue
    exact ⟨wire_eq_iff_isColor.mp hfore, ⟨by omega, by omega, by omega⟩, by omega⟩
  · rintro ⟨hfore, hback, heq⟩
    have hsame : (⟨s.nColorBack.red, s.nColorBack.blue, s.nColorBack.green⟩ : Rgb)
        = s.nColorBack := by
      revert heq
      obtain ⟨r, g, b⟩ := s.nColorBack
      intro heq
      obtain rfl : g = b := heq
      rfl
    rw [hsame]
    exact ⟨wire_eq_iff_isColor.mpr hfore, wire_eq_iff_isColor.mpr hback⟩

/-- What is left of the font is the font of the sender. -/
theorem sameFont_iff {read : List UInt8 → List UInt8} :
    s.SameFont read ⟨s.localPort, s.nSession, s.font.nFontSize % 2 ^ 32, s.font.nFontFace,
        cStr s.font.fontFamily ++ [0], s.font.nFontEncoding, s.font.nFontStyle⟩ ↔
      s.FontSurvives read := by
  constructor
  · rintro ⟨-, -, hsize, -, hfamily, -, -⟩
    exact ⟨hsize ▸ mod_lt _ (by decide), hfamily⟩
  · rintro ⟨hsize, hfamily⟩
    exact ⟨rfl, rfl, mod_eq_of_lt hsize, rfl, hfamily, rfl, rfl⟩

/-- A property of the one packet that there is. -/
theorem exists_packet_iff {o : Option Buffer} {packet : Buffer} {P : Buffer → Prop}
    (h : o = some packet) : (∃ p, o = some p ∧ P p) ↔ P packet := by
  subst h
  simp only [Option.some.injEq, exists_eq_left']

section Packets

variable {read : List UInt8 → List UInt8}

theorem decodesAs_color (h : s.nSize .color < 2 ^ 16) :
    s.DecodesAs read .color ↔ s.ColorsSurvive := by
  obtain ⟨packet, hpacket, hp⟩ := @ofBuffer_cpChatColor s.myUin s.myName s.localPort
    s.nColorFore.red s.nColorFore.green s.nColorFore.blue s.nColorBack.red s.nColorBack.green
    s.nColorBack.blue h
  refine (exists_packet_iff hpacket).trans ?_
  rw [hp]
  exact (and_iff_right rfl).trans colorsSurvive_iff

theorem decodesAs_font (h : s.nSize .font < 2 ^ 16) :
    s.DecodesAs read .font ↔ s.FontSurvives read := by
  obtain ⟨packet, hpacket, hp⟩ := @ofBuffer_cpChatFont s.address s.localPort s.nSession s.font h
  refine (exists_packet_iff hpacket).trans ?_
  rw [hp]
  exact sameFont_iff

theorem map_wire_eq_iff {l : List ChatClient} :
    l.map ChatClient.wire = l ↔ ∀ c ∈ l, c.Is32 := by
  simp only [← ChatClient.wire_eq_iff]
  conv_lhs => rw [← map_id l, map_map]
  exact map_inj_left

theorem decodesAs_colorFont {clientList : List ChatClient}
    (h : s.nSize (.colorFont clientList) < 2 ^ 16) :
    s.DecodesAs read (.colorFont clientList) ↔ s.ColorsSurvive ∧ s.FontSurvives read ∧
      clientList.length < 128 ∧ ∀ c ∈ clientList, c.Is32 := by
  obtain ⟨packet, hpacket, chatClients, hp, hlength, hclients⟩ := @ofBuffer_cpChatColorFont
    s.address s.myUin s.myName s.localPort s.nSession s.nColorFore.red s.nColorFore.green
    s.nColorFore.blue s.nColorBack.red s.nColorBack.green s.nColorBack.blue s.font clientList h
  have hlist : chatClients = clientList ↔ clientList.length < 128 ∧ ∀ c ∈ clientList, c.Is32 := by
    constructor
    · intro heq
      have hlt := hlength.mp (congrArg List.length heq)
      exact ⟨hlt, map_wire_eq_iff.mp ((hclients hlt).symm.trans heq)⟩
    · rintro ⟨hlt, h32⟩
      exact (hclients hlt).trans (map_wire_eq_iff.mpr h32)
  refine (exists_packet_iff hpacket).trans ?_
  rw [hp]
  exact and_assoc.symm.trans (and_congr colorsSurvive_iff (and_congr sameFont_iff hlist))

end Packets

/-- **Which packets are decoded to what was sent.** -/
theorem decodesAs_iff (read : List UInt8 → List UInt8) (s : ChatSender) (k : HandshakePacket)
    (h : s.nSize k < 2 ^ 16) : s.DecodesAs read k ↔ s.Survives read k := by
  cases k with
  | color => exact decodesAs_color h
  | colorFont clientList => exact decodesAs_colorFont h
  | font => exact decodesAs_font h

/-- A user in black on green, with the font "A". -/
def onGreen : ChatSender where
  address := ⟨0, 0, true⟩
  myUin := 1234567
  myName := []
  localPort := 4000
  nSession := 23
  nColorFore := ⟨0, 0, 0⟩
  nColorBack := ⟨0, 255, 0⟩
  font := ⟨12, false, false, false, false, [65], 0, 0⟩

theorem decodesAs_onGreen : onGreen.nSize .font < 2 ^ 16 ∧
    (onGreen.DecodesAs id .font ↔ onGreen.Survives id .font) :=
  ⟨by decide, decodesAs_iff id onGreen .font (by decide)⟩

/-- The background arrives in blue, and the font as "A" and a terminator. -/
theorem not_decodesAs_onGreen :
    ¬onGreen.DecodesAs id .color ∧ ¬onGreen.DecodesAs cStr .color ∧
      ¬onGreen.DecodesAs id .font ∧ ¬onGreen.DecodesAs id (.colorFont []) := by
  have hcolors : ¬onGreen.ColorsSurvive := fun h => absurd h.green_eq_blue (by decide)
  have hfont : ¬onGreen.FontSurvives id := fun h => absurd h.fontFamily (by decide)
  exact ⟨fun h => hcolors ((decodesAs_color (by decide)).mp h),
    fun h => hcolors ((decodesAs_color (by decide)).mp h),
    fun h => hfont ((decodesAs_font (by decide)).mp h),
    fun h => hcolors ((decodesAs_colorFont (by decide)).mp h).1⟩

end ChatSender

end Licq
