import Licq.Wire.Words

/-!
# Icq/ClientCrypt — the encryption of direct connection packets

`Encrypt_Client` and `Decrypt_Client` of `packet-tcp.cpp`.  A packet is the data of its
buffer, the two bytes of its length first.  The sender draws a position of the packet and one of
the table `clientCheckData`, makes a check word of what stands there and of four more bytes of
the packet, and uses it as the key with which the first quarter of the packet is encrypted; the
check word itself overwrites four bytes.  The receiver reads it there, decrypts and checks.

The **main result** `decryptClient_encryptClient` says that a packet comes back as it was but for
the check bytes, whatever is drawn, for packets no shorter than `minimalSize`; on one that is
shorter the code divides by zero or reads past the end of the packet
(`not_restores_elevenBytes`).
-/

open Wire

namespace Licq

open List Option

/-! ## The algorithm -/

/-- `client_check_data`, with the zero byte that ends its string and the one that ends it as a
literal. -/
def clientCheckData : List UInt8 :=
  ([
    'A', 's', ' ', 'p', 'a', 'r', 't', ' ', 'o', 'f', ' ', 't', 'h', 'i', 's', ' ', 's', 'o', 'f',
    't', 'w', 'a', 'r', 'e', ' ', 'b', 'e', 't', 'a', ' ', 'v', 'e', 'r', 's', 'i', 'o', 'n', ' ',
    'M', 'i', 'r', 'a', 'b', 'i', 'l', 'i', 's', ' ', 'i', 's', ' ',
    'g', 'r', 'a', 'n', 't', 'i', 'n', 'g', ' ', 'a', ' ', 'l', 'i', 'm', 'i', 't', 'e', 'd', ' ',
    'a', 'c', 'c', 'e', 's', 's', ' ', 't', 'o', ' ', 't', 'h', 'e', ' ', 'I', 'C', 'Q', ' ', 'n',
    'e', 't', 'w', 'o', 'r', 'k', ',', ' ',
    's', 'e', 'r', 'v', 'e', 'r', 's', ',', ' ', 'd', 'i', 'r', 'e', 'c', 't', 'o', 'r', 'i', 'e',
    's', ',', ' ', 'l', 'i', 's', 't', 'i', 'n', 'g', 's', ',', ' ', 'i', 'n', 'f', 'o', 'r', 'm',
    'a', 't', 'i', 'o', 'n', ' ', 'a', 'n', 'd', ' ', 'd', 'a', 't', 'a', 'b', 'a', 's', 'e', 's',
    ' ', '(', '\"',
    'I', 'C', 'Q', ' ', 'S', 'e', 'r', 'v', 'i', 'c', 'e', 's', ' ', 'a', 'n', 'd', ' ', 'I', 'n',
    'f', 'o', 'r', 'm', 'a', 't', 'i', 'o', 'n', '\"', ')', '.', ' ', 'T', 'h', 'e', ' ',
    'I', 'C', 'Q', ' ', 'S', 'e', 'r', 'v', 'i', 'c', 'e', ' ', 'a', 'n', 'd', ' ', 'I', 'n', 'f',
    'o', 'r', 'm', 'a', 't', 'i', 'o', 'n', ' ', 'm', 'a', 'y', ' ', 'd', 'a', 't', 'a', 'b', 'a',
    's', 'e', 's', ' ', '(', '\"',
    'I', 'C', 'Q', ' ', 'S', 'e', 'r', 'v', 'i', 'c', 'e', 's', ' ', 'a', 'n', 'd', ' ', 'I', 'n',
    'f', 'o', 'r', 'm', 'a', 't', 'i', 'o', 'n', '\"', ')', '.', ' ', 'T', 'h', 'e', ' ',
    'I', 'C', 'Q', ' ', 'S', 'e', 'r', 'v', 'i', 'c', 'e', ' ', 'a', 'n', 'd', ' ', 'I', 'n', 'f',
    'o', 'r', 'm', 'a', 't', 'i', 'o', 'n', ' ', 'm', 'a', 'y', '\x00', '\x00'
  ] : List Char).map fun c => UInt8.ofNat c.toNat

/-- An entry of the table at an index of one byte. -/
def clientCheck (i : Fin 256) : UInt8 := clientCheckData.get (i.castLE (by decide +kernel))

/-- Where the check word of a version stands. -/
def checkOffset : ℕ → ℕ
  | 4 | 5 => 6
  | _ => 0

/-- Where the data that is encrypted begins: after the length and, above version 6, one more
byte. -/
def bufStart (version : ℕ) : ℕ := if 6 < version then 3 else 2

/-- `B1`, the bytes of the packet that enter the check word; none where one of them is past the
end of the packet. -/
def packetWord (offset : ℕ) (buf : List UInt8) : Option UInt64 :=
  if offset ≠ 0 then do
    let b₃ ← buf[offset + 4]?
    let b₂ ← buf[offset + 6]?
    let b₁ ← buf[2]?
    let b₀ ← buf[0]?
    some (signExtend (wordOf b₃ b₂ b₁ b₀))
  else do
    let b₄ ← buf[4]?
    let b₆ ← buf[6]?
    some (signExtend (wordOf b₄ b₆ b₄ b₆))

/-- The main XOR key. -/
def xorKey (size : ℕ) (check : UInt64) : UInt64 := 0x67657268 * UInt64.ofNat size + check

/-- The word that the bytes from `i` on are encrypted with. -/
def xorHex (key : UInt64) (i : ℕ) : UInt64 := key + (clientCheck (Fin.ofNat 256 i)).toUInt64

/-- The body of the loop that encrypts and decrypts. -/
def xorWord (key : UInt64) (i : ℕ) (buf : List UInt8) : List UInt8 :=
  let hex := xorHex key i
  (((buf.modify i (· ^^^ byteAt 0 hex)).modify (i + 1) (· ^^^ byteAt 1 hex)).modify (i + 2)
    (· ^^^ byteAt 2 hex)).modify (i + 3) (· ^^^ byteAt 3 hex)

/-- The loop from `i` on; a fuel of `bound` rounds is never used up. -/
def xorLoop (key : UInt64) (bound : ℕ) : ℕ → ℕ → List UInt8 → List UInt8
  | 0, _, buf => buf
  | fuel + 1, i, buf =>
    if i < bound then xorLoop key bound fuel (i + 4) (xorWord key i buf) else buf

/-- The bytes of the packet that the loop runs over: `(size + 3) / 4`. -/
def xorBound (size : ℕ) : ℕ := (size + 3) / 4

/-- In the older versions the first 6 bytes are not encrypted. -/
def restoreHead (offset : ℕ) (bak buf : List UInt8) : List UInt8 :=
  if offset ≠ 0 then bak.take 6 ++ buf.drop 6 else buf

/-- Storing the check word. -/
def storeCheck (offset : ℕ) (check : UInt64) (buf : List UInt8) : List UInt8 :=
  (((buf.set (offset + 3) (byteAt 3 check)).set (offset + 2) (byteAt 2 check)).set (offset + 1)
    (byteAt 1 check)).set offset (byteAt 0 check)

/-- Reading the check word again. -/
def loadCheck (offset : ℕ) (buf : List UInt8) : Option UInt64 := do
  let b₃ ← buf[offset + 3]?
  let b₂ ← buf[offset + 2]?
  let b₁ ← buf[offset + 1]?
  let b₀ ← buf[offset]?
  some (signExtend (wordOf b₃ b₂ b₁ b₀))

/-- The data that is sent: encrypted from its first word on, with the check word stored. -/
def encryptData (offset : ℕ) (check : UInt64) (buf : List UInt8) : List UInt8 :=
  let bound := xorBound buf.length
  storeCheck offset check
    (restoreHead offset buf (xorLoop (xorKey buf.length check) bound bound 0 buf))

/-- The data decrypted, from its second word on. -/
def decryptData (offset : ℕ) (check : UInt64) (buf : List UInt8) : List UInt8 :=
  let bound := xorBound buf.length
  restoreHead offset buf (xorLoop (xorKey buf.length check) bound bound 4 buf)

/-- The check word, before it is combined with `B1`: the position drawn, the byte found there, the
index drawn and the table's entry. -/
def checkWord (M1 : UInt64) (X1 X2 X3 : UInt8) : UInt64 :=
  M1 <<< 24 ||| X1.toUInt64 <<< 16 ||| X2.toUInt64 <<< 8 ||| X3.toUInt64

/-- `Encrypt_Client` with the two numbers that `rand` returns; none where the code reads past the
end of the packet or divides by zero. -/
def encryptClient (rand₁ rand₂ : ℕ) (pkt : List UInt8) (version : ℕ) : Option (List UInt8) :=
  if version < 4 then some pkt else do
    let offset := checkOffset version
    let buf := pkt.drop (bufStart version)
    -- with ten bytes this is the divisor 0; with fewer it wraps and M1 is past the end
    let range := min buf.length 255 - 10
    if range = 0 then none else do
      let M1 := rand₁ % range + 10
      let X1 ← (buf[M1]?).map (· ^^^ 0xFF)
      let X2 := UInt8.ofNat (rand₂ % 220)
      let X3 := clientCheck X2.toFin ^^^ 0xFF
      let B1 ← packetWord offset buf
      let check := checkWord (UInt64.ofNat M1) X1 X2 X3 ^^^ B1
      some (pkt.take (bufStart version) ++ encryptData offset check buf)

/-- What `Decrypt_Client` checks of the decrypted data and its check word. -/
def validatePacket (buf : List UInt8) (B1 : UInt64) : Option Bool :=
  let M1 := (byteAt 3 B1).toNat
  if M1 < 10 ∨ buf.length ≤ M1 then some false else do
    let X1 ← (buf[M1]?).map (· ^^^ 0xFF)
    if byteAt 2 B1 ≠ X1 then some false else
      let X2 := byteAt 1 B1
      if X2 < 220 then some (byteAt 0 B1 = clientCheck X2.toFin ^^^ 0xFF)
      else some true

/-- `Decrypt_Client`: whether the packet is accepted, and the packet as it is afterwards; none
where the code reads past the end of the packet. -/
def decryptClient (pkt : List UInt8) (version : ℕ) : Option (Bool × List UInt8) :=
  if version < 4 then some (true, pkt) else do
    let offset := checkOffset version
    let buf := pkt.drop (bufStart version)
    let check ← loadCheck offset buf
    let dec := decryptData offset check buf
    let B1 ← packetWord offset dec
    let valid ← validatePacket dec (B1 ^^^ check)
    some (valid, pkt.take (bufStart version) ++ dec)

/-- Whether a byte of the packet belongs to the check word. -/
def IsCheckByte (version i : ℕ) : Prop :=
  bufStart version + checkOffset version ≤ i ∧ i < bufStart version + checkOffset version + 4

/-- The shortest body that a version can encrypt. -/
def minimalSize : ℕ → ℕ
  | 4 | 5 => 13
  | 6 => 11
  | _ => 12

/-- **The packet comes back**: the encrypted packet is accepted and every byte of the packet but
the check bytes is restored. -/
def Restores (rand₁ rand₂ : ℕ) (pkt : List UInt8) (version : ℕ) : Prop :=
  ∃ enc dec, encryptClient rand₁ rand₂ pkt version = some enc ∧
    decryptClient enc version = some (true, dec) ∧ dec.length = pkt.length ∧
    ∀ i, ¬IsCheckByte version i → dec[i]? = pkt[i]?

/-! ## The loop -/

/-- What the loop does to byte `j`: the bytes of a word are those of its first index. -/
def xorByte (key : UInt64) (j : ℕ) : UInt8 := byteAt (j % 4) (xorHex key (j - j % 4))

theorem xor_xor_cancel (a b : UInt8) : a ^^^ b ^^^ b = a := by
  rw [UInt8.xor_assoc, UInt8.xor_self, UInt8.xor_zero]

theorem getElem?_xorWord (key : UInt64) {i : ℕ} (hi : i % 4 = 0) (buf : List UInt8) (j : ℕ) :
    (xorWord key i buf)[j]? =
      (buf[j]?).map fun b => if i ≤ j ∧ j < i + 4 then b ^^^ xorByte key j else b := by
  have hbyte : ∀ k < 4, xorByte key (i + k) = byteAt k (xorHex key i) := by
    intro k hk
    have hmod : (i + k) % 4 = k := by omega
    rw [xorByte, hmod, Nat.add_sub_cancel]
  simp only [xorWord, getElem?_modify, Option.map_eq_map, Option.map_map]
  congr 1
  funext b
  rcases Nat.lt_or_ge j i with hlow | hlow
  · simp only [Function.comp_apply, Nat.not_le.mpr hlow, false_and, if_false]
    rw [if_neg (by omega), if_neg (by omega), if_neg (by omega), if_neg (by omega)]
  · rcases Nat.lt_or_ge j (i + 4) with hhigh | hhigh
    · obtain ⟨k, rfl⟩ := Nat.exists_eq_add_of_le hlow
      have hk : k < 4 := by omega
      rw [hbyte k hk, if_pos ⟨hlow, hhigh⟩]
      rcases (by omega : k = 0 ∨ k = 1 ∨ k = 2 ∨ k = 3) with rfl | rfl | rfl | rfl <;> simp
    · simp only [Function.comp_apply, Nat.not_lt.mpr hhigh, and_false, if_false]
      rw [if_neg (by omega), if_neg (by omega), if_neg (by omega), if_neg (by omega)]

/-- **The loop, byte by byte**: from the index it starts at, the words that begin below the bound
are encrypted. -/
theorem getElem?_xorLoop (key : UInt64) {bound fuel i : ℕ} (hi : i % 4 = 0)
    (hfuel : bound ≤ i + 4 * fuel) (buf : List UInt8) (j : ℕ) :
    (xorLoop key bound fuel i buf)[j]? =
      (buf[j]?).map fun b => if i ≤ j ∧ j - j % 4 < bound then b ^^^ xorByte key j else b := by
  induction fuel generalizing i buf with
  | zero =>
    have hout : ¬(i ≤ j ∧ j - j % 4 < bound) := by omega
    simp only [xorLoop, hout, if_false, Option.map_id']
  | succ fuel ih =>
    rw [xorLoop]
    split
    · rename_i hlt
      rw [ih (by omega) (by omega), getElem?_xorWord key hi, Option.map_map]
      congr 1
      funext b
      by_cases hword : i ≤ j ∧ j < i + 4
      · have hin : i ≤ j ∧ j - j % 4 < bound := ⟨hword.1, by omega⟩
        have hnext : ¬(i + 4 ≤ j ∧ j - j % 4 < bound) := by omega
        simp only [Function.comp_apply]
        rw [if_pos hword, if_neg hnext, if_pos hin]
      · have hsame : (i + 4 ≤ j ∧ j - j % 4 < bound) ↔ (i ≤ j ∧ j - j % 4 < bound) := by omega
        simp only [Function.comp_apply, hword, hsame, if_false]
    · have hout : ¬(i ≤ j ∧ j - j % 4 < bound) := by omega
      simp only [hout, if_false, Option.map_id']

theorem length_xorLoop (key : UInt64) (bound fuel i : ℕ) (buf : List UInt8) :
    (xorLoop key bound fuel i buf).length = buf.length := by
  induction fuel generalizing i buf with
  | zero => rfl
  | succ fuel ih =>
    rw [xorLoop]
    split
    · rw [ih]
      simp only [xorWord, length_modify]
    · rfl

/-! ## The check word -/

variable {version offset : ℕ} {buf : List UInt8}

/-- The version's offset, and the data that a packet of its minimal size leaves to encrypt. -/
theorem checkOffset_cases (h : 4 ≤ version) :
    checkOffset version = 6 ∧ minimalSize version + 2 = bufStart version + 13 ∨
      checkOffset version = 0 ∧ minimalSize version + 2 = bufStart version + 11 := by
  rcases (by omega : version = 4 ∨ version = 5 ∨ version = 6 ∨ 7 ≤ version) with
    rfl | rfl | rfl | hnew
  · exact .inl ⟨rfl, rfl⟩
  · exact .inl ⟨rfl, rfl⟩
  · exact .inr ⟨rfl, rfl⟩
  · refine .inr ⟨?_, ?_⟩
    · unfold checkOffset
      split <;> omega
    · rw [bufStart, if_pos (by omega)]
      unfold minimalSize
      split <;> omega

theorem length_storeCheck (offset : ℕ) (check : UInt64) (buf : List UInt8) :
    (storeCheck offset check buf).length = buf.length := by
  simp only [storeCheck, length_set]

theorem getElem?_storeCheck {j : ℕ} (h : ¬(offset ≤ j ∧ j < offset + 4)) (check : UInt64)
    (buf : List UInt8) : (storeCheck offset check buf)[j]? = buf[j]? := by
  rw [storeCheck, getElem?_set_ne (by omega), getElem?_set_ne (by omega),
    getElem?_set_ne (by omega), getElem?_set_ne (by omega)]

/-- The receiver reads the low half of the check word. -/
theorem loadCheck_storeCheck (h : offset + 4 ≤ buf.length)
    (check : UInt64) :
    loadCheck offset (storeCheck offset check buf) = some (signExtend check.toUInt32) := by
  have h₃ : (storeCheck offset check buf)[offset + 3]? = some (byteAt 3 check) := by
    rw [storeCheck, getElem?_set_ne (by omega), getElem?_set_ne (by omega),
      getElem?_set_ne (by omega), getElem?_set_self (by omega)]
  have h₂ : (storeCheck offset check buf)[offset + 2]? = some (byteAt 2 check) := by
    rw [storeCheck, getElem?_set_ne (by omega), getElem?_set_ne (by omega),
      getElem?_set_self (by rw [length_set]; omega)]
  have h₁ : (storeCheck offset check buf)[offset + 1]? = some (byteAt 1 check) := by
    rw [storeCheck, getElem?_set_ne (by omega),
      getElem?_set_self (by rw [length_set, length_set]; omega)]
  have h₀ : (storeCheck offset check buf)[offset]? = some (byteAt 0 check) := by
    rw [storeCheck,
      getElem?_set_self (by rw [length_set, length_set, length_set]; omega)]
  simp only [loadCheck, h₃, h₂, h₁, h₀, bind_eq_bind, bind_some, wordOf_byteAt]

/-- The bytes that enter the check word are none of those it overwrites. -/
theorem packetWord_congr (h4 : 4 ≤ version) {buf' : List UInt8}
    (h : ∀ j, ¬(checkOffset version ≤ j ∧ j < checkOffset version + 4) → buf'[j]? = buf[j]?) :
    packetWord (checkOffset version) buf' = packetWord (checkOffset version) buf := by
  rcases checkOffset_cases h4 with ⟨ho, -⟩ | ⟨ho, -⟩ <;> rw [ho] at h ⊢
  · rw [packetWord, packetWord, if_pos (by decide), if_pos (by decide), h (6 + 4) (by omega),
      h (6 + 6) (by omega), h 2 (by omega), h 0 (by omega)]
  · rw [packetWord, packetWord, if_neg (by decide), if_neg (by decide), h 4 (by omega),
      h 6 (by omega)]

theorem packetWord_eq_some {version : ℕ} (h4 : 4 ≤ version) {buf : List UInt8}
    (h : minimalSize version + 2 ≤ bufStart version + buf.length) :
    ∃ B1, packetWord (checkOffset version) buf = some B1 := by
  have hget : ∀ j < buf.length, ∃ b, buf[j]? = some b := fun j hj =>
    ⟨buf[j], getElem?_eq_getElem hj⟩
  rcases checkOffset_cases h4 with ⟨ho, hmin⟩ | ⟨ho, hmin⟩ <;> rw [ho]
  · obtain ⟨b₃, h₃⟩ := hget (6 + 4) (by omega)
    obtain ⟨b₂, h₂⟩ := hget (6 + 6) (by omega)
    obtain ⟨b₁, h₁⟩ := hget 2 (by omega)
    obtain ⟨b₀, h₀⟩ := hget 0 (by omega)
    exact ⟨_, by simp only [packetWord, h₃, h₂, h₁, h₀]; rfl⟩
  · obtain ⟨b₄, h₄⟩ := hget 4 (by omega)
    obtain ⟨b₆, h₆⟩ := hget 6 (by omega)
    exact ⟨_, by simp only [packetWord, h₄, h₆]; rfl⟩

theorem toUInt32_shiftLeft (b : UInt8) {s : UInt64} {t : UInt32} (h : s = 24 ∧ t = 24 ∨
    s = 16 ∧ t = 16 ∨ s = 8 ∧ t = 8) : (b.toUInt64 <<< s).toUInt32 = b.toUInt32 <<< t := by
  have hb := b.toNat_lt
  refine UInt32.toNat_inj.mp ?_
  rcases h with ⟨rfl, rfl⟩ | ⟨rfl, rfl⟩ | ⟨rfl, rfl⟩ <;>
    simp only [UInt64.toNat_toUInt32, UInt64.toNat_shiftLeft, UInt32.toNat_shiftLeft,
      UInt8.toNat_toUInt64, UInt8.toNat_toUInt32, Nat.shiftLeft_eq] <;>
    simp

theorem toUInt32_checkWord {M1 : ℕ} (h : M1 < 256) (X1 X2 X3 : UInt8) :
    (checkWord (UInt64.ofNat M1) X1 X2 X3).toUInt32 = wordOf (UInt8.ofNat M1) X1 X2 X3 := by
  have hM1 : UInt64.ofNat M1 = (UInt8.ofNat M1).toUInt64 := by
    refine UInt64.toNat_inj.mp ?_
    rw [UInt64.toNat_ofNat', UInt8.toNat_toUInt64, UInt8.toNat_ofNat']
    omega
  have hX3 : X3.toUInt64.toUInt32 = X3.toUInt32 := by
    refine UInt32.toNat_inj.mp ?_
    rw [UInt64.toNat_toUInt32, UInt8.toNat_toUInt64, UInt8.toNat_toUInt32]
    have := X3.toNat_lt
    omega
  rw [checkWord, hM1, UInt64.toUInt32_or, UInt64.toUInt32_or, UInt64.toUInt32_or,
    toUInt32_shiftLeft _ (.inl ⟨rfl, rfl⟩), toUInt32_shiftLeft _ (.inr (.inl ⟨rfl, rfl⟩)),
    toUInt32_shiftLeft _ (.inr (.inr ⟨rfl, rfl⟩)), hX3, wordOf]

/-! ## Decrypting what was encrypted -/

theorem length_restoreHead {bak : List UInt8} (h : bak.length = buf.length) :
    (restoreHead offset bak buf).length = buf.length := by
  rw [restoreHead]
  split
  · rw [length_append, length_take, length_drop]
    omega
  · rfl

theorem getElem?_restoreHead (offset : ℕ) {bak : List UInt8} (h : bak.length = buf.length)
    (j : ℕ) : (restoreHead offset bak buf)[j]? =
      if offset ≠ 0 ∧ j < 6 then bak[j]? else buf[j]? := by
  rw [restoreHead]
  by_cases ho : offset ≠ 0
  · rw [if_pos ho, getElem?_append, length_take, getElem?_drop]
    rcases Nat.lt_or_ge j 6 with hj | hj
    · rw [getElem?_take_of_lt hj, if_pos (show offset ≠ 0 ∧ j < 6 from ⟨ho, hj⟩)]
      split
      · rfl
      · rw [getElem?_eq_none (by omega), getElem?_eq_none (by omega)]
    · rw [if_neg (by omega), if_neg (show ¬(offset ≠ 0 ∧ j < 6) by omega)]
      rcases Nat.lt_or_ge bak.length 6 with hlen | hlen
      · rw [getElem?_eq_none (by omega), getElem?_eq_none (by omega)]
      · congr 1
        omega
  · rw [if_neg ho, if_neg (fun hj => ho hj.1)]

theorem length_encryptData (offset : ℕ) (check : UInt64) (buf : List UInt8) :
    (encryptData offset check buf).length = buf.length := by
  rw [encryptData, length_storeCheck, length_restoreHead (length_xorLoop _ _ _ _ _).symm,
    length_xorLoop]

theorem length_decryptData (offset : ℕ) (check : UInt64) (buf : List UInt8) :
    (decryptData offset check buf).length = buf.length := by
  rw [decryptData, length_restoreHead (length_xorLoop _ _ _ _ _).symm, length_xorLoop]

/-- The keystream hangs on the low half of the check word only. -/
theorem xorByte_congr {check check' : UInt64} (h : check'.toUInt32 = check.toUInt32) (size j : ℕ) :
    xorByte (xorKey size check') j = xorByte (xorKey size check) j := by
  refine byteAt_congr (Nat.mod_lt _ (by decide)) ?_
  simp only [xorHex, xorKey, UInt64.toUInt32_add, h]

/-- **The bytes restored**: every byte of the data but those of the check word comes back. -/
theorem getElem?_decryptData (h4 : 4 ≤ version) {check check' : UInt64}
    (hcheck : check'.toUInt32 = check.toUInt32) (buf : List UInt8) (j : ℕ)
    (hj : ¬(checkOffset version ≤ j ∧ j < checkOffset version + 4)) :
    (decryptData (checkOffset version) check'
      (encryptData (checkOffset version) check buf))[j]? = buf[j]? := by
  generalize ho : checkOffset version = offset at hj ⊢
  have hoffset : offset = 6 ∨ offset = 0 := by
    rcases checkOffset_cases h4 with h | h <;> omega
  rw [decryptData, getElem?_restoreHead _ (length_xorLoop _ _ _ _ _).symm, length_encryptData,
    getElem?_xorLoop _ (by decide) (by omega), encryptData, getElem?_storeCheck hj,
    getElem?_restoreHead _ (length_xorLoop _ _ _ _ _).symm, getElem?_xorLoop _ (by decide) (by omega)]
  by_cases hhead : offset ≠ 0 ∧ j < 6
  · rw [if_pos hhead, if_pos hhead]
  · have hfour : 4 ≤ j := by omega
    rw [if_neg hhead, if_neg hhead, Option.map_map]
    simp only [Function.comp_def, xorByte_congr hcheck, hfour, Nat.zero_le, true_and]
    split <;> simp only [xor_xor_cancel, Option.map_id']

/-- The check word for a draw of the position `M1`, where the byte `m` stands, and of the table
index `X2`. -/
def drawnWord (M1 : ℕ) (m X2 : UInt8) : UInt64 :=
  checkWord (UInt64.ofNat M1) (m ^^^ 0xFF) X2 (clientCheck X2.toFin ^^^ 0xFF)

/-- The check word that was made is the one the receiver finds. -/
theorem validatePacket_drawnWord {M1 : ℕ} {buf : List UInt8} {B1 : UInt64} {m X2 : UInt8}
    (hlow : 10 ≤ M1) (hbyte : M1 < 256) (hm : buf[M1]? = some m)
    (hB1 : B1.toUInt32 = (drawnWord M1 m X2).toUInt32) : validatePacket buf B1 = some true := by
  rw [drawnWord, toUInt32_checkWord hbyte] at hB1
  obtain ⟨h₃, h₂, h₁, h₀⟩ := byteAt_wordOf hB1
  have hM1 : (UInt8.ofNat M1).toNat = M1 := by rw [UInt8.toNat_ofNat']; omega
  have hlen : M1 < buf.length := (List.getElem?_eq_some_iff.mp hm).1
  simp only [validatePacket, h₃, h₂, h₁, h₀, hM1, hm]
  rw [if_neg (by omega)]
  simp

section

variable {version : ℕ} {pkt : List UInt8}

theorem length_drop_bufStart (h4 : 4 ≤ version) (hsize : minimalSize version + 2 ≤ pkt.length) :
    bufStart version + (pkt.drop (bufStart version)).length = pkt.length ∧
      checkOffset version + 4 ≤ (pkt.drop (bufStart version)).length ∧
      11 ≤ (pkt.drop (bufStart version)).length := by
  rw [length_drop]
  rcases checkOffset_cases h4 with h | h <;> omega

/-- What the sender does with a packet that is long enough. -/
theorem encryptClient_eq (h4 : 4 ≤ version) (hsize : minimalSize version + 2 ≤ pkt.length)
    (rand₁ rand₂ : ℕ) : ∃ M1 m X2 B1, 10 ≤ M1 ∧ M1 < 255 ∧
      (pkt.drop (bufStart version))[M1]? = some m ∧
      packetWord (checkOffset version) (pkt.drop (bufStart version)) = some B1 ∧
      encryptClient rand₁ rand₂ pkt version = some (pkt.take (bufStart version) ++
        encryptData (checkOffset version) (drawnWord M1 m X2 ^^^ B1)
          (pkt.drop (bufStart version))) := by
  obtain ⟨hlen, -, hshort⟩ := length_drop_bufStart h4 hsize
  generalize hbuf : pkt.drop (bufStart version) = buf at hlen hshort ⊢
  have hlt : ¬version < 4 := Nat.not_lt.mpr h4
  have hrange : min buf.length 255 - 10 ≠ 0 := by omega
  obtain ⟨M1, hM1⟩ : ∃ M1, rand₁ % (min buf.length 255 - 10) + 10 = M1 := ⟨_, rfl⟩
  have hmod := Nat.mod_lt rand₁ (Nat.pos_of_ne_zero hrange)
  obtain ⟨m, hm⟩ : ∃ m, buf[M1]? = some m := ⟨_, getElem?_eq_getElem (by omega)⟩
  obtain ⟨B1, hB1⟩ := @packetWord_eq_some version h4 buf (by omega)
  refine ⟨M1, m, UInt8.ofNat (rand₂ % 220), B1, by omega, by omega, hm, hB1, ?_⟩
  simp only [encryptClient, hlt, if_false, hbuf, hrange, hM1, hm, hB1, drawnWord, map_some,
    bind_eq_bind, bind_some]

/-- What the receiver does with a packet. -/
theorem decryptClient_eq (h4 : 4 ≤ version) {head enc dec : List UInt8} {check B1 : UInt64}
    {valid : Bool} (hhead : head.length = bufStart version)
    (hcheck : loadCheck (checkOffset version) enc = some check)
    (hdec : decryptData (checkOffset version) check enc = dec)
    (hB1 : packetWord (checkOffset version) dec = some B1)
    (hvalid : validatePacket dec (B1 ^^^ check) = some valid) :
    decryptClient (head ++ enc) version = some (valid, head ++ dec) := by
  have hlt : ¬version < 4 := Nat.not_lt.mpr h4
  have htake : (head ++ enc).take (bufStart version) = head := by
    rw [← hhead, take_left]
  have hdrop : (head ++ enc).drop (bufStart version) = enc := by
    rw [← hhead, drop_left]
  simp only [decryptClient, hlt, if_false, htake, hdrop, hcheck, hdec, hB1, hvalid,
    bind_eq_bind, bind_some]

/-- **Decrypting gives back what was encrypted**, whatever the sender draws. -/
theorem decryptClient_encryptClient (rand₁ rand₂ : ℕ) (h4 : 4 ≤ version)
    (hsize : minimalSize version + 2 ≤ pkt.length) : Restores rand₁ rand₂ pkt version := by
  obtain ⟨hlen, hfour, -⟩ := length_drop_bufStart h4 hsize
  obtain ⟨M1, m, X2, B1, hlow, hbyte, hm, hB1, henc⟩ := encryptClient_eq h4 hsize rand₁ rand₂
  generalize hbuf : pkt.drop (bufStart version) = buf at hlen hfour hm hB1 henc
  have hhead : (pkt.take (bufStart version)).length = bufStart version := by
    rw [List.length_take]
    omega
  have hpkt : pkt.take (bufStart version) ++ buf = pkt := by rw [← hbuf, List.take_append_drop]
  generalize hcheck : drawnWord M1 m X2 ^^^ B1 = check at henc
  have hlow32 : (signExtend check.toUInt32).toUInt32 = check.toUInt32 := toUInt32_signExtend _
  have hload : loadCheck (checkOffset version) (encryptData (checkOffset version) check buf) =
      some (signExtend check.toUInt32) := by
    refine loadCheck_storeCheck ?_ check
    rw [length_restoreHead (length_xorLoop _ _ _ _ _).symm, length_xorLoop]
    exact hfour
  have hbytes := getElem?_decryptData h4 hlow32 buf
  generalize hdec : decryptData (checkOffset version) (signExtend check.toUInt32)
    (encryptData (checkOffset version) check buf) = dec at hbytes
  have hdeclen : dec.length = buf.length := by
    rw [← hdec, length_decryptData, length_encryptData]
  have hword : packetWord (checkOffset version) dec = some B1 :=
    (packetWord_congr h4 hbytes).trans hB1
  have hvalid : validatePacket dec (B1 ^^^ signExtend check.toUInt32) = some true := by
    refine @validatePacket_drawnWord M1 dec _ m X2 hlow (by omega) ?_ ?_
    · rw [hbytes M1 (by rcases checkOffset_cases h4 with h | h <;> omega), hm]
    · rw [UInt64.toUInt32_xor, hlow32, ← hcheck, UInt64.toUInt32_xor, UInt32.xor_comm,
        UInt32.xor_assoc, UInt32.xor_self, UInt32.xor_zero]
  refine ⟨_, _, henc, decryptClient_eq h4 hhead hload hdec hword hvalid, ?_, fun i hi => ?_⟩
  · rw [List.length_append, hhead, hdeclen, hlen]
  · have hget : pkt[i]? = (pkt.take (bufStart version) ++ buf)[i]? := by rw [hpkt]
    rw [hget, List.getElem?_append, List.getElem?_append, hhead]
    split
    · rfl
    · rw [IsCheckByte] at hi
      exact hbytes _ (by omega)

/-- A body of the minimal size, for the draws 7 and 300. -/
theorem decryptClient_encryptClient_twelveBytes : Restores 7 300 (List.replicate 14 1) 8 :=
  decryptClient_encryptClient 7 300 (by decide) (by decide)

/-- The eleven bytes of a body of version 7 leave ten to encrypt and no position to draw. -/
theorem not_restores_elevenBytes : 4 ≤ 7 ∧ 11 + 2 ≤ (List.replicate 13 (0 : UInt8)).length ∧
    ¬Restores 0 0 (List.replicate 13 0) 7 := by
  refine ⟨by decide, by decide, ?_⟩
  rintro ⟨enc, dec, henc, -⟩
  exact absurd henc (by simp [encryptClient, bufStart])

end

end Licq
