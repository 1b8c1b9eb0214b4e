import Licq.Data.Blocks
import Licq.Data.File
import Licq.Wire.Words

/-!
# Crypto/Md5 — message digests

`md5Update` takes a message in parts of any size and collects blocks of 64 bytes in the context;
`md5Final` pads the last one.  `md5Final_update` says that the digest is that of the message in one
piece, padded and folded block by block with the plain functions of the algorithm, whatever the
parts are.
-/

open File

namespace Licq.Md5

open Wire

/-! ## The source -/

/-- `uint32_t buf[4]` -/
structure Words where
  a : UInt32
  b : UInt32
  c : UInt32
  d : UInt32

/-- The block in the context is the list of its bytes in memory. -/
structure Md5Context where
  buf : Words
  bytes : UInt64
  block : List UInt8

/-- The four core functions - F1 is optimized somewhat -/
def F1 (x y z : UInt32) : UInt32 := z ^^^ (x &&& (y ^^^ z))

def F2 (x y z : UInt32) : UInt32 := F1 z x y

def F3 (x y z : UInt32) : UInt32 := x ^^^ y ^^^ z

def F4 (x y z : UInt32) : UInt32 := y ^^^ (x ||| ~~~z)

/-- This is the central step in the MD5 algorithm.  The words are in the order of the arguments, and
come out in the order of the next step. -/
def MD5STEP (f : UInt32 → UInt32 → UInt32 → UInt32) (input s : UInt32) (r : Words) : Words :=
  let w := r.a + f r.b r.c r.d + input
  ⟨r.d, (w <<< s ||| w >>> (32 - s)) + r.b, r.b, r.c⟩

/-- The steps of each of the functions: the word of the block, what is added to it and the shift. -/
def steps : List (List (ℕ × UInt32 × UInt32)) := [
  [(0, 0xd76aa478, 7), (1, 0xe8c7b756, 12), (2, 0x242070db, 17), (3, 0xc1bdceee, 22),
    (4, 0xf57c0faf, 7), (5, 0x4787c62a, 12), (6, 0xa8304613, 17), (7, 0xfd469501, 22),
    (8, 0x698098d8, 7), (9, 0x8b44f7af, 12), (10, 0xffff5bb1, 17), (11, 0x895cd7be, 22),
    (12, 0x6b901122, 7), (13, 0xfd987193, 12), (14, 0xa679438e, 17), (15, 0x49b40821, 22)],
  [(1, 0xf61e2562, 5), (6, 0xc040b340, 9), (11, 0x265e5a51, 14), (0, 0xe9b6c7aa, 20),
    (5, 0xd62f105d, 5), (10, 0x02441453, 9), (15, 0xd8a1e681, 14), (4, 0xe7d3fbc8, 20),
    (9, 0x21e1cde6, 5), (14, 0xc33707d6, 9), (3, 0xf4d50d87, 14), (8, 0x455a14ed, 20),
    (13, 0xa9e3e905, 5), (2, 0xfcefa3f8, 9), (7, 0x676f02d9, 14), (12, 0x8d2a4c8a, 20)],
  [(5, 0xfffa3942, 4), (8, 0x8771f681, 11), (11, 0x6d9d6122, 16), (14, 0xfde5380c, 23),
    (1, 0xa4beea44, 4), (4, 0x4bdecfa9, 11), (7, 0xf6bb4b60, 16), (10, 0xbebfbc70, 23),
    (13, 0x289b7ec6, 4), (0, 0xeaa127fa, 11), (3, 0xd4ef3085, 16), (6, 0x04881d05, 23),
    (9, 0xd9d4d039, 4), (12, 0xe6db99e5, 11), (15, 0x1fa27cf8, 16), (2, 0xc4ac5665, 23)],
  [(0, 0xf4292244, 6), (7, 0x432aff97, 10), (14, 0xab9423a7, 15), (5, 0xfc93a039, 21),
    (12, 0x655b59c3, 6), (3, 0x8f0ccc92, 10), (10, 0xffeff47d, 15), (1, 0x85845dd1, 21),
    (8, 0x6fa87e4f, 6), (15, 0xfe2ce6e0, 10), (6, 0xa3014314, 15), (13, 0x4e0811a1, 21),
    (4, 0xf7537e82, 6), (11, 0xbd3af235, 10), (2, 0x2ad7d2bb, 15), (9, 0xeb86d391, 21)]]

/-- A word of the block, after `byteSwap`. -/
def wordAt (block : List UInt8) (k : ℕ) : UInt32 :=
  UInt32.ofNat (valueLE ((block.drop (4 * k)).take 4))

/-- The steps with functions for the four rounds, and the sum with what was there. -/
def transform (fs : List (UInt32 → UInt32 → UInt32 → UInt32)) (buf : Words) (block : List UInt8) :
    Words :=
  let r := (fs.zip steps).foldl (fun r round =>
    round.2.foldl (fun r st => MD5STEP round.1 (wordAt block st.1 + st.2.1) st.2.2 r) r) buf
  ⟨buf.a + r.a, buf.b + r.b, buf.c + r.c, buf.d + r.d⟩

def md5Transform : Words → List UInt8 → Words := transform [F1, F2, F3, F4]

def start : Words := ⟨0x67452301, 0xefcdab89, 0x98badcfe, 0x10325476⟩

/-- What the memory of the block holds at first. -/
abbrev Memory := Vector UInt8 64

def md5Init (memory : Memory) : Md5Context := ⟨start, 0, memory.toList⟩

/-- Process data in 64-byte chunks -/
def md5Chunks : ℕ → Md5Context → List UInt8 → Md5Context × List UInt8
  | 0, ctx, buf => (ctx, buf)
  | fuel + 1, ctx, buf =>
    if 64 ≤ buf.length then
      let block := writeAt ctx.block 0 (buf.take 64)
      md5Chunks fuel { ctx with buf := md5Transform ctx.buf block, block := block } (buf.drop 64)
    else (ctx, buf)

def md5Update (ctx : Md5Context) (buf : List UInt8) : Md5Context :=
  -- Space available in ctx->in (at least 1)
  let t := 64 - (ctx.bytes &&& 0x3f).toNat
  let ctx := { ctx with bytes := ctx.bytes + UInt64.ofNat buf.length }
  if t > buf.length then { ctx with block := writeAt ctx.block (64 - t) buf }
  else
    -- First chunk is an odd size
    let block := writeAt ctx.block (64 - t) (buf.take t)
    let ctx := { ctx with buf := md5Transform ctx.buf block, block := block }
    let (ctx, buf) := md5Chunks buf.length ctx (buf.drop t)
    -- Handle any remaining bytes of data.
    { ctx with block := writeAt ctx.block 0 buf }

def Words.toBytes (w : Words) : List UInt8 :=
  [w.a, w.b, w.c, w.d].flatMap fun x => bytesLE 4 x.toNat

def md5Final (ctx : Md5Context) : List UInt8 :=
  let count := (ctx.bytes &&& 0x3f).toNat
  -- Set the first char of padding to 0x80.  There is always room.
  let block := writeAt ctx.block count [0x80]
  let (buf, block) :=
    if 56 < 1 + count then
      -- Padding forces an extra block
      let block := writeAt block (count + 1) (List.replicate (63 - count) 0)
      (md5Transform ctx.buf block, writeAt block 0 (List.replicate 56 0))
    else (ctx.buf, writeAt block (count + 1) (List.replicate (55 - count) 0))
  -- Append length in bits and transform
  let block := writeAt block 56 (bytesLE 4 (ctx.bytes <<< 3).toUInt32.toNat ++
    bytesLE 4 (ctx.bytes >>> 29).toUInt32.toNat)
  (md5Transform buf block).toBytes

/-! ## The digest of a message -/

/-- The functions as the algorithm has them. -/
def plain : List (UInt32 → UInt32 → UInt32 → UInt32) :=
  [fun x y z => x &&& y ||| ~~~x &&& z, fun x y z => x &&& z ||| y &&& ~~~z,
    fun x y z => x ^^^ y ^^^ z, fun x y z => y ^^^ (x ||| ~~~z)]

/-- A one bit, zero bits, and the number of bits of the message in 64 bits: with them the message
fills its last block. -/
def padding (message : List UInt8) : List UInt8 :=
  0x80 :: List.replicate ((119 - message.length % 64) % 64) 0 ++ bytesLE 8 (8 * message.length)

def digest (message : List UInt8) : List UInt8 :=
  (Blocks.state 64 (transform plain) start (message ++ padding message)).toBytes

variable (memory : Memory)

open List

theorem F1_eq (x y z : UInt32) : F1 x y z = x &&& y ||| ~~~x &&& z := by
  refine UInt32.toBitVec_inj.mp (BitVec.eq_of_getLsbD_eq fun i hi => ?_)
  simp only [F1, UInt32.toBitVec_xor, UInt32.toBitVec_and, UInt32.toBitVec_or, UInt32.toBitVec_not,
    BitVec.getLsbD_xor, BitVec.getLsbD_and, BitVec.getLsbD_or, BitVec.getLsbD_not, hi]
  cases x.toBitVec.getLsbD i <;> cases y.toBitVec.getLsbD i <;> simp

/-- **The functions of the source** are those of the algorithm. -/
theorem md5Transform_eq : md5Transform = transform plain := by
  have h₁ : F1 = fun x y z => x &&& y ||| ~~~x &&& z := funext₃ F1_eq
  have h₂ : F2 = fun x y z => x &&& z ||| y &&& ~~~z := by
    funext x y z
    rw [F2, F1_eq, UInt32.and_comm z x, UInt32.and_comm (~~~z) y]
  rw [md5Transform, h₁, h₂]
  rfl

variable {ctx : Md5Context} {message part : List UInt8}

/-- What a context knows of the message so far. -/
structure Holds (message : List UInt8) (ctx : Md5Context) : Prop where
  buf : ctx.buf = Blocks.state 64 md5Transform start message
  bytes : ctx.bytes = UInt64.ofNat message.length
  length : ctx.block.length = 64
  pending : ctx.block.take (Blocks.rest 64 message).length = Blocks.rest 64 message

theorem holds_init : Holds [] (md5Init memory) where
  buf := rfl
  bytes := rfl
  length := Vector.length_toList
  pending := rfl

/-- The bytes in the block. -/
theorem Holds.count (h : Holds message ctx) :
    (ctx.bytes &&& 0x3f).toNat = (Blocks.rest 64 message).length := by
  have hmask : (ctx.bytes &&& 0x3f).toNat = ctx.bytes.toNat &&& (2 ^ 6 - 1) := rfl
  rw [hmask, Nat.and_two_pow_sub_one_eq_mod, h.bytes, UInt64.toNat_ofNat', Blocks.length_rest]
  omega

theorem length_rest_lt (message : List UInt8) : (Blocks.rest 64 message).length < 64 := by
  rw [Blocks.length_rest]
  exact Nat.mod_lt _ (by decide)

/-- Bytes that fill the block make it up. -/
theorem writeAt_full {block : List UInt8} {n : ℕ} (l : List UInt8) (hlength : block.length = 64)
    (hn : n + l.length = 64) : writeAt block n l = block.take n ++ l := by
  have hle : n ≤ block.length := by omega
  rw [← take_writeAt hle, hn]
  refine (take_of_length_le ?_).symm
  rw [length_writeAt hle]
  omega

theorem md5Chunks_spec {fuel : ℕ} {l : List UInt8} (hlength : ctx.block.length = 64)
    (hfuel : l.length ≤ fuel) :
    (md5Chunks fuel ctx l).2 = Blocks.rest 64 l ∧
      (md5Chunks fuel ctx l).1.buf = Blocks.state 64 md5Transform ctx.buf l ∧
      (md5Chunks fuel ctx l).1.bytes = ctx.bytes ∧
      (md5Chunks fuel ctx l).1.block.length = 64 := by
  induction fuel generalizing ctx l with
  | zero =>
    have hlt : l.length < 64 := by omega
    rw [Blocks.rest_of_lt hlt, Blocks.state_of_lt hlt]
    exact ⟨rfl, rfl, rfl, hlength⟩
  | succ fuel ih =>
    rw [md5Chunks]
    split_ifs with hle
    · have htake : (l.take 64).length = 64 := by
        rw [length_take]
        omega
      have hblock : writeAt ctx.block 0 (l.take 64) = l.take 64 :=
        writeAt_full _ hlength (by rw [htake])
      have hshort : (l.drop 64).length ≤ fuel := by
        rw [length_drop]
        omega
      rw [Blocks.rest_of_le (by decide) hle, Blocks.state_of_le (by decide) hle, hblock]
      exact ih htake hshort
    · have hlt : l.length < 64 := by omega
      rw [Blocks.rest_of_lt hlt, Blocks.state_of_lt hlt]
      exact ⟨rfl, rfl, rfl, hlength⟩

/-- **One part of the message.** -/
theorem Holds.update (h : Holds message ctx) (part : List UInt8) :
    Holds (message ++ part) (md5Update ctx part) := by
  have hlt := length_rest_lt message
  have hpending := h.pending
  have hlength := h.length
  have hbytes : ctx.bytes + UInt64.ofNat part.length = UInt64.ofNat (message ++ part).length := by
    rw [h.bytes, length_append, UInt64.ofNat_add]
  obtain ⟨hstate, hrest⟩ := @Blocks.append_eq _ _ 64 md5Transform (by decide) message part start
  rw [← h.buf] at hstate
  rw [md5Update, h.count]
  set R := Blocks.rest 64 message
  have ht : 64 - (64 - R.length) = R.length := by omega
  have hle : R.length ≤ ctx.block.length := by omega
  have hlength' : (R ++ part).length = R.length + part.length := length_append
  rw [ht]
  by_cases hroom : 64 - R.length > part.length
  · have hshort : (R ++ part).length < 64 := by omega
    rw [Blocks.state_of_lt hshort] at hstate
    rw [Blocks.rest_of_lt hshort] at hrest
    rw [if_pos hroom]
    refine ⟨hstate.symm, hbytes, ?_, ?_⟩
    · rw [length_writeAt hle]
      omega
    · rw [hrest, hlength', take_writeAt hle, hpending]
  · have hlong : 64 ≤ (R ++ part).length := by omega
    have htake : (part.take (64 - R.length)).length = 64 - R.length := by
      rw [length_take]
      omega
    have hall : R.take 64 = R := take_of_length_le (by omega)
    have hnone : R.drop 64 = [] := drop_eq_nil_of_le (by omega)
    have hfirst : writeAt ctx.block R.length (part.take (64 - R.length)) = (R ++ part).take 64 := by
      rw [writeAt_full _ hlength (by omega), hpending, take_append, hall]
    have hdrop : part.drop (64 - R.length) = (R ++ part).drop 64 := by
      rw [drop_append, hnone, nil_append]
    rw [Blocks.state_of_le (by decide) hlong] at hstate
    rw [Blocks.rest_of_le (by decide) hlong] at hrest
    rw [if_neg hroom, hfirst, hdrop]
    set next : Md5Context := ⟨md5Transform ctx.buf ((R ++ part).take 64),
      ctx.bytes + UInt64.ofNat part.length, (R ++ part).take 64⟩
    have hnext : next.block.length = 64 := by
      rw [length_take]
      omega
    have hfuel : ((R ++ part).drop 64).length ≤ part.length := by
      rw [length_drop]
      omega
    obtain ⟨hleft, hbuf, hcount, hfull⟩ := md5Chunks_spec hnext hfuel
    rw [← hrest] at hleft
    refine ⟨hbuf.trans hstate.symm, hcount.trans hbytes, ?_, ?_⟩
    · refine (length_writeAt (Nat.zero_le _)).trans ?_
      have := length_rest_lt (message ++ part)
      rw [hfull, hleft]
      omega
    · rw [← hleft]
      change (writeAt (md5Chunks part.length next ((R ++ part).drop 64)).1.block 0 _).take _ = _
      rw [← Nat.zero_add (List.length _), take_writeAt (Nat.zero_le _), take_zero, nil_append]

theorem bytesLE_append (v w n : ℕ) :
    bytesLE v n ++ bytesLE w (n / 256 ^ v) = bytesLE (v + w) n := by
  induction v generalizing n with
  | zero => rw [bytesLE, pow_zero, Nat.div_one, nil_append, Nat.zero_add]
  | succ v ih =>
    rw [Nat.succ_add, bytesLE, bytesLE, cons_append, ← ih (n / 256), Nat.div_div_eq_div_mul,
      pow_succ']

/-- The two words of the length. -/
theorem lengthBytes_eq (n : ℕ) : bytesLE 4 (UInt64.ofNat n <<< 3).toUInt32.toNat ++
    bytesLE 4 (UInt64.ofNat n >>> 29).toUInt32.toNat = bytesLE 8 (8 * n) := by
  have hlow : (UInt64.ofNat n <<< 3).toUInt32.toNat = 8 * n % 256 ^ 4 := by
    simp only [UInt64.toNat_toUInt32, UInt64.toNat_shiftLeft, UInt64.toNat_ofNat',
      Nat.shiftLeft_eq, UInt64.reduceToNat, Nat.reduceMod, Nat.reducePow]
    omega
  have hhigh : (UInt64.ofNat n >>> 29).toUInt32.toNat = 8 * n / 256 ^ 4 % 256 ^ 4 := by
    simp only [UInt64.toNat_toUInt32, UInt64.toNat_shiftRight, UInt64.toNat_ofNat',
      Nat.shiftRight_eq_div_pow, UInt64.reduceToNat, Nat.reduceMod, Nat.reducePow]
    omega
  rw [hlow, hhigh, bytesLE_mod, bytesLE_mod, bytesLE_append]

/-- What is written behind the block's bytes ends up behind them. -/
theorem take_written {block : List UInt8} (n : ℕ) (l : List UInt8) (hlength : block.length = 64)
    (hle : n + l.length ≤ 64) : (writeAt block n l).length = 64 ∧
      (writeAt block n l).take (n + l.length) = block.take n ++ l := by
  have hn : n ≤ block.length := by omega
  refine ⟨?_, take_writeAt hn⟩
  rw [length_writeAt hn]
  omega

/-- **The last blocks.** -/
theorem Holds.final (h : Holds message ctx) : md5Final ctx = digest message := by
  have hlt := length_rest_lt message
  obtain ⟨hstate, -⟩ :=
    @Blocks.append_eq _ _ 64 md5Transform (by decide) message (padding message) start
  obtain ⟨hlen₁, hmark⟩ := take_written _ [0x80] h.length hlt
  rw [h.pending, length_singleton] at hmark
  have hbits : (bytesLE 8 (8 * message.length)).length = 8 := length_bytesLE 8 _
  rw [digest, ← md5Transform_eq, hstate, ← h.buf, md5Final, h.count, padding, ← Blocks.length_rest,
    h.bytes, lengthBytes_eq]
  set R := Blocks.rest 64 message
  by_cases hextra : 56 < 1 + R.length
  · have hzeros : (119 - R.length) % 64 = 63 - R.length + 56 := by omega
    have hfirst := @writeAt_full _ (R.length + 1) (replicate (63 - R.length) 0) hlen₁
      (by rw [length_replicate]; omega)
    rw [hmark] at hfirst
    have hlen₂ : (R ++ [0x80] ++ replicate (63 - R.length) 0).length = 64 := by
      simp only [length_append, length_singleton, length_replicate]
      omega
    obtain ⟨hlen₃, hlow⟩ := take_written 0 (replicate 56 0) hlen₂ (by decide)
    rw [length_replicate, Nat.zero_add, take_zero, nil_append] at hlow
    have hlast := @writeAt_full _ 56 (bytesLE 8 (8 * message.length)) hlen₃ (by rw [hbits])
    rw [hlow] at hlast
    have hsplit : R ++ (0x80 :: replicate (63 - R.length + 56) 0 ++ bytesLE 8 (8 * message.length))
        = R ++ [0x80] ++ replicate (63 - R.length) 0 ++
          (replicate 56 0 ++ bytesLE 8 (8 * message.length)) := by
      rw [replicate_add]
      simp only [append_assoc, cons_append, nil_append]
    rw [if_pos hextra, hfirst, hzeros, hsplit, Blocks.state_append (by decide) hlen₂,
      Blocks.state_of_eq (by decide) (by rw [length_append, length_replicate, hbits])]
    change (md5Transform _ (writeAt (writeAt _ 0 _) 56 _)).toBytes = _
    rw [hlast]
  · have hzeros : (119 - R.length) % 64 = 55 - R.length := by omega
    have hsum : R.length + 1 + (55 - R.length) = 56 := by omega
    obtain ⟨hlen₂, hlow⟩ := take_written (R.length + 1) (replicate (55 - R.length) 0) hlen₁
      (by rw [length_replicate]; omega)
    rw [length_replicate, hsum] at hlow
    have hlast := @writeAt_full _ 56 (bytesLE 8 (8 * message.length)) hlen₂ (by rw [hbits])
    rw [hlow] at hlast
    have hsplit : R ++ (0x80 :: replicate (55 - R.length) 0 ++ bytesLE 8 (8 * message.length)) =
        R ++ [0x80] ++ replicate (55 - R.length) 0 ++ bytesLE 8 (8 * message.length) := by
      simp only [append_assoc, cons_append, nil_append]
    have hlen₃ : (R ++ [0x80] ++ replicate (55 - R.length) 0 ++
        bytesLE 8 (8 * message.length)).length = 64 := by
      simp only [length_append, length_singleton, length_replicate, hbits]
      omega
    rw [if_neg hextra, hzeros, hsplit, Blocks.state_of_eq (by decide) hlen₃, ← hmark, ← hlast]

/-- **The digest of a message is that of the algorithm**, into whatever parts it is cut. -/
theorem md5Final_update (parts : List (List UInt8)) :
    md5Final (parts.foldl md5Update (md5Init memory)) = digest parts.flatten := by
  have hrun : ∀ message ctx, Holds message ctx →
      Holds (message ++ parts.flatten) (parts.foldl md5Update ctx) := by
    induction parts with
    | nil =>
      intro message ctx h
      rwa [flatten_nil, append_nil]
    | cons part parts ih =>
      intro message ctx h
      rw [flatten_cons, foldl_cons, ← append_assoc]
      exact ih _ _ (h.update part)
  exact (hrun [] _ (holds_init memory)).final

example : digest [97, 98, 99] = [0x90, 0x01, 0x50, 0x98, 0x3c, 0xd2, 0x4f, 0xb0, 0xd6, 0x96, 0x3f,
    0x7d, 0x28, 0xe1, 0x7f, 0x72] := by decide +kernel

end Licq.Md5
