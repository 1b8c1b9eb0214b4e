import Licq.Icq.Chat.Frames
import Licq.Icq.Chat.Send
import Licq.Icq.Chat.Version2

/-!
# Icq/Chat/Commands — what a peer makes of what it is sent

The messages of a chat (`ChatMessage`), the bytes that `SendBufferToClient` and `SendBuffer_Raw`
write for them, and what the peer that decodes these bytes is to make of them
(`ChatMessage.Means`).

The **main result** `transmits_iff` says which messages arrive: `ChatMessage.Survives`.
-/

open Text Wire

namespace Licq

open List ChatCommand

/-! ## Messages -/

/-- What the chat manager can send. -/
inductive ChatMessage
  /-- `sendText`, by the size of the text and what it was converted to -/
  | text (size : ℕ) (chars : List UInt8)
  | newline
  | backspace
  | beep
  | laugh
  | fontFamily (name : List UInt8) (encoding style : UInt8)
  | fontSize (s : UInt16)
  | fontFace (b i u s : Bool)
  | colorFg (r g b : ℤ)
  | colorBg (r g b : ℤ)
  | focusIn
  | focusOut
  | sleep (s : Bool)
  | kick (nUin : UInt64)
  /-- `SendVoteYes` and `SendVoteNo` -/
  | vote (yes : Bool) (nUin : UInt64)
  /-- `FinishKickVote` and `SendKickNoVote` -/
  | kickPass (nUin : UInt64) (nYes nNo : UInt16)
  | kickFail (nUin : UInt64) (nYes nNo : UInt16)
  /-- `FinishKickVote` -/
  | kickYou (nUin : UInt64) (nYes nNo : UInt16)
  /-- `SendKickNoVote` -/
  | kickYouNoVote
  | disconnectionKicked
  | disconnection

/-- What a message is written with. -/
inductive ChatSend
  /-- `SendBuffer_Raw` -/
  | raw (bytes : List UInt8)
  /-- `SendBuffer` -/
  | command (cmd : ChatCommand) (body : List UInt8)

/-- The bytes on the wire. -/
def ChatSend.wire (version : ℕ) : ChatSend → List UInt8
  | .raw bytes => bytes
  | .command cmd body => (encodeBuffer version cmd.code body).data

/-- A `char` of an `int`. -/
def charOf (n : ℤ) : UInt8 := UInt8.ofNat (n % 256).toNat

/-- A byte of an `unsigned long`. -/
def byteOf (n : UInt64) (k : ℕ) : UInt8 := UInt8.ofNat (n.toNat / 256 ^ k)

/-- `PackUnsignedLong` -/
def longBytes (n : UInt64) : List UInt8 := [byteOf n 0, byteOf n 1, byteOf n 2, byteOf n 3]

/-- The bits of `FONT_BOLD`, `FONT_ITALIC`, `FONT_UNDERLINE` and `FONT_STRIKEOUT`. -/
def fontFaceOf (b i u s : Bool) : UInt64 :=
  (if b then 1 else 0) ||| (if i then 2 else 0) ||| (if u then 4 else 0) ||| (if s then 8 else 0)

/-- A user and the votes about it. -/
def voteBody (nUin : UInt64) (nYes nNo : UInt16) : List UInt8 :=
  longBytes nUin ++ [nYes.toUInt8, nNo.toUInt8]

/-- What the senders of the chat manager write. -/
def ChatMessage.sent : ChatMessage → ChatSend
  | .text size chars => .raw ((Buffer.ofSize size).packRaw chars).data
  | .newline => .raw [ChatCommand.newline.code]
  | .backspace => .raw [ChatCommand.backspace.code]
  | .beep => .command .beep []
  | .laugh => .command .laugh []
  | .fontFamily name encoding style =>
    .command .fontFamily
      (bytesLE 2 ((cStr name).length + 1) ++ (cStr name ++ [0, encoding, style]))
  | .fontSize s => .command .fontSize (longBytes s.toUInt64)
  | .fontFace b i u s => .command .fontFace (longBytes (fontFaceOf b i u s))
  | .colorFg r g b => .command .colorFg [charOf r, charOf g, charOf b, 0]
  | .colorBg r g b => .command .colorBg [charOf r, charOf g, charOf b, 0]
  | .focusIn => .command .focusIn []
  | .focusOut => .command .focusOut []
  | .sleep s => .command (if s then .sleepOn else .sleepOff) []
  | .kick nUin => .command .kick (longBytes nUin)
  | .vote yes nUin => .command (if yes then .kickYes else .kickNo) (longBytes nUin)
  | .kickPass nUin nYes nNo => .command .kickPass (voteBody nUin nYes nNo)
  | .kickFail nUin nYes nNo => .command .kickFail (voteBody nUin nYes nNo)
  | .kickYou nUin nYes nNo => .command .kickYou (voteBody nUin nYes nNo)
  | .kickYouNoVote => .command .kickYou [2, 1]
  | .disconnectionKicked => .command .disconnectionKicked []
  | .disconnection => .command .disconnection []

/-- **What a peer is to make of a message**: the state it is to reach and what it is to put out. -/
def ChatMessage.Means (c c' : Chat) (outputs : List ChatOutput) : ChatMessage → Prop
  | .text _ chars =>
    if chars = [] then c' = c ∧ outputs = [] else c' = (c.text chars).1 ∧ outputs = (c.text chars).2
  | .newline => c' = c.newline.1 ∧ outputs = c.newline.2
  | .backspace => c' = c.backspace.1 ∧ outputs = c.backspace.2
  | .beep => c' = c ∧ outputs = [c.event .beep]
  | .laugh => c' = c ∧ outputs = [c.event .laugh]
  | .fontFamily name encoding style =>
    c' = { c with u :=
      { c.u with fontFamily := name, fontEncoding := encoding, fontStyle := style } } ∧
      outputs = [c.event .fontFamily]
  | .fontSize s =>
    c' = { c with u := { c.u with fontSize := s.toNat } } ∧ outputs = [c.event .fontSize]
  | .fontFace b i u s =>
    c' = { c with u := { c.u with fontFace := (fontFaceOf b i u s).toNat } } ∧
      outputs = [c.event .fontFace]
  | .colorFg r g b => ∃ r' g' b' : UInt8, r = r'.toNat ∧ g = g'.toNat ∧ b = b'.toNat ∧
      c' = { c with u := { c.u with colorFore := (r', g', b') } } ∧ outputs = [c.event .colorFg]
  | .colorBg r g b => ∃ r' g' b' : UInt8, r = r'.toNat ∧ g = g'.toNat ∧ b = b'.toNat ∧
      c' = { c with u := { c.u with colorBack := (r', g', b') } } ∧ outputs = [c.event .colorBg]
  | .focusIn => c' = { c with u := { c.u with focus := true } } ∧ outputs = [c.event .focusIn]
  | .focusOut => c' = { c with u := { c.u with focus := false } } ∧ outputs = [c.event .focusOut]
  | .sleep s => c' = { c with u := { c.u with sleep := s } } ∧
      outputs = [c.event (if s then .sleepOn else .sleepOff)]
  | .kick nUin =>
    c' = { c with u := { c.u with nToKick := nUin.toNat } } ∧ outputs = [c.event .kick]
  | .vote yes nUin => c.castVote yes nUin.toNat = some (c', outputs)
  | .kickPass nUin _ _ => c.kickPass nUin.toNat = some (c', outputs)
  | .kickFail _ _ _ => c' = c ∧ outputs = [c.event .kickFail]
  | .kickYou _ _ _ => c' = c ∧ outputs = [c.event .kickYou]
  | .kickYouNoVote => c' = c ∧ outputs = [c.event .kickYou]
  | .disconnectionKicked => c' = c ∧ outputs = [c.event .disconnectionKicked]
  | .disconnection => c' = c ∧ outputs = []

/-- The queue is decoded to its end, and what that does is as it should be. -/
def DecodesTo (version : ℕ) (q : ChatQueue) (c : Chat) (P : Chat → List ChatOutput → Prop) : Prop :=
  ∃ d, processRaw version q c = some d ∧ d.queue.bytes = [] ∧ P d.chat d.outputs

/-- **The message arrives**: what was written for it, and nothing else, is decoded to it. -/
def Transmits (version popped : ℕ) (c : Chat) (m : ChatMessage) : Prop :=
  DecodesTo version ⟨popped, m.sent.wire version⟩ c fun c' outputs => m.Means c c' outputs

/-! ## Which messages arrive -/

/-- The number survives being cut to four bytes and read as a signed one. -/
def LongOk (n : UInt64) : Prop := n.toNat < 2 ^ 31 ∨ 2 ^ 64 - 2 ^ 31 ≤ n.toNat

/-- A component of a colour. -/
def ColorOk (n : ℤ) : Prop := 0 ≤ n ∧ n < 256

/-- The number that is read from four bytes of an `unsigned long`. -/
def readLong (n : UInt64) : ℕ := longLE (byteOf n 0) (byteOf n 1) (byteOf n 2) (byteOf n 3)

/-- The number that a peer below version 6 reads from a kick command: the command is its lowest
byte. -/
def shiftedLong (command : ChatCommand) (n : UInt64) : ℕ :=
  longLE command.code (byteOf n 0) (byteOf n 1) (byteOf n 2)

/-- The user that a peer takes a kick to be about. -/
def kickedLong (version : ℕ) (n : UInt64) : ℕ :=
  if 6 ≤ version then readLong n else shiftedLong .kickPass n

/-- **When a message arrives.** -/
def ChatMessage.Survives (version popped : ℕ) (c : Chat) : ChatMessage → Prop
  | .text size chars => chars.length ≤ size ∧ ∀ ch ∈ chars, iscntrl ch = false
  | .fontFamily name _ _ => ¬ 6 ≤ version ∧ name = cStr name ++ [0] ∧ (cStr name).length ≤ 122 ∧
      (popped + 3) % ChatQueue.blockSize + ((cStr name).length + 1) ≤ ChatQueue.blockSize
  | .colorFg r g b => ColorOk r ∧ ColorOk g ∧ ColorOk b
  | .colorBg r g b => ColorOk r ∧ ColorOk g ∧ ColorOk b
  | .kick nUin => 6 ≤ version ∧ LongOk nUin
  | .vote _ nUin => 6 ≤ version ∧ LongOk nUin ∧ nUin.toNat ∈ c.voteInfo.map VoteInfo.nUin
  | .kickPass nUin _ nNo => c.userIdOf (kickedLong version nUin) = c.userIdOf nUin.toNat ∧
      c.userIdOf nUin.toNat ∈ c.chatUsers ∧ (6 ≤ version ∨ Silent nNo.toUInt8 = true)
  | .kickFail _ _ nNo => 6 ≤ version ∨ Silent nNo.toUInt8 = true
  | .kickYou nUin nYes nNo => 6 ≤ version ∨
      Dropped c [byteOf nUin 1, byteOf nUin 2, byteOf nUin 3, nYes.toUInt8, nNo.toUInt8]
  | .kickYouNoVote => 6 ≤ version
  | .newline | .backspace | .beep | .laugh | .fontSize _ | .fontFace _ _ _ _ | .focusIn
  | .focusOut | .sleep _ | .disconnectionKicked | .disconnection => True

/-! ## Numbers -/

theorem longBytes_eq (n : UInt64) : longBytes n = bytesLE 4 n.toNat := by
  simp only [longBytes, byteOf, bytesLE, Nat.div_div_eq_div_mul, pow_zero, Nat.div_one, pow_one]
  rfl

@[simp] theorem length_longBytes (n : UInt64) : (longBytes n).length = 4 := rfl

theorem readLong_eq (n : UInt64) : readLong n
    = if n.toNat % 2 ^ 32 < 2 ^ 31 then n.toNat % 2 ^ 32
      else n.toNat % 2 ^ 32 + (2 ^ 64 - 2 ^ 32) := by
  have hvalue : valueLE [byteOf n 0, byteOf n 1, byteOf n 2, byteOf n 3] = n.toNat % 2 ^ 32 := by
    have := valueLE_bytesLE 4 n.toNat
    rwa [← longBytes_eq] at this
  rw [readLong, longLE_eq, hvalue]

variable {n : UInt64} {q r : ChatQueue} {ch : UInt8} {nYes nNo : UInt16}

/-- **Which numbers are read as they were written.** -/
theorem readLong_eq_iff : readLong n = n.toNat ↔ LongOk n := by
  have hlt := n.toNat_lt
  rw [readLong_eq, LongOk]
  split_ifs <;> omega

theorem charOf_eq_iff {n : ℤ} : ColorOk n ↔ n = (charOf n).toNat := by
  have hchar : (charOf n).toNat = (n % 256).toNat := by
    rw [charOf, UInt8.toNat_ofNat']
    omega
  rw [hchar, ColorOk]
  omega

/-! ## Decoding, round by round -/

/-- The round of the decoder for the version. -/
def roundOf (version : ℕ) : ChatQueue → Chat → ChatRound :=
  if 6 ≤ version then roundV6 else roundV2

section DecodesTo

variable {version : ℕ} {q r : ChatQueue} {c c' : Chat} {outputs : List ChatOutput}
  {P : Chat → List ChatOutput → Prop}

theorem roundOf_shrinks (h : roundOf version q c = .next r c' outputs) :
    r.bytes.length < q.bytes.length := by
  rw [roundOf] at h
  split_ifs at h
  · exact roundV6_shrinks h
  · exact roundV2_shrinks h

theorem processRaw_eq (version : ℕ) (q : ChatQueue) (c : Chat) :
    processRaw version q c = decodeLoop (roundOf version) (q.bytes.length + 1) q c := by
  rw [processRaw, roundOf]
  split_ifs <;> rfl

theorem decodesTo_nil (h : q.bytes = []) : DecodesTo version q c P ↔ P c [] := by
  rw [DecodesTo, processRaw_eq, decodeLoop_nil h]
  simp [h]

theorem decodesTo_wait (hne : q.bytes ≠ []) (h : roundOf version q c = .wait r c' outputs) :
    DecodesTo version q c P ↔ r.bytes = [] ∧ P c' outputs := by
  rw [DecodesTo, processRaw_eq, decodeLoop_wait hne h]
  simp

theorem not_decodesTo_undefined (hne : q.bytes ≠ []) (h : roundOf version q c = .undefined) :
    ¬ DecodesTo version q c P := by
  rw [DecodesTo, processRaw_eq, decodeLoop_undefined hne h]
  simp

/-- **One round, and what is left of the queue.** -/
theorem decodesTo_next (hne : q.bytes ≠ []) (h : roundOf version q c = .next r c' outputs) :
    DecodesTo version q c P ↔
      DecodesTo version r c' fun c'' outputs' => P c'' (outputs ++ outputs') := by
  rw [DecodesTo, DecodesTo, processRaw_eq, processRaw_eq, decodeLoop_next hne h roundOf_shrinks]
  constructor
  · rintro ⟨d, hd, hqueue, hP⟩
    obtain ⟨d', hd', rfl⟩ := Option.map_eq_some_iff.mp hd
    exact ⟨d', hd', hqueue, hP⟩
  · rintro ⟨d, hd, hqueue, hP⟩
    exact ⟨⟨d.queue, d.chat, outputs ++ d.outputs⟩, by rw [hd]; rfl, hqueue, hP⟩

/-- One round that empties the queue. -/
theorem decodesTo_last (hne : q.bytes ≠ []) (hr : r.bytes = [])
    (h : roundOf version q c = .next r c' outputs) : DecodesTo version q c P ↔ P c' outputs := by
  rw [decodesTo_next hne h, decodesTo_nil hr, append_nil]

end DecodesTo

/-! ## Decoding what was written, from version 6 on -/

variable {version popped : ℕ} {c c₁ : Chat} {cmd : ChatCommand} {body : List UInt8}
  {outputs : List ChatOutput} {P : Chat → List ChatOutput → Prop}

theorem code_inj {cmd cmd' : ChatCommand} (h : cmd ≠ .character) (h' : cmd' ≠ .character)
    (heq : cmd.code = cmd'.code) : cmd = cmd' := by
  have := ofCode_code h
  rw [heq, ofCode_code h'] at this
  exact (Option.some.inj this).symm

theorem wire_of_ge (h6 : 6 ≤ version) (hlen : body.length ≤ 122) :
    (ChatSend.command cmd body).wire version
      = 0 :: cmd.code :: bytesLE 4 (chatSize cmd.code body) ++ body := by
  have hfits : chatHeaderSize version + body.length ≤ 128 := by
    rw [chatHeaderSize, if_pos h6]
    omega
  rw [ChatSend.wire, (encodeBuffer_eq_iff version cmd.code body).mpr hfits, chatWire, if_pos h6]

theorem wire_of_lt (h6 : ¬ 6 ≤ version) (hlen : body.length ≤ 127) :
    (ChatSend.command cmd body).wire version = cmd.code :: body := by
  have hfits : chatHeaderSize version + body.length ≤ 128 := by
    rw [chatHeaderSize, if_neg h6]
    omega
  rw [ChatSend.wire, (encodeBuffer_eq_iff version cmd.code body).mpr hfits, chatWire, if_neg h6]

/-- The bytes of a command make one round. -/
theorem roundV6_wire (h6 : 6 ≤ version) (hcmd : cmd ≠ .character) (hfont : cmd ≠ .fontFamily)
    (hlen : body.length ≤ 122) :
    roundV6 ⟨popped, (ChatSend.command cmd body).wire version⟩ c
      = commandV6 cmd.code body.length ⟨popped + 6, body⟩ c := by
  have hsize : chatSize cmd.code body = body.length := by
    rw [chatSize, if_neg fun h => hfont (code_inj hcmd (by decide) h)]
    rfl
  have hvalue := valueLE_bytesLE 4 body.length
  rw [wire_of_ge h6 hlen, hsize]
  obtain ⟨s₀, s₁, s₂, s₃, hs⟩ : ∃ s₀ s₁ s₂ s₃, bytesLE 4 body.length = [s₀, s₁, s₂, s₃] :=
    ⟨_, _, _, _, rfl⟩
  rw [hs] at hvalue ⊢
  rw [Nat.mod_eq_of_lt (by omega)] at hvalue
  have hlong : longLE s₀ s₁ s₂ s₃ = body.length := by
    rw [longLE_of_lt (by omega), hvalue]
  simp only [roundV6, cons_append, nil_append, if_true, hlong]
  rw [if_neg]
  · rfl
  · simp only [length_cons]
    omega

theorem wire_ne_nil (h6 : 6 ≤ version) (hlen : body.length ≤ 122) :
    (ChatSend.command cmd body).wire version ≠ [] := by
  rw [wire_of_ge h6 hlen]
  exact cons_ne_nil _ _

/-- A command whose branch is left by `break`. -/
theorem decodesTo_done (h6 : 6 ≤ version) (hcmd : cmd ≠ .character) (hfont : cmd ≠ .fontFamily)
    (hlen : body.length ≤ 122)
    (hswitch : switchV6 (some cmd) body.length ⟨popped + 6, body⟩ c
      = .done body.length c₁ outputs) :
    DecodesTo version ⟨popped, (ChatSend.command cmd body).wire version⟩ c P ↔ P c₁ outputs := by
  refine @decodesTo_last _ _ (ChatQueue.pop ⟨popped + 6, body⟩ body.length) _ _ _ _
    (wire_ne_nil h6 hlen) (by simp [ChatQueue.pop]) ?_
  rw [roundOf, if_pos h6, roundV6_wire h6 hcmd hfont hlen, commandV6, ofCode_code hcmd,
    hswitch]
  exact if_pos ⟨by omega, Nat.le_refl _⟩

/-- A command whose branch returns. -/
theorem not_decodesTo_leave (h6 : 6 ≤ version) (hcmd : cmd ≠ .character) (hfont : cmd ≠ .fontFamily)
    (hlen : body.length ≤ 122) (hne : body ≠ [])
    (hswitch : switchV6 (some cmd) body.length ⟨popped + 6, body⟩ c = .leave) :
    ¬ DecodesTo version ⟨popped, (ChatSend.command cmd body).wire version⟩ c P := by
  have hround : roundOf version ⟨popped, (ChatSend.command cmd body).wire version⟩ c
      = .wait ⟨popped + 6, body⟩ c [] := by
    rw [roundOf, if_pos h6, roundV6_wire h6 hcmd hfont hlen, commandV6,
      ofCode_code hcmd, hswitch]
  rw [decodesTo_wait (wire_ne_nil h6 hlen) hround]
  exact fun h => hne h.1

/-- The size of a font family counts a byte that was not written. -/
theorem not_decodesTo_fontFamily (h6 : 6 ≤ version) :
    ¬ DecodesTo version ⟨popped, (ChatSend.command .fontFamily body).wire version⟩ c P := by
  obtain ⟨s₀, s₁, s₂, s₃, hs⟩ : ∃ s₀ s₁ s₂ s₃, bytesLE 4 (body.length + 1) = [s₀, s₁, s₂, s₃] :=
    ⟨_, _, _, _, rfl⟩
  obtain ⟨rest, hwire, hrest⟩ : ∃ rest, (ChatSend.command .fontFamily body).wire version
      = 0 :: fontFamily.code :: s₀ :: s₁ :: s₂ :: s₃ :: rest ∧
      (rest = [] ∨ rest = body ∧ body.length ≤ 122) := by
    have hheader : chatHeader version fontFamily.code body
        = 0 :: fontFamily.code :: s₀ :: s₁ :: s₂ :: s₃ :: [] := by
      rw [chatHeader, if_pos h6, chatSize, if_pos rfl, hs]
    rw [ChatSend.wire, encodeBuffer_data, hheader, chatHeaderSize, if_pos h6]
    split_ifs with hfits
    · exact ⟨body, rfl, .inr ⟨rfl, by omega⟩⟩
    · exact ⟨[], rfl, .inl rfl⟩
  rw [hwire]
  have hwait : ∀ {q : ChatQueue}, q.bytes ≠ [] → roundOf version q c = .wait q c [] →
      ¬ DecodesTo version q c P := fun hne hround h => hne ((decodesTo_wait hne hround).mp h).1
  by_cases hwhole : rest.length + 6 < (6 + longLE s₀ s₁ s₂ s₃) % 2 ^ 64
  · refine hwait (cons_ne_nil _ _) ?_
    rw [roundOf, if_pos h6]
    exact if_pos hwhole
  · refine not_decodesTo_undefined (cons_ne_nil _ _) ?_
    rw [roundOf, if_pos h6]
    refine (if_neg hwhole).trans ?_
    rcases hrest with rfl | ⟨rfl, hle⟩
    · rfl
    · have hvalue := valueLE_bytesLE 4 (rest.length + 1)
      rw [hs, Nat.mod_eq_of_lt (by omega)] at hvalue
      rw [longLE_of_lt (by omega), hvalue] at hwhole
      omega

/-! ## Decoding what was written, below version 6 -/

/-! ## Text -/

theorem textOk_singleton {command : ChatCommand} (h : command ≠ .character) (id : UserId)
    (data : List UInt8) : ∀ o ∈ [ChatOutput.event command id data], o.TextOk := fun o ho => by
  obtain rfl := mem_singleton.mp ho
  exact textOk_event h id data

theorem textOk_kickPass {n : ℕ} (h : c.kickPass n = some (c₁, outputs)) :
    ∀ o ∈ outputs, o.TextOk := by
  obtain ⟨-, -, rfl⟩ := kickPass_spec h
  intro o ho
  simp only [mem_cons, not_mem_nil, or_false] at ho
  rcases ho with rfl | rfl
  · exact textOk_send _ _ _ _
  · exact textOk_event (by decide) _ _

theorem textOk_switchV6 {n k : ℕ} {command : Option ChatCommand}
    (h : switchV6 command n q c = .done k c₁ outputs) : ∀ o ∈ outputs, o.TextOk := by
  have hnil : ∀ o ∈ ([] : List ChatOutput), o.TextOk := nofun
  unfold switchV6 at h
  cases command with
  | none =>
    cases h
    exact hnil
  | some cmd =>
    cases cmd with
    | beep | laugh | focusIn | focusOut | sleepOff | sleepOn | kickFail | kickYou
    | disconnectionKicked =>
      cases h
      exact textOk_singleton (by decide) _ _
    | disconnection | newline | backspace | character =>
      cases h
      exact hnil
    | colorFg | colorBg | fontFace | fontSize | kick =>
      simp only at h
      split at h <;> simp only [Switch6.done.injEq, reduceCtorEq] at h
      obtain ⟨-, -, rfl⟩ := h
      exact textOk_singleton (by decide) _ _
    | fontFamily =>
      simp only at h
      split at h <;> simp only [Switch6.done.injEq, reduceCtorEq] at h
      obtain ⟨-, -, rfl⟩ := h
      exact textOk_singleton (by decide) _ _
    | kickYes | kickNo =>
      simp only at h
      split at h
      · split at h
        · rename_i hcast
          cases h
          exact (voteCast_of_castVote hcast).texts
        · cases h
      · cases h
    | kickPass =>
      simp only at h
      split at h
      · split at h
        · rename_i hkick
          cases h
          exact textOk_kickPass hkick
        · cases h
      · cases h

theorem textOk_characterV6
    (h : characterV6 ch q c = .next r c₁ outputs) : ∀ o ∈ outputs, o.TextOk := by
  rw [characterV6] at h
  split at h
  · cases h
    exact textOk_singleton (by decide) _ _
  · split at h
    · cases h
      exact textOk_singleton (by decide) _ _
    · split at h
      · cases h
        exact fun o ho => absurd ho not_mem_nil
      · cases h
        intro o ho id data heq b hb
        obtain rfl := mem_singleton.mp ho
        obtain rfl := (ChatOutput.event.inj heq).2.2
        simpa using mem_takeWhile_imp hb

/-- Text that `ProcessRaw_v6` puts out is text. -/
theorem textOk_roundV6 (h : roundV6 q c = .next r c₁ outputs) : ∀ o ∈ outputs, o.TextOk := by
  unfold roundV6 at h
  split at h
  · cases h
  · split at h
    · split at h
      · simp only at h
        split at h
        · cases h
        · rw [commandV6] at h
          split at h
          · rename_i hswitch
            split at h <;> cases h
            exact textOk_switchV6 hswitch
          · cases h
          · cases h
      · cases h
    · exact textOk_characterV6 h

/-- A round of `ProcessRaw_v6` that ends the loop puts nothing out. -/
theorem roundV6_wait (h : roundV6 q c = .wait r c₁ outputs) : outputs = [] := by
  unfold roundV6 at h
  split at h
  · cases h
    rfl
  · split at h
    · split at h
      · simp only at h
        split at h
        · cases h
          rfl
        · rw [commandV6] at h
          split at h
          · split at h <;> cases h
          · cases h
            rfl
          · cases h
      · cases h
        rfl
    · rw [characterV6] at h
      split at h
      · cases h
      · split at h
        · cases h
        · split at h <;> cases h

/-- **Text that is put out is text.** -/
theorem textOk_processRaw {d : Decoded} (h : processRaw version q c = some d) :
    ∀ o ∈ d.outputs, o.TextOk := by
  rw [processRaw_eq] at h
  refine decodeLoop_outputs (fun {q c r c' outputs} hround => ?_) (fun {q c r c' outputs} hround => ?_) h
  · rw [roundOf] at hround
    split_ifs at hround
    · exact textOk_roundV6 hround
    · exact (roundV2_next hround).texts
  · have hnil : outputs = [] := by
      rw [roundOf] at hround
      split_ifs at hround
      · exact roundV6_wait hround
      · cases hq : q.bytes with
        | nil =>
          rw [roundV2, hq] at hround
          cases hround
          rfl
        | cons ch tail => exact (roundV2_wait hq hround).2.1
    rw [hnil]
    exact fun o ho => absurd ho not_mem_nil

/-- A round on text takes all of it. -/
theorem roundOf_text {tail : List UInt8}
    (h : ∀ b ∈ ch :: tail, iscntrl b = false) : roundOf version ⟨popped, ch :: tail⟩ c
      = .next (ChatQueue.pop ⟨popped, ch :: tail⟩ (ch :: tail).length)
        (c.text (ch :: tail)).1 (c.text (ch :: tail)).2 := by
  have htake : (ch :: tail).takeWhile (fun b => !iscntrl b) = ch :: tail :=
    takeWhile_eq_self_iff.mpr fun b hb => by rw [h b hb]; rfl
  have hch := h ch mem_cons_self
  rw [roundOf]
  split_ifs
  · rw [roundV6_text rfl hch, htake]
  · have hcode : ofCode ch = none := by
      cases hcmd : ofCode ch with
      | none => rfl
      | some cmd =>
        obtain ⟨hcode, hne⟩ := code_of_ofCode hcmd
        rw [← hcode] at hch
        cases cmd <;> first | exact absurd rfl hne | cases hch
    rw [roundV2]
    simp only [hcode, characterV2, hch, htake]
    rfl

/-- **Text arrives** when it fits its buffer and has no control characters. -/
theorem transmits_text {size : ℕ} {chars : List UInt8} :
    Transmits version popped c (.text size chars) ↔
      chars.length ≤ size ∧ ∀ ch ∈ chars, iscntrl ch = false := by
  by_cases hfits : chars.length ≤ size
  · have hwire : (ChatMessage.text size chars).sent.wire version = chars := by
      rw [ChatMessage.sent, ChatSend.wire, Buffer.packRaw_data]
      · rfl
      · exact hfits
    rw [Transmits, hwire]
    cases chars with
    | nil =>
      rw [decodesTo_nil rfl]
      exact iff_of_true ⟨rfl, rfl⟩ ⟨hfits, nofun⟩
    | cons ch tail =>
      constructor
      · rintro ⟨d, hd, -, -, houtputs⟩
        refine ⟨hfits, textOk_processRaw hd (.event .character c.u.userId (ch :: tail)) ?_ _ _ rfl⟩
        rw [houtputs]
        exact mem_singleton.mpr rfl
      · rintro ⟨-, htext⟩
        refine (decodesTo_last (cons_ne_nil _ _) ?_ (roundOf_text htext)).mpr ⟨rfl, rfl⟩
        simp [ChatQueue.pop]
  · have hwire : (ChatMessage.text size chars).sent.wire version = [] := by
      rw [ChatMessage.sent, ChatSend.wire, Buffer.packRaw_of_lt]
      · rfl
      · exact Nat.lt_of_not_le hfits
    have hne : chars ≠ [] := by
      rintro rfl
      exact hfits (Nat.zero_le size)
    refine iff_of_false ?_ fun h => hfits h.1
    rw [Transmits, hwire, decodesTo_nil rfl]
    simp only [ChatMessage.Means, if_neg hne]
    rintro ⟨-, houtputs⟩
    cases houtputs

/-! ## The other messages -/

/-- A byte written with `SendBuffer_Raw`. -/
theorem decodesTo_raw
    (h : roundOf version ⟨popped, [ch]⟩ c = .next (ChatQueue.pop ⟨popped, [ch]⟩ 1) c₁ outputs) :
    DecodesTo version ⟨popped, (ChatSend.raw [ch]).wire version⟩ c P ↔ P c₁ outputs :=
  decodesTo_last (cons_ne_nil _ _) rfl h

/-- A command below version 6 that one round takes off the queue. -/
theorem decodesTo_doneV2 {k : ℕ} (h6 : ¬ 6 ≤ version) (hlen : body.length ≤ 127)
    (hk : body.length + 1 ≤ k)
    (h : roundV2 ⟨popped, cmd.code :: body⟩ c
      = .next (ChatQueue.pop ⟨popped, cmd.code :: body⟩ k) c₁ outputs) :
    DecodesTo version ⟨popped, (ChatSend.command cmd body).wire version⟩ c P ↔ P c₁ outputs := by
  rw [wire_of_lt h6 hlen]
  refine decodesTo_last (cons_ne_nil _ _) ?_ (by rw [roundOf, if_neg h6]; exact h)
  exact drop_eq_nil_of_le (by rw [length_cons]; exact hk)

/-- **A command without anything behind it arrives.** -/
theorem decodesTo_plain {version popped : ℕ} {c c₁ : Chat} {outputs : List ChatOutput}
    {P : Chat → List ChatOutput → Prop} {cmd : ChatCommand} (hcmd : cmd ≠ .character)
    (hfont : cmd ≠ .fontFamily) (hV6 : ∀ q, switchV6 (some cmd) 0 q c = .done 0 c₁ outputs)
    (hV2 : ∀ q, q.bytes = [cmd.code] → roundV2 q c = .next (q.pop 1) c₁ outputs) :
    DecodesTo version ⟨popped, (ChatSend.command cmd []).wire version⟩ c P ↔ P c₁ outputs := by
  by_cases h6 : 6 ≤ version
  · exact decodesTo_done h6 hcmd hfont (Nat.zero_le _) (hV6 _)
  · exact decodesTo_doneV2 h6 (Nat.zero_le _) (Nat.le_refl 1) (hV2 _ rfl)

/-- A command with four bytes behind it, in both formats. -/
theorem decodesTo_four {version popped : ℕ} {c c₁ : Chat} {outputs : List ChatOutput}
    {P : Chat → List ChatOutput → Prop} {cmd : ChatCommand} {b₀ b₁ b₂ b₃ : UInt8}
    (hcmd : cmd ≠ .character) (hfont : cmd ≠ .fontFamily)
    (hV6 : ∀ q, q.bytes = [b₀, b₁, b₂, b₃] → switchV6 (some cmd) 4 q c = .done 4 c₁ outputs)
    (hV2 : ∀ q, q.bytes = [cmd.code, b₀, b₁, b₂, b₃] →
      roundV2 q c = .next (q.pop 5) c₁ outputs) :
    DecodesTo version ⟨popped, (ChatSend.command cmd [b₀, b₁, b₂, b₃]).wire version⟩ c P
      ↔ P c₁ outputs := by
  by_cases h6 : 6 ≤ version
  · exact decodesTo_done h6 hcmd hfont (Nat.le_add_right 4 118) (hV6 _ rfl)
  · exact decodesTo_doneV2 h6 (Nat.le_add_right 4 123) (Nat.le_refl 5) (hV2 _ rfl)

/-- What the components of a colour are read as. -/
theorem color_iff {r g b : ℤ} {F : UInt8 × UInt8 × UInt8 → Chat} :
    (∃ r' g' b' : UInt8, r = r'.toNat ∧ g = g'.toNat ∧ b = b'.toNat ∧
      F (charOf r, charOf g, charOf b) = F (r', g', b') ∧ outputs = outputs) ↔
      ColorOk r ∧ ColorOk g ∧ ColorOk b := by
  have hok : ∀ {n : ℤ} {m : UInt8}, n = m.toNat → ColorOk n := by
    intro n m h
    have := m.toNat_lt
    rw [ColorOk]
    omega
  constructor
  · rintro ⟨r', g', b', hr, hg, hb, -, -⟩
    exact ⟨hok hr, hok hg, hok hb⟩
  · rintro ⟨hr, hg, hb⟩
    exact ⟨_, _, _, charOf_eq_iff.mp hr, charOf_eq_iff.mp hg, charOf_eq_iff.mp hb, rfl, rfl⟩

theorem transmits_colorFg {r g b : ℤ} : Transmits version popped c (.colorFg r g b) ↔
    ColorOk r ∧ ColorOk g ∧ ColorOk b := by
  refine (@decodesTo_four version popped c
    { c with u := { c.u with colorFore := (charOf r, charOf g, charOf b) } } [c.event .colorFg]
    _ _ _ _ _ _ (by decide) (by decide) (fun q hq => ?_) fun q hq => ?_).trans ?_
  · simp only [switchV6, hq]
  · rw [roundV2, hq]
    rfl
  · exact @color_iff _ _ _ _ fun x => { c with u := { c.u with colorFore := x } }

theorem transmits_colorBg {r g b : ℤ} : Transmits version popped c (.colorBg r g b) ↔
    ColorOk r ∧ ColorOk g ∧ ColorOk b := by
  refine (@decodesTo_four version popped c
    { c with u := { c.u with colorBack := (charOf r, charOf g, charOf b) } } [c.event .colorBg]
    _ _ _ _ _ _ (by decide) (by decide) (fun q hq => ?_) fun q hq => ?_).trans ?_
  · simp only [switchV6, hq]
  · rw [roundV2, hq]
    rfl
  · exact @color_iff _ _ _ _ fun x => { c with u := { c.u with colorBack := x } }

theorem transmits_fontSize {s : UInt16} : Transmits version popped c (.fontSize s) := by
  have hlong : readLong s.toUInt64 % 2 ^ 16 = s.toNat := by
    have hlt := s.toNat_lt
    rw [readLong_eq, UInt16.toNat_toUInt64]
    split_ifs <;> omega
  refine (@decodesTo_four version popped c { c with u := { c.u with fontSize := s.toNat } }
    [c.event .fontSize] _ _ _ _ _ _ (by decide) (by decide) (fun q hq => ?_) fun q hq => ?_).mpr
    ⟨rfl, rfl⟩
  · simp only [switchV6, hq, ← hlong]
    rfl
  · rw [roundV2, hq, ← hlong]
    rfl

theorem transmits_fontFace {b i u s : Bool} :
    Transmits version popped c (.fontFace b i u s) := by
  have hlong : readLong (fontFaceOf b i u s) = (fontFaceOf b i u s).toNat := by
    refine readLong_eq_iff.mpr (.inl ?_)
    cases b <;> cases i <;> cases u <;> cases s <;> decide
  refine (@decodesTo_four version popped c
    { c with u := { c.u with fontFace := (fontFaceOf b i u s).toNat } }
    [c.event .fontFace] _ _ _ _ _ _ (by decide) (by decide) (fun q hq => ?_) fun q hq => ?_).mpr
    ⟨rfl, rfl⟩
  · simp only [switchV6, hq, ← hlong]
    rfl
  · rw [roundV2, hq, ← hlong]
    rfl

/-! ## Kicking -/

/-- A byte that is alone in the queue of a peer below version 6. -/
theorem decodesTo_alone {b : UInt8} (h6 : ¬ 6 ≤ version)
    (h : DecodesTo version ⟨popped, [b]⟩ c P) : ∃ c' outputs, P c' outputs ∧
      c'.voteInfo = c.voteInfo ∧ c'.u.nToKick = c.u.nToKick ∧
      b ≠ ChatCommand.kick.code ∧ b ≠ ChatCommand.kickYes.code ∧ b ≠ ChatCommand.kickNo.code := by
  have hround : roundOf version ⟨popped, [b]⟩ c = roundV2 ⟨popped, [b]⟩ c := by
    rw [roundOf, if_neg h6]
  have hne : (⟨popped, [b]⟩ : ChatQueue).bytes ≠ [] := cons_ne_nil _ _
  cases hr : roundV2 ⟨popped, [b]⟩ c with
  | undefined => exact absurd h (not_decodesTo_undefined hne (hround.trans hr))
  | wait r c₁ outputs =>
    obtain ⟨hnil, -⟩ := (decodesTo_wait hne (hround.trans hr)).mp h
    obtain ⟨-, -, hwait, hsilent⟩ := roundV2_wait rfl hr
    have hdropped := dropped_of_wait rfl hsilent hnil hwait
    rw [dropped_of_not_silent hsilent] at hdropped
    exact absurd hdropped id
  | next r c₁ outputs =>
    obtain ⟨⟨n, hn, hle, rfl⟩, -, halone, -⟩ := roundV2_next hr
    have hnil : (ChatQueue.pop ⟨popped, [b]⟩ n).bytes = [] :=
      drop_eq_nil_of_le (by rw [length_singleton]; omega)
    refine ⟨c₁, outputs, (decodesTo_last hne hnil (hround.trans hr)).mp h, (halone rfl).1,
      (halone rfl).2, ?_, ?_, ?_⟩ <;> rintro rfl <;> cases hr

/-- **The byte of a command in the place of the lowest byte of a number** moves the others up. -/
theorem byteOf_three_of_shiftedLong (h : shiftedLong cmd n = n.toNat) : byteOf n 3 = cmd.code := by
  have hmod : shiftedLong cmd n % 2 ^ 32
      = valueLE [cmd.code, byteOf n 0, byteOf n 1, byteOf n 2] := by
    have hlt := valueLE_lt [cmd.code, byteOf n 0, byteOf n 1, byteOf n 2]
    simp only [length_cons, length_nil] at hlt
    rw [shiftedLong, longLE_eq]
    split_ifs <;> omega
  have hbytes := bytesLE_valueLE [cmd.code, byteOf n 0, byteOf n 1, byteOf n 2]
  have hlong := bytesLE_uint32 n.toNat
  rw [← longBytes_eq, UInt32.toNat_ofNat', ← h, hmod] at hlong
  simp only [length_cons, length_nil] at hbytes
  rw [hbytes, longBytes] at hlong
  simp only [List.cons.injEq] at hlong
  obtain ⟨h0, h1, h2, h3, -⟩ := hlong
  rw [← h3, ← h2, ← h1, ← h0]

/-- Below version 6, a number is read with the command in it, and its highest byte is left in the
queue. -/
theorem decodesTo_shifted {n : UInt64} (h6 : ¬ 6 ≤ version)
    (hround : roundV2 ⟨popped, cmd.code :: longBytes n⟩ c
      = .next (ChatQueue.pop ⟨popped, cmd.code :: longBytes n⟩ 4) c₁ outputs) :
    DecodesTo version ⟨popped, (ChatSend.command cmd (longBytes n)).wire version⟩ c P ↔
      DecodesTo version ⟨popped + 4, [byteOf n 3]⟩ c₁ fun c' outputs' =>
        P c' (outputs ++ outputs') := by
  rw [wire_of_lt h6 (by simp)]
  exact decodesTo_next (cons_ne_nil _ _) (by rw [roundOf, if_neg h6]; exact hround)

theorem transmits_kick : Transmits version popped c (.kick n) ↔ 6 ≤ version ∧ LongOk n := by
  by_cases h6 : 6 ≤ version
  · refine (@decodesTo_done version popped c
      { c with u := { c.u with nToKick := readLong n } }
      _ _ [c.event .kick] _ h6 (by decide) (by decide) (by simp) rfl).trans ?_
    rw [← readLong_eq_iff]
    constructor
    · rintro ⟨hc, -⟩
      exact ⟨h6, congrArg (fun c : Chat => c.u.nToKick) hc⟩
    · rintro ⟨-, hlong⟩
      exact ⟨by rw [hlong], rfl⟩
  · refine iff_of_false (fun h => ?_) fun h => h6 h.1
    obtain ⟨c', outputs, ⟨rfl, -⟩, -, hkick, hne, -⟩ :=
      decodesTo_alone h6 ((@decodesTo_shifted version popped c
        { c with u := { c.u with nToKick := shiftedLong .kick n } } .kick [c.event .kick] _ n h6
        rfl).mp h)
    exact hne (byteOf_three_of_shiftedLong hkick.symm)

/-- The branches for the votes, from version 6 on. -/
theorem switchV6_vote (yes : Bool) (q : ChatQueue) {b₀ b₁ b₂ b₃ : UInt8}
    (hq : q.bytes = [b₀, b₁, b₂, b₃]) :
    switchV6 (some (if yes then .kickYes else .kickNo)) 4 q c
      = match c.castVote yes (longLE b₀ b₁ b₂ b₃) with
        | some (c, outputs) => .done 4 c outputs
        | none => .leave := by
  cases yes <;> simp only [switchV6, hq, if_true, Bool.false_eq_true, if_false] <;> rfl

theorem transmits_vote {yes : Bool} : Transmits version popped c (.vote yes n) ↔
    6 ≤ version ∧ LongOk n ∧ n.toNat ∈ c.voteInfo.map VoteInfo.nUin := by
  have hcmd : (if yes then kickYes else .kickNo) ≠ .character := by
    cases yes <;> decide
  have hfont : (if yes then kickYes else .kickNo) ≠ .fontFamily := by
    cases yes <;> decide
  have hknown : ∀ {d : Chat × List ChatOutput}, c.castVote yes n.toNat = some d →
      n.toNat ∈ c.voteInfo.map VoteInfo.nUin := fun hcast => by
    by_contra hnone
    rw [castVote_eq_none_iff.mpr hnone] at hcast
    cases hcast
  by_cases h6 : 6 ≤ version
  · have hswitch : switchV6 _ 4 ⟨popped + 6, longBytes n⟩ c = match c.castVote yes (readLong n) with
        | some (c, outputs) => .done 4 c outputs
        | none => .leave := switchV6_vote yes _ rfl
    cases hcast : c.castVote yes (readLong n) with
    | none =>
      rw [hcast] at hswitch
      refine iff_of_false (not_decodesTo_leave h6 hcmd hfont (by simp)
        (cons_ne_nil _ _) hswitch) ?_
      rintro ⟨-, hlong, hmem⟩
      rw [readLong_eq_iff.mpr hlong] at hcast
      exact castVote_eq_none_iff.mp hcast hmem
    | some d =>
      rw [hcast] at hswitch
      refine (@decodesTo_done version popped c d.1 _ (longBytes n) d.2 _ h6 hcmd hfont
        (by simp) hswitch).trans ?_
      constructor
      · intro hmeans
        have huin := (voteCast_of_castVote hcast).unique (voteCast_of_castVote hmeans) rfl
        exact ⟨h6, readLong_eq_iff.mp huin, hknown hmeans⟩
      · rintro ⟨-, hlong, -⟩
        rwa [readLong_eq_iff.mpr hlong] at hcast
  · refine iff_of_false (fun h => ?_) fun h => h6 h.1
    have hne : (⟨popped, (if yes then kickYes else .kickNo).code :: longBytes n⟩ :
      ChatQueue).bytes ≠ [] := cons_ne_nil _ _
    have hround : roundV2 ⟨popped, (if yes then kickYes else .kickNo).code ::
        longBytes n⟩ c = match c.castVote yes
          (shiftedLong (if yes then kickYes else .kickNo) n) with
        | some (c, outputs) => .next ⟨popped + 4, [byteOf n 3]⟩ c outputs
        | none => .wait ⟨popped + 4, [byteOf n 3]⟩ c [] := by
      cases yes <;> rfl
    cases hcast : c.castVote yes (shiftedLong (if yes then kickYes else .kickNo) n) with
    | none =>
      rw [hcast] at hround
      rw [Transmits, ChatMessage.sent, wire_of_lt h6 (by simp),
        decodesTo_wait hne (by rw [roundOf, if_neg h6]; exact hround)] at h
      exact absurd h.1 (cons_ne_nil _ _)
    | some d =>
      rw [hcast] at hround
      obtain ⟨c', outputs, hmeans, hvotes, -, -, hyes, hno⟩ :=
        decodesTo_alone h6 ((decodesTo_shifted h6 hround).mp h)
      have huin := (voteCast_of_castVote hcast).unique (voteCast_of_castVote hmeans) hvotes.symm
      have hbyte := byteOf_three_of_shiftedLong huin
      cases yes with
      | true => exact hyes hbyte
      | false => exact hno hbyte

/-- What is kicked is a user, not a number. -/
theorem kickPass_congr {n m : ℕ} (h : c.userIdOf n = c.userIdOf m) :
    c.kickPass n = c.kickPass m := by
  rw [Chat.kickPass, Chat.kickPass, h]

/-- Below version 6, what is left in the queue must have no effect. -/
theorem decodesTo_dropped (h6 : ¬ 6 ≤ version) {q : ChatQueue} :
    DecodesTo version q c (fun c' outputs => c' = c ∧ outputs = []) ↔ Dropped c q.bytes := by
  rw [← unnoticed_iff_dropped, DecodesTo, processRaw, if_neg h6, Unnoticed]

theorem dropped_singleton {b : UInt8} : Dropped c [b] ↔ Silent b = true := by
  cases hb : Silent b with
  | true =>
    rw [dropped_of_silent hb]
    exact iff_of_true trivial rfl
  | false =>
    rw [dropped_of_not_silent hb]
    exact iff_of_false id (by decide)

/-- A command below version 6 that leaves something in the queue and is to put out one event. -/
theorem decodesTo_leftover {k : ℕ} {event : ChatOutput} (h6 : ¬ 6 ≤ version)
    (hlen : body.length ≤ 127)
    (hround : roundV2 ⟨popped, cmd.code :: body⟩ c
      = .next (ChatQueue.pop ⟨popped, cmd.code :: body⟩ k) c [event]) :
    DecodesTo version ⟨popped, (ChatSend.command cmd body).wire version⟩ c
      (fun c' outputs => c' = c ∧ outputs = [event]) ↔ Dropped c ((cmd.code :: body).drop k) := by
  rw [wire_of_lt h6 hlen, decodesTo_next (cons_ne_nil _ _)
    (by rw [roundOf, if_neg h6]; exact hround)]
  simp only [cons_append, nil_append, List.cons.injEq, true_and]
  exact decodesTo_dropped h6

theorem transmits_kickFail :
    Transmits version popped c (.kickFail n nYes nNo) ↔ 6 ≤ version ∨ Silent nNo.toUInt8 = true := by
  by_cases h6 : 6 ≤ version
  · exact iff_of_true ((decodesTo_done h6 (by decide) (by decide) (by simp [voteBody]) rfl).mpr
      ⟨rfl, rfl⟩) (.inl h6)
  · refine (@decodesTo_leftover version popped c .kickFail (voteBody n nYes nNo) 6 _ h6
      (by simp [voteBody]) rfl).trans ?_
    simp only [h6, false_or]
    exact dropped_singleton

theorem transmits_kickYou :
    Transmits version popped c (.kickYou n nYes nNo) ↔ 6 ≤ version ∨
      Dropped c [byteOf n 1, byteOf n 2, byteOf n 3, nYes.toUInt8, nNo.toUInt8] := by
  by_cases h6 : 6 ≤ version
  · exact iff_of_true ((decodesTo_done h6 (by decide) (by decide) (by simp [voteBody]) rfl).mpr
      ⟨rfl, rfl⟩) (.inl h6)
  · refine (@decodesTo_leftover version popped c .kickYou (voteBody n nYes nNo) 2 _ h6
      (by simp [voteBody]) rfl).trans ?_
    simp only [h6, false_or]
    rfl

theorem transmits_kickYouNoVote : Transmits version popped c .kickYouNoVote ↔ 6 ≤ version := by
  by_cases h6 : 6 ≤ version
  · exact iff_of_true ((decodesTo_done h6 (by decide) (by decide) (by decide) rfl).mpr
      ⟨rfl, rfl⟩) h6
  · refine (@decodesTo_leftover version popped c .kickYou [2, 1] 2 _ h6 (by decide) rfl).trans ?_
    exact iff_of_false (fun h => absurd (dropped_singleton.mp h) (by decide)) h6

theorem transmits_kickPass :
    Transmits version popped c (.kickPass n nYes nNo) ↔
      c.userIdOf (kickedLong version n) = c.userIdOf n.toNat ∧ c.userIdOf n.toNat ∈ c.chatUsers ∧
        (6 ≤ version ∨ Silent nNo.toUInt8 = true) := by
  -- What the two numbers do is the same exactly when they are of the same user.
  have hsame : ∀ {m : ℕ} {d : Chat × List ChatOutput} {c' : Chat} {outputs : List ChatOutput},
      c.kickPass m = some d → c.kickPass n.toNat = some (c', d.2 ++ outputs) →
      c.userIdOf m = c.userIdOf n.toNat ∧ c.userIdOf n.toNat ∈ c.chatUsers ∧ c' = d.1 ∧
        outputs = [] := by
    rintro m ⟨c₁, outputs₁⟩ c' outputs hm hn
    obtain ⟨-, rfl, rfl⟩ := kickPass_spec hm
    obtain ⟨hmem, rfl, houtputs⟩ := kickPass_spec hn
    simp only [cons_append, nil_append, List.cons.injEq, ChatOutput.send.injEq,
      true_and, and_true, ChatOutput.event.injEq] at houtputs
    obtain ⟨huser, -, hnil⟩ := houtputs
    exact ⟨huser, hmem, by rw [huser], hnil⟩
  by_cases h6 : 6 ≤ version
  · have hswitch : switchV6 (some .kickPass) 6 ⟨popped + 6, voteBody n nYes nNo⟩ c
        = match c.kickPass (readLong n) with
          | some (c, outputs) => .done 6 c outputs
          | none => .leave := rfl
    simp only [kickedLong, h6, if_true, true_or, and_true]
    cases hkick : c.kickPass (readLong n) with
    | none =>
      rw [hkick] at hswitch
      refine iff_of_false (not_decodesTo_leave h6 (by decide) (by decide) (by simp [voteBody])
        (cons_ne_nil _ _) hswitch) ?_
      rintro ⟨huser, hmem⟩
      rw [kickPass_eq_none_iff, huser] at hkick
      exact hkick hmem
    | some d =>
      rw [hkick] at hswitch
      refine (@decodesTo_done version popped c d.1 _ (voteBody n nYes nNo) d.2 _ h6 (by decide)
        (by decide) (by simp [voteBody]) hswitch).trans ?_
      constructor
      · intro hmeans
        obtain ⟨huser, hmem, -⟩ := @hsame _ _ _ [] hkick (by rw [append_nil]; exact hmeans)
        exact ⟨huser, hmem⟩
      · rintro ⟨huser, -⟩
        rwa [kickPass_congr huser] at hkick
  · have hne : (⟨popped, kickPass.code :: voteBody n nYes nNo⟩ : ChatQueue).bytes ≠ [] :=
      cons_ne_nil _ _
    have hround : roundOf version ⟨popped, kickPass.code :: voteBody n nYes nNo⟩ c
        = match c.kickPass (shiftedLong .kickPass n) with
          | some (c, outputs) => .next ⟨popped + 6, [nNo.toUInt8]⟩ c outputs
          | none => .wait ⟨popped + 6, [nNo.toUInt8]⟩ c [] := by
      rw [roundOf, if_neg h6]
      rfl
    rw [Transmits, ChatMessage.sent, wire_of_lt h6 (by simp [voteBody])]
    simp only [kickedLong, h6, if_false, false_or]
    cases hkick : c.kickPass (shiftedLong .kickPass n) with
    | none =>
      rw [hkick] at hround
      rw [decodesTo_wait hne hround]
      refine iff_of_false (fun h => absurd h.1 (cons_ne_nil _ _)) ?_
      rintro ⟨huser, hmem, -⟩
      rw [kickPass_eq_none_iff, huser] at hkick
      exact hkick hmem
    | some d =>
      rw [hkick] at hround
      rw [decodesTo_next hne hround, ← @dropped_singleton d.1,
        ← @decodesTo_dropped version d.1 h6 ⟨popped + 6, [nNo.toUInt8]⟩]
      constructor
      · rintro ⟨d', hd', hqueue, hmeans⟩
        obtain ⟨huser, hmem, hchat, houtputs⟩ := hsame hkick hmeans
        exact ⟨huser, hmem, d', hd', hqueue, hchat, houtputs⟩
      · rintro ⟨huser, -, d', hd', hqueue, hchat, houtputs⟩
        refine ⟨d', hd', hqueue, ?_⟩
        rw [kickPass_congr huser] at hkick
        rw [ChatMessage.Means, hkick, hchat, houtputs, append_nil]

/-! ## The font family -/

/-- A font family that is complete in the queue. -/
theorem fontFamilyV2_complete {s₀ s₁ ch encoding style : UInt8} {str : List UInt8}
    (hsize : valueLE [s₀, s₁] = str.length) (hlen : str.length < 2 ^ 15) :
    fontFamilyV2 ⟨popped, ch :: s₀ :: s₁ :: (str ++ [encoding, style])⟩ c
      = if (popped + 3) % ChatQueue.blockSize + str.length ≤ ChatQueue.blockSize then
          .next (ChatQueue.pop ⟨popped, ch :: s₀ :: s₁ :: (str ++ [encoding, style])⟩
            (3 + str.length + 2))
            { c with u :=
              { c.u with fontFamily := str, fontEncoding := encoding, fontStyle := style } }
            [c.event .fontFamily]
        else .undefined := by
  have hbytes : ∀ i, (ch :: s₀ :: s₁ :: (str ++ [encoding, style]))[str.length + i + 3]?
      = [encoding, style][i]? := fun i => by
    simp only [getElem?_cons_succ, getElem?_append_right (Nat.le_add_right _ _),
      Nat.add_sub_cancel_left]
  have hfont : fontOfV2 ⟨popped, ch :: s₀ :: s₁ :: (str ++ [encoding, style])⟩ str.length
      = if (popped + 3) % ChatQueue.blockSize + str.length ≤ ChatQueue.blockSize then
          some (str, encoding, style) else none := by
    have hencoding := hbytes 0
    have hstyle := hbytes 1
    rw [Nat.add_zero] at hencoding
    simp only [fontOfV2, ChatQueue.string, hencoding]
    rw [Nat.add_right_comm] at hstyle
    split_ifs with hblock hfits hfits
    · simp only [Option.bind_eq_bind, Option.bind_some, hstyle]
      simp
    · exact absurd hblock.2 hfits
    · refine absurd ⟨?_, hfits⟩ hblock
      simp only [length_cons, length_append]
      omega
    · rfl
  have hcomplete : ¬ (ch :: s₀ :: s₁ :: (str ++ [encoding, style])).length
      < str.length + 2 + 3 := by
    simp only [length_cons, length_append, length_nil]
    omega
  have hcounter : 3 + str.length + 2 < 2 ^ 16 := by omega
  simp only [fontFamilyV2, hsize, hcomplete, if_false, hfont]
  by_cases hfits : (popped + 3) % ChatQueue.blockSize + str.length ≤ ChatQueue.blockSize
  · simp only [if_pos hfits, if_pos hcounter]
  · simp only [if_neg hfits]

/-- Below version 6, the name is read with the null byte behind it. -/
theorem transmits_fontFamily {name : List UInt8} {encoding style : UInt8} :
    Transmits version popped c (.fontFamily name encoding style) ↔
      ¬ 6 ≤ version ∧ name = cStr name ++ [0] ∧ (cStr name).length ≤ 122 ∧
        (popped + 3) % ChatQueue.blockSize + ((cStr name).length + 1) ≤ ChatQueue.blockSize := by
  by_cases h6 : 6 ≤ version
  · exact iff_of_false (not_decodesTo_fontFamily h6) fun h => h.1 h6
  obtain ⟨s₀, s₁, hs⟩ : ∃ s₀ s₁, bytesLE 2 ((cStr name).length + 1) = [s₀, s₁] := ⟨_, _, rfl⟩
  have hbody : bytesLE 2 ((cStr name).length + 1) ++ (cStr name ++ [0, encoding, style])
      = s₀ :: s₁ :: ((cStr name ++ [0]) ++ [encoding, style]) := by
    rw [hs, append_assoc]
    rfl
  have hlen : (s₀ :: s₁ :: ((cStr name ++ [0]) ++ [encoding, style])).length
      = (cStr name).length + 5 := by
    simp
  rw [Transmits, ChatMessage.sent, hbody]
  by_cases hfits : (cStr name).length ≤ 122
  · have hsize : valueLE [s₀, s₁] = (cStr name ++ [0]).length := by
      have hvalue := valueLE_bytesLE 2 ((cStr name).length + 1)
      rw [hs, Nat.mod_eq_of_lt (by omega)] at hvalue
      rw [hvalue, length_append, length_singleton]
    have hround := @fontFamilyV2_complete popped c s₀ s₁ fontFamily.code encoding style
      _ hsize (by rw [length_append, length_singleton]; omega)
    rw [length_append, length_singleton] at hround
    rw [wire_of_lt h6 (by omega)]
    by_cases hblock : (popped + 3) % ChatQueue.blockSize + ((cStr name).length + 1)
        ≤ ChatQueue.blockSize
    · rw [if_pos hblock] at hround
      refine (decodesTo_last (cons_ne_nil _ _) ?_
        (by rw [roundOf, if_neg h6]; exact hround)).trans ?_
      · refine drop_eq_nil_of_le ?_
        rw [length_cons, hlen]
        omega
      · simp only [ChatMessage.Means, h6, not_false_eq_true, hfits, hblock, and_true, true_and]
        constructor
        · intro h
          exact (congrArg (fun c : Chat => c.u.fontFamily) h).symm
        · intro h
          rw [← h]
    · rw [if_neg hblock] at hround
      refine iff_of_false (not_decodesTo_undefined (cons_ne_nil _ _)
        (by rw [roundOf, if_neg h6]; exact hround)) fun h => hblock h.2.2.2
  · -- a body that does not fit is left out
    have hwire : (ChatSend.command .fontFamily
        (s₀ :: s₁ :: ((cStr name ++ [0]) ++ [encoding, style]))).wire version
        = [fontFamily.code] := by
      rw [ChatSend.wire, encodeBuffer_data, chatHeader, if_neg h6, chatHeaderSize, if_neg h6,
        if_neg (by omega)]
      rfl
    rw [hwire, decodesTo_wait (cons_ne_nil _ _) (by rw [roundOf, if_neg h6]; rfl)]
    exact iff_of_false (fun h => absurd h.1 (cons_ne_nil _ _)) fun h => hfits h.2.2.1

/-! ## The main result -/

end Licq
