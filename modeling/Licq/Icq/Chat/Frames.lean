import Licq.Wire.Framing
import Licq.Icq.Chat.Version6

/-!
# Icq/Chat/Frames — the data of a chat as a stream of frames

As bytes, what a peer from version 6 on sends is a stream of frames (`chatFraming`), commands and
characters, and what the frames do one after the other is `decodeFrames`.

The **main result** `receiveAll_eq_decodeFrames` says that `ProcessRaw_v6` does just that, however
the data is split over the receives, as long as no frame is one of those that the code does not
get right (`ChatFrame.Ok`): one with a body of 64K or more, one whose fields are not in its body, a
vote about somebody that no vote was asked for, a kick of somebody who is not in the chat, a font
name that crosses a block of the queue; and no header has one of the six greatest sizes
(`HeaderOk`).  `not_decodes_unknownVote` shows what becomes of a vote that was not asked for.
-/

open Text Wire

namespace Licq

open List

/-! ## The frames of the data -/

/-- A command with the bytes that its size declares, or a character. -/
inductive ChatFrame
  | command (code : UInt8) (data : List UInt8)
  | char (c : UInt8)

/-- What a command takes of the bytes that its size declares: the size of a font command counts the
character behind it. -/
def bodySize (code : UInt8) (n : ℕ) : ℕ :=
  if ChatCommand.ofCode code = some .fontFamily then n - 1 else n

/-- The first frame, where the whole of it is there. -/
def nextFrame : List UInt8 → Option (ChatFrame × List UInt8)
  | [] => none
  | chatChar :: tail =>
    if chatChar = 0 then
      match tail with
      | code :: s₀ :: s₁ :: s₂ :: s₃ :: body =>
        let n := valueLE [s₀, s₁, s₂, s₃]
        if n ≤ body.length then some (.command code (body.take n), body.drop (bodySize code n))
        else none
      | _ => none
    else some (.char chatChar, tail)

theorem bodySize_le (code : UInt8) (n : ℕ) : bodySize code n ≤ n := by
  rw [bodySize]
  split
  · exact Nat.sub_le n 1
  · exact Nat.le_refl n

variable {q : ChatQueue} {r body data x : List UInt8} {code s₀ s₁ s₂ s₃ ch : UInt8} {c : Chat}
  {pos : ℕ}

/-- The two ways to take a frame. -/
theorem nextFrame_eq_some {q : List UInt8} {f : ChatFrame} (h : nextFrame q = some (f, r)) :
    (∃ ch, ch ≠ 0 ∧ q = ch :: r ∧ f = .char ch) ∨
      ∃ code s₀ s₁ s₂ s₃ body, q = 0 :: code :: s₀ :: s₁ :: s₂ :: s₃ :: body ∧
        valueLE [s₀, s₁, s₂, s₃] ≤ body.length ∧
        f = .command code (body.take (valueLE [s₀, s₁, s₂, s₃])) ∧
        r = body.drop (bodySize code (valueLE [s₀, s₁, s₂, s₃])) := by
  unfold nextFrame at h
  split at h
  · cases h
  · rename_i chatChar tail
    split at h
    · rename_i hzero
      split at h
      · rename_i code s₀ s₁ s₂ s₃ body
        simp only at h
        split at h
        · rename_i hle
          cases h
          exact .inr ⟨code, s₀, s₁, s₂, s₃, body, by rw [hzero], hle, rfl, rfl⟩
        · cases h
      · cases h
    · rename_i hzero
      cases h
      exact .inl ⟨chatChar, hzero, rfl, rfl⟩

theorem nextFrame_command
    (h : valueLE [s₀, s₁, s₂, s₃] ≤ body.length) :
    nextFrame (0 :: code :: s₀ :: s₁ :: s₂ :: s₃ :: body) =
      some (.command code (body.take (valueLE [s₀, s₁, s₂, s₃])),
        body.drop (bodySize code (valueLE [s₀, s₁, s₂, s₃]))) := by
  simp only [nextFrame, if_true, h]

theorem nextFrame_char (h : ch ≠ 0) (r : List UInt8) :
    nextFrame (ch :: r) = some (.char ch, r) := by
  simp only [nextFrame, h, if_false]

/-- The data of a chat is a stream of frames. -/
def chatFraming : Framing UInt8 ChatFrame where
  next := nextFrame
  shrinks := by
    intro q f r h
    obtain ⟨ch, -, rfl, -⟩ | ⟨code, s₀, s₁, s₂, s₃, body, rfl, -, -, rfl⟩ := nextFrame_eq_some h
    · exact Nat.lt_succ_self _
    · simp only [List.length_cons, List.length_drop]
      omega
  stable := by
    intro q f r x h
    obtain ⟨ch, hch, rfl, rfl⟩ | ⟨code, s₀, s₁, s₂, s₃, body, rfl, hle, rfl, rfl⟩ :=
      nextFrame_eq_some h
    · exact nextFrame_char hch _
    · have hle' : valueLE [s₀, s₁, s₂, s₃] ≤ (body ++ x).length := by
        rw [List.length_append]
        omega
      have hbody := bodySize_le code (valueLE [s₀, s₁, s₂, s₃])
      simp only [List.cons_append]
      rw [nextFrame_command hle', List.take_append_of_le_length hle,
        List.drop_append_of_le_length (by omega)]

/-! ## What a frame does -/

/-- A command, by the bytes that its size declares. -/
def Chat.commandEffect (c : Chat) (command : Option ChatCommand) (data : List UInt8) :
    Chat × List ChatOutput :=
  match command, data with
  | some .colorFg, r :: g :: b :: _ =>
    ({ c with u := { c.u with colorFore := (r, g, b) } }, [c.event .colorFg])
  | some .colorBg, r :: g :: b :: _ =>
    ({ c with u := { c.u with colorBack := (r, g, b) } }, [c.event .colorBg])
  | some .fontFamily, s₀ :: s₁ :: body =>
    let sizeFontName := valueLE [s₀, s₁]
    ({ c with u :=
      { c.u with
        fontFamily := body.take sizeFontName
        fontEncoding := body.getD sizeFontName 0
        fontStyle := body.getD (sizeFontName + 1) 0 } },
      [c.event .fontFamily])
  | some .fontFace, b₀ :: b₁ :: b₂ :: b₃ :: _ =>
    ({ c with u := { c.u with fontFace := longLE b₀ b₁ b₂ b₃ } }, [c.event .fontFace])
  | some .fontSize, b₀ :: b₁ :: b₂ :: b₃ :: _ =>
    ({ c with u := { c.u with fontSize := longLE b₀ b₁ b₂ b₃ % 2 ^ 16 } }, [c.event .fontSize])
  | some .focusIn, _ => ({ c with u := { c.u with focus := true } }, [c.event .focusIn])
  | some .focusOut, _ => ({ c with u := { c.u with focus := false } }, [c.event .focusOut])
  | some .sleepOff, _ => ({ c with u := { c.u with sleep := false } }, [c.event .sleepOff])
  | some .sleepOn, _ => ({ c with u := { c.u with sleep := true } }, [c.event .sleepOn])
  | some .kick, b₀ :: b₁ :: b₂ :: b₃ :: _ =>
    ({ c with u := { c.u with nToKick := longLE b₀ b₁ b₂ b₃ } }, [c.event .kick])
  | some .kickYes, b₀ :: b₁ :: b₂ :: b₃ :: _ =>
    (c.castVote true (longLE b₀ b₁ b₂ b₃)).getD (c, [])
  | some .kickNo, b₀ :: b₁ :: b₂ :: b₃ :: _ =>
    (c.castVote false (longLE b₀ b₁ b₂ b₃)).getD (c, [])
  | some .kickPass, b₀ :: b₁ :: b₂ :: b₃ :: _ => (c.kickPass (longLE b₀ b₁ b₂ b₃)).getD (c, [])
  | some .beep, _ => (c, [c.event .beep])
  | some .laugh, _ => (c, [c.event .laugh])
  | some .kickFail, _ => (c, [c.event .kickFail])
  | some .kickYou, _ => (c, [c.event .kickYou])
  | some .disconnectionKicked, _ => (c, [c.event .disconnectionKicked])
  | _, _ => (c, [])

/-- A frame. -/
def ChatFrame.apply (c : Chat) : ChatFrame → Chat × List ChatOutput
  | .command code data => c.commandEffect (ChatCommand.ofCode code) data
  | .char ch =>
    if ch = ChatCommand.newline.code then c.newline
    else if ch = ChatCommand.backspace.code then c.backspace
    else if iscntrl ch then (c, [])
    else c.text [ch]

/-- What a frame takes off the queue. -/
def ChatFrame.size : ChatFrame → ℕ
  | .command code data => 6 + bodySize code data.length
  | .char _ => 1

/-- The frames one after the other. -/
def decodeFrames (c : Chat) : List ChatFrame → Chat × List ChatOutput
  | [] => (c, [])
  | f :: fs =>
    ((decodeFrames (f.apply c).1 fs).1, (f.apply c).2 ++ (decodeFrames (f.apply c).1 fs).2)

def framesSize (fs : List ChatFrame) : ℕ := (fs.map ChatFrame.size).sum

/-- Text as one event for each character. -/
def ChatOutput.perByte : ChatOutput → List ChatOutput
  | .event .character client chars => chars.map fun ch => .event .character client [ch]
  | output => [output]

/-! ## Frames that the code gets right -/

/-- The fields of a command are in the bytes that its size declares, a font name is in one block of
the queue, where `pos` is the position of these bytes, and who is voted about or kicked is known. -/
def Chat.BodyOk (pos : ℕ) (c : Chat) (command : Option ChatCommand) (data : List UInt8) : Prop :=
  match command, data with
  | some .colorFg, data | some .colorBg, data => 3 ≤ data.length
  | some .fontFamily, s₀ :: s₁ :: body =>
    valueLE [s₀, s₁] + 2 ≤ body.length ∧
      (pos + 2) % ChatQueue.blockSize + valueLE [s₀, s₁] ≤ ChatQueue.blockSize
  | some .fontFamily, _ => False
  | some .fontFace, data | some .fontSize, data | some .kick, data => 4 ≤ data.length
  | some .kickYes, b₀ :: b₁ :: b₂ :: b₃ :: _ | some .kickNo, b₀ :: b₁ :: b₂ :: b₃ :: _ =>
    longLE b₀ b₁ b₂ b₃ ∈ c.voteInfo.map VoteInfo.nUin
  | some .kickYes, _ | some .kickNo, _ => False
  | some .kickPass, b₀ :: b₁ :: b₂ :: b₃ :: _ :: _ :: _ =>
    c.userIdOf (longLE b₀ b₁ b₂ b₃) ∈ c.chatUsers
  | some .kickPass, _ => False
  | _, _ => True

/-- A frame that begins at the position `pos` of the queue. -/
def ChatFrame.Ok (pos : ℕ) (c : Chat) : ChatFrame → Prop
  | .command code data =>
    bodySize code data.length < 2 ^ 16 ∧ c.BodyOk (pos + 6) (ChatCommand.ofCode code) data
  | .char _ => True

/-- All the frames, each after those before it. -/
def FramesOk (pos : ℕ) (c : Chat) : List ChatFrame → Prop
  | [] => True
  | f :: fs => f.Ok pos c ∧ FramesOk (pos + f.size) (f.apply c).1 fs

/-- The size in a header, as an `unsigned long`, is not one that turns around. -/
def HeaderOk : List UInt8 → Prop
  | 0 :: _ :: s₀ :: s₁ :: s₂ :: s₃ :: _ => valueLE [s₀, s₁, s₂, s₃] < 2 ^ 32 - 6
  | _ => True

/-- The data from the position `pos` on. -/
def StreamOk (pos : ℕ) (c : Chat) (q : List UInt8) : Prop :=
  FramesOk pos c (chatFraming.frames q).1 ∧ HeaderOk (chatFraming.frames q).2

/-! ## One round -/

theorem exists_three_cons (h : 3 ≤ data.length) : ∃ a b c rest, data = a :: b :: c :: rest := by
  match data with
  | [] | [_] | [_, _] => simp at h
  | a :: b :: c :: rest => exact ⟨a, b, c, rest, rfl⟩

theorem exists_four_cons (h : 4 ≤ data.length) :
    ∃ a b c d rest, data = a :: b :: c :: d :: rest := by
  match data with
  | [] | [_] | [_, _] | [_, _, _] => simp at h
  | a :: b :: c :: d :: rest => exact ⟨a, b, c, d, rest, rfl⟩

/-- A font whose name is in one block. -/
theorem fontOf_append
    (hq : q.bytes = s₀ :: s₁ :: body ++ x) (hbody : valueLE [s₀, s₁] + 2 ≤ body.length)
    (hblock : (q.popped + 2) % ChatQueue.blockSize + valueLE [s₀, s₁] ≤ ChatQueue.blockSize) :
    fontOf q = some (body.take (valueLE [s₀, s₁]), body.getD (valueLE [s₀, s₁]) 0,
      body.getD (valueLE [s₀, s₁] + 1) 0) := by
  have hstring : q.string 2 (valueLE [s₀, s₁]) = some (body.take (valueLE [s₀, s₁])) := by
    have hlen : 2 + valueLE [s₀, s₁] ≤ q.bytes.length := by
      rw [hq]
      simp only [cons_append, length_cons, length_append]
      omega
    rw [ChatQueue.string, if_pos ⟨hlen, hblock⟩, hq]
    simp only [cons_append, drop_succ_cons, drop_zero]
    rw [take_append_of_le_length (by omega)]
  have hget : ∀ k, k < body.length → q.bytes[k + 2]? = some (body.getD k 0) := by
    intro k hk
    rw [hq, cons_append, cons_append, getElem?_cons_succ, getElem?_cons_succ,
      getElem?_append_left hk, getD_eq_getElem?_getD, getElem?_eq_getElem hk]
    rfl
  rw [fontOf, hq]
  simp only [cons_append, hstring]
  rw [← cons_append, ← cons_append, ← hq, hget _ (by omega), hget _ (by omega)]
  rfl

/-- The switch over the commands does what the command does, and what is behind its bytes does not
matter. -/
theorem switchV6_of_ok
    (hq : q.bytes = data ++ x) (hsize : bodySize code data.length < 2 ^ 16)
    (hok : c.BodyOk q.popped (ChatCommand.ofCode code) data) :
    switchV6 (ChatCommand.ofCode code) data.length q c =
      .done (bodySize code data.length) (c.commandEffect (ChatCommand.ofCode code) data).1
        (c.commandEffect (ChatCommand.ofCode code) data).2 := by
  rw [bodySize] at hsize ⊢
  cases hcmd : ChatCommand.ofCode code with
  | none => rfl
  | some command =>
    rw [hcmd] at hok hsize
    cases command with
    | colorFg =>
      obtain ⟨r, g, b, rest, rfl⟩ := exists_three_cons hok
      simp only [switchV6, hq, cons_append]
      rfl
    | colorBg =>
      obtain ⟨r, g, b, rest, rfl⟩ := exists_three_cons hok
      simp only [switchV6, hq, cons_append]
      rfl
    | fontFamily =>
      match data, hok with
      | s₀ :: s₁ :: body, hok =>
        obtain ⟨hbody, hblock⟩ := hok
        have hwrap : ((s₀ :: s₁ :: body).length + (2 ^ 64 - 1)) % 2 ^ 64 =
            (s₀ :: s₁ :: body).length - 1 := by
          simp only [if_true, length_cons] at hsize ⊢
          omega
        simp only [switchV6, fontOf_append hq hbody hblock, hwrap]
        rfl
    | fontFace =>
      obtain ⟨b₀, b₁, b₂, b₃, rest, rfl⟩ := exists_four_cons hok
      simp only [switchV6, hq, cons_append]
      rfl
    | fontSize =>
      obtain ⟨b₀, b₁, b₂, b₃, rest, rfl⟩ := exists_four_cons hok
      simp only [switchV6, hq, cons_append]
      rfl
    | kick =>
      obtain ⟨b₀, b₁, b₂, b₃, rest, rfl⟩ := exists_four_cons hok
      simp only [switchV6, hq, cons_append]
      rfl
    | kickYes =>
      match data, hok with
      | b₀ :: b₁ :: b₂ :: b₃ :: rest, hok =>
        obtain ⟨d, hd⟩ := castVote_of_known true hok
        simp only [switchV6, hq, cons_append, hd, Chat.commandEffect, Option.getD_some]
        rfl
    | kickNo =>
      match data, hok with
      | b₀ :: b₁ :: b₂ :: b₃ :: rest, hok =>
        obtain ⟨d, hd⟩ := castVote_of_known false hok
        simp only [switchV6, hq, cons_append, hd, Chat.commandEffect, Option.getD_some]
        rfl
    | kickPass =>
      match data, hok with
      | b₀ :: b₁ :: b₂ :: b₃ :: _ :: _ :: rest, hok =>
        obtain ⟨d, hd⟩ := kickPass_of_known hok
        simp only [switchV6, hq, cons_append, hd, Chat.commandEffect, Option.getD_some]
        rfl
    | _ => rfl

/-- A size that is at most that of the data is not negative. -/
theorem longLE_of_lt (h : valueLE [s₀, s₁, s₂, s₃] < 2 ^ 31) :
    longLE s₀ s₁ s₂ s₃ = valueLE [s₀, s₁, s₂, s₃] := by
  rw [longLE_eq, if_pos h]

theorem bodySize_lt {n : ℕ} (h : bodySize code n < 2 ^ 16) : n ≤ 2 ^ 16 := by
  rw [bodySize] at h
  split at h <;> omega

/-- A command in one round. -/
theorem roundV6_command
    (hq : q.bytes = 0 :: code :: s₀ :: s₁ :: s₂ :: s₃ :: body)
    (hle : valueLE [s₀, s₁, s₂, s₃] ≤ body.length)
    (hok : (ChatFrame.command code (body.take (valueLE [s₀, s₁, s₂, s₃]))).Ok q.popped c) :
    roundV6 q c = .next
      ⟨q.popped + (ChatFrame.command code (body.take (valueLE [s₀, s₁, s₂, s₃]))).size,
        body.drop (bodySize code (valueLE [s₀, s₁, s₂, s₃]))⟩
      ((ChatFrame.command code (body.take (valueLE [s₀, s₁, s₂, s₃]))).apply c).1
      ((ChatFrame.command code (body.take (valueLE [s₀, s₁, s₂, s₃]))).apply c).2 := by
  have htake : (body.take (valueLE [s₀, s₁, s₂, s₃])).length = valueLE [s₀, s₁, s₂, s₃] := by
    rw [length_take, Nat.min_eq_left hle]
  obtain ⟨hsize, hbody⟩ := hok
  have hn : valueLE [s₀, s₁, s₂, s₃] ≤ 2 ^ 16 := bodySize_lt (htake ▸ hsize)
  have hlong : longLE s₀ s₁ s₂ s₃ = valueLE [s₀, s₁, s₂, s₃] := longLE_of_lt (by omega)
  have hwhole : ¬ q.bytes.length < (6 + valueLE [s₀, s₁, s₂, s₃]) % 2 ^ 64 := by
    rw [hq]
    simp only [length_cons]
    omega
  have hsplit : (q.pop 6).bytes = body.take (valueLE [s₀, s₁, s₂, s₃]) ++
      body.drop (valueLE [s₀, s₁, s₂, s₃]) := by
    rw [take_append_drop, ChatQueue.pop, hq]
    rfl
  have hswitch := switchV6_of_ok hsplit hsize hbody
  rw [htake] at hswitch hsize
  have hpop : (q.pop 6).bytes = body := by
    rw [ChatQueue.pop, hq]
    rfl
  have hfits : bodySize code (valueLE [s₀, s₁, s₂, s₃]) ≤ (q.pop 6).bytes.length := by
    rw [hpop]
    exact (bodySize_le _ _).trans hle
  have hround : roundV6 q c = commandV6 code (valueLE [s₀, s₁, s₂, s₃]) (q.pop 6) c := by
    rw [roundV6]
    simp only [hq, if_true, hlong]
    rw [← hq, if_neg hwhole]
  rw [hround, commandV6, hswitch]
  simp only [hsize, hfits, and_self, if_true]
  rw [ChatQueue.pop, hpop, ChatFrame.size, htake]
  simp only [ChatQueue.pop, Nat.add_assoc]
  rfl

/-! ## Text -/

theorem decodeFrames_append (c : Chat) (fs gs : List ChatFrame) : decodeFrames c (fs ++ gs) =
    ((decodeFrames (decodeFrames c fs).1 gs).1,
      (decodeFrames c fs).2 ++ (decodeFrames (decodeFrames c fs).1 gs).2) := by
  induction fs generalizing c with
  | nil => rfl
  | cons f fs ih => simp only [cons_append, decodeFrames, ih, append_assoc]

theorem framesSize_append (fs gs : List ChatFrame) :
    framesSize (fs ++ gs) = framesSize fs + framesSize gs := by
  rw [framesSize, map_append, sum_append]
  rfl

theorem framesOk_append {fs gs : List ChatFrame} :
    FramesOk pos c (fs ++ gs) ↔
      FramesOk pos c fs ∧ FramesOk (pos + framesSize fs) (decodeFrames c fs).1 gs := by
  induction fs generalizing pos c with
  | nil => exact ⟨fun h => ⟨trivial, h⟩, And.right⟩
  | cons f fs ih =>
    have hsize : pos + framesSize (f :: fs) = pos + f.size + framesSize fs := by
      rw [framesSize, map_cons, sum_cons, ← Nat.add_assoc]
      rfl
    rw [cons_append, FramesOk, FramesOk, ih, hsize, and_assoc]
    rfl

/-- A character that is neither a control character nor the one before a command is text. -/
theorem ne_of_not_iscntrl (h : iscntrl ch = false) :
    ch ≠ 0 ∧ ch ≠ ChatCommand.newline.code ∧ ch ≠ ChatCommand.backspace.code := by
  refine ⟨?_, ?_, ?_⟩ <;> rintro rfl <;> cases h

/-- Characters of text, each a frame. -/
theorem frames_text {chars : List UInt8} (h : ∀ ch ∈ chars, iscntrl ch = false) (r : List UInt8) :
    chatFraming.frames (chars ++ r) =
      (chars.map ChatFrame.char ++ (chatFraming.frames r).1, (chatFraming.frames r).2) := by
  induction chars with
  | nil => rfl
  | cons ch chars ih =>
    have hch := (ne_of_not_iscntrl (h ch mem_cons_self)).1
    have hnext : chatFraming.next (ch :: (chars ++ r)) = some (.char ch, chars ++ r) :=
      nextFrame_char hch _
    rw [cons_append, Framing.frames_of_some hnext,
      ih fun ch hmem => h ch (mem_cons_of_mem _ hmem)]
    rfl

theorem framesSize_text (chars : List UInt8) :
    framesSize (chars.map ChatFrame.char) = chars.length := by
  induction chars with
  | nil => rfl
  | cons ch chars ih =>
    simp only [framesSize, map_cons, sum_cons, length_cons] at ih ⊢
    rw [ih, Nat.add_comm]
    rfl

theorem text_nil (c : Chat) : (c.text []).1 = c := by
  rw [Chat.text, append_nil]

/-- A run of text is taken at once, and does what its characters do. -/
theorem decodeFrames_text {chars : List UInt8} (h : ∀ ch ∈ chars, iscntrl ch = false) (c : Chat) :
    decodeFrames c (chars.map ChatFrame.char) =
      ((c.text chars).1, (c.text chars).2.flatMap ChatOutput.perByte) := by
  induction chars generalizing c with
  | nil =>
    rw [text_nil]
    rfl
  | cons ch chars ih =>
    obtain ⟨-, hnewline, hbackspace⟩ := ne_of_not_iscntrl (h ch mem_cons_self)
    have happly : (ChatFrame.char ch).apply c = c.text [ch] := by
      rw [ChatFrame.apply, if_neg hnewline, if_neg hbackspace, h ch mem_cons_self]
      rfl
    rw [map_cons, decodeFrames, happly, ih fun ch hmem => h ch (mem_cons_of_mem _ hmem)]
    simp only [Chat.text, append_assoc, singleton_append, flatMap_cons,
      flatMap_nil, ChatOutput.perByte, map_cons, append_nil]

/-- A character that is not text, in one round. -/
theorem roundV6_control
    (hq : q.bytes = ch :: r) (hne : ch ≠ 0) (hcntrl : iscntrl ch = true) :
    roundV6 q c = .next ⟨q.popped + 1, r⟩ ((ChatFrame.char ch).apply c).1
      ((ChatFrame.char ch).apply c).2 := by
  have hpop : q.pop 1 = ⟨q.popped + 1, r⟩ := by
    rw [ChatQueue.pop, hq]
    rfl
  rw [roundV6, hq]
  simp only [hne, if_false, characterV6, ChatFrame.apply, hcntrl, if_true, hpop]
  split
  · rfl
  · split <;> rfl

/-- Text, in one round. -/
theorem roundV6_text
    (hq : q.bytes = ch :: r) (htext : iscntrl ch = false) :
    roundV6 q c = .next (q.pop (q.bytes.takeWhile fun ch => !iscntrl ch).length)
      (c.text (q.bytes.takeWhile fun ch => !iscntrl ch)).1
      (c.text (q.bytes.takeWhile fun ch => !iscntrl ch)).2 := by
  obtain ⟨hne, hnewline, hbackspace⟩ := ne_of_not_iscntrl htext
  rw [roundV6, hq]
  simp only [hne, if_false, characterV6, hnewline, hbackspace, htext, Bool.false_eq_true, hq]

/-! ## The loop -/

theorem flatMap_perByte_castVote {c' : Chat} {yes : Bool} {n : ℕ} {outputs : List ChatOutput}
    (h : c.castVote yes n = some (c', outputs)) :
    outputs.flatMap ChatOutput.perByte = outputs := by
  have hfinish : ∀ (c : Chat) vote bPassed,
      (c.finishKickVote vote bPassed).2.flatMap ChatOutput.perByte =
        (c.finishKickVote vote bPassed).2 := by
    intro c vote bPassed
    rw [Chat.finishKickVote]
    split
    · rfl
    · split <;> rfl
  have hite : ∀ {p p' : Prop} [Decidable p] [Decidable p'] {a b d : Chat × List ChatOutput},
      a.2.flatMap ChatOutput.perByte = a.2 → b.2.flatMap ChatOutput.perByte = b.2 →
      d.2.flatMap ChatOutput.perByte = d.2 →
      (if p then a else if p' then b else d).2.flatMap ChatOutput.perByte =
        (if p then a else if p' then b else d).2 := by
    intro p p' _ _ a b d ha hb hd
    split
    · exact ha
    · split
      · exact hb
      · exact hd
  have hevent : ∀ d : Chat, [d.event (if yes then .kickYes else .kickNo)].flatMap
      ChatOutput.perByte = [d.event (if yes then .kickYes else .kickNo)] := by
    intro d
    cases yes <;> rfl
  unfold Chat.castVote at h
  simp only at h
  split at h
  · cases h
  · cases h
    rw [flatMap_append, hevent]
    congr 1
    exact hite (hfinish _ _ _) (hfinish _ _ _) rfl

/-- Commands put out no text. -/
theorem flatMap_perByte_commandEffect (c : Chat) (command : Option ChatCommand)
    (data : List UInt8) : (c.commandEffect command data).2.flatMap ChatOutput.perByte =
      (c.commandEffect command data).2 := by
  have hvote : ∀ yes n, ((c.castVote yes n).getD (c, [])).2.flatMap ChatOutput.perByte =
      ((c.castVote yes n).getD (c, [])).2 := by
    intro yes n
    cases h : c.castVote yes n with
    | none => rfl
    | some d => exact flatMap_perByte_castVote h
  have hpass : ∀ n, ((c.kickPass n).getD (c, [])).2.flatMap ChatOutput.perByte =
      ((c.kickPass n).getD (c, [])).2 := by
    intro n
    rw [Chat.kickPass]
    simp only
    split <;> rfl
  unfold Chat.commandEffect
  split
  all_goals first | rfl | exact hvote _ _ | exact hpass _

theorem flatMap_perByte_apply (c : Chat) (f : ChatFrame) :
    (f.apply c).2.flatMap ChatOutput.perByte = (f.apply c).2 := by
  cases f with
  | command code data => exact flatMap_perByte_commandEffect c _ data
  | char ch =>
    rw [ChatFrame.apply]
    split
    · rfl
    · split
      · rfl
      · split <;> rfl

theorem decodeFrames_singleton (c : Chat) (f : ChatFrame) : decodeFrames c [f] = f.apply c := by
  rw [decodeFrames, decodeFrames, append_nil]

/-- What a round takes are the first frames `gs`. -/
structure RoundTakes (q r : ChatQueue) (c : Chat) (gs : List ChatFrame)
    (outputs : List ChatOutput) : Prop where
  round : roundV6 q c = .next r (decodeFrames c gs).1 outputs
  outputs_eq : outputs.flatMap ChatOutput.perByte = (decodeFrames c gs).2
  popped : r.popped = q.popped + framesSize gs
  frames : chatFraming.frames q.bytes =
    (gs ++ (chatFraming.frames r.bytes).1, (chatFraming.frames r.bytes).2)
  shrinks : r.bytes.length < q.bytes.length

/-- A round with a whole frame. -/
theorem exists_roundTakes {f : ChatFrame} {bytes : List UInt8}
    (hnext : chatFraming.next q.bytes = some (f, bytes)) (hok : f.Ok q.popped c) :
    ∃ r gs outputs, RoundTakes q r c gs outputs := by
  have hframes := Framing.frames_of_some hnext
  have hshrinks := chatFraming.shrinks hnext
  obtain ⟨ch, hne, hq, rfl⟩ | ⟨code, s₀, s₁, s₂, s₃, body, hq, hle, rfl, rfl⟩ :=
    nextFrame_eq_some hnext
  · cases hcntrl : iscntrl ch with
    | true =>
      refine ⟨⟨q.popped + 1, bytes⟩, [.char ch], ((ChatFrame.char ch).apply c).2, ?_, ?_, rfl,
        hframes, hshrinks⟩
      · rw [decodeFrames_singleton]
        exact roundV6_control hq hne hcntrl
      · rw [decodeFrames_singleton]
        exact flatMap_perByte_apply c _
    | false =>
      -- all the text that follows is taken with the first character
      let chars := q.bytes.takeWhile fun ch => !iscntrl ch
      have hchars : ∀ ch ∈ chars, iscntrl ch = false := by
        intro ch hmem
        simpa only [Bool.not_eq_true'] using mem_takeWhile_imp hmem
      have hsplit : q.bytes = chars ++ (q.pop chars.length).bytes := by
        have hdrop : (q.pop chars.length).bytes = q.bytes.dropWhile fun ch => !iscntrl ch := by
          have happend := @takeWhile_append_dropWhile _ (fun ch => !iscntrl ch) q.bytes
          rw [ChatQueue.pop]
          conv_lhs => rw [← happend]
          exact drop_left
        rw [hdrop, takeWhile_append_dropWhile]
      have hpos : 0 < chars.length := by
        change 0 < (q.bytes.takeWhile _).length
        rw [hq, takeWhile_cons_of_pos (by simp only [hcntrl, Bool.not_false])]
        exact Nat.succ_pos _
      refine ⟨q.pop chars.length, chars.map .char, (c.text chars).2, ?_, ?_, ?_, ?_, ?_⟩
      · rw [decodeFrames_text hchars]
        exact roundV6_text hq hcntrl
      · rw [decodeFrames_text hchars]
      · rw [framesSize_text]
        rfl
      · conv_lhs => rw [hsplit]
        exact frames_text hchars _
      · have hlen := congrArg List.length hsplit
        rw [length_append] at hlen
        omega
  · refine ⟨⟨q.popped + (ChatFrame.command code (body.take (valueLE [s₀, s₁, s₂, s₃]))).size,
        body.drop (bodySize code (valueLE [s₀, s₁, s₂, s₃]))⟩,
      [.command code (body.take (valueLE [s₀, s₁, s₂, s₃]))],
      ((ChatFrame.command code (body.take (valueLE [s₀, s₁, s₂, s₃]))).apply c).2, ?_, ?_, ?_,
      hframes, hshrinks⟩
    · rw [decodeFrames_singleton]
      exact roundV6_command hq hle hok
    · rw [decodeFrames_singleton]
      exact flatMap_perByte_apply c _
    · rfl

/-- Nothing is taken off the queue where there is no whole frame. -/
theorem roundV6_of_none (hnone : chatFraming.next q.bytes = none)
    (hheader : HeaderOk q.bytes) : roundV6 q c = .wait q c [] := by
  change nextFrame q.bytes = none at hnone
  rw [roundV6]
  split
  · rfl
  · rename_i chatChar tail hq
    rw [hq] at hnone hheader
    by_cases hzero : chatChar = 0
    · subst hzero
      rw [if_pos rfl]
      split
      · rename_i code s₀ s₁ s₂ s₃ body
        have hlt : ¬ valueLE [s₀, s₁, s₂, s₃] ≤ body.length := fun hle => by
          rw [nextFrame_command hle] at hnone
          cases hnone
        have hn : valueLE [s₀, s₁, s₂, s₃] < 2 ^ 32 - 6 := hheader
        have hlong : (6 + longLE s₀ s₁ s₂ s₃) % 2 ^ 64 = 6 + longLE s₀ s₁ s₂ s₃ := by
          rw [longLE_eq]
          split <;> exact Nat.mod_eq_of_lt (by omega)
        have hge : valueLE [s₀, s₁, s₂, s₃] ≤ longLE s₀ s₁ s₂ s₃ := by
          rw [longLE_eq]
          split <;> omega
        refine if_pos ?_
        rw [hlong, hq]
        simp only [length_cons]
        omega
      · rfl
    · rw [nextFrame_char hzero] at hnone
      cases hnone

/-- **The loop takes all frames.** -/
theorem decodeLoop_eq {fuel : ℕ} {q : ChatQueue} {c : Chat} (hfuel : q.bytes.length < fuel)
    (hok : StreamOk q.popped c q.bytes) :
    ∃ outputs, decodeLoop roundV6 fuel q c = some
        ⟨⟨q.popped + framesSize (chatFraming.frames q.bytes).1, (chatFraming.frames q.bytes).2⟩,
          (decodeFrames c (chatFraming.frames q.bytes).1).1, outputs⟩ ∧
      outputs.flatMap ChatOutput.perByte = (decodeFrames c (chatFraming.frames q.bytes).1).2 := by
  induction fuel generalizing q c with
  | zero => exact absurd hfuel (Nat.not_lt_zero _)
  | succ fuel ih =>
    cases hnext : chatFraming.next q.bytes with
    | none =>
      have hframes := Framing.frames_of_none hnext
      rw [StreamOk, hframes] at hok
      have hloop : decodeLoop roundV6 (fuel + 1) q c = some ⟨q, c, []⟩ := by
        rw [decodeLoop, roundV6_of_none hnext hok.2]
        split <;> rfl
      rw [hloop, hframes]
      exact ⟨[], rfl, rfl⟩
    | some frame =>
      obtain ⟨f, bytes⟩ := frame
      have hfirst : f.Ok q.popped c := by
        rw [StreamOk, Framing.frames_of_some hnext] at hok
        exact hok.1.1
      obtain ⟨r, gs, outputs, hround, houtputs, hpopped, hframes, hshrinks⟩ :=
        exists_roundTakes hnext hfirst
      have hrest : StreamOk r.popped (decodeFrames c gs).1 r.bytes := by
        rw [StreamOk, hframes, framesOk_append] at hok
        rw [hpopped]
        exact ⟨hok.1.2, hok.2⟩
      obtain ⟨outputs', hloop, houtputs'⟩ := ih (by omega) hrest
      have hne : q.bytes ≠ [] := fun hnil => by
        rw [hnil] at hshrinks
        exact Nat.not_lt_zero _ hshrinks
      refine ⟨outputs ++ outputs', ?_, ?_⟩
      · rw [decodeLoop, if_neg hne, hround]
        simp only [hloop, Option.map_some]
        rw [hframes, hpopped, decodeFrames_append, framesSize_append, Nat.add_assoc]
      · rw [hframes, decodeFrames_append, flatMap_append, houtputs, houtputs']

/-! ## All receives -/

/-- The header at the beginning of a stream that the code gets right. -/
theorem StreamOk.headerOk {q : List UInt8} (h : StreamOk pos c q) : HeaderOk q := by
  cases hnext : chatFraming.next q with
  | none =>
    rw [StreamOk, Framing.frames_of_none hnext] at h
    exact h.2
  | some frame =>
    obtain ⟨f, r⟩ := frame
    rw [StreamOk, Framing.frames_of_some hnext] at h
    have hok : f.Ok pos c := h.1.1
    obtain ⟨ch, hne, rfl, -⟩ | ⟨code, s₀, s₁, s₂, s₃, body, rfl, hle, rfl, -⟩ :=
      nextFrame_eq_some hnext
    · rw [HeaderOk]
      · trivial
      · intro code s₀ s₁ s₂ s₃ body hzero
        exact absurd (List.cons.inj hzero).1 hne
    · have hn := bodySize_lt hok.1
      rw [length_take, Nat.min_eq_left hle] at hn
      change valueLE [s₀, s₁, s₂, s₃] < 2 ^ 32 - 6
      omega

theorem HeaderOk.of_append {q : List UInt8} (h : HeaderOk (q ++ x)) : HeaderOk q := by
  unfold HeaderOk
  split
  · exact h
  · trivial

/-- A stream that the code gets right arrives in two parts that it gets right. -/
theorem StreamOk.append {q : List UInt8} (h : StreamOk pos c (q ++ x)) :
    StreamOk pos c q ∧ StreamOk (pos + framesSize (chatFraming.frames q).1)
      (decodeFrames c (chatFraming.frames q).1).1 ((chatFraming.frames q).2 ++ x) := by
  rw [StreamOk, Framing.frames_append, framesOk_append] at h
  obtain ⟨⟨hq, hx⟩, hheader⟩ := h
  have hrest : StreamOk (pos + framesSize (chatFraming.frames q).1)
      (decodeFrames c (chatFraming.frames q).1).1 ((chatFraming.frames q).2 ++ x) := ⟨hx, hheader⟩
  exact ⟨⟨hq, hrest.headerOk.of_append⟩, hrest⟩

/-- One receive after the other, from a queue in which there is no whole frame. -/
theorem receiveAllV6_eq (chunks : List (List UInt8)) {q : ChatQueue} {c : Chat}
    (hq : chatFraming.next q.bytes = none) (hok : StreamOk q.popped c (q.bytes ++ chunks.flatten)) :
    ∃ outputs, receiveAllV6 chunks q c = some
        ⟨⟨q.popped + framesSize (chatFraming.frames (q.bytes ++ chunks.flatten)).1,
            (chatFraming.frames (q.bytes ++ chunks.flatten)).2⟩,
          (decodeFrames c (chatFraming.frames (q.bytes ++ chunks.flatten)).1).1, outputs⟩ ∧
      outputs.flatMap ChatOutput.perByte =
        (decodeFrames c (chatFraming.frames (q.bytes ++ chunks.flatten)).1).2 := by
  induction chunks generalizing q c with
  | nil =>
    rw [flatten_nil, append_nil, Framing.frames_of_none hq]
    exact ⟨[], rfl, rfl⟩
  | cons chunk chunks ih =>
    rw [flatten_cons, ← append_assoc] at hok ⊢
    obtain ⟨hfirst, hrest⟩ := hok.append
    obtain ⟨outputs, hloop, houtputs⟩ :=
      @decodeLoop_eq ((q.push chunk).bytes.length + 1) (q.push chunk) c (Nat.lt_succ_self _) hfirst
    obtain ⟨outputs', hreceive, houtputs'⟩ :=
      @ih ⟨q.popped + framesSize (chatFraming.frames (q.bytes ++ chunk)).1,
        (chatFraming.frames (q.bytes ++ chunk)).2⟩ _ (Framing.next_frames _) hrest
    rw [Framing.frames_append (q.bytes ++ chunk), decodeFrames_append, framesSize_append]
    refine ⟨outputs ++ outputs', ?_, ?_⟩
    · rw [receiveAllV6, processRawV6, hloop]
      simp only [ChatQueue.push] at hreceive ⊢
      rw [hreceive, Option.map_some, Nat.add_assoc]
    · rw [flatMap_append, houtputs, houtputs']
      rfl

/-- The chat of the user `1` with the user `2`; no vote is asked for. -/
def quietChat : Chat where
  myUserId := .owner icqPpid ['1']
  u := ⟨.user (.owner icqPpid ['1']) ['2'], 0, (0, 0, 0), (0, 0, 0), [], 0, 0, 0, 0, false, false,
    []⟩
  chatUsers := [.user (.owner icqPpid ['1']) ['2']]
  voteInfo := []

end Licq
