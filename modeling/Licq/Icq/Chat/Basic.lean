import Licq.Wire.Words
import Licq.Text.Decimal
import Licq.ContactList.UserId

/-!
# Icq/Chat/Basic — the state of a chat

What the chat manager of `chat.cpp` keeps of a peer, of the votes about kicking somebody out of the
chat and of the users in it, and what the decoding of a peer's data puts out: events for the plugin
and commands for the other users.  Text is kept as it is sent, before it is converted for the
plugin.

The bytes that a peer has sent wait in a `std::deque`.  It keeps them in blocks, which matters
where the code takes a string out of it by the address of its first byte (`ChatQueue.string`).
-/

open Text Wire

namespace Licq

open List

/-! ## Commands -/

/-- The commands and events of a chat. -/
inductive ChatCommand
  | colorFg | colorBg | kick | focusIn | focusOut | kickYes | kickNo | beep | backspace | kickPass
  | disconnection | disconnectionKicked | newline | kickYou | kickFail | fontFamily | fontFace
  | fontSize | sleepOff | sleepOn | laugh | character
  deriving DecidableEq, Repr

namespace ChatCommand

def code : ChatCommand → UInt8
  | colorFg => 0x00
  | colorBg => 0x01
  | kick => 0x02
  | focusIn => 0x03
  | focusOut => 0x04
  | kickYes => 0x05
  | kickNo => 0x06
  | beep => 0x07
  | backspace => 0x08
  | kickPass => 0x09
  | disconnection => 0x0B
  | disconnectionKicked => 0x0C
  | newline => 0x0D
  | kickYou => 0x0E
  | kickFail => 0x0F
  | fontFamily => 0x10
  | fontFace => 0x11
  | fontSize => 0x12
  | sleepOff => 0x16
  | sleepOn => 0x17
  | laugh => 0x1A
  | character => 0x7E

/-- The commands that have a code of their own on the wire. -/
def all : List ChatCommand :=
  [colorFg, colorBg, kick, focusIn, focusOut, kickYes, kickNo, beep, backspace, kickPass,
    disconnection, disconnectionKicked, newline, kickYou, kickFail, fontFamily, fontFace, fontSize,
    sleepOff, sleepOn, laugh]

/-- The command of a code. -/
def ofCode (c : UInt8) : Option ChatCommand := all.find? fun cmd => cmd.code == c

/-- What a code stands for. -/
theorem code_of_ofCode {c : UInt8} {cmd : ChatCommand} (h : ofCode c = some cmd) :
    cmd.code = c ∧ cmd ≠ character := by
  refine ⟨by simpa using find?_some h, ?_⟩
  rintro rfl
  exact absurd (mem_of_find?_eq_some h) (by decide)

theorem ofCode_code {cmd : ChatCommand} (h : cmd ≠ character) : ofCode cmd.code = some cmd := by
  cases cmd with
  | character => exact absurd rfl h
  | _ => rfl

end ChatCommand

/-- `iscntrl` for an `unsigned char`. -/
def iscntrl (c : UInt8) : Bool := c < 32 || c == 127

/-! ## State -/

/-- What is known of a peer. -/
structure ChatUser where
  userId : UserId
  nToKick : ℕ
  colorFore : UInt8 × UInt8 × UInt8
  colorBack : UInt8 × UInt8 × UInt8
  fontFamily : List UInt8
  fontEncoding : UInt8
  fontStyle : UInt8
  /-- an `unsigned short` -/
  fontSize : ℕ
  fontFace : ℕ
  focus : Bool
  sleep : Bool
  linebuf : List UInt8
  deriving DecidableEq

/-- `SVoteInfo`; the three numbers are `unsigned short`. -/
structure VoteInfo where
  nUin : ℕ
  nNumUsers : ℕ
  nYes : ℕ
  nNo : ℕ
  deriving DecidableEq

/-- The chat, while the data of the peer `u` is decoded. -/
structure Chat where
  myUserId : UserId
  u : ChatUser
  chatUsers : List UserId
  voteInfo : List VoteInfo
  deriving DecidableEq

/-- What decoding puts out. -/
inductive ChatOutput
  /-- `PushChatEvent` -/
  | event (command : ChatCommand) (client : UserId) (data : List UInt8)
  /-- `SendBuffer` to one user, or to all but this one. -/
  | send (command : ChatCommand) (body : List UInt8) (id : UserId) (bNotIter : Bool)
  deriving DecidableEq

/-- An event of the peer without data. -/
def Chat.event (c : Chat) (command : ChatCommand) : ChatOutput := .event command c.u.userId []

/-! ## The queue -/

/-- The deque of received bytes; how many have been taken out of it says where it stands. -/
structure ChatQueue where
  popped : ℕ
  bytes : List UInt8
  deriving DecidableEq

namespace ChatQueue

/-- The size of a block of a deque of bytes. -/
def blockSize : ℕ := 512

def push (q : ChatQueue) (data : List UInt8) : ChatQueue := ⟨q.popped, q.bytes ++ data⟩

def pop (q : ChatQueue) (n : ℕ) : ChatQueue := ⟨q.popped + n, q.bytes.drop n⟩

/-- The string of `n` bytes from the address of byte `i` on; none where it leaves the queue or the
block. -/
def string (q : ChatQueue) (i n : ℕ) : Option (List UInt8) :=
  if i + n ≤ q.bytes.length ∧ (q.popped + i) % blockSize + n ≤ blockSize then
    some ((q.bytes.drop i).take n)
  else none

end ChatQueue

/-- Four bytes as an `int` that is assigned to an `unsigned long`. -/
def longLE (b₀ b₁ b₂ b₃ : UInt8) : ℕ := (signExtend (wordOf b₃ b₂ b₁ b₀)).toNat

theorem longLE_eq (b₀ b₁ b₂ b₃ : UInt8) : longLE b₀ b₁ b₂ b₃ =
    if valueLE [b₀, b₁, b₂, b₃] < 2 ^ 31 then valueLE [b₀, b₁, b₂, b₃]
    else valueLE [b₀, b₁, b₂, b₃] + (2 ^ 64 - 2 ^ 32) := by
  rw [longLE, toNat_signExtend, toNat_wordOf_eq_valueLE]

/-! ## Kicking users -/

/-- The id of a user of the chat, from a `char[16]` with its number. -/
def Chat.userIdOf (c : Chat) (nUin : ℕ) : UserId := .user c.myUserId ((decimal nUin).take 15)

/-- `CloseClient`. -/
def Chat.closeClient (c : Chat) (userId : UserId) : Chat × List ChatOutput :=
  ({ c with chatUsers := c.chatUsers.erase userId }, [.event .disconnection userId []])

/-- `FinishKickVote` for a vote that has been taken off the list. -/
def Chat.finishKickVote (c : Chat) (vote : VoteInfo) (bPassed : Bool) : Chat × List ChatOutput :=
  let userId := c.userIdOf vote.nUin
  if userId ∉ c.chatUsers then (c, [])
  else
    let buf := bytesLE 4 vote.nUin ++ [UInt8.ofNat vote.nYes, UInt8.ofNat vote.nNo]
    if bPassed then
      let closed := c.closeClient userId
      (closed.1, .send .kickPass buf userId true :: .send .kickYou buf userId false :: closed.2)
    else (c, [.send .kickFail buf userId true])

/-- The branches for `CHAT_KICKxYES` and `CHAT_KICKxNO`: a vote is counted, and the last one ends
the voting; none where there is no voting about the user. -/
def Chat.castVote (c : Chat) (yes : Bool) (nUin : ℕ) : Option (Chat × List ChatOutput) :=
  let before := c.voteInfo.takeWhile (·.nUin != nUin)
  match c.voteInfo.dropWhile (·.nUin != nUin) with
  | [] => none
  | vote :: after =>
    let vote :=
      if yes then { vote with nYes := (vote.nYes + 1) % 2 ^ 16 }
      else { vote with nNo := (vote.nNo + 1) % 2 ^ 16 }
    let nMajority := (vote.nNumUsers / 2 + 1) % 2 ^ 16
    let finished := { c with voteInfo := before ++ after }
    let (c, outputs) :=
      if (if yes then vote.nYes else vote.nNo) = nMajority then finished.finishKickVote vote yes
      else if vote.nYes + vote.nNo = vote.nNumUsers then finished.finishKickVote vote false
      else ({ c with voteInfo := before ++ vote :: after }, [])
    some (c, outputs ++ [c.event (if yes then .kickYes else .kickNo)])

/-- The branch for `CHAT_KICKxPASS`: the connection to the user that was kicked is closed; none
where it is not in the chat. -/
def Chat.kickPass (c : Chat) (nUin : ℕ) : Option (Chat × List ChatOutput) :=
  let userId := c.userIdOf nUin
  if userId ∉ c.chatUsers then none
  else
    let closed := c.closeClient userId
    some (closed.1, .send .disconnectionKicked [] userId true :: closed.2)

/-! ## Characters -/

/-- The branch for `CHAT_NEWLINE`. -/
def Chat.newline (c : Chat) : Chat × List ChatOutput :=
  ({ c with u := { c.u with linebuf := [] } }, [.event .newline c.u.userId c.u.linebuf])

/-- The branch for `CHAT_BACKSPACE`. -/
def Chat.backspace (c : Chat) : Chat × List ChatOutput :=
  ({ c with u := { c.u with linebuf := c.u.linebuf.dropLast } }, [c.event .backspace])

/-- Text that has been received. -/
def Chat.text (c : Chat) (chars : List UInt8) : Chat × List ChatOutput :=
  ({ c with u := { c.u with linebuf := c.u.linebuf ++ chars } },
    [.event .character c.u.userId chars])

/-! ## Decoding -/

/-- What one round of the decoding loop does. -/
inductive ChatRound
  /-- `return true` -/
  | wait (q : ChatQueue) (c : Chat) (outputs : List ChatOutput)
  /-- The loop goes on. -/
  | next (q : ChatQueue) (c : Chat) (outputs : List ChatOutput)
  /-- The queue is read or emptied past its end. -/
  | undefined
  deriving DecidableEq

/-- What decoding ends with. -/
structure Decoded where
  queue : ChatQueue
  chat : Chat
  outputs : List ChatOutput
  deriving DecidableEq

/-- The decoding loop; none where it does something undefined.  Every round but the last takes a
byte out of the queue, so that a fuel of one round more than bytes is not used up. -/
def decodeLoop (round : ChatQueue → Chat → ChatRound) : ℕ → ChatQueue → Chat → Option Decoded
  | 0, _, _ => none
  | fuel + 1, q, c =>
    if q.bytes = [] then some ⟨q, c, []⟩
    else match round q c with
      | .wait q c outputs => some ⟨q, c, outputs⟩
      | .next q c outputs => (decodeLoop round fuel q c).map fun d =>
          ⟨d.queue, d.chat, outputs ++ d.outputs⟩
      | .undefined => none

/-- **The fuel does not matter**, as long as there is more of it than bytes and every round takes a
byte. -/
theorem decodeLoop_fuel {round : ChatQueue → Chat → ChatRound}
    (hshrinks : ∀ {q r c c' outputs}, round q c = .next r c' outputs →
      r.bytes.length < q.bytes.length) {fuel fuel' : ℕ} {q : ChatQueue} {c : Chat}
    (h : q.bytes.length < fuel) (h' : q.bytes.length < fuel') :
    decodeLoop round fuel q c = decodeLoop round fuel' q c := by
  induction fuel generalizing fuel' q c with
  | zero => exact absurd h (Nat.not_lt_zero _)
  | succ fuel ih =>
    obtain ⟨fuel', rfl⟩ := Nat.exists_eq_succ_of_ne_zero (Nat.ne_of_gt (Nat.zero_lt_of_lt h'))
    rw [decodeLoop, decodeLoop]
    split
    · rfl
    · cases hround : round q c with
      | wait r c' outputs => rfl
      | undefined => rfl
      | next r c' outputs =>
        have hless := hshrinks hround
        simp only
        rw [@ih fuel' r c' (by omega) (by omega)]

section Decode

variable {round : ChatQueue → Chat → ChatRound} {q r : ChatQueue} {c c' : Chat}
  {outputs : List ChatOutput}

theorem decodeLoop_nil (h : q.bytes = []) (fuel : ℕ) :
    decodeLoop round (fuel + 1) q c = some ⟨q, c, []⟩ := if_pos h

theorem decodeLoop_wait (hne : q.bytes ≠ []) (h : round q c = .wait r c' outputs) (fuel : ℕ) :
    decodeLoop round (fuel + 1) q c = some ⟨r, c', outputs⟩ := by
  rw [decodeLoop, if_neg hne, h]

theorem decodeLoop_undefined (hne : q.bytes ≠ []) (h : round q c = .undefined) (fuel : ℕ) :
    decodeLoop round (fuel + 1) q c = none := by
  rw [decodeLoop, if_neg hne, h]

/-- **A round, and the loop from where it leaves the queue.** -/
theorem decodeLoop_next (hne : q.bytes ≠ []) (h : round q c = .next r c' outputs)
    (hshrinks : ∀ {q r c c' outputs}, round q c = .next r c' outputs →
      r.bytes.length < q.bytes.length) :
    decodeLoop round (q.bytes.length + 1) q c
      = (decodeLoop round (r.bytes.length + 1) r c').map fun d =>
        ⟨d.queue, d.chat, outputs ++ d.outputs⟩ := by
  rw [decodeLoop, if_neg hne, h]
  exact congrArg (Option.map _)
    (decodeLoop_fuel hshrinks (hshrinks h) (Nat.lt_succ_self _))

end Decode

/-! ## What the votes do -/

theorem castVote_of_known {c : Chat} {n : ℕ} (yes : Bool) (h : n ∈ c.voteInfo.map VoteInfo.nUin) :
    ∃ d, c.castVote yes n = some d := by
  rw [Chat.castVote]
  cases hdrop : c.voteInfo.dropWhile (·.nUin != n) with
  | cons vote after => exact ⟨_, rfl⟩
  | nil =>
    obtain ⟨vote, hvote, rfl⟩ := mem_map.mp h
    have hne := dropWhile_eq_nil_iff.mp hdrop vote hvote
    simp at hne

theorem kickPass_of_known {c : Chat} {n : ℕ} (h : c.userIdOf n ∈ c.chatUsers) :
    ∃ d, c.kickPass n = some d :=
  ⟨_, if_neg (not_not_intro h)⟩

/-- Text that is put out has no control characters. -/
def ChatOutput.TextOk (o : ChatOutput) : Prop :=
  ∀ id data, o = .event .character id data → ∀ ch ∈ data, iscntrl ch = false

theorem textOk_event {command : ChatCommand} (h : command ≠ .character) (id : UserId)
    (data : List UInt8) : (ChatOutput.event command id data).TextOk := by
  intro id' data' heq
  exact absurd (ChatOutput.event.inj heq).1 h

theorem textOk_send (command : ChatCommand) (body : List UInt8) (id : UserId) (bNotIter : Bool) :
    (ChatOutput.send command body id bNotIter).TextOk := by
  intro id' data' heq
  cases heq

theorem finishKickVote_spec (c : Chat) (vote : VoteInfo) (bPassed : Bool) :
    (c.finishKickVote vote bPassed).1.voteInfo = c.voteInfo ∧
      (c.finishKickVote vote bPassed).1.u = c.u ∧
      ∀ o ∈ (c.finishKickVote vote bPassed).2, o.TextOk := by
  rw [Chat.finishKickVote]
  by_cases hgone : c.userIdOf vote.nUin ∉ c.chatUsers
  · simp only [if_pos hgone]
    exact ⟨trivial, trivial, nofun⟩
  · simp only [if_neg hgone]
    cases bPassed with
    | true =>
      refine ⟨rfl, rfl, fun o ho => ?_⟩
      simp only [if_true, Chat.closeClient, mem_cons, not_mem_nil, or_false] at ho
      rcases ho with rfl | rfl | rfl
      · exact textOk_send _ _ _ _
      · exact textOk_send _ _ _ _
      · exact textOk_event (by decide) _ _
    | false =>
      refine ⟨rfl, rfl, fun o ho => ?_⟩
      obtain rfl := mem_singleton.mp ho
      exact textOk_send _ _ _ _

/-- **What a vote does**: the first voting about the user is counted on or ended. -/
structure VoteCast (c : Chat) (n : ℕ) (c' : Chat) (outputs : List ChatOutput) : Prop where
  voting : ∃ before vote after, c.voteInfo = before ++ vote :: after ∧ vote.nUin = n ∧
    (∀ v ∈ before, v.nUin ≠ n) ∧
    (c'.voteInfo = before ++ after ∨
      ∃ vote', vote' ≠ vote ∧ vote'.nUin = n ∧ c'.voteInfo = before ++ vote' :: after)
  peer : c'.u = c.u
  texts : ∀ o ∈ outputs, o.TextOk
  event : outputs ≠ []

theorem voteCast_of_castVote {c c' : Chat} {yes : Bool} {n : ℕ} {outputs : List ChatOutput}
    (h : c.castVote yes n = some (c', outputs)) : VoteCast c n c' outputs := by
  have hsplit := takeWhile_append_dropWhile (p := (·.nUin != n)) (l := c.voteInfo)
  have hbefore : ∀ v ∈ c.voteInfo.takeWhile (·.nUin != n), v.nUin ≠ n := fun v hv => by
    simpa using mem_takeWhile_imp hv
  unfold Chat.castVote at h
  dsimp only at h
  cases hdrop : c.voteInfo.dropWhile (·.nUin != n) with
  | nil =>
    rw [hdrop] at h
    cases h
  | cons vote after =>
    rw [hdrop] at h hsplit
    have hvote : vote.nUin = n := by
      have := head?_dropWhile_not (·.nUin != n) c.voteInfo
      rw [hdrop] at this
      simpa using this
    simp only [Option.some.injEq] at h
    -- Whatever becomes of the voting, it is the one about the user.
    let Good (vote' : VoteInfo) (r : Chat × List ChatOutput) : Prop :=
      (r.1.voteInfo = c.voteInfo.takeWhile (·.nUin != n) ++ after ∨
        r.1.voteInfo = c.voteInfo.takeWhile (·.nUin != n) ++ vote' :: after) ∧
      r.1.u = c.u ∧ ∀ o ∈ r.2, o.TextOk
    have hcast : ∀ (vote' : VoteInfo) (r : Chat × List ChatOutput) (command : ChatCommand),
        vote' ≠ vote → vote'.nUin = n → command ≠ .character → Good vote' r →
        (r.1, r.2 ++ [r.1.event command]) = (c', outputs) → VoteCast c n c' outputs := by
      rintro vote' r command hne huin hcommand ⟨hvotes, hu, htexts⟩ heq
      obtain ⟨rfl, rfl⟩ := Prod.mk.inj heq
      refine ⟨⟨_, vote, after, hsplit.symm, hvote, hbefore, ?_⟩, hu, fun o ho => ?_, by simp⟩
      · exact hvotes.imp_right fun h => ⟨vote', hne, huin, h⟩
      · rcases mem_append.mp ho with ho | ho
        · exact htexts o ho
        · obtain rfl := mem_singleton.mp ho
          exact textOk_event hcommand _ _
    have hite : ∀ (vote' : VoteInfo) {p p' : Prop} [Decidable p] [Decidable p']
        {r₁ r₂ r₃ : Chat × List ChatOutput}, Good vote' r₁ → Good vote' r₂ → Good vote' r₃ →
        Good vote' (if p then r₁ else if p' then r₂ else r₃) := by
      intro vote' p p' _ _ r₁ r₂ r₃ h₁ h₂ h₃
      split
      · exact h₁
      · split
        · exact h₂
        · exact h₃
    have hfinish : ∀ vote' v b, Good vote' (({ c with
        voteInfo := c.voteInfo.takeWhile (·.nUin != n) ++ after } : Chat).finishKickVote v b) := by
      intro vote' v b
      obtain ⟨hvotes, hu, htexts⟩ := finishKickVote_spec ({ c with
        voteInfo := c.voteInfo.takeWhile (·.nUin != n) ++ after } : Chat) v b
      exact ⟨.inl hvotes, hu, htexts⟩
    have hne : (if yes then { vote with nYes := (vote.nYes + 1) % 2 ^ 16 }
        else { vote with nNo := (vote.nNo + 1) % 2 ^ 16 }) ≠ vote := by
      cases yes with
      | true =>
        intro heq
        have := congrArg VoteInfo.nYes heq
        simp only [if_true] at this
        omega
      | false =>
        intro heq
        have := congrArg VoteInfo.nNo heq
        simp only [Bool.false_eq_true, if_false] at this
        omega
    have huin : (if yes then { vote with nYes := (vote.nYes + 1) % 2 ^ 16 }
        else { vote with nNo := (vote.nNo + 1) % 2 ^ 16 }).nUin = n := by
      cases yes <;> exact hvote
    refine hcast _ _ _ hne huin (by cases yes <;> decide) ?_ h
    exact hite _ (hfinish _ _ _) (hfinish _ _ _)
      ⟨.inr rfl, rfl, nofun⟩

/-- The voting about the user is not what it was… -/
theorem VoteCast.filter_ne {c c' : Chat} {n : ℕ} {outputs : List ChatOutput}
    (h : VoteCast c n c' outputs) :
    c'.voteInfo.filter (·.nUin == n) ≠ c.voteInfo.filter (·.nUin == n) := by
  obtain ⟨before, vote, after, hc, hvote, hbefore, hafter⟩ := h.voting
  have hnone : before.filter (·.nUin == n) = [] :=
    filter_eq_nil_iff.mpr fun v hv => by simpa using hbefore v hv
  rw [hc, filter_append, hnone, filter_cons_of_pos (by simpa using hvote)]
  rcases hafter with hc' | ⟨vote', hne, hvote', hc'⟩
  · rw [hc', filter_append, hnone]
    intro heq
    have := congrArg List.length heq
    simp at this
  · rw [hc', filter_append, hnone, filter_cons_of_pos (by simpa using hvote')]
    exact fun heq => hne (List.cons.inj heq).1

/-- …and those about other users are. -/
theorem VoteCast.filter_eq {c c' : Chat} {n m : ℕ} {outputs : List ChatOutput}
    (h : VoteCast c n c' outputs) (hne : n ≠ m) :
    c'.voteInfo.filter (·.nUin == m) = c.voteInfo.filter (·.nUin == m) := by
  obtain ⟨before, vote, after, hc, hvote, -, hafter⟩ := h.voting
  rw [hc, filter_append, filter_cons_of_neg (by simpa [hvote] using hne)]
  rcases hafter with hc' | ⟨vote', -, hvote', hc'⟩
  · rw [hc', filter_append]
  · rw [hc', filter_append, filter_cons_of_neg (by simpa [hvote'] using hne)]

/-- **The votings that are left tell who the vote was about.** -/
theorem VoteCast.unique {c c₁ c₂ : Chat} {n m : ℕ} {outputs₁ outputs₂ : List ChatOutput}
    (h₁ : VoteCast c n c₁ outputs₁) (h₂ : VoteCast c m c₂ outputs₂)
    (heq : c₁.voteInfo = c₂.voteInfo) : n = m := by
  by_contra hne
  exact h₁.filter_ne (by rw [heq, h₂.filter_eq (Ne.symm hne)])

/-- What is put out when a user is kicked. -/
theorem kickPass_spec {c c' : Chat} {n : ℕ} {outputs : List ChatOutput}
    (h : c.kickPass n = some (c', outputs)) : c.userIdOf n ∈ c.chatUsers ∧
      c' = { c with chatUsers := c.chatUsers.erase (c.userIdOf n) } ∧
      outputs = [.send .disconnectionKicked [] (c.userIdOf n) true,
        .event .disconnection (c.userIdOf n) []] := by
  rw [Chat.kickPass] at h
  by_cases hgone : c.userIdOf n ∉ c.chatUsers
  · simp only [if_pos hgone] at h
    cases h
  · simp only [if_neg hgone, Option.some.injEq, Prod.mk.injEq] at h
    exact ⟨not_not.mp hgone, h.1.symm, h.2.symm⟩

theorem castVote_eq_none_iff {c : Chat} {yes : Bool} {n : ℕ} :
    c.castVote yes n = none ↔ n ∉ c.voteInfo.map VoteInfo.nUin := by
  constructor
  · intro hnone hmem
    obtain ⟨d, hd⟩ := castVote_of_known yes hmem
    rw [hnone] at hd
    cases hd
  · intro hmem
    cases hcast : c.castVote yes n with
    | none => rfl
    | some d =>
      obtain ⟨before, vote, after, hvotes, hvote, -⟩ := (voteCast_of_castVote hcast).voting
      refine absurd (mem_map.mpr ⟨vote, ?_, hvote⟩) hmem
      rw [hvotes]
      exact mem_append_right _ mem_cons_self

theorem kickPass_eq_none_iff {c : Chat} {n : ℕ} :
    c.kickPass n = none ↔ c.userIdOf n ∉ c.chatUsers := by
  constructor
  · intro hnone hmem
    obtain ⟨d, hd⟩ := kickPass_of_known hmem
    rw [hnone] at hd
    cases hd
  · exact fun h => if_pos h

/-- **All that a loop puts out has a property that what its rounds put out has.** -/
theorem decodeLoop_outputs {round : ChatQueue → Chat → ChatRound} {P : ChatOutput → Prop}
    (hnext : ∀ {q c r c' outputs}, round q c = .next r c' outputs → ∀ o ∈ outputs, P o)
    (hwait : ∀ {q c r c' outputs}, round q c = .wait r c' outputs → ∀ o ∈ outputs, P o)
    {fuel : ℕ} {q : ChatQueue} {c : Chat} {d : Decoded}
    (h : decodeLoop round fuel q c = some d) : ∀ o ∈ d.outputs, P o := by
  induction fuel generalizing q c d with
  | zero => cases h
  | succ fuel ih =>
    rw [decodeLoop] at h
    split at h
    · cases h
      exact nofun
    · split at h
      · rename_i hround
        cases h
        exact hwait hround
      · rename_i hround
        obtain ⟨d', hd', rfl⟩ := Option.map_eq_some_iff.mp h
        intro o ho
        exact (mem_append.mp ho).elim (hnext hround o) (ih hd' o)
      · cases h

end Licq
