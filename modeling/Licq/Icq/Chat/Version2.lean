import Licq.Icq.Chat.Version6

/-!
# Icq/Chat/Version2 — the data of peers below version 6

`ProcessRaw_v2` takes commands and text off the queue.  A command is one byte and what belongs to
it, with no size in between.  Most branches count the byte of the command to what they read; those
about kicking somebody do not, and leave a byte or more in the queue for the next round.

The **main result** `silent_iff_dropped` says which data is taken off the queue without any effect.
-/

open Text Wire

namespace Licq

open ChatCommand

/-! ## Decoding -/

/-- The font behind the byte of the command; none where the name crosses a block of the queue. -/
def fontOfV2 (q : ChatQueue) (sizeFontName : ℕ) : Option (List UInt8 × UInt8 × UInt8) := do
  let name ← q.string 3 sizeFontName
  let encoding ← q.bytes[sizeFontName + 3]?
  let style ← q.bytes[sizeFontName + 4]?
  some (name, encoding, style)

/-- The branch for `CHAT_FONTxFAMILY`; the counter of the loop that dequeues is an
`unsigned short`. -/
def fontFamilyV2 (q : ChatQueue) (c : Chat) : ChatRound :=
  match q.bytes with
  | _ :: s₀ :: s₁ :: _ =>
    let sizeFontName := valueLE [s₀, s₁]
    if q.bytes.length < sizeFontName + 2 + 3 then .wait q c []
    else match fontOfV2 q sizeFontName with
      | some (name, encoding, style) =>
        if 3 + sizeFontName + 2 < 2 ^ 16 then
          .next (q.pop (3 + sizeFontName + 2))
            { c with u :=
              { c.u with fontFamily := name, fontEncoding := encoding, fontStyle := style } }
            [c.event .fontFamily]
        else .undefined
      | none => .undefined
  | _ => .wait q c []

/-- The branches for `CHAT_KICKxYES` and `CHAT_KICKxNO`. -/
def voteV2 (yes : Bool) (q : ChatQueue) (c : Chat) : ChatRound :=
  match q.bytes with
  | b₀ :: b₁ :: b₂ :: b₃ :: _ =>
    match c.castVote yes (longLE b₀ b₁ b₂ b₃) with
    | some (c, outputs) => .next (q.pop 4) c outputs
    | none => .wait (q.pop 4) c []
  | _ => .wait q c []

/-- The branch for `CHAT_KICKxPASS`. -/
def kickPassV2 (q : ChatQueue) (c : Chat) : ChatRound :=
  match q.bytes with
  | b₀ :: b₁ :: b₂ :: b₃ :: _ :: _ :: _ =>
    match c.kickPass (longLE b₀ b₁ b₂ b₃) with
    | some (c, outputs) => .next (q.pop 6) c outputs
    | none => .wait (q.pop 6) c []
  | _ => .wait q c []

/-- The default branch. -/
def characterV2 (chatChar : UInt8) (q : ChatQueue) (c : Chat) : ChatRound :=
  if !iscntrl chatChar then
    let chars := q.bytes.takeWhile fun ch => !iscntrl ch
    .next (q.pop chars.length) (c.text chars).1 (c.text chars).2
  else .next (q.pop 1) c []

/-- One round of the loop of `ProcessRaw_v2`. -/
def roundV2 (q : ChatQueue) (c : Chat) : ChatRound :=
  match q.bytes with
  | [] => .wait q c []
  | chatChar :: tail =>
    match ChatCommand.ofCode chatChar with
    | some .newline => .next (q.pop 1) c.newline.1 c.newline.2
    | some .beep => .next (q.pop 1) c [c.event .beep]
    | some .laugh => .next (q.pop 1) c [c.event .laugh]
    | some .backspace => .next (q.pop 1) c.backspace.1 c.backspace.2
    | some .colorFg =>
      match tail with
      | r :: g :: b :: _ :: _ =>
        .next (q.pop 5) { c with u := { c.u with colorFore := (r, g, b) } } [c.event .colorFg]
      | _ => .wait q c []
    | some .colorBg =>
      match tail with
      | r :: g :: b :: _ :: _ =>
        .next (q.pop 5) { c with u := { c.u with colorBack := (r, g, b) } } [c.event .colorBg]
      | _ => .wait q c []
    | some .fontFamily => fontFamilyV2 q c
    | some .fontFace =>
      match tail with
      | b₀ :: b₁ :: b₂ :: b₃ :: _ =>
        .next (q.pop 5) { c with u := { c.u with fontFace := longLE b₀ b₁ b₂ b₃ } }
          [c.event .fontFace]
      | _ => .wait q c []
    | some .fontSize =>
      match tail with
      | b₀ :: b₁ :: b₂ :: b₃ :: _ =>
        .next (q.pop 5) { c with u := { c.u with fontSize := longLE b₀ b₁ b₂ b₃ % 2 ^ 16 } }
          [c.event .fontSize]
      | _ => .wait q c []
    | some .focusIn =>
      .next (q.pop 1) { c with u := { c.u with focus := true } } [c.event .focusIn]
    | some .focusOut =>
      .next (q.pop 1) { c with u := { c.u with focus := false } } [c.event .focusOut]
    | some .sleepOff =>
      .next (q.pop 1) { c with u := { c.u with sleep := false } } [c.event .sleepOff]
    | some .sleepOn =>
      .next (q.pop 1) { c with u := { c.u with sleep := true } } [c.event .sleepOn]
    | some .kick =>
      -- the byte of the command is the first of the number
      match tail with
      | b₁ :: b₂ :: b₃ :: _ =>
        .next (q.pop 4) { c with u := { c.u with nToKick := longLE chatChar b₁ b₂ b₃ } }
          [c.event .kick]
      | _ => .wait q c []
    | some .kickYes => voteV2 true q c
    | some .kickNo => voteV2 false q c
    | some .kickPass => kickPassV2 q c
    | some .kickFail =>
      if q.bytes.length < 6 then .wait q c [] else .next (q.pop 6) c [c.event .kickFail]
    | some .kickYou =>
      if q.bytes.length < 2 then .wait q c [] else .next (q.pop 2) c [c.event .kickYou]
    | some .disconnectionKicked => .next (q.pop 1) c [c.event .disconnectionKicked]
    | some .disconnection => .next (q.pop 1) c []
    | some .character | none => characterV2 chatChar q c

/-- `ProcessRaw_v2`. -/
def processRawV2 (q : ChatQueue) (c : Chat) : Option Decoded :=
  decodeLoop roundV2 (q.bytes.length + 1) q c

/-- `ProcessRaw`, after the data was queued. -/
def processRaw (version : ℕ) (q : ChatQueue) (c : Chat) : Option Decoded :=
  if 6 ≤ version then processRawV6 q c else processRawV2 q c

/-! ## What a round does -/

/-- A byte that is taken off the queue without any effect. -/
def Silent (ch : UInt8) : Bool :=
  match ChatCommand.ofCode ch with
  | some .disconnection => true
  | none => iscntrl ch
  | some _ => false

/-- What a round has done that goes on. -/
structure RoundV2 (q : ChatQueue) (c : Chat) (r : ChatQueue) (c' : Chat)
    (outputs : List ChatOutput) : Prop where
  pops : ∃ n, 0 < n ∧ n ≤ q.bytes.length ∧ r = q.pop n
  texts : ∀ o ∈ outputs, o.TextOk
  /-- A byte alone is no vote and kicks nobody. -/
  alone : q.bytes.length = 1 → c'.voteInfo = c.voteInfo ∧ c'.u.nToKick = c.u.nToKick
  silent : ∃ ch tail, q.bytes = ch :: tail ∧
    if Silent ch then r = q.pop 1 ∧ c' = c ∧ outputs = [] else outputs ≠ []

variable {q r : ChatQueue} {c c' : Chat} {outputs : List ChatOutput} {ch : UInt8}
  {tail : List UInt8}

/-- A command that puts out one event. -/
theorem roundV2_event {n : ℕ} {command cmd : ChatCommand} {id : UserId} {data : List UInt8}
    (hq : q.bytes = ch :: tail) (hch : ChatCommand.ofCode ch = some cmd)
    (hcmd : cmd ≠ .disconnection) (hn : 0 < n) (hle : n ≤ q.bytes.length)
    (hcommand : command ≠ .character)
    (halone : q.bytes.length = 1 → c'.voteInfo = c.voteInfo ∧ c'.u.nToKick = c.u.nToKick) :
    RoundV2 q c (q.pop n) c' [.event command id data] where
  pops := ⟨n, hn, hle, rfl⟩
  texts o ho := by
    obtain rfl := List.mem_singleton.mp ho
    exact textOk_event hcommand _ _
  alone := halone
  silent := by
    refine ⟨ch, tail, hq, ?_⟩
    have hsilent : Silent ch = false := by
      rw [Silent, hch]
      cases cmd <;> first | rfl | exact absurd rfl hcmd
    rw [hsilent]
    simp

/-- A vote. -/
theorem voteV2_next {yes : Bool} (h : voteV2 yes q c = .next r c' outputs) :
    ∃ b₀ b₁ b₂ b₃ rest, q.bytes = b₀ :: b₁ :: b₂ :: b₃ :: rest ∧ r = q.pop 4 ∧
      VoteCast c (longLE b₀ b₁ b₂ b₃) c' outputs := by
  unfold voteV2 at h
  split at h
  · rename_i b₀ b₁ b₂ b₃ rest hq
    split at h
    · rename_i hvote
      cases h
      exact ⟨b₀, b₁, b₂, b₃, rest, hq, rfl, voteCast_of_castVote hvote⟩
    · cases h
  · cases h

/-- A kick that has passed. -/
theorem kickPassV2_next (h : kickPassV2 q c = .next r c' outputs) :
    ∃ b₀ b₁ b₂ b₃ b₄ b₅ rest, q.bytes = b₀ :: b₁ :: b₂ :: b₃ :: b₄ :: b₅ :: rest ∧ r = q.pop 6 ∧
      c.kickPass (longLE b₀ b₁ b₂ b₃) = some (c', outputs) := by
  unfold kickPassV2 at h
  split at h
  · rename_i b₀ b₁ b₂ b₃ b₄ b₅ rest hq
    split at h
    · rename_i hkick
      cases h
      exact ⟨b₀, b₁, b₂, b₃, b₄, b₅, rest, hq, rfl, hkick⟩
    · cases h
  · cases h

/-- A font. -/
theorem fontFamilyV2_next (h : fontFamilyV2 q c = .next r c' outputs) :
    ∃ (n : ℕ) (font : List UInt8 × UInt8 × UInt8), 0 < n ∧ n ≤ q.bytes.length ∧ r = q.pop n ∧
      c' = { c with u :=
        { c.u with fontFamily := font.1, fontEncoding := font.2.1, fontStyle := font.2.2 } } ∧
      outputs = [c.event .fontFamily] := by
  unfold fontFamilyV2 at h
  split at h
  · simp only at h
    split at h
    · cases h
    · split at h
      · split at h
        · cases h
          rename_i name encoding style _ _
          exact ⟨_, (name, encoding, style), by omega, by omega, rfl, rfl, rfl⟩
        · cases h
      · cases h
  · cases h

/-- Text, or a control character. -/
theorem characterV2_next (hq : q.bytes = ch :: tail) (hch : ChatCommand.ofCode ch = none)
    (h : characterV2 ch q c = .next r c' outputs) : RoundV2 q c r c' outputs := by
  have hone : 0 < q.bytes.length := by
    rw [hq]
    exact Nat.succ_pos _
  have hsilent : Silent ch = iscntrl ch := by rw [Silent, hch]
  rw [characterV2] at h
  cases hcntrl : iscntrl ch with
  | true =>
    rw [hcntrl] at h
    cases h
    exact
      { pops := ⟨1, Nat.one_pos, hone, rfl⟩
        texts := nofun
        alone := fun _ => ⟨rfl, rfl⟩
        silent := ⟨ch, tail, hq, by rw [hsilent, hcntrl]; exact ⟨rfl, rfl, rfl⟩⟩ }
  | false =>
    rw [hcntrl] at h
    cases h
    refine
      { pops := ⟨_, ?_, (List.takeWhile_sublist _).length_le, rfl⟩
        texts := fun o ho id data heq b hb => ?_
        alone := fun _ => ⟨rfl, rfl⟩
        silent := ⟨ch, tail, hq, by rw [hsilent, hcntrl]; simp [Chat.text]⟩ }
    · rw [hq, List.takeWhile_cons_of_pos (by simp [hcntrl])]
      exact Nat.succ_pos _
    · obtain rfl := List.mem_singleton.mp ho
      obtain rfl := (ChatOutput.event.inj heq).2.2
      simpa using List.mem_takeWhile_imp hb

/-- **A round that goes on**: it takes bytes off the queue, text it puts out is text, and without
any effect it takes only a byte that has none. -/
theorem roundV2_next (h : roundV2 q c = .next r c' outputs) : RoundV2 q c r c' outputs := by
  unfold roundV2 at h
  split at h
  · cases h
  rename_i chatChar tail hq
  have hone : 0 < q.bytes.length := by rw [hq]; exact Nat.succ_pos _
  have hlong : ∀ {b₁ b₂ b₃ : UInt8} {rest : List UInt8}, tail = b₁ :: b₂ :: b₃ :: rest →
      q.bytes.length = rest.length + 4 := by
    rintro b₁ b₂ b₃ rest rfl
    rw [hq]
    rfl
  cases hch : ofCode chatChar with
  | none =>
    rw [hch] at h
    exact characterV2_next hq hch h
  | some cmd =>
    rw [hch] at h
    cases cmd with
    | newline | beep | laugh | backspace | focusIn | focusOut | sleepOff | sleepOn
    | disconnectionKicked =>
      cases h
      exact roundV2_event hq hch (by decide) Nat.one_pos hone (by decide) fun _ => ⟨rfl, rfl⟩
    | disconnection =>
      cases h
      exact
        { pops := ⟨1, Nat.one_pos, hone, rfl⟩
          texts := nofun
          alone := fun _ => ⟨rfl, rfl⟩
          silent := ⟨chatChar, tail, hq, by rw [Silent, hch]; exact ⟨rfl, rfl, rfl⟩⟩ }
    | colorFg | colorBg | fontFace | fontSize =>
      simp only at h
      split at h
      · have hlen := hlong rfl
        rw [List.length_cons] at hlen
        cases h
        exact roundV2_event hq hch (by decide) (by omega) (by omega) (by decide)
          fun h1 => by omega
      · cases h
    | kick =>
      simp only at h
      split at h
      · have hlen := hlong rfl
        cases h
        exact roundV2_event hq hch (by decide) (by omega) (by omega) (by decide)
          fun h1 => by omega
      · cases h
    | kickFail | kickYou =>
      simp only at h
      split at h
      · cases h
      · cases h
        exact roundV2_event hq hch (by decide) (by omega) (by omega) (by decide)
          fun _ => ⟨rfl, rfl⟩
    | kickYes | kickNo =>
      obtain ⟨b₀, b₁, b₂, b₃, rest, hbytes, rfl, hvote⟩ := voteV2_next h
      exact
        { pops := ⟨4, by omega, by rw [hbytes]; simp, rfl⟩
          texts := hvote.texts
          alone := fun h1 => by
            rw [hbytes] at h1
            simp at h1
          silent := ⟨chatChar, tail, hq, by rw [Silent, hch]; exact hvote.event⟩ }
    | kickPass =>
      obtain ⟨b₀, b₁, b₂, b₃, b₄, b₅, rest, hbytes, rfl, hkick⟩ := kickPassV2_next h
      obtain ⟨-, rfl, rfl⟩ := kickPass_spec hkick
      refine
        { pops := ⟨6, by omega, by rw [hbytes]; simp, rfl⟩
          texts := fun o ho => ?_
          alone := fun _ => ⟨rfl, rfl⟩
          silent := ⟨chatChar, tail, hq, by rw [Silent, hch]; simp⟩ }
      simp only [List.mem_cons, List.not_mem_nil, or_false] at ho
      rcases ho with rfl | rfl
      · exact textOk_send _ _ _ _
      · exact textOk_event (by decide) _ _
    | fontFamily =>
      obtain ⟨n, font, hn, hle, rfl, rfl, rfl⟩ := fontFamilyV2_next h
      exact roundV2_event hq hch (by decide) hn hle (by decide) fun _ => ⟨rfl, rfl⟩
    | character => exact absurd rfl (code_of_ofCode hch).2

/-- How a round ends the loop: with nothing taken off the queue, or with the number of a user who is
not known. -/
inductive WaitV2 (q : ChatQueue) (c : Chat) : ChatQueue → Prop
  | incomplete : WaitV2 q c q
  | vote {b₀ b₁ b₂ b₃ : UInt8} {rest : List UInt8} (hq : q.bytes = b₀ :: b₁ :: b₂ :: b₃ :: rest)
    (hvote : b₀ = ChatCommand.kickYes.code ∨ b₀ = ChatCommand.kickNo.code)
    (hnone : longLE b₀ b₁ b₂ b₃ ∉ c.voteInfo.map VoteInfo.nUin) : WaitV2 q c (q.pop 4)
  | kick {b₀ b₁ b₂ b₃ b₄ b₅ : UInt8} {rest : List UInt8}
    (hq : q.bytes = b₀ :: b₁ :: b₂ :: b₃ :: b₄ :: b₅ :: rest)
    (hkick : b₀ = ChatCommand.kickPass.code)
    (hnone : c.userIdOf (longLE b₀ b₁ b₂ b₃) ∉ c.chatUsers) : WaitV2 q c (q.pop 6)

theorem voteV2_wait {yes : Bool} (hq : q.bytes = ch :: tail)
    (hvote : ch = ChatCommand.kickYes.code ∨ ch = ChatCommand.kickNo.code)
    (h : voteV2 yes q c = .wait r c' outputs) : c' = c ∧ outputs = [] ∧ WaitV2 q c r := by
  unfold voteV2 at h
  split at h
  · rename_i b₀ b₁ b₂ b₃ rest hbytes
    split at h
    · cases h
    · rename_i hnone
      cases h
      obtain ⟨rfl, -⟩ := List.cons.inj (hq.symm.trans hbytes)
      exact ⟨rfl, rfl, .vote hbytes hvote (castVote_eq_none_iff.mp hnone)⟩
  · cases h
    exact ⟨rfl, rfl, .incomplete⟩

theorem kickPassV2_wait (hq : q.bytes = ch :: tail) (hkick : ch = ChatCommand.kickPass.code)
    (h : kickPassV2 q c = .wait r c' outputs) : c' = c ∧ outputs = [] ∧ WaitV2 q c r := by
  unfold kickPassV2 at h
  split at h
  · rename_i b₀ b₁ b₂ b₃ b₄ b₅ rest hbytes
    split at h
    · cases h
    · rename_i hnone
      cases h
      obtain ⟨rfl, -⟩ := List.cons.inj (hq.symm.trans hbytes)
      exact ⟨rfl, rfl, .kick hbytes hkick (kickPass_eq_none_iff.mp hnone)⟩
  · cases h
    exact ⟨rfl, rfl, .incomplete⟩

theorem fontFamilyV2_wait (h : fontFamilyV2 q c = .wait r c' outputs) :
    c' = c ∧ outputs = [] ∧ WaitV2 q c r := by
  unfold fontFamilyV2 at h
  split at h
  · simp only at h
    split at h
    · cases h
      exact ⟨rfl, rfl, .incomplete⟩
    · split at h
      · split at h <;> cases h
      · cases h
  · cases h
    exact ⟨rfl, rfl, .incomplete⟩

/-- **A round that ends the loop** changes nothing and puts nothing out. -/
theorem roundV2_wait (hq : q.bytes = ch :: tail) (h : roundV2 q c = .wait r c' outputs) :
    c' = c ∧ outputs = [] ∧ WaitV2 q c r ∧ Silent ch = false := by
  suffices hwait : Silent ch = false ∧ c' = c ∧ outputs = [] ∧ WaitV2 q c r from
    ⟨hwait.2.1, hwait.2.2.1, hwait.2.2.2, hwait.1⟩
  unfold roundV2 at h
  rw [hq] at h
  simp only at h
  cases hch : ofCode ch with
  | none =>
    rw [hch] at h
    simp only [characterV2] at h
    split at h <;> cases h
  | some cmd =>
    rw [hch] at h
    have hcode := (code_of_ofCode hch).1
    cases cmd with
    | newline | beep | laugh | backspace | focusIn | focusOut | sleepOff | sleepOn
    | disconnectionKicked | disconnection => cases h
    | colorFg | colorBg | fontFace | fontSize | kick | kickFail | kickYou =>
      refine ⟨by rw [Silent, hch], ?_⟩
      simp only at h
      split at h <;> cases h
      exact ⟨rfl, rfl, .incomplete⟩
    | kickYes =>
      exact ⟨by rw [Silent, hch], voteV2_wait hq (.inl hcode.symm) h⟩
    | kickNo =>
      exact ⟨by rw [Silent, hch], voteV2_wait hq (.inr hcode.symm) h⟩
    | kickPass =>
      exact ⟨by rw [Silent, hch], kickPassV2_wait hq hcode.symm h⟩
    | fontFamily =>
      exact ⟨by rw [Silent, hch], fontFamilyV2_wait h⟩
    | character => exact absurd rfl (code_of_ofCode hch).2

/-! ## The loop -/

/-- Every round but the last takes something out of the queue. -/
theorem roundV2_shrinks {q r : ChatQueue} {c c' : Chat} {outputs : List ChatOutput}
    (h : roundV2 q c = .next r c' outputs) : r.bytes.length < q.bytes.length := by
  obtain ⟨n, hn, hle, rfl⟩ := (roundV2_next h).pops
  rw [ChatQueue.pop, List.length_drop]
  omega

theorem processRawV2_next (hne : q.bytes ≠ []) (h : roundV2 q c = .next r c' outputs) :
    processRawV2 q c = (processRawV2 r c').map fun d =>
      ⟨d.queue, d.chat, outputs ++ d.outputs⟩ :=
  decodeLoop_next hne h roundV2_shrinks

/-- Decoding the data takes all of it off the queue and does nothing else. -/
def Unnoticed (q : ChatQueue) (c : Chat) : Prop :=
  ∃ d, processRawV2 q c = some d ∧ d.queue.bytes = [] ∧ d.chat = c ∧ d.outputs = []

/-- A vote or a kick that concerns nobody, with nothing behind it. -/
def ConcernsNobody (c : Chat) (ch : UInt8) : List UInt8 → Prop
  | [b₁, b₂, b₃] => (ch = ChatCommand.kickYes.code ∨ ch = ChatCommand.kickNo.code) ∧
      longLE ch b₁ b₂ b₃ ∉ c.voteInfo.map VoteInfo.nUin
  | [b₁, b₂, b₃, _, _] => ch = ChatCommand.kickPass.code ∧
      c.userIdOf (longLE ch b₁ b₂ b₃) ∉ c.chatUsers
  | _ => False

/-- **Data that has no effect**: bytes that have none, up to a vote or a kick that concerns nobody,
if there is one, with which the data ends. -/
def Dropped (c : Chat) : List UInt8 → Prop
  | [] => True
  | ch :: tail => if Silent ch then Dropped c tail else ConcernsNobody c ch tail

theorem dropped_of_silent (h : Silent ch = true) : Dropped c (ch :: tail) = Dropped c tail :=
  if_pos h

theorem dropped_of_not_silent (h : Silent ch = false) :
    Dropped c (ch :: tail) = ConcernsNobody c ch tail := if_neg (by simp [h])

theorem roundV2_silent (hq : q.bytes = ch :: tail) (h : Silent ch = true) :
    roundV2 q c = .next (q.pop 1) c [] := by
  rw [roundV2, hq]
  simp only
  unfold Silent at h
  split at h
  · rename_i hch
    rw [hch]
  · rename_i hch
    rw [hch]
    simp only [characterV2, h]
    rfl
  · cases h

theorem dropped_of_wait {r : ChatQueue} (hq : q.bytes = ch :: tail) (hch : Silent ch = false)
    (hr : r.bytes = []) (h : WaitV2 q c r) : Dropped c (ch :: tail) := by
  rw [dropped_of_not_silent hch]
  cases h with
  | incomplete =>
    rw [hq] at hr
    cases hr
  | @vote b₀ b₁ b₂ b₃ rest hbytes hvote hnone =>
    obtain ⟨rfl, rfl⟩ := List.cons.inj (hq.symm.trans hbytes)
    obtain rfl : rest = [] := by
      rw [ChatQueue.pop, hbytes] at hr
      exact hr
    exact ⟨hvote, hnone⟩
  | @kick b₀ b₁ b₂ b₃ b₄ b₅ rest hbytes hkick hnone =>
    obtain ⟨rfl, rfl⟩ := List.cons.inj (hq.symm.trans hbytes)
    obtain rfl : rest = [] := by
      rw [ChatQueue.pop, hbytes] at hr
      exact hr
    exact ⟨hkick, hnone⟩

/-- A vote or a kick that concerns nobody, at the end of the data. -/
theorem wait_of_dropped (hq : q.bytes = ch :: tail) (hch : Silent ch = false)
    (h : Dropped c (ch :: tail)) : ∃ r, roundV2 q c = .wait r c [] ∧ r.bytes = [] := by
  rw [dropped_of_not_silent hch] at h
  unfold ConcernsNobody at h
  split at h
  · rename_i b₁ b₂ b₃
    obtain ⟨hvote, hnone⟩ := h
    refine ⟨q.pop 4, ?_, by rw [ChatQueue.pop, hq]; rfl⟩
    rcases hvote with rfl | rfl
    · rw [roundV2, hq]
      change voteV2 true q c = _
      simp only [voteV2, hq, castVote_eq_none_iff.mpr hnone]
    · rw [roundV2, hq]
      change voteV2 false q c = _
      simp only [voteV2, hq, castVote_eq_none_iff.mpr hnone]
  · rename_i b₁ b₂ b₃ b₄ b₅
    obtain ⟨rfl, hnone⟩ := h
    refine ⟨q.pop 6, ?_, by rw [ChatQueue.pop, hq]; rfl⟩
    rw [roundV2, hq]
    change kickPassV2 q c = _
    simp only [kickPassV2, hq, kickPass_eq_none_iff.mpr hnone]
  · exact absurd h id

/-- **Decoding data goes unnoticed exactly when the data has no effect.** -/
theorem unnoticed_iff_dropped : Unnoticed q c ↔ Dropped c q.bytes := by
  induction hq : q.bytes generalizing q with
  | nil => exact iff_of_true ⟨_, decodeLoop_nil hq _, hq, rfl, rfl⟩ trivial
  | cons ch tail ih =>
    have hne : q.bytes ≠ [] := by
      rw [hq]
      exact List.cons_ne_nil _ _
    cases hch : Silent ch with
    | true =>
      have hpop : (q.pop 1).bytes = tail := by rw [ChatQueue.pop, hq]; rfl
      rw [dropped_of_silent hch, ← ih hpop, Unnoticed, Unnoticed,
        processRawV2_next hne (roundV2_silent hq hch)]
      constructor
      · rintro ⟨d, hd, hqueue, hchat, houtputs⟩
        obtain ⟨d', hd', rfl⟩ := Option.map_eq_some_iff.mp hd
        exact ⟨d', hd', hqueue, hchat, houtputs⟩
      · rintro ⟨d, hd, hqueue, hchat, houtputs⟩
        exact ⟨⟨d.queue, d.chat, [] ++ d.outputs⟩, by rw [hd]; rfl, hqueue, hchat, houtputs⟩
    | false =>
      constructor
      · rintro ⟨d, hd, hqueue, hchat, houtputs⟩
        cases hround : roundV2 q c with
        | undefined =>
          rw [processRawV2, decodeLoop_undefined hne hround] at hd
          cases hd
        | wait r c' outputs =>
          obtain ⟨-, -, hwait, -⟩ := roundV2_wait hq hround
          rw [processRawV2, decodeLoop_wait hne hround, Option.some.injEq] at hd
          subst hd
          exact dropped_of_wait hq hch hqueue hwait
        | next r c' outputs =>
          obtain ⟨ch', tail', hq', hsilent⟩ := (roundV2_next hround).silent
          obtain ⟨rfl, rfl⟩ := List.cons.inj (hq.symm.trans hq')
          rw [hch] at hsilent
          rw [processRawV2_next hne hround] at hd
          obtain ⟨d', -, rfl⟩ := Option.map_eq_some_iff.mp hd
          exact absurd (List.append_eq_nil_iff.mp houtputs).1 hsilent
      · intro h
        obtain ⟨r, hround, hr⟩ := wait_of_dropped hq hch h
        exact ⟨_, decodeLoop_wait hne hround _, hr, rfl, rfl⟩

end Licq
