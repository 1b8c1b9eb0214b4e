import Licq.Icq.Chat.Basic

/-!
# Icq/Chat/Version6 — the data of peers from version 6 on

`ProcessRaw_v6` takes commands with a header of six bytes, a zero, the command and the size of what
follows, and single characters off the queue, for as long as a whole one is there.
-/

open Text Wire

namespace Licq

/-! ## Decoding -/

/-- How the switch over the commands is left. -/
inductive Switch6
  /-- `break`, with what is to be dequeued. -/
  | done (chatSize : ℕ) (c : Chat) (outputs : List ChatOutput)
  /-- `return true` -/
  | leave
  | undefined

/-- The font in the body of a command. -/
def fontOf (q : ChatQueue) : Option (List UInt8 × UInt8 × UInt8) :=
  match q.bytes with
  | s₀ :: s₁ :: _ => do
    let sizeFontName := valueLE [s₀, s₁]
    let name ← q.string 2 sizeFontName
    let encoding ← q.bytes[sizeFontName + 2]?
    let style ← q.bytes[sizeFontName + 3]?
    some (name, encoding, style)
  | _ => none

/-- The switch of `ProcessRaw_v6`; the queue begins with the body of the command. -/
def switchV6 (command : Option ChatCommand) (chatSize : ℕ) (q : ChatQueue) (c : Chat) : Switch6 :=
  match command with
  | some .beep => .done chatSize c [c.event .beep]
  | some .laugh => .done chatSize c [c.event .laugh]
  | some .colorFg =>
    match q.bytes with
    | r :: g :: b :: _ =>
      .done chatSize { c with u := { c.u with colorFore := (r, g, b) } } [c.event .colorFg]
    | _ => .undefined
  | some .colorBg =>
    match q.bytes with
    | r :: g :: b :: _ =>
      .done chatSize { c with u := { c.u with colorBack := (r, g, b) } } [c.event .colorBg]
    | _ => .undefined
  | some .fontFamily =>
    match fontOf q with
    | some (name, encoding, style) =>
      -- the size includes the following character
      .done ((chatSize + (2 ^ 64 - 1)) % 2 ^ 64)
        { c with u :=
          { c.u with fontFamily := name, fontEncoding := encoding, fontStyle := style } }
        [c.event .fontFamily]
    | none => .undefined
  | some .fontFace =>
    match q.bytes with
    | b₀ :: b₁ :: b₂ :: b₃ :: _ =>
      .done chatSize { c with u := { c.u with fontFace := longLE b₀ b₁ b₂ b₃ } }
        [c.event .fontFace]
    | _ => .undefined
  | some .fontSize =>
    match q.bytes with
    | b₀ :: b₁ :: b₂ :: b₃ :: _ =>
      .done chatSize { c with u := { c.u with fontSize := longLE b₀ b₁ b₂ b₃ % 2 ^ 16 } }
        [c.event .fontSize]
    | _ => .leave
  | some .focusIn => .done chatSize { c with u := { c.u with focus := true } } [c.event .focusIn]
  | some .focusOut =>
    .done chatSize { c with u := { c.u with focus := false } } [c.event .focusOut]
  | some .sleepOff =>
    .done chatSize { c with u := { c.u with sleep := false } } [c.event .sleepOff]
  | some .sleepOn => .done chatSize { c with u := { c.u with sleep := true } } [c.event .sleepOn]
  | some .kick =>
    match q.bytes with
    | b₀ :: b₁ :: b₂ :: b₃ :: _ =>
      .done chatSize { c with u := { c.u with nToKick := longLE b₀ b₁ b₂ b₃ } } [c.event .kick]
    | _ => .leave
  | some .kickYes =>
    match q.bytes with
    | b₀ :: b₁ :: b₂ :: b₃ :: _ =>
      match c.castVote true (longLE b₀ b₁ b₂ b₃) with
      | some (c, outputs) => .done chatSize c outputs
      | none => .leave
    | _ => .leave
  | some .kickNo =>
    match q.bytes with
    | b₀ :: b₁ :: b₂ :: b₃ :: _ =>
      match c.castVote false (longLE b₀ b₁ b₂ b₃) with
      | some (c, outputs) => .done chatSize c outputs
      | none => .leave
    | _ => .leave
  | some .kickPass =>
    match q.bytes with
    | b₀ :: b₁ :: b₂ :: b₃ :: _ :: _ :: _ =>
      match c.kickPass (longLE b₀ b₁ b₂ b₃) with
      | some (c, outputs) => .done chatSize c outputs
      | none => .leave
    | _ => .leave
  | some .kickFail => .done chatSize c [c.event .kickFail]
  | some .kickYou => .done chatSize c [c.event .kickYou]
  | some .disconnectionKicked => .done chatSize c [c.event .disconnectionKicked]
  | some .disconnection => .done chatSize c []
  -- an unknown command is logged
  | some .newline | some .backspace | some .character | none => .done chatSize c []

/-- A command, its header dequeued; the counter of the loop that dequeues the body is an
`unsigned short`. -/
def commandV6 (code : UInt8) (chatSize : ℕ) (q : ChatQueue) (c : Chat) : ChatRound :=
  match switchV6 (ChatCommand.ofCode code) chatSize q c with
  | .done chatSize c outputs =>
    if chatSize < 2 ^ 16 ∧ chatSize ≤ q.bytes.length then .next (q.pop chatSize) c outputs
    else .undefined
  | .leave => .wait q c []
  | .undefined => .undefined

/-- What is not a command. -/
def characterV6 (chatChar : UInt8) (q : ChatQueue) (c : Chat) : ChatRound :=
  if chatChar = ChatCommand.newline.code then .next (q.pop 1) c.newline.1 c.newline.2
  else if chatChar = ChatCommand.backspace.code then .next (q.pop 1) c.backspace.1 c.backspace.2
  else if iscntrl chatChar then .next (q.pop 1) c []
  else
    let chars := q.bytes.takeWhile fun ch => !iscntrl ch
    .next (q.pop chars.length) (c.text chars).1 (c.text chars).2

/-- One round of the loop of `ProcessRaw_v6`. -/
def roundV6 (q : ChatQueue) (c : Chat) : ChatRound :=
  match q.bytes with
  | [] => .wait q c []
  | chatChar :: tail =>
    if chatChar = 0 then
      match tail with
      | code :: s₀ :: s₁ :: s₂ :: s₃ :: _ =>
        let chatSize := longLE s₀ s₁ s₂ s₃
        if q.bytes.length < (6 + chatSize) % 2 ^ 64 then .wait q c []
        else commandV6 code chatSize (q.pop 6) c
      | _ => .wait q c []
    else characterV6 chatChar q c

/-- `ProcessRaw_v6`. -/
def processRawV6 (q : ChatQueue) (c : Chat) : Option Decoded :=
  decodeLoop roundV6 (q.bytes.length + 1) q c

/-- Every round but the last takes something out of the queue. -/
theorem roundV6_shrinks {q r : ChatQueue} {c c' : Chat} {outputs : List ChatOutput}
    (h : roundV6 q c = .next r c' outputs) : r.bytes.length < q.bytes.length := by
  unfold roundV6 at h
  split at h
  · cases h
  · rename_i chatChar tail hq
    split at h
    · split at h
      · simp only at h
        split at h
        · cases h
        · rw [commandV6] at h
          split at h
          · split at h
            · cases h
              simp only [ChatQueue.pop, hq, List.drop_succ_cons, List.drop_zero, List.length_drop,
                List.length_cons]
              omega
            · cases h
          · cases h
          · cases h
      · cases h
    · have hone : (q.pop 1).bytes.length < q.bytes.length := by
        rw [ChatQueue.pop, hq]
        exact Nat.lt_succ_self _
      rw [characterV6] at h
      split at h
      · cases h
        exact hone
      · split at h
        · cases h
          exact hone
        · split at h
          · cases h
            exact hone
          · rename_i hcntrl
            cases h
            rw [ChatQueue.pop, hq, List.takeWhile_cons_of_pos (by simp only [hcntrl, Bool.not_false])]
            simp only [List.length_cons, List.drop_succ_cons, List.length_drop]
            omega

/-- **The loop ends**: more rounds than there are bytes make no difference. -/
theorem decodeLoop_of_length_lt {q : ChatQueue} {c : Chat} {fuel : ℕ}
    (h : q.bytes.length < fuel) : decodeLoop roundV6 fuel q c = processRawV6 q c :=
  decodeLoop_fuel roundV6_shrinks h (Nat.lt_succ_self _)

/-- `ProcessRaw` for what one receive after the other brings. -/
def receiveAllV6 : List (List UInt8) → ChatQueue → Chat → Option Decoded
  | [], q, c => some ⟨q, c, []⟩
  | chunk :: chunks, q, c =>
    match processRawV6 (q.push chunk) c with
    | none => none
    | some d => (receiveAllV6 chunks d.queue d.chat).map fun d' =>
        ⟨d'.queue, d'.chat, d.outputs ++ d'.outputs⟩

end Licq
