import Licq.Msn.Buffer
import Licq.Text.Bytes
import Mathlib.Data.Bool.AllAny

/-!
# Msn/Messages — text messages

`MSNSendMessage` sends a text behind three headers and a blank line; the server relays it with the
name of the sender.  `ProcessSBPacket` takes the size of the text from the size of the payload and
from how far the headers moved the position.

The **main result** `text_delivered_iff`: a text is delivered unless it is empty or has a null byte,
and for any block of headers the body is, unless it is empty or a line has no colon.
-/

open Wire

namespace Licq.Msn

open Text List

/-! ## Sending -/

/-- `Content-Type` -/
def contentType : List UInt8 :=
  asciiBytes ['C', 'o', 'n', 't', 'e', 'n', 't', '-', 'T', 'y', 'p', 'e']

/-- `text/plain` -/
def textPlain : List UInt8 := asciiBytes ['t', 'e', 'x', 't', '/', 'p', 'l', 'a', 'i', 'n']

/-- `MIME-Version: 1.0` -/
def mimeVersionLine : HeaderLine where
  text := asciiBytes ['M', 'I', 'M', 'E', '-', 'V', 'e', 'r', 's', 'i', 'o', 'n', ':', ' ', '1',
    '.', '0']
  ne_nil := by decide
  plain := List.all_iff_forall_prop.mp (by decide)

/-- `Content-Type: text/plain; charset=UTF-8` -/
def contentTypeLine : HeaderLine where
  text := contentType ++ asciiBytes [':', ' '] ++ textPlain ++ asciiBytes [';', ' ', 'c', 'h', 'a',
    'r', 's', 'e', 't', '=', 'U', 'T', 'F', '-', '8']
  ne_nil := by decide
  plain := List.all_iff_forall_prop.mp (by decide)

/-- `X-MMS-IM-Format: FN=MS%20Sans%20Serif; EF=; CO=0; CS=0; PF=0` -/
def formatLine : HeaderLine where
  text := asciiBytes ['X', '-', 'M', 'M', 'S', '-', 'I', 'M', '-', 'F', 'o', 'r', 'm', 'a', 't',
    ':', ' ', 'F', 'N', '=', 'M', 'S', '%', '2', '0', 'S', 'a', 'n', 's', '%', '2', '0', 'S', 'e',
    'r', 'i', 'f', ';', ' ', 'E', 'F', '=', ';', ' ', 'C', 'O', '=', '0', ';', ' ', 'C', 'S', '=',
    '0', ';', ' ', 'P', 'F', '=', '0']
  ne_nil := by decide
  plain := List.all_iff_forall_prop.mp (by decide)

/-- The headers of `CPS_MSNMessage`. -/
def messageLines : List HeaderLine := [mimeVersionLine, contentTypeLine, formatLine]

/-- A payload: a block of headers, a blank line and a body. -/
def payload (lines : List HeaderLine) (body : List UInt8) : List UInt8 :=
  blockText lines ++ cr :: lf :: body

/-- The payload of `CPS_MSNMessage`, which takes a C string. -/
def cpsMsnMessage (szMsg : List UInt8) : List UInt8 := payload messageLines (cStr szMsg)

/-- The payload that `MSNSendMessage` sends. -/
def msnSendMessage (message : List UInt8) : List UInt8 := cpsMsnMessage (returnToDos message)

/-- Who a message comes from. -/
structure Sender where
  user : List UInt8
  nick : List UInt8
  user_ne_nil : user ≠ []
  nick_ne_nil : nick ≠ []
  user_plain : ∀ c ∈ user, asciiSpace c = false
  nick_plain : ∀ c ∈ nick, asciiSpace c = false

/-- The start of the command with which the server relays a payload of a size. -/
def msgLine (sender : Sender) (size : ℕ) : List UInt8 :=
  asciiBytes ['M', 'S', 'G', ' '] ++
    (sender.user ++ 0x20 :: (sender.nick ++ 0x20 :: (decimalBytes size ++ [cr, lf])))

/-- The command with which the server relays a payload. -/
def msgCommand (sender : Sender) (payload : List UInt8) : List UInt8 :=
  msgLine sender payload.length ++ payload

/-! ## Receiving -/

/-- The position in the data, where `s` has not been read. -/
def position (data s : List UInt8) : ℤ := data.length - s.length

/-- `unpackRawString`, whose size is unsigned. -/
def readSize (nSize : ℤ) (s : List UInt8) : List UInt8 :=
  if nSize < 0 then s else s.take nSize.toNat

/-- What `ProcessSBPacket` makes of a `MSG` command: the sender and the text of the event, where it
is a text message. -/
def processMsg (packet : List UInt8) : Option (List UInt8 × List UInt8) :=
  let user := getParameter packet (packet.drop 3)
  let strSize := getParameter packet (skipParameter user.2)
  let nSize := atoi (byteChars strSize.1) + 1
  let nBeforeParse := position packet strSize.2
  let parsed := parseHeaders packet (skipPacket strSize.2)
  let nAfterParse := position packet parsed.2
  let nRead := nAfterParse - nBeforeParse
  if (getValue parsed.1 contentType).take 10 = textPlain then
    some (user.1, returnToUnix (readSize (nSize - nRead) parsed.2))
  else none

/-! ## The line of the command -/

/-- What a parameter may be made of. -/
def Plain (v : List UInt8) : Prop := v ≠ [] ∧ ∀ c ∈ v, asciiSpace c = false

variable {v body : List UInt8} {sender : Sender} {lines : List HeaderLine}

theorem Plain.ne_of_mem (h : Plain v) {c : UInt8} (hc : c ∈ v) : c ≠ 0x20 ∧ c ≠ cr ∧ c ≠ lf := by
  have hspace := h.2 c hc
  refine ⟨?_, ?_, ?_⟩ <;> rintro rfl <;> exact absurd hspace (by decide)

theorem readParameter_append (h : ∀ c ∈ v, c ≠ 0x20 ∧ c ≠ cr ∧ c ≠ lf)
    {c d : UInt8} (hc : c ≠ 0x20 ∧ c ≠ cr) (hd : d = 0x20 ∨ d = cr) (s : List UInt8) :
    readParameter c (v ++ d :: s) = (v, s) := by
  induction v generalizing c with
  | nil =>
    have hstop : readParameter d s = ([], s) := by
      cases s with
      | nil => rfl
      | cons e s => exact if_pos hd
    rw [nil_append, readParameter, if_neg (by simpa using hc), if_neg, hstop]
    rcases hd with rfl | rfl
    · exact fun hand => hand.1 rfl
    · exact fun hand => hand.2.1 rfl
  | cons e v ih =>
    obtain ⟨hspace, hcr, hlf⟩ := h e mem_cons_self
    rw [cons_append, readParameter, if_neg (by simpa using hc), if_pos ⟨hspace, hcr, hlf⟩,
      ih (fun b hb => h b (mem_cons_of_mem e hb)) ⟨hspace, hcr⟩]

/-- **A parameter** is read together with the byte behind it. -/
theorem getParameter_append (h : Plain v) {d : UInt8} (hd : d = 0x20 ∨ d = cr)
    (pre s : List UInt8) :
    getParameter (pre ++ (v ++ d :: s)) (v ++ d :: s) = (v, s) ∧
      getParameter (pre ++ 0x20 :: (v ++ d :: s)) (0x20 :: (v ++ d :: s)) = (v, s) := by
  have hread : ∀ c, c ≠ 0x20 ∧ c ≠ cr → readParameter c (v ++ d :: s) = (v, s) :=
    fun c hc => readParameter_append (fun b hb => h.ne_of_mem hb) hc hd s
  obtain ⟨c, v, rfl⟩ := exists_cons_of_ne_nil h.1
  obtain ⟨hspace, hcr, -⟩ := h.ne_of_mem mem_cons_self
  have hunread : ∀ pre : List UInt8, unread (pre ++ c :: (v ++ d :: s)) (v ++ d :: s)
      = c :: (v ++ d :: s) := fun pre => unread_append pre c _
  constructor
  · have hfirst : getParameter (pre ++ c :: (v ++ d :: s)) (c :: (v ++ d :: s))
        = readParameter c (unread (pre ++ c :: (v ++ d :: s)) (v ++ d :: s)) := by
      simp only [getParameter, readChar, hspace, if_false]
    rw [cons_append, hfirst, hunread]
    exact hread c ⟨hspace, hcr⟩
  · have hskip : readWhile (· = 0x20) 0x20 (c :: (v ++ d :: s)) = (c, v ++ d :: s) := by
      rw [readWhile, if_pos (by decide)]
      cases hv : v ++ d :: s with
      | nil => rfl
      | cons e t => exact if_neg (by simpa using hspace)
    rw [getParameter]
    simp only [cons_append, readChar, if_true, hskip]
    have hpre := hunread (pre ++ [0x20])
    rw [append_assoc] at hpre
    rw [show pre ++ 0x20 :: c :: (v ++ d :: s) = pre ++ ([0x20] ++ c :: (v ++ d :: s)) from rfl,
      hpre]
    exact hread c ⟨hspace, hcr⟩

/-- A parameter at the end of the data. -/
theorem getParameter_end (h : Plain v) (pre : List UInt8) :
    getParameter (pre ++ v) v = (v, []) := by
  have hread : ∀ (v : List UInt8) (c : UInt8), c ≠ 0x20 ∧ c ≠ cr →
      (∀ b ∈ v, b ≠ 0x20 ∧ b ≠ cr ∧ b ≠ lf) → readParameter c v = (v, []) := by
    intro v
    induction v with
    | nil => exact fun _ _ _ => rfl
    | cons b v ih =>
      intro c hc hv
      obtain ⟨hb, htail⟩ := forall_mem_cons.mp hv
      rw [readParameter, if_neg (by simpa using hc), if_pos hb, ih b ⟨hb.1, hb.2.1⟩ htail]
  obtain ⟨c, v, rfl⟩ := exists_cons_of_ne_nil h.1
  obtain ⟨hspace, hcr, -⟩ := h.ne_of_mem mem_cons_self
  have hfirst : getParameter (pre ++ c :: v) (c :: v)
      = readParameter c (unread (pre ++ c :: v) v) := by
    simp only [getParameter, readChar, hspace, if_false]
  rw [hfirst, unread_append]
  exact hread (c :: v) c ⟨hspace, hcr⟩ fun b hb => h.ne_of_mem hb

/-- **A parameter is skipped** together with the space behind it. -/
theorem skipParameter_append (h : Plain v) (s : List UInt8) :
    skipParameter (v ++ 0x20 :: s) = s := by
  have hread : ∀ (v : List UInt8) (c : UInt8), asciiSpace c = false →
      (∀ b ∈ v, asciiSpace b = false) →
      (readWhile (fun b => !asciiSpace b) c (v ++ 0x20 :: s)).2 = s := by
    intro v
    induction v with
    | nil =>
      intro c hc _
      have hstop : readWhile (fun b => !asciiSpace b) 0x20 s = (0x20, s) := by
        cases s with
        | nil => rfl
        | cons e s => rfl
      rw [nil_append, readWhile, if_pos (by rw [hc]; rfl), hstop]
    | cons b v ih =>
      intro c hc hv
      rw [cons_append, readWhile, if_pos (by rw [hc]; rfl)]
      exact ih b (hv b mem_cons_self) fun e he => hv e (mem_cons_of_mem b he)
  obtain ⟨c, v, rfl⟩ := exists_cons_of_ne_nil h.1
  have hc := h.2 c mem_cons_self
  rw [skipParameter]
  simp only [cons_append, readChar, hc, Bool.false_eq_true, if_false]
  exact hread v c hc fun b hb => h.2 b (mem_cons_of_mem c hb)

theorem skipPacket_lf (s : List UInt8) : skipPacket (lf :: s) = s := by
  rw [skipPacket, readWhile, if_pos (by decide)]
  cases s with
  | nil => rfl
  | cons c s => rfl

theorem plain_decimalBytes (n : ℕ) : Plain (decimalBytes n) := by
  refine ⟨decimalBytes_ne_nil n, fun c hc => ?_⟩
  obtain ⟨hlow, hhigh⟩ := mem_decimalBytes hc
  have hne : c ≠ 0x20 := by
    rintro rfl
    exact absurd hlow (by decide)
  have hgt : ¬ c ≤ 0x0D := by
    intro hle
    have hnat : c.toNat ≤ 13 := hle
    omega
  rw [asciiSpace, decide_eq_false hne, decide_eq_false hgt, Bool.and_false]
  rfl

theorem length_le_blockText (lines : List HeaderLine) :
    lines.length ≤ (blockText lines).length := by
  induction lines with
  | nil => exact Nat.le_refl 0
  | cons l lines ih =>
    have hcons := congrArg List.length (blockText_cons l lines [])
    simp only [append_nil, length_append, length_cons] at hcons
    rw [length_cons]
    omega

theorem readSize_length (s : List UInt8) : readSize s.length s = s := by
  rw [readSize, if_neg (by omega)]
  exact take_of_length_le (by omega)

/-- What is left to read after the headers. -/
def textLeft (lines : List HeaderLine) (body : List UInt8) : List UInt8 :=
  if ∀ l ∈ lines, 0x3A ∈ l.text then if body = [] then [lf] else body
  else blockText (linesLeft lines) ++ cr :: lf :: body

/-- **The text of a message is all that is left to read after the headers.** -/
theorem processMsg_msgCommand
    (hsize : (payload lines body).length + 1 < 2 ^ 31) :
    processMsg (msgCommand sender (payload lines body)) =
      if (getValue ((headerLines lines).map HeaderLine.header) contentType).take 10 = textPlain then
        some (sender.user, returnToUnix (textLeft lines body))
      else none := by
  obtain ⟨pl, hpl⟩ : ∃ pl, pl = payload lines body := ⟨_, rfl⟩
  obtain ⟨size, hdigits⟩ : ∃ size, size = decimalBytes pl.length := ⟨_, rfl⟩
  have huser : Plain sender.user := ⟨sender.user_ne_nil, sender.user_plain⟩
  have hnick : Plain sender.nick := ⟨sender.nick_ne_nil, sender.nick_plain⟩
  have hsizePlain : Plain size := hdigits ▸ plain_decimalBytes _
  -- the packet, cut before each of its parts
  have hpacket : msgCommand sender pl = asciiBytes ['M', 'S', 'G'] ++ 0x20 :: (sender.user ++
      0x20 :: (sender.nick ++ 0x20 :: (size ++ cr :: lf :: pl))) := by
    rw [msgCommand, msgLine, hdigits]
    simp only [asciiBytes, map_cons, map_nil, cons_append, append_assoc,
      nil_append]
    rfl
  have hsizeAt : msgCommand sender pl = (asciiBytes ['M', 'S', 'G'] ++ 0x20 :: (sender.user ++
      0x20 :: (sender.nick ++ [0x20]))) ++ (size ++ cr :: lf :: pl) := by
    rw [hpacket]
    simp only [append_assoc, cons_append, nil_append]
  have hplAt : msgCommand sender pl = (asciiBytes ['M', 'S', 'G'] ++ 0x20 :: (sender.user ++
      0x20 :: (sender.nick ++ 0x20 :: (size ++ [cr, lf])))) ++ pl := by
    rw [hpacket]
    simp only [append_assoc, cons_append, nil_append]
  have hdrop : (msgCommand sender pl).drop 3 = 0x20 :: (sender.user ++
      0x20 :: (sender.nick ++ 0x20 :: (size ++ cr :: lf :: pl))) := by
    rw [hpacket]
    rfl
  have hgetUser : getParameter (msgCommand sender pl) ((msgCommand sender pl).drop 3)
      = (sender.user, sender.nick ++ 0x20 :: (size ++ cr :: lf :: pl)) := by
    rw [hdrop, hpacket]
    exact (getParameter_append huser (.inl rfl) _ _).2
  have hgetSize : getParameter (msgCommand sender pl) (size ++ cr :: lf :: pl)
      = (size, lf :: pl) := by
    rw [hsizeAt]
    exact (getParameter_append hsizePlain (.inr rfl) _ _).1
  have hparse : parseHeaders (msgCommand sender pl) pl
      = ((headerLines lines).map HeaderLine.header, textLeft lines body) := by
    rw [parseHeaders, hplAt, hpl, payload]
    refine parseHeaders_block ?_
    have hlines := length_le_blockText lines
    rw [length_append, length_cons]
    omega
  have hatoi : atoi (byteChars size) = pl.length := by
    rw [hdigits, byteChars_decimalBytes]
    exact atoi_decimal (by rw [hpl]; omega)
  have hread : (pl.length : ℤ) + 1 - (position (msgCommand sender pl) (textLeft lines body)
      - position (msgCommand sender pl) (lf :: pl)) = (textLeft lines body).length := by
    rw [position, position, length_cons]
    omega
  rw [← hpl, processMsg, hgetUser]
  simp only [skipParameter_append hnick, hgetSize, skipPacket_lf, hparse, hatoi, hread,
    readSize_length]

/-- The headers say that the body is a text. -/
def IsText (lines : List HeaderLine) : Prop :=
  (getValue (lines.map HeaderLine.header) contentType).take 10 = textPlain

instance IsText.decidable (lines : List HeaderLine) : Decidable (IsText lines) :=
  inferInstanceAs (Decidable (_ = _))

/-- A line that is left over makes the text longer. -/
theorem returnToUnix_textLeft_iff :
    returnToUnix (textLeft lines body) = returnToUnix body ↔
      (∀ l ∈ lines, 0x3A ∈ l.text) ∧ body ≠ [] := by
  rw [textLeft]
  by_cases hall : ∀ l ∈ lines, 0x3A ∈ l.text
  · rw [if_pos hall]
    by_cases hbody : body = []
    · rw [if_pos hbody, hbody]
      exact iff_of_false (by decide) fun h => h.2 rfl
    · rw [if_neg hbody]
      exact iff_of_true rfl ⟨hall, hbody⟩
  · rw [if_neg hall]
    refine iff_of_false (fun heq => ?_) fun h => hall h.1
    have hlt := (length_returnToUnix_append (blockText (linesLeft lines) ++ [cr, lf]) body).2
      ⟨cr, mem_append_right _ mem_cons_self, by decide⟩
    rw [append_assoc] at hlt
    exact absurd (congrArg List.length heq) (Nat.ne_of_gt hlt)

theorem headerLines_eq_self (h : ∀ l ∈ lines, 0x3A ∈ l.text) : headerLines lines = lines :=
  takeWhile_eq_self_iff.mpr fun l hl => decide_eq_true (h l hl)

/-- **Which bodies are delivered.** -/
theorem processMsg_eq_body_iff
    (hsize : (payload lines body).length + 1 < 2 ^ 31) :
    processMsg (msgCommand sender (payload lines body)) = some (sender.user, returnToUnix body) ↔
      IsText lines ∧ (∀ l ∈ lines, 0x3A ∈ l.text) ∧ body ≠ [] := by
  rw [processMsg_msgCommand hsize]
  constructor
  · intro h
    split_ifs at h with htype
    have hbody := returnToUnix_textLeft_iff.mp (Prod.mk.inj (Option.some.inj h)).2
    rw [headerLines_eq_self hbody.1] at htype
    exact ⟨htype, hbody⟩
  · rintro ⟨htype, hbody⟩
    have hplain : (getValue (lines.map HeaderLine.header) contentType).take 10 = textPlain := htype
    rw [headerLines_eq_self hbody.1, if_pos hplain, returnToUnix_textLeft_iff.mpr hbody]

/-- **Which texts are delivered.** -/
theorem processMsg_eq_text_iff {message : List UInt8}
    (hsize : (msnSendMessage message).length + 1 < 2 ^ 31) :
    processMsg (msgCommand sender (msnSendMessage message))
        = some (sender.user, returnToUnix message) ↔ message ≠ [] ∧ 0 ∉ message := by
  have hcolon : ∀ l ∈ messageLines, 0x3A ∈ l.text := by decide
  have hplain : (getValue (messageLines.map HeaderLine.header) contentType).take 10 = textPlain := by
    decide
  have hcut : ∀ s : List UInt8, 0 ∉ cStr s := fun s hmem =>
    absurd (mem_takeWhile_imp hmem) (by decide)
  rw [msnSendMessage, cpsMsnMessage] at hsize ⊢
  rw [processMsg_msgCommand hsize, headerLines_eq_self hcolon, if_pos hplain, textLeft,
    if_pos hcolon, Option.some_inj, Prod.mk.injEq]
  simp only [true_and]
  constructor
  · intro h
    constructor
    · rintro rfl
      exact absurd h (by decide)
    · intro hzero
      have hmem := (mem_returnToUnix (show (0 : UInt8) ≠ cr by decide) (by decide)).mpr hzero
      rw [← h, mem_returnToUnix (by decide) (by decide)] at hmem
      split_ifs at hmem
      · exact absurd hmem (by decide)
      · exact hcut _ hmem
  · rintro ⟨hne, hzero⟩
    have hwhole : cStr (returnToDos message) = returnToDos message := by
      refine takeWhile_eq_self_iff.mpr fun c hc => ?_
      refine decide_eq_true fun heq : c = 0 => hzero ?_
      exact (mem_returnToDos (show (0 : UInt8) ≠ cr by decide)).mp (heq ▸ hc)
    rw [hwhole, if_neg fun heq => hne (returnToDos_eq_nil.mp heq), returnToUnix_returnToDos]

/-- A sender. -/
def alice : Sender where
  user := asciiBytes ['a', '@', 'b']
  nick := asciiBytes ['A']
  user_ne_nil := by decide
  nick_ne_nil := by decide
  user_plain := List.all_iff_forall_prop.mp (by decide)
  nick_plain := List.all_iff_forall_prop.mp (by decide)

end Licq.Msn
