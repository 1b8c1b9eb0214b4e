import Licq.Msn.Switchboard
import Mathlib.Data.List.Nodup

/-!
# Msn/Typing — the timers of typing notifications

Who is typing in a conversation, and to whom it is told that we are, is kept in two lists of entries
with a timer each.  Entries are looked up by user and conversation; the numbers of the timers start
again when both lists are empty.

The **main result** `stays_sound_iff` says in which runs every entry is that of a user who is still
in its conversation: users and conversations that leave take their entries along in
`killConversation` alone.
-/

namespace Licq.Msn

open List Function

/-! ## Conversations -/

namespace Net

/-- The socket that a typing notification is sent to, by `MSNSendTypingNotification` and
`Send_SB_Packet`. -/
def typingSocket (n : Net) (userId : UserId) (cid : ℕ) : Option Session :=
  let convo := if cid = 0 then none else (n.convos.find? (·.id = cid)).filter (0 < ·.socketId)
  convo.bind fun convo => (n.getSocketFromFd convo.socketId).or
    ((n.socketDesc userId).bind fun id => n.sessions.find? (·.id = id))

/-- `MSNSendTypingNotification` -/
def sendTyping (n : Net) (userId : UserId) (cid : ℕ) (ok : Bool) : Net :=
  match n.typingSocket userId cid with
  | none => n.packet
  | some sock => n.packet.afterSend sock userId ok

/-- `SocketToCID` -/
def socketToCID (n : Net) (fd : ℕ) : ℕ := ((n.getFromSocket fd).map Conversation.id).getD 0

/-- `RemoveDataEvent`: the session of a data event is closed and its conversation removed. -/
def removeDataEvent (n : Net) (sock : Session) : Net :=
  { n.closeSocket sock with
    convos := n.convos.filter fun c => (n.getFromSocket sock.fd).map Conversation.id ≠ some c.id }

/-- The users of the conversations with a socket number. -/
def usersOf (n : Net) (fd : ℕ) : List (UserId × ℕ) :=
  (n.convos.filter (·.socketId = fd)).flatMap fun c => c.users.map fun u => (u, c.id)

/-- The user is in the conversation. -/
def Has (n : Net) (userId : UserId) (cid : ℕ) : Prop :=
  ∃ c ∈ n.convos, c.id = cid ∧ userId ∈ c.users

/-- Conversations are told by their numbers, and users are in them once. -/
structure Distinct (n : Net) : Prop where
  ids : (n.convos.map Conversation.id).Nodup
  users : ∀ c ∈ n.convos, c.users.Nodup
  bounds : ∀ c ∈ n.convos, 0 < c.id ∧ c.id ≤ n.lastConvoId

end Net

/-! ## Entries and timers -/

/-- The two lists: `myUserTypingTimeouts` and `myOwnerTypingTimeouts`. -/
inductive Side
  | user | owner
  deriving DecidableEq

structure TypingTimeout where
  timeoutId : ℕ
  convoId : ℕ
  userId : UserId
  deriving DecidableEq

/-- The entry is that of a user in a conversation. -/
def TypingTimeout.Of (userId : UserId) (cid : ℕ) (t : TypingTimeout) : Bool :=
  t.convoId = cid ∧ t.userId = userId

/-- What the plugin and its main loop keep. -/
structure Typing where
  net : Net
  timeouts : Side → List TypingTimeout
  myNextTimeoutId : ℕ
  /-- The timers that are registered; those for users fire once. -/
  timers : ℕ → Option Side
  /-- A timer was registered twice, or there are no more numbers. -/
  fault : Bool

namespace Typing

/-- The number that `getNextTimeoutId` gives. -/
def nextTimeoutId (s : Typing) : ℕ :=
  if s.timeouts .user = [] ∧ s.timeouts .owner = [] then 1 else s.myNextTimeoutId

/-- An entry that is no longer relevant is taken off, with its timer. -/
def drop (s : Typing) (side : Side) (userId : UserId) (cid : ℕ) : Typing :=
  match (s.timeouts side).find? (·.Of userId cid) with
  | none => s
  | some t => { s with
      timeouts := Function.update s.timeouts side ((s.timeouts side).eraseP (·.Of userId cid))
      timers := Function.update s.timers t.timeoutId none }

/-- A new entry, with a timer. -/
def add (s : Typing) (side : Side) (userId : UserId) (cid : ℕ) : Typing :=
  let id := s.nextTimeoutId
  { s with
    timeouts := Function.update s.timeouts side (s.timeouts side ++ [⟨id, cid, userId⟩])
    myNextTimeoutId := id + 1
    timers := Function.update s.timers id (some side)
    fault := s.fault || (s.timers id).isSome || decide (2 ^ 31 - 1 ≤ id) }

/-- `CMSN::setIsTyping` -/
def setIsTyping (s : Typing) (userId : UserId) (typing : Bool) (cid : ℕ) : Typing :=
  let s := s.drop .user userId cid
  if typing then s.add .user userId cid else s

/-- The conversations change. -/
def withNet (s : Typing) (net : Net) : Typing := { s with net := net }

/-- `CMSN::sendIsTyping` -/
def sendIsTyping (s : Typing) (userId : UserId) (typing : Bool) (cid : ℕ) (ok : Bool) : Typing :=
  let s := s.drop .owner userId cid
  if typing then (s.withNet (s.net.sendTyping userId cid ok)).add .owner userId cid else s

/-- `CMSN::typingTimeout`, after the main loop has removed a timer that fires once. -/
def typingTimeout (s : Typing) (id : ℕ) (ok : Bool) : Typing :=
  match (s.timeouts .user).find? (·.timeoutId = id) with
  | some _ => { s with
      timeouts := Function.update s.timeouts .user
        ((s.timeouts .user).eraseP (·.timeoutId = id)) }
  | none =>
    match (s.timeouts .owner).find? (·.timeoutId = id) with
    | some t => s.withNet (s.net.sendTyping t.userId t.convoId ok)
    | none => s

/-- A user of a conversation that ends is neither told nor known to be typing; who is not on the
contact list is left alone. -/
def clear (s : Typing) (userId : UserId) (cid : ℕ) : Typing :=
  let s := s.sendIsTyping userId false cid true
  if s.net.known userId then s.setIsTyping userId false cid else s

/-- `CMSN::killConversation` -/
def killConversation (s : Typing) (sock : Session) : Typing :=
  let cleared := (s.net.usersOf sock.fd).foldl (fun s p => s.clear p.1 p.2) s
  cleared.withNet (s.net.killConversation sock)

end Typing

/-! ## Steps -/

/-- What happens: a plugin tells that we are typing or not, a user does, or writes, a timer fires,
somebody joins or leaves, with `BYE` or because nothing can be sent to him, a connection is lost, a
session is opened, one of a data event ends, a socket is closed, somebody is added to the contact
list or removed.  What is sent comes with whether it can be sent. -/
inductive TypingStep
  | signal (userId : UserId) (active : Bool) (cid : ℕ) (ok : Bool)
  | typing (fd : ℕ) (userId : UserId)
  | text (fd : ℕ) (userId : UserId)
  | expire (id : ℕ) (ok : Bool)
  | join (sock : Session) (userId : UserId)
  | leave (sock : Session) (userId : UserId)
  | lost (sock : Session)
  | opened (fd : ℕ) (userId : UserId) (desc : Bool)
  | dataDone (sock : Session)
  | closed (sock : Session)
  | listed (userId : UserId) (known : Bool)

namespace Typing

def act (s : Typing) : TypingStep → Option Typing
  | .signal userId active cid ok => some (s.sendIsTyping userId active cid ok)
  | .typing fd userId =>
    some (if s.net.known userId then s.setIsTyping userId true (s.net.socketToCID fd) else s)
  | .text fd userId =>
    some (if s.net.known userId then s.setIsTyping userId false (s.net.socketToCID fd) else s)
  | .expire id ok => (s.timers id).map fun side =>
      typingTimeout
        (if side = .user then { s with timers := Function.update s.timers id none } else s) id ok
  | .join sock userId => some (s.withNet (s.net.addUser sock userId))
  | .leave sock userId => some (s.withNet (s.net.leave sock userId))
  | .lost sock =>
    let s := s.killConversation sock
    some (s.withNet (s.net.closeSocket sock))
  | .opened fd userId desc =>
    let sock := s.net.opened fd userId
    let net := s.net.openSession fd userId
    some ((s.killConversation sock).withNet
      (if desc then net.setSocketDesc userId (some sock.id) else net))
  | .dataDone sock => some (s.withNet (s.net.removeDataEvent sock))
  | .closed sock => some (s.withNet (s.net.closeSocket sock))
  | .listed userId known => some (s.withNet
      { s.net with known := Function.update s.net.known userId known })

def step (s : Typing) (a : TypingStep) : Option Typing := if s.fault then none else s.act a

/-- No connection, and nobody is typing. -/
def init (myOwnerId : UserId) (known : UserId → Bool) : Typing where
  net := (CMSN.start myOwnerId known).net
  timeouts := fun _ => []
  myNextTimeoutId := 1
  timers := fun _ => none
  fault := false

/-! ## What is to hold -/

/-- A user has one entry for a conversation in each list, and the timers are those of the entries.
The number 0 is that of the timer for pings. -/
structure Lists (s : Typing) : Prop where
  once : ∀ side, ((s.timeouts side).map fun t => (t.userId, t.convoId)).Nodup
  ids : ((s.timeouts .user ++ s.timeouts .owner).map TypingTimeout.timeoutId).Nodup
  timers : ∀ id side, s.timers id = some side ↔ ∃ t ∈ s.timeouts side, t.timeoutId = id

/-- The user of every entry is in the conversation of the entry. -/
def Refers (s : Typing) : Prop := ∀ side, ∀ t ∈ s.timeouts side, s.net.Has t.userId t.convoId

structure Sound (s : Typing) : Prop where
  alive : s.fault = false
  lists : s.Lists
  refers : s.Refers

/-- The user has no entry for the conversation of a socket. -/
def NoEntry (s : Typing) (sock : Session) (userId : UserId) : Prop :=
  ∀ side, ∀ t ∈ s.timeouts side, t.userId = userId →
    (s.net.getFromSocket sock.fd).map Conversation.id ≠ some t.convoId

/-- Everybody who is typing in a conversation of the socket is on the contact list. -/
def TypersKnown (s : Typing) (fd : ℕ) : Prop :=
  ∀ t ∈ s.timeouts .user, (∃ c ∈ s.net.convos, c.socketId = fd ∧ c.id = t.convoId) →
    s.net.known t.userId = true

/-- We are told to be typing to users of the conversation alone, and typing is told by these; who
leaves has no entry for the conversation, and what is sent for a timer gets through where it could
make the user leave; who is typing when a connection is lost is on the contact list; a data event
that ends has no entries in its conversation; and there are numbers left for timers. -/
def Ok (s : Typing) : TypingStep → Prop
  | .signal userId active cid ok => active = true →
      s.net.Has userId cid ∧ (s.drop .owner userId cid).nextTimeoutId < 2 ^ 31 - 1 ∧
        (ok = true ∨ ∀ sock ∈ s.net.typingSocket userId cid,
          (s.net.getFromSocket sock.fd).map Conversation.id ≠ some cid ∧ s.NoEntry sock userId)
  | .typing fd userId => s.net.known userId = true →
      s.net.Has userId (s.net.socketToCID fd) ∧
        (s.drop .user userId (s.net.socketToCID fd)).nextTimeoutId < 2 ^ 31 - 1
  | .expire id ok => ∀ t ∈ s.timeouts .owner, t.timeoutId = id →
      ok = true ∨ ∀ sock ∈ s.net.typingSocket t.userId t.convoId, s.NoEntry sock t.userId
  | .leave sock userId => s.NoEntry sock userId
  | .lost sock => s.TypersKnown sock.fd
  | .opened fd _ _ => s.TypersKnown fd
  | .dataDone sock => ∀ side, ∀ t ∈ s.timeouts side,
      (s.net.getFromSocket sock.fd).map Conversation.id ≠ some t.convoId
  | _ => True

end Typing

/-! ## What leaves a conversation -/

namespace Net

variable {n : Net} {u : UserId} {cid : ℕ}

theorem Distinct.eq_of_id (h : n.Distinct) {c d : Conversation} (hc : c ∈ n.convos)
    (hd : d ∈ n.convos) (hid : c.id = d.id) : c = d :=
  inj_on_of_nodup_map h.ids hc hd hid

theorem getFromSocket_mem {fd : ℕ} {c : Conversation} (h : n.getFromSocket fd = some c) :
    c ∈ n.convos ∧ c.socketId = fd :=
  ⟨mem_of_find?_eq_some h, by simpa using find?_some h⟩

variable {n' : Net}

/-- The conversations are the same. -/
theorem Distinct.same (h : n.Distinct) (hconvos : n'.convos = n.convos)
    (hlast : n'.lastConvoId = n.lastConvoId) : n'.Distinct where
  ids := hconvos ▸ h.ids
  users := fun c hc => h.users c (hconvos ▸ hc)
  bounds := fun c hc => hlast ▸ h.bounds c (hconvos ▸ hc)

/-- Some conversations are left. -/
theorem Distinct.filter (h : n.Distinct) {p : Conversation → Bool}
    (hconvos : n'.convos = n.convos.filter p) (hlast : n'.lastConvoId = n.lastConvoId) :
    n'.Distinct where
  ids := hconvos ▸ h.ids.sublist (filter_sublist.map _)
  users := fun c hc => h.users c (mem_of_mem_filter (hconvos ▸ hc))
  bounds := fun c hc => hlast ▸ h.bounds c (mem_of_mem_filter (hconvos ▸ hc))

/-- The users of one conversation change. -/
theorem Distinct.mapUsers (h : n.Distinct) {f : Conversation → Conversation}
    (hid : ∀ c, (f c).id = c.id) (husers : ∀ c ∈ n.convos, (f c).users.Nodup)
    (hconvos : n'.convos = n.convos.map f) (hlast : n'.lastConvoId = n.lastConvoId) :
    n'.Distinct := by
  refine ⟨?_, fun c hc => ?_, fun c hc => ?_⟩
  · have hids : Conversation.id ∘ f = Conversation.id := funext hid
    rw [hconvos, map_map, hids]
    exact h.ids
  · obtain ⟨d, hd, rfl⟩ := mem_map.mp (hconvos ▸ hc)
    exact husers d hd
  · obtain ⟨d, hd, rfl⟩ := mem_map.mp (hconvos ▸ hc)
    rw [hid, hlast]
    exact h.bounds d hd

theorem Distinct.leave (h : n.Distinct) (sock : Session) (userId : UserId) :
    (n.leave sock userId).Distinct := by
  have hleft : ∀ convos, convos = n.convos.map (fun c =>
      if (n.getFromSocket sock.fd).map Conversation.id = some c.id then
        { c with users := c.users.erase userId } else c) →
      ∀ n' : Net, n'.convos = convos → n'.lastConvoId = n.lastConvoId → n'.Distinct := by
    rintro convos rfl n' hconvos hlast
    refine h.mapUsers (fun c => ?_) (fun c hc => ?_) hconvos hlast
    · split_ifs <;> rfl
    · split_ifs
      · exact (h.users c hc).erase userId
      · exact h.users c hc
  rw [Net.leave]
  dsimp only
  split_ifs
  · exact (hleft _ rfl { n with convos := _ } rfl rfl).filter rfl rfl
  · exact hleft _ rfl _ rfl rfl

/-- **Who is still in a conversation** when somebody has left a session. -/
theorem has_leave_iff (h : n.Distinct) (sock : Session) (userId : UserId) :
    (n.leave sock userId).Has u cid ↔
      n.Has u cid ∧ (u = userId → (n.getFromSocket sock.fd).map Conversation.id ≠ some cid) := by
  constructor
  · intro hhas
    have hleft : ∃ d ∈ n.convos, d.id = cid ∧ u ∈ d.users ∧
        (u = userId → (n.getFromSocket sock.fd).map Conversation.id ≠ some d.id) := by
      obtain ⟨c, hc, rfl, hu⟩ := hhas
      have hc : c ∈ n.convos.map fun c =>
          if (n.getFromSocket sock.fd).map Conversation.id = some c.id then
            { c with users := c.users.erase userId } else c := by
        rw [Net.leave] at hc
        dsimp only at hc
        split_ifs at hc
        · exact mem_of_mem_filter hc
        · exact hc
      obtain ⟨d, hd, rfl⟩ := mem_map.mp hc
      by_cases htarget : (n.getFromSocket sock.fd).map Conversation.id = some d.id
      · rw [if_pos htarget] at hu ⊢
        obtain ⟨hne, hmem⟩ := (h.users d hd).mem_erase_iff.mp hu
        exact ⟨d, hd, rfl, hmem, fun heq => absurd heq hne⟩
      · rw [if_neg htarget] at hu ⊢
        exact ⟨d, hd, rfl, hu, fun _ => htarget⟩
    obtain ⟨d, hd, rfl, hu, hne⟩ := hleft
    exact ⟨⟨d, hd, rfl, hu⟩, hne⟩
  · rintro ⟨⟨d, hd, rfl, hu⟩, hne⟩
    rw [Net.leave]
    dsimp only
    by_cases htarget : (n.getFromSocket sock.fd).map Conversation.id = some d.id
    · -- somebody else is left in the conversation
      have hmem : u ∈ d.users.erase userId :=
        (h.users d hd).mem_erase_iff.mpr ⟨fun heq => hne heq htarget, hu⟩
      obtain ⟨c, hc, hid⟩ := Option.map_eq_some_iff.mp htarget
      obtain rfl : c = d := h.eq_of_id (getFromSocket_mem hc).1 hd hid
      have hopen : ¬ n.Closes sock.fd userId := fun hcloses =>
        ne_nil_of_mem hmem (hcloses c hc)
      rw [if_neg hopen]
      refine ⟨_, mem_map.mpr ⟨c, hd, rfl⟩, ?_, ?_⟩
      · rw [if_pos htarget]
      · rw [if_pos htarget]
        exact hmem
    · have hkept : d ∈ n.convos.map fun c =>
          if (n.getFromSocket sock.fd).map Conversation.id = some c.id then
            { c with users := c.users.erase userId } else c :=
        mem_map.mpr ⟨d, hd, if_neg htarget⟩
      split_ifs
      · exact ⟨d, mem_filter.mpr ⟨hkept, decide_eq_true htarget⟩, rfl, hu⟩
      · exact ⟨d, hkept, rfl, hu⟩

/-- A notification that cannot be sent has its user leave. -/
theorem has_sendTyping_iff (h : n.Distinct) {userId : UserId} {cid' : ℕ} {ok : Bool} :
    (n.sendTyping userId cid' ok).Has u cid ↔
      n.Has u cid ∧ (ok = true ∨ ∀ sock ∈ n.typingSocket userId cid', u = userId →
        (n.getFromSocket sock.fd).map Conversation.id ≠ some cid) := by
  rw [sendTyping]
  cases n.typingSocket userId cid' with
  | none => exact ⟨fun hhas => ⟨hhas, Or.inr nofun⟩, fun hhas => hhas.1⟩
  | some sock =>
    simp only [Option.mem_def, Option.some.injEq, forall_eq']
    cases ok with
    | true => exact ⟨fun hhas => ⟨hhas, Or.inl rfl⟩, fun hhas => hhas.1⟩
    | false =>
      simp only [Bool.false_eq_true, false_or]
      have hpacket : n.packet.Distinct := h.same rfl rfl
      exact has_leave_iff hpacket sock userId

theorem Distinct.sendTyping (h : n.Distinct) (userId : UserId) (cid' : ℕ) (ok : Bool) :
    (n.sendTyping userId cid' ok).Distinct := by
  have hpacket : n.packet.Distinct := h.same rfl rfl
  rw [Net.sendTyping]
  cases n.typingSocket userId cid' with
  | none => exact hpacket
  | some sock =>
    cases ok with
    | true => exact hpacket
    | false => exact hpacket.leave sock userId

theorem has_removeDataEvent_iff (sock : Session) :
    (n.removeDataEvent sock).Has u cid ↔
      n.Has u cid ∧ (n.getFromSocket sock.fd).map Conversation.id ≠ some cid := by
  constructor
  · rintro ⟨c, hc, rfl, hu⟩
    obtain ⟨hc, hne⟩ := mem_filter.mp hc
    exact ⟨⟨c, hc, rfl, hu⟩, of_decide_eq_true hne⟩
  · rintro ⟨⟨c, hc, rfl, hu⟩, hne⟩
    exact ⟨c, mem_filter.mpr ⟨hc, decide_eq_true hne⟩, rfl, hu⟩

theorem Distinct.addUser (h : n.Distinct) (sock : Session) (userId : UserId) :
    (n.addUser sock userId).Distinct := by
  rw [Net.addUser]
  cases n.getFromSocket sock.fd with
  | none =>
    refine ⟨?_, fun c hc => ?_, fun c hc => ?_⟩
    · rw [map_append, nodup_append']
      refine ⟨h.ids, nodup_singleton _, ?_⟩
      intro id hid hnew
      obtain ⟨c, hc, rfl⟩ := mem_map.mp hid
      have hle := (h.bounds c hc).2
      have heq : c.id = n.lastConvoId + 1 := mem_singleton.mp hnew
      omega
    · rcases mem_append.mp hc with hc | hc
      · exact h.users c hc
      · rw [mem_singleton.mp hc]
        exact nodup_singleton userId
    · rcases mem_append.mp hc with hc | hc
      · exact ⟨(h.bounds c hc).1, (h.bounds c hc).2.trans (Nat.le_succ _)⟩
      · rw [mem_singleton.mp hc]
        exact ⟨Nat.succ_pos _, Nat.le_refl _⟩
  | some convo =>
    refine h.mapUsers (fun c => ?_) (fun c hc => ?_) rfl rfl
    · split_ifs <;> rfl
    · split_ifs with hnew
      · exact nodup_append'.mpr ⟨h.users c hc, nodup_singleton userId,
          disjoint_singleton.mpr hnew.2⟩
      · exact h.users c hc

/-- Nobody leaves when somebody joins. -/
theorem Has.addUser (h : n.Has u cid) (sock : Session) (userId : UserId) :
    (n.addUser sock userId).Has u cid := by
  obtain ⟨c, hc, hid, hu⟩ := h
  rw [Net.addUser]
  cases n.getFromSocket sock.fd with
  | none => exact ⟨c, mem_append_left _ hc, hid, hu⟩
  | some convo =>
    refine ⟨_, mem_map.mpr ⟨c, hc, rfl⟩, ?_, ?_⟩
    · split_ifs <;> exact hid
    · split_ifs
      · exact mem_append_left _ hu
      · exact hu

theorem has_killConversation_iff (sock : Session) :
    (n.killConversation sock).Has u cid ↔
      ∃ c ∈ n.convos, c.socketId ≠ sock.fd ∧ c.id = cid ∧ u ∈ c.users := by
  constructor
  · rintro ⟨c, hc, hid, hu⟩
    obtain ⟨hc, hfd⟩ := mem_filter.mp hc
    exact ⟨c, hc, of_decide_eq_true hfd, hid, hu⟩
  · rintro ⟨c, hc, hfd, hid, hu⟩
    exact ⟨c, mem_filter.mpr ⟨hc, decide_eq_true hfd⟩, hid, hu⟩

theorem mem_usersOf {fd : ℕ} :
    (u, cid) ∈ n.usersOf fd ↔ ∃ c ∈ n.convos, c.socketId = fd ∧ c.id = cid ∧ u ∈ c.users := by
  simp only [usersOf, mem_flatMap, mem_filter, mem_map, Prod.mk.injEq,
    decide_eq_true_eq]
  constructor
  · rintro ⟨c, ⟨hc, hfd⟩, v, hv, rfl, rfl⟩
    exact ⟨c, hc, hfd, rfl, hv⟩
  · rintro ⟨c, hc, hfd, rfl, hu⟩
    exact ⟨c, ⟨hc, hfd⟩, u, hu, rfl, rfl⟩

end Net

/-! ## Entries that are taken off and added -/

/-- What is left when the only element with a property is taken off. -/
theorem mem_eraseP_iff {α : Type*} {l : List α} {p : α → Bool} (hnodup : l.Nodup)
    (honly : ∀ a ∈ l, ∀ b ∈ l, p a = true → p b = true → a = b) {a : α} :
    a ∈ l.eraseP p ↔ a ∈ l ∧ ¬ p a = true := by
  refine ⟨fun ha => ⟨mem_of_mem_eraseP ha, fun hp => ?_⟩, fun h =>
    (mem_eraseP_of_neg h.2).mpr h.1⟩
  have hmem := mem_of_mem_eraseP ha
  obtain ⟨b, l₁, l₂, hl₁, hb, hl, herase⟩ := exists_of_eraseP hmem hp
  obtain rfl : a = b := honly a hmem b (hl ▸ mem_append_right _ mem_cons_self) hp hb
  rw [herase] at ha
  rw [hl, nodup_append'] at hnodup
  rcases mem_append.mp ha with ha | ha
  · exact hl₁ a ha hp
  · exact (nodup_cons.mp hnodup.2.1).1 ha

namespace Typing

variable {s : Typing} {side sd : Side} {t : TypingTimeout} {u : UserId} {cid : ℕ}

/-- The lists and the timers are as they should be, and the numbers of entries have been given. -/
structure Core (s : Typing) : Prop where
  lists : s.Lists
  given : ∀ side, ∀ t ∈ s.timeouts side, t.timeoutId < s.myNextTimeoutId

variable {t' : TypingTimeout} {ok : Bool}

theorem Lists.side_eq (h : s.Lists) (ht : t ∈ s.timeouts side)
    (ht' : t' ∈ s.timeouts sd) (hid : t.timeoutId = t'.timeoutId) : side = sd := by
  have hside := (h.timers t.timeoutId side).mpr ⟨t, ht, rfl⟩
  have hsd := (h.timers t.timeoutId sd).mpr ⟨t', ht', hid.symm⟩
  exact Option.some.inj (hside.symm.trans hsd)

theorem Lists.nodup_ids (h : s.Lists) (side : Side) :
    ((s.timeouts side).map TypingTimeout.timeoutId).Nodup := by
  have hids := h.ids
  rw [map_append, nodup_append'] at hids
  cases side with
  | user => exact hids.1
  | owner => exact hids.2.1

theorem Lists.eq_of_id (h : s.Lists) (ht : t ∈ s.timeouts side)
    (ht' : t' ∈ s.timeouts side) (hid : t.timeoutId = t'.timeoutId) : t = t' :=
  inj_on_of_nodup_map (h.nodup_ids side) ht ht' hid

theorem Lists.eq_of_pair (h : s.Lists) (ht : t ∈ s.timeouts side)
    (ht' : t' ∈ s.timeouts side) (hpair : (t.userId, t.convoId) = (t'.userId, t'.convoId)) :
    t = t' :=
  inj_on_of_nodup_map (h.once side) ht ht' hpair

/-- The numbers are told apart, where they are in each list and the lists have none in common. -/
theorem nodup_ids_of (hside : ∀ side, ((s.timeouts side).map TypingTimeout.timeoutId).Nodup)
    (hapart : ∀ t ∈ s.timeouts .user, ∀ t' ∈ s.timeouts .owner, t.timeoutId ≠ t'.timeoutId) :
    ((s.timeouts .user ++ s.timeouts .owner).map TypingTimeout.timeoutId).Nodup := by
  rw [map_append, nodup_append']
  refine ⟨hside .user, hside .owner, fun id hu ho => ?_⟩
  obtain ⟨t, ht, rfl⟩ := mem_map.mp hu
  obtain ⟨t', ht', hid⟩ := mem_map.mp ho
  exact hapart t ht t' ht' hid.symm

/-- The only entry with a property is taken off, with its timer. -/
def erase (s : Typing) (side : Side) (p : TypingTimeout → Bool) (id : ℕ) : Typing :=
  { s with
    timeouts := Function.update s.timeouts side ((s.timeouts side).eraseP p)
    timers := Function.update s.timers id none }

@[simp] theorem erase_timeouts (p : TypingTimeout → Bool) (id : ℕ) :
    (s.erase side p id).timeouts =
      Function.update s.timeouts side ((s.timeouts side).eraseP p) := rfl

@[simp] theorem erase_timers (p : TypingTimeout → Bool) (id : ℕ) :
    (s.erase side p id).timers = Function.update s.timers id none := rfl

@[simp] theorem add_timeouts :
    (s.add side u cid).timeouts = Function.update s.timeouts side
      (s.timeouts side ++ [⟨s.nextTimeoutId, cid, u⟩]) := rfl

@[simp] theorem add_timers :
    (s.add side u cid).timers = Function.update s.timers s.nextTimeoutId (some side) := rfl

section Erase

variable {p : TypingTimeout → Bool} {t₀ : TypingTimeout}

theorem mem_erase_iff (h : s.Core) (ht₀ : t₀ ∈ s.timeouts side)
    (hp : ∀ t ∈ s.timeouts side, p t = true ↔ t = t₀) :
    t ∈ (s.erase side p t₀.timeoutId).timeouts sd ↔
      t ∈ s.timeouts sd ∧ ¬ (sd = side ∧ p t = true) := by
  by_cases hsd : sd = side
  · subst hsd
    have honly : ∀ a ∈ s.timeouts sd, ∀ b ∈ s.timeouts sd, p a = true → p b = true → a = b :=
      fun a ha b hb hpa hpb => ((hp a ha).mp hpa).trans ((hp b hb).mp hpb).symm
    rw [erase_timeouts, update_self, mem_eraseP_iff (h.lists.once sd).of_map honly]
    simp only [true_and]
  · rw [erase_timeouts, update_of_ne hsd]
    simp only [hsd, false_and, not_false_eq_true, and_true]

theorem Core.erase (h : s.Core) (ht₀ : t₀ ∈ s.timeouts side)
    (hp : ∀ t ∈ s.timeouts side, p t = true ↔ t = t₀) :
    (s.erase side p t₀.timeoutId).Core := by
  have hmem : ∀ {sd t}, t ∈ (s.erase side p t₀.timeoutId).timeouts sd ↔
      t ∈ s.timeouts sd ∧ ¬ (sd = side ∧ p t = true) := mem_erase_iff h ht₀ hp
  have hsub : ∀ sd, ((s.erase side p t₀.timeoutId).timeouts sd).Sublist (s.timeouts sd) := by
    intro sd
    by_cases hsd : sd = side
    · subst hsd
      rw [erase_timeouts, update_self]
      exact eraseP_sublist
    · rw [erase_timeouts, update_of_ne hsd]
  refine ⟨⟨fun sd => (h.lists.once sd).sublist ((hsub sd).map _), ?_, fun id sd => ?_⟩,
    fun sd t ht => h.given sd t (hmem.mp ht).1⟩
  · exact h.lists.ids.sublist (((hsub _).append (hsub _)).map _)
  · by_cases hid : id = t₀.timeoutId
    · subst hid
      rw [erase_timers, update_self]
      refine ⟨nofun, ?_⟩
      rintro ⟨t, ht', hid⟩
      obtain ⟨ht, hne⟩ := hmem.mp ht'
      obtain rfl := h.lists.side_eq ht ht₀ hid
      obtain rfl := h.lists.eq_of_id ht ht₀ hid
      exact absurd ⟨rfl, (hp t ht).mpr rfl⟩ hne
    · rw [erase_timers, update_of_ne hid, h.lists.timers]
      refine ⟨fun ⟨t, ht, htid⟩ => ⟨t, hmem.mpr ⟨ht, ?_⟩, htid⟩, fun ⟨t, ht, htid⟩ =>
        ⟨t, (hmem.mp ht).1, htid⟩⟩
      rintro ⟨rfl, hpt⟩
      rw [(hp t ht).mp hpt] at htid
      exact hid htid.symm

end Erase

theorem of_iff : t.Of u cid = true ↔ (t.userId, t.convoId) = (u, cid) := by
  simp only [TypingTimeout.Of, decide_eq_true_eq, Prod.mk.injEq]
  exact and_comm

/-- An entry that is no longer relevant is the only one of its user and conversation. -/
theorem drop_eq (h : s.Core) (side : Side) (u : UserId) (cid : ℕ) :
    (s.drop side u cid = s ∧ ∀ t ∈ s.timeouts side, ¬ t.Of u cid = true) ∨
      ∃ t₀ ∈ s.timeouts side, s.drop side u cid = s.erase side (·.Of u cid) t₀.timeoutId ∧
        ∀ t ∈ s.timeouts side, t.Of u cid = true ↔ t = t₀ := by
  rw [drop]
  cases hf : (s.timeouts side).find? (·.Of u cid) with
  | none => exact Or.inl ⟨rfl, fun t ht => find?_eq_none.mp hf t ht⟩
  | some t₀ =>
    have ht₀ := mem_of_find?_eq_some hf
    have hof := find?_some hf
    refine Or.inr ⟨t₀, ht₀, rfl, fun t ht => ⟨fun ht' => ?_, fun heq => heq ▸ hof⟩⟩
    exact h.lists.eq_of_pair ht ht₀ ((of_iff.mp ht').trans (of_iff.mp hof).symm)

theorem Core.drop (h : s.Core) (side : Side) (u : UserId) (cid : ℕ) : (s.drop side u cid).Core := by
  rcases drop_eq h side u cid with ⟨heq, -⟩ | ⟨t₀, ht₀, heq, hof⟩
  · rwa [heq]
  · rw [heq]
    exact h.erase ht₀ hof

theorem mem_drop_iff (h : s.Core) :
    t ∈ (s.drop side u cid).timeouts sd ↔
      t ∈ s.timeouts sd ∧ ¬ (sd = side ∧ (t.userId, t.convoId) = (u, cid)) := by
  rw [← of_iff]
  rcases drop_eq h side u cid with ⟨heq, hnone⟩ | ⟨t₀, ht₀, heq, hof⟩
  · rw [heq]
    exact ⟨fun ht => ⟨ht, fun hof => hnone t (hof.1 ▸ ht) hof.2⟩, fun ht => ht.1⟩
  · rw [heq]
    exact mem_erase_iff h ht₀ hof

@[simp] theorem drop_net : (s.drop side u cid).net = s.net := by
  rw [drop]
  cases (s.timeouts side).find? (·.Of u cid) <;> rfl

@[simp] theorem drop_fault : (s.drop side u cid).fault = s.fault := by
  rw [drop]
  cases (s.timeouts side).find? (·.Of u cid) <;> rfl

/-- No entry has the number that is given next. -/
theorem Core.fresh (h : s.Core) (ht : t ∈ s.timeouts side) : t.timeoutId < s.nextTimeoutId := by
  rw [nextTimeoutId]
  split_ifs with hempty
  · have hnil : s.timeouts side = [] := by
      cases side
      · exact hempty.1
      · exact hempty.2
    rw [hnil] at ht
    cases ht
  · exact h.given side t ht

theorem Core.timers_next (h : s.Core) : s.timers s.nextTimeoutId = none := by
  cases hsd : s.timers s.nextTimeoutId with
  | none => rfl
  | some sd =>
    obtain ⟨t, ht, hid⟩ := (h.lists.timers _ _).mp hsd
    exact absurd hid (h.fresh ht).ne

theorem mem_add_iff :
    t ∈ (s.add side u cid).timeouts sd ↔
      t ∈ s.timeouts sd ∨ sd = side ∧ t = ⟨s.nextTimeoutId, cid, u⟩ := by
  by_cases hsd : sd = side
  · subst hsd
    rw [add_timeouts, update_self, mem_append, mem_singleton]
    simp only [true_and]
  · rw [add_timeouts, update_of_ne hsd]
    simp only [hsd, false_and, or_false]

theorem Core.add_fault (h : s.Core) :
    (s.add side u cid).fault = (s.fault || decide (2 ^ 31 - 1 ≤ s.nextTimeoutId)) := by
  rw [add, h.timers_next]
  simp only [Option.isSome_none, Bool.or_false]

theorem Core.add (h : s.Core)
    (hnew : ∀ t ∈ s.timeouts side, (t.userId, t.convoId) ≠ (u, cid)) : (s.add side u cid).Core := by
  have hself : (s.add side u cid).timeouts side =
      s.timeouts side ++ [⟨s.nextTimeoutId, cid, u⟩] := update_self ..
  have hother : ∀ sd, sd ≠ side → (s.add side u cid).timeouts sd = s.timeouts sd :=
    fun sd hsd => update_of_ne hsd ..
  have hids : ∀ sd, (((s.add side u cid).timeouts sd).map TypingTimeout.timeoutId).Nodup := by
    intro sd
    by_cases hsd : sd = side
    · subst hsd
      rw [hself, map_append, nodup_append']
      refine ⟨h.lists.nodup_ids sd, nodup_singleton _, disjoint_singleton.mpr ?_⟩
      intro hmem
      obtain ⟨t, ht, hid⟩ := mem_map.mp hmem
      exact (h.fresh ht).ne hid
    · rw [hother sd hsd]
      exact h.lists.nodup_ids sd
  refine ⟨⟨fun sd => ?_, nodup_ids_of hids ?_, fun id sd => ?_⟩, fun sd t ht => ?_⟩
  · by_cases hsd : sd = side
    · subst hsd
      rw [hself, map_append, nodup_append']
      refine ⟨h.lists.once sd, nodup_singleton _, disjoint_singleton.mpr ?_⟩
      intro hmem
      obtain ⟨t, ht, hpair⟩ := mem_map.mp hmem
      exact hnew t ht hpair
    · rw [hother sd hsd]
      exact h.lists.once sd
  · intro t ht t' ht' hid
    rcases mem_add_iff.mp ht with ht | ⟨hsd, rfl⟩ <;>
      rcases mem_add_iff.mp ht' with ht' | ⟨hsd', rfl⟩
    · cases h.lists.side_eq ht ht' hid
    · exact (h.fresh ht).ne hid
    · exact (h.fresh ht').ne hid.symm
    · cases hsd.trans hsd'.symm
  · by_cases hid : id = s.nextTimeoutId
    · subst hid
      rw [add_timers, update_self]
      constructor
      · intro hsd
        exact ⟨_, mem_add_iff.mpr (Or.inr ⟨(Option.some.inj hsd).symm, rfl⟩), rfl⟩
      · rintro ⟨t, ht, hid⟩
        rcases mem_add_iff.mp ht with ht | ⟨rfl, -⟩
        · exact absurd hid (h.fresh ht).ne
        · rfl
    · rw [add_timers, update_of_ne hid, h.lists.timers]
      constructor
      · rintro ⟨t, ht, htid⟩
        exact ⟨t, mem_add_iff.mpr (Or.inl ht), htid⟩
      · rintro ⟨t, ht, htid⟩
        rcases mem_add_iff.mp ht with ht | ⟨-, rfl⟩
        · exact ⟨t, ht, htid⟩
        · exact absurd htid.symm hid
  · rcases mem_add_iff.mp ht with ht | ⟨-, rfl⟩
    · exact (h.fresh ht).trans (Nat.lt_succ_self _)
    · exact Nat.lt_succ_self _

/-! ## A conversation that ends -/

theorem Core.withNet (h : s.Core) (net : Net) : (s.withNet net).Core := ⟨⟨h.1.1, h.1.2, h.1.3⟩, h.2⟩

theorem clear_eq : s.clear u cid = if s.net.known u then (s.drop .owner u cid).drop .user u cid
    else s.drop .owner u cid := by
  have hnet : (s.sendIsTyping u false cid true).net = s.net := drop_net
  rw [clear, hnet]
  rfl

theorem Core.clear (h : s.Core) (u : UserId) (cid : ℕ) : (s.clear u cid).Core := by
  rw [clear_eq]
  split_ifs
  · exact (h.drop .owner u cid).drop .user u cid
  · exact h.drop .owner u cid

@[simp] theorem clear_net : (s.clear u cid).net = s.net := by
  rw [clear_eq]
  split_ifs <;> simp only [drop_net]

@[simp] theorem clear_fault : (s.clear u cid).fault = s.fault := by
  rw [clear_eq]
  split_ifs <;> simp only [drop_fault]

theorem mem_clear_iff (h : s.Core) :
    t ∈ (s.clear u cid).timeouts sd ↔ t ∈ s.timeouts sd ∧
      ¬ ((t.userId, t.convoId) = (u, cid) ∧ (sd = .owner ∨ s.net.known t.userId = true)) := by
  rw [clear_eq]
  split_ifs with hknown
  · rw [mem_drop_iff (h.drop .owner u cid), mem_drop_iff h]
    cases sd <;> grind
  · rw [mem_drop_iff h]
    grind

/-- The conversations of a socket are cleared one user after the other. -/
theorem clear_all (h : s.Core) (ps : List (UserId × ℕ)) :
    let s' := ps.foldl (fun s p => s.clear p.1 p.2) s
    s'.Core ∧ s'.net = s.net ∧ s'.fault = s.fault ∧ ∀ sd t, t ∈ s'.timeouts sd ↔
      t ∈ s.timeouts sd ∧
        ¬ ((t.userId, t.convoId) ∈ ps ∧ (sd = .owner ∨ s.net.known t.userId = true)) := by
  induction ps generalizing s with
  | nil => exact ⟨h, rfl, rfl, fun sd t => by simp⟩
  | cons p ps ih =>
    obtain ⟨hcore, hnet, hfault, hmem⟩ := ih (h.clear p.1 p.2)
    refine ⟨hcore, hnet.trans clear_net, hfault.trans clear_fault, fun sd t => ?_⟩
    rw [foldl_cons, hmem, mem_clear_iff h, clear_net, mem_cons]
    tauto

/-- What `killConversation` leaves. -/
theorem killConversation_spec (h : s.Core) (sock : Session) :
    (s.killConversation sock).Core ∧ (s.killConversation sock).fault = s.fault ∧
      (s.killConversation sock).net = s.net.killConversation sock ∧
        ∀ sd t, t ∈ (s.killConversation sock).timeouts sd ↔ t ∈ s.timeouts sd ∧
          ¬ ((t.userId, t.convoId) ∈ s.net.usersOf sock.fd ∧
            (sd = .owner ∨ s.net.known t.userId = true)) := by
  obtain ⟨hcore, hnet, hfault, hmem⟩ := clear_all h (s.net.usersOf sock.fd)
  exact ⟨hcore.withNet _, hfault, rfl, hmem⟩

/-! ## Steps -/

/-- Besides, conversations are told by their numbers. -/
structure Inv (s : Typing) : Prop where
  core : s.Core
  distinct : s.net.Distinct

theorem Core.sound_iff_refers (h : s.Core) : s.Sound ↔ s.fault = false ∧ s.Refers :=
  ⟨fun hs => ⟨hs.1, hs.3⟩, fun hs => ⟨hs.1, h.1, hs.2⟩⟩

/-- Fewer entries, and the same conversations. -/
theorem Refers.of_sub (h : s.Refers) {s' : Typing} (hnet : s'.net = s.net)
    (hsub : ∀ sd, ∀ t ∈ s'.timeouts sd, t ∈ s.timeouts sd) : s'.Refers :=
  fun sd t ht => hnet ▸ h sd t (hsub sd t ht)

theorem Refers.drop (h : s.Refers) (hcore : s.Core) (side : Side) (u : UserId) (cid : ℕ) :
    (s.drop side u cid).Refers :=
  h.of_sub drop_net fun _ _ ht => ((mem_drop_iff hcore).mp ht).1

theorem Core.absent (h : s.Core) :
    ∀ t ∈ (s.drop side u cid).timeouts side, (t.userId, t.convoId) ≠ (u, cid) :=
  fun _ ht hpair => ((mem_drop_iff h).mp ht).2 ⟨rfl, hpair⟩

/-- An entry is added soundly, if its user is in the conversation. -/
theorem Core.sound_add_iff (h : s.Core)
    (hnew : ∀ t ∈ s.timeouts side, (t.userId, t.convoId) ≠ (u, cid)) :
    (s.add side u cid).Sound ↔ (s.fault = false ∧ s.nextTimeoutId < 2 ^ 31 - 1) ∧ s.Refers ∧
      s.net.Has u cid := by
  rw [(h.add hnew).sound_iff_refers, h.add_fault]
  refine and_congr (by simp only [Bool.or_eq_false_iff, decide_eq_false_iff_not, not_le]) ?_
  constructor
  · intro hrefers
    exact ⟨fun sd t ht => hrefers sd t (mem_add_iff.mpr (Or.inl ht)),
      hrefers side _ (mem_add_iff.mpr (Or.inr ⟨rfl, rfl⟩))⟩
  · rintro ⟨hrefers, hhas⟩ sd t ht
    rcases mem_add_iff.mp ht with ht | ⟨-, rfl⟩
    · exact hrefers sd t ht
    · exact hhas

/-- A notification leaves the entries right, if it is sent or the user has no other entry. -/
theorem refers_sendTyping_iff (h : s.Refers) (hdistinct : s.net.Distinct) :
    (s.withNet (s.net.sendTyping u cid ok)).Refers ↔
      (ok = true ∨ ∀ sock ∈ s.net.typingSocket u cid, s.NoEntry sock u) := by
  constructor
  · intro hrefers
    cases ok with
    | true => exact Or.inl rfl
    | false =>
      refine Or.inr fun sock hsock sd t ht hu => ?_
      have hhas := (Net.has_sendTyping_iff hdistinct).mp (hrefers sd t ht)
      exact hhas.2.resolve_left (by simp) sock hsock hu
  · rintro hok sd t ht
    refine (Net.has_sendTyping_iff hdistinct).mpr
      ⟨h sd t ht, hok.imp_right fun hall sock hsock hu => ?_⟩
    exact hall sock hsock sd t ht hu

theorem sound_setIsTyping_iff (h : s.Inv) (hs : s.Sound) :
    (s.setIsTyping u true cid).Sound ↔
      s.net.Has u cid ∧ (s.drop .user u cid).nextTimeoutId < 2 ^ 31 - 1 := by
  have hcore := h.core.drop .user u cid
  have hrefers := hs.refers.drop h.core .user u cid
  rw [show s.setIsTyping u true cid = (s.drop .user u cid).add .user u cid from rfl,
    hcore.sound_add_iff h.core.absent, drop_net, drop_fault]
  exact ⟨fun ⟨hf, _, hhas⟩ => ⟨hhas, hf.2⟩, fun ⟨hhas, hf⟩ => ⟨⟨hs.alive, hf⟩, hrefers, hhas⟩⟩

theorem sendIsTyping_true : s.sendIsTyping u true cid ok =
    ((s.drop .owner u cid).withNet (s.net.sendTyping u cid ok)).add .owner u cid := by
  show ((s.drop .owner u cid).withNet
    ((s.drop .owner u cid).net.sendTyping u cid ok)).add .owner u cid = _
  rw [drop_net]

theorem sound_sendIsTyping_iff (h : s.Inv) (hs : s.Sound) :
    (s.sendIsTyping u true cid ok).Sound ↔ s.Ok (.signal u true cid ok) := by
  have hcore := h.core.drop .owner u cid
  have hrefers := hs.refers.drop h.core .owner u cid
  have hnet : ((s.drop .owner u cid).withNet (s.net.sendTyping u cid ok)).Refers ↔
      (ok = true ∨ ∀ sock ∈ s.net.typingSocket u cid, (s.drop .owner u cid).NoEntry sock u) := by
    have hdistinct : (s.drop .owner u cid).net.Distinct := by
      rw [drop_net]
      exact h.distinct
    have hiff : ((s.drop .owner u cid).withNet
        ((s.drop .owner u cid).net.sendTyping u cid ok)).Refers ↔ _ :=
      refers_sendTyping_iff hrefers hdistinct
    rwa [drop_net] at hiff
  have habsent : ∀ t ∈ ((s.drop .owner u cid).withNet (s.net.sendTyping u cid ok)).timeouts .owner,
      (t.userId, t.convoId) ≠ (u, cid) := h.core.absent
  rw [sendIsTyping_true, (hcore.withNet _).sound_add_iff habsent, hnet]
  rw [show ((s.drop .owner u cid).withNet (s.net.sendTyping u cid ok)).net =
      s.net.sendTyping u cid ok from rfl, Net.has_sendTyping_iff h.distinct]
  rw [show ((s.drop .owner u cid).withNet (s.net.sendTyping u cid ok)).fault = s.fault from
    drop_fault]
  have hentries : (∀ sock ∈ s.net.typingSocket u cid,
        (s.net.getFromSocket sock.fd).map Conversation.id ≠ some cid ∧ s.NoEntry sock u) ↔
      (∀ sock ∈ s.net.typingSocket u cid, (s.drop .owner u cid).NoEntry sock u) ∧
        ∀ sock ∈ s.net.typingSocket u cid, u = u →
          (s.net.getFromSocket sock.fd).map Conversation.id ≠ some cid := by
    constructor
    · intro hall
      refine ⟨fun sock hsock sd t ht hu => ?_, fun sock hsock _ => (hall sock hsock).1⟩
      rw [drop_net]
      exact (hall sock hsock).2 sd t ((mem_drop_iff h.core).mp ht).1 hu
    · rintro ⟨hno, hne⟩ sock hsock
      refine ⟨hne sock hsock rfl, fun sd t ht hu hconv => ?_⟩
      have hleft : ¬ (sd = .owner ∧ (t.userId, t.convoId) = (u, cid)) := by
        rintro ⟨-, hpair⟩
        rw [(Prod.mk.inj hpair).2] at hconv
        exact hne sock hsock rfl hconv
      refine hno sock hsock sd t ((mem_drop_iff h.core).mpr ⟨ht, hleft⟩) hu ?_
      rw [drop_net]
      exact hconv
  rw [Ok, hentries]
  constructor
  · rintro ⟨⟨-, hnext⟩, hno, hhas, hne⟩ -
    refine ⟨hhas, hnext, ?_⟩
    cases ok with
    | true => exact Or.inl rfl
    | false => exact Or.inr ⟨hno.resolve_left (by simp), hne.resolve_left (by simp)⟩
  · intro hok
    obtain ⟨hhas, hnext, hsent⟩ := hok rfl
    exact ⟨⟨hs.alive, hnext⟩, hsent.imp_right And.left, hhas, hsent.imp_right And.right⟩

theorem Inv.drop (h : s.Inv) (side : Side) (u : UserId) (cid : ℕ) : (s.drop side u cid).Inv := by
  refine ⟨h.core.drop side u cid, ?_⟩
  rw [drop_net]
  exact h.distinct

theorem sound_drop (h : s.Inv) (hs : s.Sound) (side : Side) (u : UserId) (cid : ℕ) :
    (s.drop side u cid).Sound :=
  (h.core.drop side u cid).sound_iff_refers.mpr
    ⟨drop_fault.trans hs.alive, hs.refers.drop h.core side u cid⟩

theorem Inv.setIsTyping (h : s.Inv) (u : UserId) (typing : Bool) (cid : ℕ) :
    (s.setIsTyping u typing cid).Inv := by
  cases typing with
  | false => exact h.drop .user u cid
  | true => exact ⟨(h.core.drop .user u cid).add h.core.absent, (h.drop .user u cid).distinct⟩

theorem Inv.sendIsTyping (h : s.Inv) (u : UserId) (typing : Bool) (cid : ℕ) (ok : Bool) :
    (s.sendIsTyping u typing cid ok).Inv := by
  cases typing with
  | false => exact h.drop .owner u cid
  | true =>
    rw [sendIsTyping_true]
    exact ⟨((h.core.drop .owner u cid).withNet _).add h.core.absent, h.distinct.sendTyping u cid ok⟩

/-- A user is no longer known to be typing after a while. -/
theorem expire_user (ht : t ∈ s.timeouts .user) (ok : Bool) :
    typingTimeout { s with timers := Function.update s.timers t.timeoutId none } t.timeoutId ok =
      s.erase .user (·.timeoutId = t.timeoutId) t.timeoutId := by
  rw [typingTimeout]
  cases hf : (s.timeouts .user).find? (·.timeoutId = t.timeoutId) with
  | none => exact absurd (find?_eq_none.mp hf t ht) (by simp)
  | some t' => rfl

/-- We are told to be typing again. -/
theorem expire_owner (h : s.Core) (ht : t ∈ s.timeouts .owner) (ok : Bool) :
    s.typingTimeout t.timeoutId ok = s.withNet (s.net.sendTyping t.userId t.convoId ok) := by
  rw [typingTimeout]
  have huser : (s.timeouts .user).find? (·.timeoutId = t.timeoutId) = none := by
    refine find?_eq_none.mpr fun t' ht' hid => ?_
    cases h.lists.side_eq ht' ht (of_decide_eq_true hid)
  rw [huser]
  cases hf : (s.timeouts .owner).find? (·.timeoutId = t.timeoutId) with
  | none => exact absurd (find?_eq_none.mp hf t ht) (by simp)
  | some t' =>
    have hid : t'.timeoutId = t.timeoutId := by simpa using find?_some hf
    obtain rfl := h.lists.eq_of_id ht (mem_of_find?_eq_some hf) hid.symm
    rfl

theorem expire_spec (h : s.Inv) (hs : s.Sound) {id : ℕ} {ok : Bool}
    (hid : s.timers id = some side) :
    let s' := typingTimeout
      (if side = .user then { s with timers := Function.update s.timers id none } else s) id ok
    s'.Inv ∧ (s'.Sound ↔ s.Ok (.expire id ok)) := by
  obtain ⟨t, ht, rfl⟩ := (h.core.lists.timers id side).mp hid
  cases side with
  | user =>
    rw [if_pos rfl, expire_user ht]
    have honly : ∀ t' ∈ s.timeouts .user, decide (t'.timeoutId = t.timeoutId) = true ↔ t' = t :=
      fun t' ht' => ⟨fun heq => h.core.lists.eq_of_id ht' ht (of_decide_eq_true heq), fun heq =>
        decide_eq_true (by rw [heq])⟩
    have hcore := h.core.erase ht honly
    refine ⟨⟨hcore, h.distinct⟩, iff_of_true (hcore.sound_iff_refers.mpr ⟨hs.alive, ?_⟩) ?_⟩
    · exact hs.refers.of_sub rfl fun sd t' ht' => ((mem_erase_iff h.core ht honly).mp ht').1
    · intro t' ht' hid'
      cases h.core.lists.side_eq ht' ht hid'
  | owner =>
    rw [if_neg (by decide), expire_owner h.core ht]
    have hcore := h.core.withNet (s.net.sendTyping t.userId t.convoId ok)
    refine ⟨⟨hcore, h.distinct.sendTyping t.userId t.convoId ok⟩, ?_⟩
    rw [hcore.sound_iff_refers, refers_sendTyping_iff hs.refers h.distinct]
    constructor
    · rintro ⟨-, hsent⟩ t' ht' hid'
      rw [h.core.lists.eq_of_id ht' ht hid']
      exact hsent
    · intro hok
      exact ⟨hs.alive, hok t ht rfl⟩

/-- The entries of the conversations of a socket go along, those of users on the contact list. -/
theorem killConversation_refers_iff (h : s.Inv) (hs : s.Sound) (sock : Session) :
    (s.killConversation sock).Refers ↔ s.TypersKnown sock.fd := by
  obtain ⟨-, -, hnet, hmem⟩ := killConversation_spec h.core sock
  constructor
  · rintro hrefers t ht ⟨c, hc, hfd, hid⟩
    by_contra hknown
    have hleft : t ∈ (s.killConversation sock).timeouts .user :=
      (hmem .user t).mpr ⟨ht, fun hcleared => hknown (hcleared.2.resolve_left (by decide))⟩
    have hhas := hrefers .user t hleft
    rw [hnet, Net.has_killConversation_iff] at hhas
    obtain ⟨d, hd, hne, hdid, -⟩ := hhas
    obtain rfl := h.distinct.eq_of_id hc hd (hid.trans hdid.symm)
    exact hne hfd
  · intro hknown sd t ht
    obtain ⟨ht, hkept⟩ := (hmem sd t).mp ht
    obtain ⟨c, hc, hid, hu⟩ := hs.refers sd t ht
    rw [hnet, Net.has_killConversation_iff]
    refine ⟨c, hc, fun hfd => hkept ⟨Net.mem_usersOf.mpr ⟨c, hc, hfd, hid, hu⟩, ?_⟩, hid, hu⟩
    cases sd with
    | owner => exact Or.inl rfl
    | user => exact Or.inr (hknown t ht ⟨c, hc, hfd, hid⟩)

/-- The conversations of a socket are removed; what is done with the socket changes none. -/
theorem killed_spec (h : s.Inv) (hs : s.Sound) (sock : Session) {net : Net}
    (hconvos : net.convos = (s.net.killConversation sock).convos)
    (hlast : net.lastConvoId = s.net.lastConvoId) :
    ((s.killConversation sock).withNet net).Inv ∧
      (((s.killConversation sock).withNet net).Sound ↔ s.TypersKnown sock.fd) := by
  obtain ⟨hcore, hfault, hnet, -⟩ := killConversation_spec h.core sock
  refine ⟨⟨hcore.withNet net, h.distinct.filter hconvos hlast⟩, ?_⟩
  rw [(hcore.withNet net).sound_iff_refers, ← killConversation_refers_iff h hs]
  have hhas : ∀ u cid, net.Has u cid ↔ (s.killConversation sock).net.Has u cid := by
    intro u cid
    rw [hnet, Net.Has, Net.Has, hconvos]
  constructor
  · rintro ⟨-, hrefers⟩ sd t ht
    exact (hhas _ _).mp (hrefers sd t ht)
  · intro hrefers
    exact ⟨hfault.trans hs.alive, fun sd t ht => (hhas _ _).mpr (hrefers sd t ht)⟩

/-- The conversations change, and the lists do not. -/
theorem withNet_spec (h : s.Inv) (hs : s.Sound) {net : Net} (hdistinct : net.Distinct) :
    (s.withNet net).Inv ∧
      ((s.withNet net).Sound ↔ ∀ sd, ∀ t ∈ s.timeouts sd, net.Has t.userId t.convoId) := by
  refine ⟨⟨h.core.withNet net, hdistinct⟩, ?_⟩
  rw [(h.core.withNet net).sound_iff_refers]
  exact ⟨fun hsound => hsound.2, fun hrefers => ⟨hs.alive, hrefers⟩⟩

/-- **One step.** -/
theorem act_spec (h : s.Inv) (hs : s.Sound) {a : TypingStep} {s' : Typing}
    (hact : s.act a = some s') :
    s'.Inv ∧ (s'.Sound ↔ s.Ok a) := by
  cases a with
  | signal userId active cid ok =>
    cases hact
    refine ⟨h.sendIsTyping userId active cid ok, ?_⟩
    cases active with
    | false =>
      exact iff_of_true (sound_drop h hs .owner userId cid) nofun
    | true => exact sound_sendIsTyping_iff h hs
  | typing fd userId =>
    cases hact
    rw [Ok]
    split_ifs with hknown
    · refine ⟨h.setIsTyping userId true _, ?_⟩
      rw [sound_setIsTyping_iff h hs]
      exact ⟨fun hok _ => hok, fun hok => hok hknown⟩
    · exact ⟨h, iff_of_true hs fun hknown' => absurd hknown' hknown⟩
  | text fd userId =>
    cases hact
    split_ifs
    · exact ⟨h.setIsTyping userId false _, iff_of_true (sound_drop h hs .user userId _) trivial⟩
    · exact ⟨h, iff_of_true hs trivial⟩
  | expire id ok =>
    obtain ⟨side, hside, rfl⟩ := Option.map_eq_some_iff.mp hact
    exact expire_spec h hs hside
  | join sock userId =>
    cases hact
    obtain ⟨hinv, hsound⟩ := withNet_spec h hs (h.distinct.addUser sock userId)
    refine ⟨hinv, iff_of_true (hsound.mpr fun sd t ht => ?_) trivial⟩
    exact (hs.refers sd t ht).addUser sock userId
  | leave sock userId =>
    cases hact
    obtain ⟨hinv, hsound⟩ := withNet_spec h hs (h.distinct.leave sock userId)
    refine ⟨hinv, hsound.trans (forall_congr' fun sd => forall₂_congr fun t ht => ?_)⟩
    rw [Net.has_leave_iff h.distinct]
    exact ⟨And.right, fun hno => ⟨hs.refers sd t ht, hno⟩⟩
  | lost sock =>
    cases hact
    obtain ⟨-, -, hnet, -⟩ := killConversation_spec h.core sock
    exact killed_spec h hs sock (by rw [hnet]; rfl) (by rw [hnet]; rfl)
  | opened fd userId desc =>
    cases hact
    refine killed_spec h hs (s.net.opened fd userId) ?_ ?_
    · cases desc with
      | false => rfl
      | true =>
        rw [if_pos rfl, Net.setSocketDesc]
        split_ifs <;> rfl
    · cases desc with
      | false => rfl
      | true =>
        rw [if_pos rfl, Net.setSocketDesc]
        split_ifs <;> rfl
  | dataDone sock =>
    cases hact
    have hdistinct : (s.net.removeDataEvent sock).Distinct := h.distinct.filter rfl rfl
    obtain ⟨hinv, hsound⟩ := withNet_spec h hs hdistinct
    refine ⟨hinv, hsound.trans (forall_congr' fun sd => forall₂_congr fun t ht => ?_)⟩
    rw [Net.has_removeDataEvent_iff]
    exact ⟨And.right, fun hne => ⟨hs.refers sd t ht, hne⟩⟩
  | closed sock =>
    cases hact
    have hdistinct : (s.net.closeSocket sock).Distinct := h.distinct.same rfl rfl
    obtain ⟨hinv, hsound⟩ := withNet_spec h hs hdistinct
    exact ⟨hinv, iff_of_true (hsound.mpr hs.refers) trivial⟩
  | listed userId known =>
    cases hact
    have hdistinct : { s.net with known := update s.net.known userId known }.Distinct :=
      h.distinct.same rfl rfl
    obtain ⟨hinv, hsound⟩ := withNet_spec h hs hdistinct
    exact ⟨hinv, iff_of_true (hsound.mpr hs.refers) trivial⟩

theorem init_inv (myOwnerId : UserId) (known : UserId → Bool) : (init myOwnerId known).Inv where
  core := by
    refine ⟨⟨fun _ => nodup_nil, nodup_nil, fun id side => ?_⟩, nofun⟩
    constructor
    · rintro ⟨⟩
    · rintro ⟨t, ht, -⟩
      cases ht
  distinct := ⟨nodup_nil, fun _ hc => (not_mem_nil hc).elim, fun _ hc =>
    (not_mem_nil hc).elim⟩

/-- **The lists, the timers and the conversations agree** all along a run exactly when every step
meets `Ok`. -/
theorem stays_sound_iff (myOwnerId : UserId) (known : UserId → Bool) (as : List TypingStep) :
    Steps.Stays step Sound (init myOwnerId known) as ↔
      Steps.Each step Ok (init myOwnerId known) as := by
  have hinit := init_inv myOwnerId known
  have hstep : ∀ (s : Typing) a s', s.Sound → step s a = some s' → s.act a = some s' := by
    intro s a s' hs ha
    rwa [step, hs.alive, if_neg Bool.false_ne_true] at ha
  refine Steps.stays_iff_each_of_inv (I := Inv) ?_ ?_ ?_ ?_ hinit as
  · intro s a hs h hnone
    rw [step, hs.alive, if_neg Bool.false_ne_true] at hnone
    cases a with
    | expire id ok =>
      intro t ht hid
      have hside := (h.core.lists.timers id .owner).mpr ⟨t, ht, hid⟩
      cases (Option.map_eq_none_iff.mp hnone).symm.trans hside
    | _ => cases hnone
  · exact fun s a s' hs h ha => (act_spec h hs (hstep s a s' hs ha)).2
  · exact fun s a s' hs h ha _ => (act_spec h hs (hstep s a s' hs ha)).1
  · exact hinit.core.sound_iff_refers.mpr ⟨rfl, nofun⟩

/-- A contact leaves while we are told to be typing. -/
theorem not_stays_sound_bye : ¬ ∀ (myOwnerId : UserId) (known : UserId → Bool)
    (as : List TypingStep), Steps.Stays step Sound (init myOwnerId known) as := by
  intro h
  have hrun := h (CMSN.account 'o') (fun _ => true) [.opened 5 (CMSN.account 'a') false,
    .join ⟨0, 5, CMSN.account 'a', true⟩ (CMSN.account 'a'), .signal (CMSN.account 'a') true 1 true,
    .leave ⟨0, 5, CMSN.account 'a', true⟩ (CMSN.account 'a')]
  have hsound := hrun.2 _ rfl |>.2 _ rfl |>.2 _ rfl |>.2 _ rfl
  obtain ⟨c, hc, -, -⟩ := hsound.refers .owner ⟨1, 1, CMSN.account 'a'⟩ List.mem_cons_self
  cases hc

end Typing

end Licq.Msn
