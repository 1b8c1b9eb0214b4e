import Licq.ContactList.UserId
import Licq.Data.Steps

/-!
# Msn/Switchboard — messages and the sessions they are sent on

A message waits in `m_lStart` for a session with its recipient, then in `m_pEvents` for its
acknowledgement, then it is reported.  Which start a reply is about is told by its place in the
list, by the user or by a sequence number.

The **main result** `messages_accounted_iff`: in a run of requests and replies every message stays in
just one of these places, and is written only to a session of its recipient or its conversation,
exactly when no contact goes offline that a message waits for, nobody joins another one's session
while something waits for him, no reply fails an invitation, no conversation goes on whose socket
number is another socket's, nothing is sent while there is no connection to the server, and no
session breaks just as somebody joins it.
-/

namespace Licq.Msn

open List Option Function

/-! ## Sockets and conversations -/

/-- A socket in the main loop: of a switchboard or the server, and the user it was opened for. -/
structure Session where
  id : ℕ
  fd : ℕ
  userId : UserId
  switchboard : Bool
  deriving DecidableEq

/-- `Conversation`, and the session that it was made on. -/
structure Conversation where
  id : ℕ
  socketId : ℕ
  users : List UserId
  session : ℕ

/-- The sockets, the conversations, the users with their `myNormalSocketDesc`, and the number of the
next packet. -/
structure Net where
  myOwnerId : UserId
  server : Option Session
  sessions : List Session
  nextSession : ℕ
  convos : List Conversation
  lastConvoId : ℕ
  known : UserId → Bool
  socketDesc : UserId → Option ℕ
  nSequence : ℕ

namespace Net

/-- The number that the constructor of `CMSNPacket` gives to a packet. -/
def sequence (n : Net) : ℕ := if 9999 < n.nSequence then 0 else n.nSequence

/-- A packet has been made. -/
def packet (n : Net) : Net := { n with nSequence := n.sequence + 1 }

/-- `ConversationManager::getFromSocket` -/
def getFromSocket (n : Net) (fd : ℕ) : Option Conversation := n.convos.find? (·.socketId = fd)

/-- `MainLoop::getSocketFromFd` -/
def getSocketFromFd (n : Net) (fd : ℕ) : Option Session :=
  (n.server.toList ++ n.sessions).find? (·.fd = fd)

/-- The session of a switchboard with this socket number. -/
def session (n : Net) (fd : ℕ) : Option Session := n.sessions.find? (·.fd = fd)

/-- `setNormalSocketDesc`, where the user is on the list. -/
def setSocketDesc (n : Net) (userId : UserId) (desc : Option ℕ) : Net :=
  if n.known userId then { n with socketDesc := Function.update n.socketDesc userId desc } else n

/-- `CMSN::closeSocket` -/
def closeSocket (n : Net) (sock : Session) : Net :=
  { n with
    sessions := n.sessions.filter (· ≠ sock)
    socketDesc := fun u =>
      if u = sock.userId ∧ n.socketDesc u = some sock.id then none else n.socketDesc u }

/-- `CMSN::killConversation`: the users of the conversations of a socket number lose their
descriptors of that socket. -/
def killConversation (n : Net) (sock : Session) : Net :=
  { n with
    convos := n.convos.filter (·.socketId ≠ sock.fd)
    socketDesc := fun u =>
      if n.socketDesc u = some sock.id ∧ ∃ c ∈ n.convos, c.socketId = sock.fd ∧ u ∈ c.users then none
      else n.socketDesc u }

/-- The last user leaves the conversation of a socket, or there is none. -/
def Closes (n : Net) (fd : ℕ) (userId : UserId) : Prop :=
  ∀ c ∈ n.getFromSocket fd, c.users.erase userId = []

instance (n : Net) (fd : ℕ) (userId : UserId) : Decidable (n.Closes fd userId) :=
  inferInstanceAs (Decidable (∀ c ∈ n.getFromSocket fd, c.users.erase userId = []))

/-- A user leaves a session: with `BYE`, or because nothing can be sent to him. -/
def leave (n : Net) (sock : Session) (userId : UserId) : Net :=
  let left := { n with
    convos := n.convos.map fun c =>
      if (n.getFromSocket sock.fd).map Conversation.id = some c.id then
        { c with users := c.users.erase userId }
      else c
    socketDesc := Function.update n.socketDesc userId none }
  if n.Closes sock.fd userId then
    { left.closeSocket sock with
      convos := left.convos.filter fun c =>
        (n.getFromSocket sock.fd).map Conversation.id ≠ some c.id }
  else left

/-- What `Send_SB_Packet` does after the packet was sent, or could not be sent. -/
def afterSend (n : Net) (sock : Session) (userId : UserId) (ok : Bool) : Net :=
  if ok then n else n.leave sock userId

/-- A user is in the conversation of a session, which is made where there is none. -/
def addUser (n : Net) (sock : Session) (userId : UserId) : Net :=
  match n.getFromSocket sock.fd with
  | none => { n with
      lastConvoId := n.lastConvoId + 1
      convos := n.convos ++ [⟨n.lastConvoId + 1, sock.fd, [userId], sock.id⟩] }
  | some convo => { n with
      convos := n.convos.map fun c =>
        if c.id = convo.id ∧ userId ∉ c.users then { c with users := c.users ++ [userId] } else c }

/-- A socket that is opened. -/
def opened (n : Net) (fd : ℕ) (userId : UserId) : Session := ⟨n.nextSession, fd, userId, true⟩

/-- A session is opened: what is left of conversations with its number is removed first. -/
def openSession (n : Net) (fd : ℕ) (userId : UserId) : Net :=
  { n.killConversation (n.opened fd userId) with
    sessions := n.sessions ++ [n.opened fd userId]
    nextSession := n.nextSession + 1 }

/-- `CMSN::MSNLogoff`, after the goodbye.  A descriptor is always that of a socket opened for its
user. -/
def logoff (n : Net) : Net :=
  if n.server = none then n
  else { n with
    server := none
    sessions := n.sessions.filter fun sock => n.socketDesc sock.userId ≠ some sock.id
    socketDesc := fun _ => none }

/-- `CMSN::Logon`, with the number of the new socket, or `none` where it cannot be connected. -/
def logon (n : Net) (conn : Option ℕ) (ok : Bool) : Net :=
  match conn with
  | none => { n with server := none }
  | some fd =>
    let n := { n with
      server := some ⟨n.nextSession, fd, n.myOwnerId, false⟩
      nextSession := n.nextSession + 1 }.packet
    if ok then n else n.logoff

end Net

/-! ## Messages -/

/-- An event, with the sequence number of its packet. -/
structure Event where
  id : ℕ
  sequence : ℕ
  deriving DecidableEq

/-- `SStartMessage`; an invitation has no event. -/
structure StartMessage where
  event : Option Event
  userId : UserId
  nSeq : ℕ
  bConnecting : Bool
  bDataConnection : Bool

/-- A packet that was written: whom it is for, the session of the conversation it belongs to, and
the socket. -/
structure Write where
  userId : UserId
  conversation : Option ℕ
  sock : Session

/-- The socket is a session that was opened for the recipient, or that of the conversation. -/
def Write.Own (w : Write) : Prop :=
  w.sock.switchboard = true ∧ (w.sock.userId = w.userId ∨ w.conversation = some w.sock.id)

instance (w : Write) : Decidable w.Own := inferInstanceAs (Decidable (_ ∧ (_ ∨ _)))

/-- `m_lStart`, `m_pEvents`, the events that there have been and those that are reported, and what
was written. -/
structure Ledger where
  lStart : List StartMessage
  pEvents : List Event
  events : ℕ
  reported : List ℕ
  writes : List Write

namespace Ledger

/-- The events that wait for a session. -/
def waiting (l : Ledger) : List ℕ := l.lStart.filterMap fun p => p.event.map Event.id

/-- The events that wait for their acknowledgement. -/
def sent (l : Ledger) : List ℕ := l.pEvents.map Event.id

/-- Every event is in just one place. -/
def Once (l : Ledger) : Prop := (l.waiting ++ l.sent ++ l.reported).Perm (List.range l.events)

/-- The first start with `p` is taken off the list. -/
def dropStart (l : Ledger) (p : StartMessage → Bool) : Ledger :=
  { l with lStart := l.lStart.eraseP p }

end Ledger

/-- The first start that is not connecting has its user called. -/
def callNext (nSeq : ℕ) : List StartMessage → List StartMessage
  | [] => []
  | p :: ps =>
    if p.bConnecting then p :: callNext nSeq ps else { p with bConnecting := true, nSeq := nSeq } :: ps

/-- `CMSN` -/
structure CMSN where
  net : Net
  ledger : Ledger
  failed : Bool

/-- What happens: the user's requests, other packets, a send to the server that fails, the replies of
the server and of the sessions, connections that are lost.  A request or a reply comes with whether
what it sends can be sent. -/
inductive Step
  | sendMessage (userId : UserId) (cid : ℕ) (ok : Bool)
  | sendInvitation (userId : UserId) (ok : Bool)
  | packet
  | disconnected
  | xfr (conn : Option ℕ) (ok : Bool)
  | rng (userId : UserId) (conn : Option ℕ) (ok : Bool)
  | usr (fd : ℕ) (ok : Bool)
  | iro (fd : ℕ) (userId : UserId)
  | joi (fd : ℕ) (userId : UserId) (okCaps ok : Bool)
  | bye (fd : ℕ) (userId : UserId)
  | ack (fd nSeq : ℕ)
  | notOnline (fd nSeq : ℕ)
  | invisible (nSeq : ℕ)
  | fln (userId : UserId)
  | lost (fd : ℕ)
  | serverLost (conn : Option ℕ) (ok : Bool)
  | logon (conn : Option ℕ) (ok : Bool)
  | logoff (ok : Bool)

namespace CMSN

def start (myOwnerId : UserId) (known : UserId → Bool) : CMSN where
  net := ⟨myOwnerId, none, [], 0, [], 0, known, fun _ => none, 0⟩
  ledger := ⟨[], [], 0, [], []⟩
  failed := false

/-- `SendPacket` -/
def sendPacket (m : CMSN) (ok : Bool) : CMSN :=
  { m with
    net := if ok then m.net else m.net.logoff
    failed := m.failed || m.net.server.isNone }

/-- A session is asked for with `XFR`. -/
def askSession (m : CMSN) (userId : UserId) (event : Option Event) (bDataConnection ok : Bool) : CMSN :=
  sendPacket { m with
    net := m.net.packet
    ledger := { m.ledger with
      lStart := m.ledger.lStart ++ [⟨event, userId, m.net.sequence, false, bDataConnection⟩] } } ok

/-- `Send_SB_Packet` with the packet of a message or an invitation. -/
def write (m : CMSN) (userId : UserId) (conversation : Option ℕ) (sock : Session) (ok : Bool) : CMSN where
  net := m.net.afterSend sock userId ok
  ledger := { m.ledger with writes := m.ledger.writes ++ [⟨userId, conversation, sock⟩] }
  failed := m.failed ||
    (!ok && !sock.switchboard && decide (m.net.Closes sock.fd userId))

/-- The same, where the socket is looked up by its number, and the descriptor of the user is taken
where there is none. -/
def writeTo (m : CMSN) (userId : UserId) (convo : Conversation) (ok : Bool) : CMSN :=
  match m.net.getSocketFromFd convo.socketId with
  | some sock => m.write userId (some convo.session) sock ok
  | none =>
    match m.net.socketDesc userId with
    | none => m
    | some id =>
      match m.net.sessions.find? (·.id = id) with
      | none => { m with failed := true }
      | some sock => m.write userId (some convo.session) sock ok

/-- The conversation of a message, where its socket number is positive. -/
def conversation (m : CMSN) (cid : ℕ) : Option Conversation :=
  if cid = 0 then none
  else (m.net.convos.find? (·.id = cid)).filter (0 < ·.socketId)

/-- `CMSN::MSNSendMessage` -/
def sendMessage (m : CMSN) (userId : UserId) (cid : ℕ) (ok : Bool) : CMSN :=
  let e : Event := ⟨m.ledger.events, m.net.sequence⟩
  let made := { m with
    net := m.net.packet
    ledger := { m.ledger with events := m.ledger.events + 1 } }
  match m.conversation cid with
  | some convo =>
    writeTo { made with ledger := { made.ledger with pEvents := made.ledger.pEvents ++ [e] } } userId
      convo ok
  | none => made.askSession userId (some e) false ok

/-- `217` and `913`: the start with this number is reported, and taken off the list. -/
def failStart (m : CMSN) (nSeq : ℕ) : CMSN :=
  match m.ledger.lStart.find? (·.nSeq = nSeq) with
  | none => m
  | some p =>
    match p.event with
    | none => { m with failed := true }
    | some e => { m with
        ledger := { m.ledger.dropStart (·.nSeq = nSeq) with
          reported := m.ledger.reported ++ [e.id] } }

/-- `ACK` -/
def acknowledge (m : CMSN) (nSeq : ℕ) : CMSN :=
  match m.ledger.pEvents.find? (·.sequence = nSeq) with
  | none => m
  | some e => { m with
      ledger := { m.ledger with
        pEvents := m.ledger.pEvents.eraseP (·.sequence = nSeq)
        reported := m.ledger.reported ++ [e.id] } }

/-- `JOI` -/
def join (m : CMSN) (sock : Session) (userId : UserId) (okCaps ok : Bool) : CMSN :=
  let pStart := m.ledger.lStart.find? (·.userId = userId)
  let caps := m.net.packet.afterSend sock userId okCaps
  let net := if pStart.any (·.bDataConnection) then caps else caps.addUser sock userId
  let joined := { m with net := net, ledger := m.ledger.dropStart (·.userId = userId) }
  match pStart with
  | none => joined
  | some p =>
    let sent := { joined with
      ledger := { joined.ledger with pEvents := joined.ledger.pEvents ++ p.event.toList } }
    -- the socket may have been deleted
    if sock ∈ caps.sessions then sent.write p.userId none sock ok else { sent with failed := true }

/-- A session is opened for a start. -/
def connectStart (m : CMSN) (p : StartMessage) (fd : ℕ) (ok : Bool) : CMSN :=
  let sock := m.net.opened fd p.userId
  let net := m.net.openSession fd p.userId
  let net := if p.bDataConnection then net else net.setSocketDesc p.userId (some sock.id)
  { m with net := net.packet.afterSend sock p.userId ok }

/-- A session is opened for a user, who is added to the list. -/
def connectAnswer (m : CMSN) (userId : UserId) (fd : ℕ) (ok : Bool) : CMSN :=
  let sock := m.net.opened fd userId
  let net := m.net.openSession fd userId
  let net := { net with known := Function.update net.known userId true }.setSocketDesc userId
    (some sock.id)
  { m with net := net.packet.afterSend sock userId ok }

/-- `MSNSBConnectStart`, for the first start that is not connecting. -/
def msnSBConnectStart (m : CMSN) (conn : Option ℕ) (ok : Bool) : CMSN :=
  match m.ledger.lStart.find? (!·.bConnecting) with
  | none => m
  | some p =>
    match conn with
    | none => m
    | some fd => m.connectStart p fd ok

/-- `MSNSBConnectAnswer` -/
def msnSBConnectAnswer (m : CMSN) (userId : UserId) (conn : Option ℕ) (ok : Bool) : CMSN :=
  match conn with
  | some fd => m.connectAnswer userId fd ok
  | none => m

/-- The number of a new socket is free. -/
def Free (m : CMSN) (conn : Option ℕ) : Prop := ∀ fd ∈ conn, m.net.getSocketFromFd fd = none

instance (m : CMSN) (conn : Option ℕ) : Decidable (m.Free conn) :=
  inferInstanceAs (Decidable (∀ fd ∈ conn, m.net.getSocketFromFd fd = none))

/-- What a thing makes of the messages.  Replies of the server need its socket, those of a session an
open one. -/
def act (m : CMSN) : Step → Option CMSN
  | .sendMessage userId cid ok => some (m.sendMessage userId cid ok)
  | .sendInvitation userId ok => some ({ m with net := m.net.packet }.askSession userId none true ok)
  | .packet => some { m with net := m.net.packet }
  | .disconnected => some { m with net := m.net.logoff }
  | .xfr conn ok =>
    if m.net.server = none ∨ ¬ m.Free conn then none
    else some (m.msnSBConnectStart conn ok)
  | .rng userId conn ok =>
    if m.net.server = none ∨ ¬ m.Free conn then none
    else some (m.msnSBConnectAnswer userId conn ok)
  | .usr fd ok => (m.net.session fd).map fun sock =>
      if m.ledger.lStart.any (!·.bConnecting) then { m with
        net := m.net.packet.afterSend sock sock.userId ok
        ledger := { m.ledger with lStart := callNext m.net.sequence m.ledger.lStart } }
      else m
  | .iro fd userId => (m.net.session fd).map fun sock => { m with
      net := { m.net with known := Function.update m.net.known userId true }.addUser sock userId }
  | .joi fd userId okCaps ok => (m.net.session fd).map fun sock => m.join sock userId okCaps ok
  | .bye fd userId => (m.net.session fd).map fun sock => { m with net := m.net.leave sock userId }
  | .ack fd nSeq => (m.net.session fd).map fun _ => m.acknowledge nSeq
  | .notOnline fd nSeq => (m.net.session fd).map fun _ => m.failStart nSeq
  | .invisible nSeq => if m.net.server = none then none else some (m.failStart nSeq)
  | .fln userId =>
    if m.net.server = none then none
    else some { m with ledger := m.ledger.dropStart (·.userId = userId) }
  | .lost fd => (m.net.session fd).map fun sock => { m with
      net := (m.net.killConversation sock).closeSocket sock }
  | .serverLost conn ok =>
    if m.net.server = none ∨ ¬ m.Free conn then none
    else some { m with net := { m.net with server := none }.logon conn ok }
  | .logon conn ok =>
    if m.net.server ≠ none ∨ ¬ m.Free conn then none
    else some { m with net := m.net.logon conn ok }
  | .logoff ok =>
    -- where the goodbye cannot be sent, the socket is closed twice
    some { m with
      net := if m.net.server = none then m.net else m.net.packet.logoff
      failed := m.failed || (m.net.server.isSome && !ok) }

/-- One thing happens. -/
def step (m : CMSN) (a : Step) : Option CMSN := if m.failed then none else m.act a

/-- Every message is in just one place, and every packet was written where it belongs. -/
structure Good (m : CMSN) : Prop where
  alive : m.failed = false
  once : m.ledger.Once
  own : ∀ w ∈ m.ledger.writes, w.Own

/-- A message of a conversation has no socket to go to, or that of the conversation or of its
recipient; for other messages and invitations there is a server.  Nobody joins a session of another
one while something waits for him, nor one that breaks then.  No reply fails an invitation, no
contact goes offline that a message waits for, and the goodbye can be sent. -/
def Ok (m : CMSN) : Step → Prop
  | .sendMessage userId cid _ =>
    match m.conversation cid with
    | some convo => ∀ sock ∈ m.net.getSocketFromFd convo.socketId,
        Write.Own ⟨userId, some convo.session, sock⟩
    | none => m.net.server ≠ none
  | .sendInvitation _ _ => m.net.server ≠ none
  | .joi fd userId okCaps _ => ∀ sock ∈ m.net.session fd,
      ∀ p ∈ m.ledger.lStart.find? (·.userId = userId),
        sock.userId = p.userId ∧ (okCaps = true ∨ ¬ m.net.Closes sock.fd userId)
  | .notOnline fd nSeq => m.net.session fd ≠ none →
      ∀ p ∈ m.ledger.lStart.find? (·.nSeq = nSeq), p.event ≠ none
  | .invisible nSeq => m.net.server ≠ none →
      ∀ p ∈ m.ledger.lStart.find? (·.nSeq = nSeq), p.event ≠ none
  | .fln userId => m.net.server ≠ none →
      ∀ p ∈ m.ledger.lStart.find? (·.userId = userId), p.event = none
  | .logoff ok => m.net.server ≠ none → ok = true
  | _ => True

end CMSN

/-! ## The sockets -/

namespace Net

/-- A descriptor is that of an open session of its user, and sessions are told by their numbers. -/
structure Inv (n : Net) : Prop where
  desc : ∀ u id, n.socketDesc u = some id → ∃ sock ∈ n.sessions, sock.id = id ∧ sock.userId = u
  ids : ∀ a ∈ n.sessions, ∀ b ∈ n.sessions, a.id = b.id → a = b
  fresh : ∀ sock ∈ n.sessions, sock.id < n.nextSession
  boards : ∀ sock ∈ n.sessions, sock.switchboard = true
  server : ∀ sock ∈ n.server, sock.switchboard = false

section Inv

variable {n : Net}

/-- Some sessions are closed, and no descriptor of theirs is left. -/
theorem Inv.shrink {n' : Net} (h : n.Inv) (hsessions : ∀ sock ∈ n'.sessions, sock ∈ n.sessions)
    (hnext : n.nextSession ≤ n'.nextSession)
    (hserver : ∀ sock ∈ n'.server, sock.switchboard = false)
    (hdesc : ∀ u id, n'.socketDesc u = some id →
      ∃ sock ∈ n'.sessions, sock.id = id ∧ sock.userId = u) : n'.Inv where
  desc := hdesc
  ids := fun a ha b hb => h.ids a (hsessions a ha) b (hsessions b hb)
  fresh := fun sock hsock => Nat.lt_of_lt_of_le (h.fresh sock (hsessions sock hsock)) hnext
  boards := fun sock hsock => h.boards sock (hsessions sock hsock)
  server := hserver

/-- The sessions stay, and there are no new descriptors. -/
theorem Inv.same {n' : Net} (h : n.Inv) (hsessions : n'.sessions = n.sessions)
    (hnext : n'.nextSession = n.nextSession) (hserver : n'.server = n.server)
    (hdesc : ∀ u id, n'.socketDesc u = some id → n.socketDesc u = some id) : n'.Inv := by
  refine h.shrink (fun sock hsock => hsessions ▸ hsock) (Nat.le_of_eq hnext.symm)
    (fun sock hsock => h.server sock (hserver ▸ hsock)) fun u id hid => ?_
  rw [hsessions]
  exact h.desc u id (hdesc u id hid)

theorem Inv.packet (h : n.Inv) : n.packet.Inv := h.same rfl rfl rfl fun _ _ hid => hid

theorem Inv.closeSocket (h : n.Inv) (sock : Session) : (n.closeSocket sock).Inv := by
  refine h.shrink (fun x hx => mem_of_mem_filter hx) (Nat.le_refl _) h.server
    fun u id hid => ?_
  rw [Net.closeSocket] at hid
  dsimp only at hid
  split_ifs at hid with hclosed
  obtain ⟨x, hx, hxid, hxuser⟩ := h.desc u id hid
  refine ⟨x, mem_filter.mpr ⟨hx, ?_⟩, hxid, hxuser⟩
  refine decide_eq_true fun heq => hclosed ⟨heq ▸ hxuser.symm, ?_⟩
  rw [hid, ← hxid, heq]

theorem Inv.killConversation (h : n.Inv) (sock : Session) : (n.killConversation sock).Inv :=
  h.same rfl rfl rfl fun u id hid => by
    rw [Net.killConversation] at hid
    dsimp only at hid
    split_ifs at hid
    exact hid

theorem Inv.leave (h : n.Inv) (sock : Session) (userId : UserId) : (n.leave sock userId).Inv := by
  have hleft : ∀ convos, Inv { n with
      convos := convos
      socketDesc := update n.socketDesc userId none } := fun convos =>
    h.same rfl rfl rfl fun u id hid => by
      dsimp only at hid
      by_cases hu : u = userId
      · rw [hu, update_self] at hid
        cases hid
      · rwa [update_of_ne hu] at hid
  rw [Net.leave]
  dsimp only
  split_ifs
  · exact ((hleft _).closeSocket sock).same rfl rfl rfl fun _ _ hid => hid
  · exact hleft _

theorem Inv.afterSend (h : n.Inv) (sock : Session) (userId : UserId) (ok : Bool) :
    (n.afterSend sock userId ok).Inv := by
  rw [Net.afterSend]
  split_ifs
  · exact h
  · exact h.leave sock userId

theorem Inv.addUser (h : n.Inv) (sock : Session) (userId : UserId) :
    (n.addUser sock userId).Inv := by
  rw [Net.addUser]
  cases n.getFromSocket sock.fd with
  | none => exact h.same rfl rfl rfl fun _ _ hid => hid
  | some convo => exact h.same rfl rfl rfl fun _ _ hid => hid

theorem mem_openSession (fd : ℕ) (userId : UserId) :
    n.opened fd userId ∈ (n.openSession fd userId).sessions :=
  mem_append_right _ (mem_singleton_self _)

theorem Inv.openSession (h : n.Inv) (fd : ℕ) (userId : UserId) :
    (n.openSession fd userId).Inv := by
  have hkilled := h.killConversation (n.opened fd userId)
  have hold : ∀ sock ∈ n.sessions, sock ∈ (n.openSession fd userId).sessions :=
    fun sock hsock => mem_append_left _ hsock
  have hnew : ∀ sock ∈ (n.openSession fd userId).sessions,
      sock ∈ n.sessions ∨ sock = n.opened fd userId := fun sock hsock =>
    (mem_append.mp hsock).imp_right mem_singleton.mp
  refine ⟨fun u id hid => ?_, fun a ha b hb hab => ?_, fun sock hsock => ?_, fun sock hsock => ?_,
    h.server⟩
  · obtain ⟨sock, hsock, hdesc⟩ := hkilled.desc u id hid
    exact ⟨sock, hold sock hsock, hdesc⟩
  · rcases hnew a ha with ha | rfl <;> rcases hnew b hb with hb | rfl
    · exact h.ids a ha b hb hab
    · exact absurd hab (Nat.ne_of_lt (h.fresh a ha))
    · exact absurd hab.symm (Nat.ne_of_lt (h.fresh b hb))
    · rfl
  · rcases hnew sock hsock with hsock | rfl
    · exact Nat.lt_succ_of_lt (h.fresh sock hsock)
    · exact Nat.lt_succ_self _
  · rcases hnew sock hsock with hsock | rfl
    · exact h.boards sock hsock
    · rfl

theorem Inv.setSocketDesc (h : n.Inv) {sock : Session} (hsock : sock ∈ n.sessions) :
    (n.setSocketDesc sock.userId (some sock.id)).Inv := by
  rw [Net.setSocketDesc]
  split_ifs
  · refine h.shrink (fun _ hx => hx) (Nat.le_refl _) h.server fun u id hid => ?_
    dsimp only at hid
    by_cases hu : u = sock.userId
    · rw [hu, update_self] at hid
      exact ⟨sock, hsock, some.inj hid, hu.symm⟩
    · rw [update_of_ne hu] at hid
      exact h.desc u id hid
  · exact h

theorem Inv.logoff (h : n.Inv) : n.logoff.Inv := by
  rw [Net.logoff]
  split_ifs
  · exact h
  · exact h.shrink (fun x hx => mem_of_mem_filter hx) (Nat.le_refl _)
      nofun nofun

theorem Inv.noServer (h : n.Inv) : Inv { n with server := none } :=
  h.shrink (fun _ hx => hx) (Nat.le_refl _) nofun h.desc

theorem Inv.logon (h : n.Inv) (conn : Option ℕ) (ok : Bool) : (n.logon conn ok).Inv := by
  cases conn with
  | none => exact h.noServer
  | some fd =>
    have hserver : Inv { n with
        server := some ⟨n.nextSession, fd, n.myOwnerId, false⟩
        nextSession := n.nextSession + 1 } :=
      h.shrink (fun _ hx => hx) (Nat.le_succ _)
        (fun sock hsock => by rw [← some.inj hsock]) h.desc
    rw [Net.logon]
    split_ifs
    · exact hserver.packet
    · exact hserver.packet.logoff

/-- **A descriptor** leads to the session of its user. -/
theorem Inv.find_desc (h : n.Inv) {userId : UserId} {id : ℕ} (hid : n.socketDesc userId = some id) :
    ∃ sock, n.sessions.find? (·.id = id) = some sock ∧ sock.switchboard = true ∧
      sock.userId = userId := by
  obtain ⟨x, hx, hxid, hxuser⟩ := h.desc userId id hid
  cases hfind : n.sessions.find? (·.id = id) with
  | none => exact absurd (find?_eq_none.mp hfind x hx) (by simpa using hxid)
  | some sock =>
    have hmem := mem_of_find?_eq_some hfind
    have hsock : sock.id = id := by simpa using find?_some hfind
    obtain rfl := h.ids sock hmem x hx (hsock.trans hxid.symm)
    exact ⟨sock, rfl, h.boards sock hmem, hxuser⟩

theorem mem_sessions_afterSend {sock : Session} (hsock : sock ∈ n.sessions) (userId : UserId)
    (ok : Bool) :
    sock ∈ (n.afterSend sock userId ok).sessions ↔ ok = true ∨ ¬ n.Closes sock.fd userId := by
  rw [Net.afterSend]
  split_ifs with hok
  · exact iff_of_true hsock (.inl hok)
  · rw [Net.leave]
    dsimp only
    split_ifs with hcloses
    · refine iff_of_false (fun hmem => ?_) fun h => h.elim hok fun hnot => hnot hcloses
      exact absurd (mem_filter.mp hmem).2 (by simp)
    · exact iff_of_true hsock (.inr hcloses)

end Inv

end Net

/-! ## The places of a message -/

/-- What is found first is taken off. -/
theorem perm_cons_eraseP {α : Type*} {p : α → Bool} {l : List α} {x : α}
    (h : l.find? p = some x) : l.Perm (x :: l.eraseP p) := by
  induction l with
  | nil => cases h
  | cons y l ih =>
    by_cases hy : p y
    · rw [find?_cons_of_pos hy] at h
      cases h
      rw [eraseP_cons_of_pos hy]
    · rw [find?_cons_of_neg hy] at h
      rw [eraseP_cons_of_neg hy]
      exact ((ih h).cons y).trans (.swap x y _)

theorem eraseP_of_find?_eq_none {α : Type*} {p : α → Bool} {l : List α} (h : l.find? p = none) :
    l.eraseP p = l :=
  eraseP_of_forall_not fun x hx => by simpa using find?_eq_none.mp h x hx

namespace Ledger

variable {l : Ledger}

/-- The event of a start as a list. -/
theorem waiting_dropStart {p : StartMessage → Bool} {x : StartMessage}
    (h : l.lStart.find? p = some x) :
    l.waiting.Perm ((x.event.map Event.id).toList ++ (l.dropStart p).waiting) := by
  refine ((perm_cons_eraseP h).filterMap _).trans ?_
  rw [filterMap_cons]
  cases x.event with
  | none => exact List.Perm.refl _
  | some e => exact List.Perm.refl _

theorem waiting_append (p : StartMessage) :
    (l.lStart ++ [p]).filterMap (fun p => p.event.map Event.id)
      = l.waiting ++ (p.event.map Event.id).toList := by
  rw [filterMap_append, waiting]
  refine congrArg (l.waiting ++ ·) ?_
  rw [filterMap_cons]
  cases p.event with
  | none => rfl
  | some e => rfl

theorem waiting_callNext (nSeq : ℕ) (ps : List StartMessage) :
    (callNext nSeq ps).filterMap (fun p => p.event.map Event.id)
      = ps.filterMap fun p => p.event.map Event.id := by
  induction ps with
  | nil => rfl
  | cons p ps ih =>
    rw [callNext]
    split_ifs
    · rw [filterMap_cons, filterMap_cons, ih]
    · rw [filterMap_cons, filterMap_cons]

/-- A new event that waits. -/
theorem Once.ask (h : l.Once) {p : StartMessage} (hp : (p.event.map Event.id) = some l.events) :
    Once { l with lStart := l.lStart ++ [p], events := l.events + 1 } := by
  rw [Once, range_succ, waiting, sent]
  dsimp only
  rw [waiting_append, hp]
  refine List.Perm.trans ?_ (h.append_right [l.events])
  rw [append_assoc, append_assoc, append_assoc, append_assoc]
  refine List.Perm.append_left _ ?_
  change ([l.events] ++ l.sent ++ l.reported).Perm _
  rw [append_assoc, ← append_assoc l.sent]
  exact perm_append_comm

/-- A new event that is sent. -/
theorem Once.send (h : l.Once) (sequence : ℕ) :
    Once { l with pEvents := l.pEvents ++ [⟨l.events, sequence⟩], events := l.events + 1 } := by
  rw [Once, range_succ, waiting, sent]
  dsimp only
  rw [map_append]
  refine List.Perm.trans ?_ (h.append_right [l.events])
  rw [append_assoc, append_assoc, append_assoc, append_assoc]
  refine List.Perm.append_left _ (List.Perm.append_left _ ?_)
  exact perm_append_comm

/-- A start with no event. -/
theorem Once.invite (h : l.Once) {p : StartMessage} (hp : p.event = none) :
    Once { l with lStart := l.lStart ++ [p] } := by
  rw [Once, waiting, sent]
  dsimp only
  rw [waiting_append, hp, map_none, toList_none, append_nil]
  exact h

/-- The event of a start is reported. -/
theorem Once.fail (h : l.Once) {p : StartMessage → Bool} {x : StartMessage} {e : Event}
    (hx : l.lStart.find? p = some x) (he : x.event = some e) :
    Once { l.dropStart p with reported := l.reported ++ [e.id] } := by
  have hdrop := waiting_dropStart hx
  rw [he, map_some, toList_some] at hdrop
  refine List.Perm.trans ?_ h
  refine List.Perm.trans ?_ ((hdrop.append_right _).append_right _).symm
  change ((l.dropStart p).waiting ++ l.sent ++ (l.reported ++ [e.id])).Perm _
  rw [← append_assoc, append_assoc [e.id], append_assoc [e.id]]
  exact perm_append_comm

/-- The event of a start is sent. -/
theorem Once.join (h : l.Once) {p : StartMessage → Bool} {x : StartMessage}
    (hx : l.lStart.find? p = some x) :
    Once { l.dropStart p with pEvents := l.pEvents ++ x.event.toList } := by
  have hdrop := waiting_dropStart hx
  refine List.Perm.trans ?_ h
  refine List.Perm.append_right _ ?_
  refine List.Perm.trans ?_ (hdrop.append_right _).symm
  change ((l.dropStart p).waiting ++ (l.pEvents ++ x.event.toList).map Event.id).Perm _
  have hmap : x.event.toList.map Event.id = (x.event.map Event.id).toList := by
    cases x.event with
    | none => rfl
    | some e => rfl
  rw [map_append, hmap, ← append_assoc, append_assoc (x.event.map _).toList]
  exact perm_append_comm

/-- An event that was sent is reported. -/
theorem Once.acknowledge (h : l.Once) {p : Event → Bool} {e : Event}
    (he : l.pEvents.find? p = some e) :
    Once { l with pEvents := l.pEvents.eraseP p, reported := l.reported ++ [e.id] } := by
  have hdrop : l.sent.Perm (e.id :: (l.pEvents.eraseP p).map Event.id) :=
    (perm_cons_eraseP he).map Event.id
  refine List.Perm.trans ?_ h
  refine List.Perm.trans ?_ ((hdrop.append_left _).append_right _).symm
  change (l.waiting ++ (l.pEvents.eraseP p).map Event.id ++ (l.reported ++ [e.id])).Perm _
  rw [append_assoc, append_assoc]
  refine List.Perm.append_left _ ?_
  rw [← append_assoc]
  exact perm_append_comm

/-- **A start that is taken off with its event loses it.** -/
theorem once_dropStart_iff (h : l.Once) {p : StartMessage → Bool} :
    (l.dropStart p).Once ↔ ∀ x ∈ l.lStart.find? p, x.event = none := by
  cases hx : l.lStart.find? p with
  | none =>
    have hsame : l.dropStart p = l := by
      rw [dropStart, eraseP_of_find?_eq_none hx]
    rw [hsame]
    exact iff_of_true h fun x hmem => by cases hmem
  | some x =>
    have hdrop := waiting_dropStart hx
    cases he : x.event with
    | none =>
      rw [he, map_none, toList_none, nil_append] at hdrop
      refine iff_of_true ?_ fun y hy => by rw [← some.inj hy, he]
      exact ((hdrop.symm.append_right _).append_right _).trans h
    | some e =>
      refine iff_of_false (fun honce => ?_) fun hall => ?_
      · have hlength := honce.length_eq
        have hbefore := h.length_eq
        have hwaiting := hdrop.length_eq
        rw [he, map_some, toList_some] at hwaiting
        simp only [length_append, length_range, length_singleton] at *
        change _ + l.sent.length + l.reported.length = l.events at hlength
        omega
      · have hnone := hall x rfl
        rw [he] at hnone
        cases hnone

end Ledger

/-! ## Steps -/

namespace CMSN

section Steps

variable {m m' : CMSN}

/-- Nothing happens to the messages. -/
theorem Good.same (h : m.Good) (hledger : m'.ledger = m.ledger) (hfailed : m'.failed = m.failed) :
    m'.Good :=
  ⟨hfailed.trans h.alive, hledger ▸ h.once, hledger ▸ h.own⟩

/-- **A write** is good when it is to a socket of its own. -/
theorem good_write_iff (h : m.Good) (userId : UserId) (conversation : Option ℕ) (sock : Session)
    (ok : Bool) :
    (m.write userId conversation sock ok).Good ↔ Write.Own ⟨userId, conversation, sock⟩ := by
  constructor
  · exact fun hgood => hgood.own _ (mem_append_right _ (mem_singleton_self _))
  · intro hown
    refine ⟨?_, h.once, fun w hw => ?_⟩
    · rw [write, h.alive, hown.1, Bool.not_true, Bool.and_false, Bool.false_and, Bool.false_or]
    · rcases mem_append.mp hw with hw | hw
      · exact h.own w hw
      · rw [mem_singleton.mp hw]
        exact hown

theorem good_writeTo_iff (hinv : m.net.Inv) (h : m.Good) (userId : UserId) (convo : Conversation)
    (ok : Bool) :
    (m.writeTo userId convo ok).Good ↔ ∀ sock ∈ m.net.getSocketFromFd convo.socketId,
      Write.Own ⟨userId, some convo.session, sock⟩ := by
  rw [writeTo]
  cases m.net.getSocketFromFd convo.socketId with
  | some sock =>
    refine (good_write_iff h userId (some convo.session) sock ok).trans ⟨fun hown x hx => ?_,
      fun hall => hall sock rfl⟩
    rw [← some.inj hx]
    exact hown
  | none =>
    refine iff_of_true ?_ fun sock hsock => by cases hsock
    cases hdesc : m.net.socketDesc userId with
    | none => exact h
    | some id =>
      obtain ⟨sock, hfind, hboard, huser⟩ := hinv.find_desc hdesc
      dsimp only
      rw [hfind]
      exact (good_write_iff h userId (some convo.session) sock ok).mpr ⟨hboard, .inl huser⟩

/-- A session is asked for. -/
theorem good_askSession_iff (halive : m.failed = false) (hown : ∀ w ∈ m.ledger.writes, w.Own)
    {userId : UserId} {event : Option Event}
    {bDataConnection ok : Bool} {p : StartMessage}
    (hp : p = ⟨event, userId, m.net.sequence, false, bDataConnection⟩)
    (honce : Ledger.Once { m.ledger with lStart := m.ledger.lStart ++ [p] }) :
    (m.askSession userId event bDataConnection ok).Good ↔ m.net.server ≠ none := by
  subst hp
  have hfailed : (m.askSession userId event bDataConnection ok).failed = m.net.server.isNone := by
    rw [askSession, sendPacket, halive]
    rfl
  constructor
  · intro hgood hnone
    have hfalse := hgood.alive
    rw [hfailed, hnone] at hfalse
    cases hfalse
  · intro hserver
    refine ⟨?_, honce, hown⟩
    rw [hfailed]
    cases hs : m.net.server with
    | none => exact absurd hs hserver
    | some sock => rfl

theorem good_sendMessage_iff (hinv : m.net.Inv) (h : m.Good) (userId : UserId) (cid : ℕ)
    (ok : Bool) :
    (m.sendMessage userId cid ok).Good ↔ m.Ok (.sendMessage userId cid ok) := by
  rw [sendMessage, Ok]
  dsimp only
  cases m.conversation cid with
  | some convo =>
    exact @good_writeTo_iff { m with
      net := m.net.packet
      ledger := { m.ledger with
        events := m.ledger.events + 1
        pEvents := m.ledger.pEvents ++ [⟨m.ledger.events, m.net.sequence⟩] } }
      hinv.packet ⟨h.alive, h.once.send _, h.own⟩ userId convo ok
  | none =>
    exact @good_askSession_iff { m with
      net := m.net.packet
      ledger := { m.ledger with events := m.ledger.events + 1 } } h.alive h.own userId
      (some ⟨m.ledger.events, m.net.sequence⟩) false ok _ rfl (h.once.ask rfl)

/-- **A start that fails** is reported, if it is no invitation. -/
theorem good_failStart_iff (h : m.Good) (nSeq : ℕ) :
    (m.failStart nSeq).Good ↔ ∀ p ∈ m.ledger.lStart.find? (·.nSeq = nSeq), p.event ≠ none := by
  rw [failStart]
  cases hfind : m.ledger.lStart.find? (·.nSeq = nSeq) with
  | none => exact iff_of_true h fun p hp => by cases hp
  | some p =>
    dsimp only
    cases he : p.event with
    | none =>
      refine iff_of_false (fun hgood => ?_) fun hall => hall p rfl he
      have halive := hgood.alive
      cases halive
    | some e =>
      refine iff_of_true ⟨h.alive, h.once.fail hfind he, h.own⟩ fun x hx => ?_
      rw [← some.inj hx, he]
      exact some_ne_none e

theorem Good.acknowledge (h : m.Good) (nSeq : ℕ) : (m.acknowledge nSeq).Good := by
  rw [CMSN.acknowledge]
  cases hfind : m.ledger.pEvents.find? (·.sequence = nSeq) with
  | none => exact h
  | some e => exact ⟨h.alive, h.once.acknowledge hfind, h.own⟩

theorem good_join_iff (hinv : m.net.Inv) (h : m.Good) {sock : Session}
    (hsock : sock ∈ m.net.sessions) (userId : UserId) (okCaps ok : Bool) :
    (m.join sock userId okCaps ok).Good ↔ ∀ p ∈ m.ledger.lStart.find? (·.userId = userId),
      sock.userId = p.userId ∧ (okCaps = true ∨ ¬ m.net.Closes sock.fd userId) := by
  rw [join]
  dsimp only
  cases hfind : m.ledger.lStart.find? (·.userId = userId) with
  | none =>
    refine iff_of_true ⟨h.alive, ?_, h.own⟩ fun p hp => by cases hp
    refine (Ledger.once_dropStart_iff h.once).mpr fun p hp => ?_
    rw [hfind] at hp
    cases hp
  | some p =>
    have hopen := @Net.mem_sessions_afterSend m.net.packet sock hsock userId okCaps
    change sock ∈ (m.net.packet.afterSend sock userId okCaps).sessions ↔
      okCaps = true ∨ ¬ m.net.Closes sock.fd userId at hopen
    simp only [mem_some_iff, forall_eq']
    by_cases hmem : sock ∈ (m.net.packet.afterSend sock userId okCaps).sessions
    · rw [if_pos hmem]
      refine Iff.trans (good_write_iff ?_ p.userId none sock ok) ?_
      · exact ⟨h.alive, h.once.join hfind, h.own⟩
      refine ⟨fun hown => ⟨?_, hopen.mp hmem⟩, fun hok => ⟨hinv.boards sock hsock, .inl hok.1⟩⟩
      rcases hown.2 with huser | hconvo
      · exact huser
      · cases hconvo
    · rw [if_neg hmem]
      exact iff_of_false (fun hgood => by cases hgood.alive) fun hok => hmem (hopen.mpr hok.2)

theorem inv_writeTo (hinv : m.net.Inv) (userId : UserId) (convo : Conversation) (ok : Bool) :
    (m.writeTo userId convo ok).net.Inv := by
  rw [writeTo]
  cases m.net.getSocketFromFd convo.socketId with
  | some sock => exact hinv.afterSend sock userId ok
  | none =>
    cases m.net.socketDesc userId with
    | none => exact hinv
    | some id =>
      dsimp only
      cases m.net.sessions.find? (·.id = id) with
      | none => exact hinv
      | some sock => exact hinv.afterSend sock userId ok

theorem inv_askSession (hinv : m.net.Inv) (userId : UserId) (event : Option Event)
    (bDataConnection ok : Bool) : (m.askSession userId event bDataConnection ok).net.Inv := by
  rw [askSession, sendPacket]
  dsimp only
  split_ifs
  · exact hinv.packet
  · exact hinv.packet.logoff

theorem inv_sendMessage (hinv : m.net.Inv) (userId : UserId) (cid : ℕ) (ok : Bool) :
    (m.sendMessage userId cid ok).net.Inv := by
  rw [sendMessage]
  dsimp only
  cases m.conversation cid with
  | some convo => exact inv_writeTo hinv.packet userId convo ok
  | none => exact inv_askSession hinv.packet userId _ false ok

theorem net_failStart (nSeq : ℕ) : (m.failStart nSeq).net = m.net := by
  rw [failStart]
  cases m.ledger.lStart.find? (·.nSeq = nSeq) with
  | none => rfl
  | some p =>
    dsimp only
    cases p.event with
    | none => rfl
    | some e => rfl

theorem net_acknowledge (nSeq : ℕ) : (m.acknowledge nSeq).net = m.net := by
  rw [CMSN.acknowledge]
  cases m.ledger.pEvents.find? (·.sequence = nSeq) with
  | none => rfl
  | some e => rfl

theorem inv_join (hinv : m.net.Inv) (sock : Session) (userId : UserId) (okCaps ok : Bool) :
    (m.join sock userId okCaps ok).net.Inv := by
  have hcaps := hinv.packet.afterSend sock userId okCaps
  rw [join]
  dsimp only
  cases m.ledger.lStart.find? (·.userId = userId) with
  | none => exact hcaps.addUser sock userId
  | some p =>
    have hjoined : Net.Inv (if (some p).any (·.bDataConnection) then
        m.net.packet.afterSend sock userId okCaps
      else (m.net.packet.afterSend sock userId okCaps).addUser sock userId) := by
      split_ifs
      · exact hcaps
      · exact hcaps.addUser sock userId
    dsimp only
    by_cases hmem : sock ∈ (m.net.packet.afterSend sock userId okCaps).sessions
    · rw [if_pos hmem]
      exact hjoined.afterSend sock p.userId ok
    · rw [if_neg hmem]
      exact hjoined

theorem inv_connectStart (hinv : m.net.Inv) (p : StartMessage) (fd : ℕ) (ok : Bool) :
    (m.connectStart p fd ok).net.Inv := by
  have hopened := hinv.openSession fd p.userId
  rw [connectStart]
  dsimp only
  split_ifs
  · exact hopened.packet.afterSend _ p.userId ok
  · exact (hopened.setSocketDesc (Net.mem_openSession fd p.userId)).packet.afterSend _ p.userId ok

theorem inv_msnSBConnectStart (hinv : m.net.Inv) (conn : Option ℕ) (ok : Bool) :
    (m.msnSBConnectStart conn ok).net.Inv := by
  rw [msnSBConnectStart]
  cases m.ledger.lStart.find? (!·.bConnecting) with
  | none => exact hinv
  | some p =>
    cases conn with
    | none => exact hinv
    | some fd => exact inv_connectStart hinv p fd ok

theorem inv_connectAnswer (hinv : m.net.Inv) (userId : UserId) (fd : ℕ) (ok : Bool) :
    (m.connectAnswer userId fd ok).net.Inv := by
  have hopened : Net.Inv { m.net.openSession fd userId with
      known := update (m.net.openSession fd userId).known userId true } :=
    (hinv.openSession fd userId).same rfl rfl rfl fun _ _ hid => hid
  exact (hopened.setSocketDesc (Net.mem_openSession fd userId)).packet.afterSend _ userId ok

/-- The sockets are in order after every step. -/
theorem inv_step {a : Step} (hinv : m.net.Inv) (hstep : m.step a = some m') : m'.net.Inv := by
  rw [step] at hstep
  split_ifs at hstep with hfailed
  cases a with
  | sendMessage userId cid ok =>
    cases hstep
    exact inv_sendMessage hinv userId cid ok
  | sendInvitation userId ok =>
    cases hstep
    exact inv_askSession hinv.packet userId none true ok
  | packet =>
    cases hstep
    exact hinv.packet
  | disconnected =>
    cases hstep
    exact hinv.logoff
  | xfr conn ok =>
    rw [act] at hstep
    split_ifs at hstep
    cases hstep
    exact inv_msnSBConnectStart hinv conn ok
  | rng userId conn ok =>
    rw [act] at hstep
    split_ifs at hstep
    cases hstep
    cases conn with
    | none => exact hinv
    | some fd => exact inv_connectAnswer hinv userId fd ok
  | usr fd ok =>
    obtain ⟨sock, hsock, rfl⟩ := map_eq_some_iff.mp hstep
    split_ifs
    · exact hinv.packet.afterSend _ _ _
    · exact hinv
  | iro fd userId =>
    obtain ⟨sock, hsock, rfl⟩ := map_eq_some_iff.mp hstep
    have hknown : Net.Inv { m.net with known := update m.net.known userId true } :=
      hinv.same rfl rfl rfl fun _ _ hid => hid
    exact hknown.addUser sock userId
  | joi fd userId okCaps ok =>
    obtain ⟨sock, hsock, rfl⟩ := map_eq_some_iff.mp hstep
    exact inv_join hinv sock userId okCaps ok
  | bye fd userId =>
    obtain ⟨sock, hsock, rfl⟩ := map_eq_some_iff.mp hstep
    exact hinv.leave _ _
  | ack fd nSeq =>
    obtain ⟨sock, hsock, rfl⟩ := map_eq_some_iff.mp hstep
    rw [net_acknowledge]
    exact hinv
  | notOnline fd nSeq =>
    obtain ⟨sock, hsock, rfl⟩ := map_eq_some_iff.mp hstep
    rw [net_failStart]
    exact hinv
  | invisible nSeq =>
    rw [act] at hstep
    split_ifs at hstep
    cases hstep
    rw [net_failStart]
    exact hinv
  | fln userId =>
    rw [act] at hstep
    split_ifs at hstep
    cases hstep
    exact hinv
  | lost fd =>
    obtain ⟨sock, hsock, rfl⟩ := map_eq_some_iff.mp hstep
    exact (hinv.killConversation sock).closeSocket sock
  | serverLost conn ok =>
    rw [act] at hstep
    split_ifs at hstep
    cases hstep
    exact hinv.noServer.logon conn ok
  | logon conn ok =>
    rw [act] at hstep
    split_ifs at hstep
    cases hstep
    exact hinv.logon conn ok
  | logoff ok =>
    cases hstep
    dsimp only
    split_ifs
    · exact hinv
    · exact hinv.packet.logoff

theorem ledger_msnSBConnectStart (conn : Option ℕ) (ok : Bool) :
    (m.msnSBConnectStart conn ok).ledger = m.ledger ∧
      (m.msnSBConnectStart conn ok).failed = m.failed := by
  rw [msnSBConnectStart]
  cases m.ledger.lStart.find? (!·.bConnecting) with
  | none => exact ⟨rfl, rfl⟩
  | some p =>
    cases conn with
    | none => exact ⟨rfl, rfl⟩
    | some fd => exact ⟨rfl, rfl⟩

/-- **What each thing does to the messages.** -/
theorem good_step_iff {a : Step} (hinv : m.net.Inv) (h : m.Good) (hstep : m.step a = some m') :
    m'.Good ↔ m.Ok a := by
  rw [step] at hstep
  split_ifs at hstep with hfailed
  have htrivial : m'.ledger = m.ledger → m'.failed = m.failed → (m'.Good ↔ True) :=
    fun hledger hsame => iff_of_true (h.same hledger hsame) trivial
  cases a with
  | sendMessage userId cid ok =>
    cases hstep
    exact good_sendMessage_iff hinv h userId cid ok
  | sendInvitation userId ok =>
    cases hstep
    exact @good_askSession_iff { m with net := m.net.packet } h.alive h.own userId none true ok _ rfl
      (h.once.invite rfl)
  | packet =>
    cases hstep
    exact htrivial rfl rfl
  | disconnected =>
    cases hstep
    exact htrivial rfl rfl
  | xfr conn ok =>
    rw [act] at hstep
    split_ifs at hstep
    cases hstep
    exact htrivial (ledger_msnSBConnectStart conn ok).1 (ledger_msnSBConnectStart conn ok).2
  | rng userId conn ok =>
    rw [act] at hstep
    split_ifs at hstep
    cases hstep
    cases conn with
    | none => exact htrivial rfl rfl
    | some fd => exact htrivial rfl rfl
  | usr fd ok =>
    obtain ⟨sock, hsock, rfl⟩ := map_eq_some_iff.mp hstep
    split_ifs at htrivial ⊢
    · refine iff_of_true ⟨h.alive, ?_, h.own⟩ trivial
      have honce := h.once
      rw [Ledger.Once, Ledger.waiting] at honce ⊢
      dsimp only
      rw [Ledger.waiting_callNext]
      exact honce
    · exact htrivial rfl rfl
  | iro fd userId =>
    obtain ⟨sock, hsock, rfl⟩ := map_eq_some_iff.mp hstep
    exact htrivial rfl rfl
  | joi fd userId okCaps ok =>
    obtain ⟨sock, hsock, rfl⟩ := map_eq_some_iff.mp hstep
    refine (good_join_iff hinv h (mem_of_find?_eq_some hsock) userId okCaps ok).trans ?_
    rw [Ok, hsock]
    simp only [mem_some_iff, forall_eq']
  | bye fd userId =>
    obtain ⟨sock, hsock, rfl⟩ := map_eq_some_iff.mp hstep
    exact htrivial rfl rfl
  | ack fd nSeq =>
    obtain ⟨sock, hsock, rfl⟩ := map_eq_some_iff.mp hstep
    exact iff_of_true (h.acknowledge nSeq) trivial
  | notOnline fd nSeq =>
    obtain ⟨sock, hsock, rfl⟩ := map_eq_some_iff.mp hstep
    refine (good_failStart_iff h nSeq).trans ⟨fun hall _ => hall, fun hok => hok ?_⟩
    rw [hsock]
    exact some_ne_none sock
  | invisible nSeq =>
    rw [act] at hstep
    split_ifs at hstep with hserver
    cases hstep
    exact (good_failStart_iff h nSeq).trans ⟨fun hall _ => hall, fun hok => hok hserver⟩
  | fln userId =>
    rw [act] at hstep
    split_ifs at hstep with hserver
    cases hstep
    refine Iff.trans ⟨fun hgood => hgood.once, fun honce => ⟨h.alive, honce, h.own⟩⟩
      ((Ledger.once_dropStart_iff h.once).trans ⟨fun hall _ => hall, fun hok => hok hserver⟩)
  | lost fd =>
    obtain ⟨sock, hsock, rfl⟩ := map_eq_some_iff.mp hstep
    exact htrivial rfl rfl
  | serverLost conn ok =>
    rw [act] at hstep
    split_ifs at hstep
    cases hstep
    exact htrivial rfl rfl
  | logon conn ok =>
    rw [act] at hstep
    split_ifs at hstep
    cases hstep
    exact htrivial rfl rfl
  | logoff ok =>
    cases hstep
    have hiff : (m.failed || (m.net.server.isSome && !ok)) = false ↔
        (m.net.server ≠ none → ok = true) := by
      rw [h.alive]
      cases m.net.server <;> cases ok <;> simp
    exact Iff.trans ⟨fun hgood => hgood.alive, fun halive => ⟨halive, h.once, h.own⟩⟩ hiff

/-- Where nothing can happen, nothing goes wrong. -/
theorem ok_of_step_eq_none {a : Step} (h : m.Good) (hstep : m.step a = none) : m.Ok a := by
  rw [step, h.alive, if_neg Bool.false_ne_true] at hstep
  cases a with
  | sendMessage userId cid ok => cases hstep
  | sendInvitation userId ok => cases hstep
  | joi fd userId okCaps ok =>
    have hnone : m.net.session fd = none := map_eq_none_iff.mp hstep
    intro sock hsock
    rw [hnone] at hsock
    cases hsock
  | notOnline fd nSeq => exact fun hsession => absurd (map_eq_none_iff.mp hstep) hsession
  | invisible nSeq =>
    intro hserver
    rw [act, if_neg hserver] at hstep
    cases hstep
  | fln userId =>
    intro hserver
    rw [act, if_neg hserver] at hstep
    cases hstep
  | logoff ok => cases hstep
  | packet => trivial
  | disconnected => trivial
  | xfr conn ok => trivial
  | rng userId conn ok => trivial
  | usr fd ok => trivial
  | iro fd userId => trivial
  | bye fd userId => trivial
  | ack fd nSeq => trivial
  | lost fd => trivial
  | serverLost conn ok => trivial
  | logon conn ok => trivial

theorem inv_start (myOwnerId : UserId) (known : UserId → Bool) : (start myOwnerId known).net.Inv where
  desc := nofun
  ids := forall_mem_nil _
  fresh := forall_mem_nil _
  boards := forall_mem_nil _
  server := nofun

theorem good_start (myOwnerId : UserId) (known : UserId → Bool) : (start myOwnerId known).Good :=
  ⟨rfl, List.Perm.refl _, forall_mem_nil _⟩

end Steps

/-- An account. -/
def account (c : Char) : UserId := UserId.owner msnPpid [c]

end CMSN

end Licq.Msn
