import Licq.Msn.Signals
import Licq.Msn.Typing

/-!
# Msn/ServerSocket — the connection to the server

A packet that cannot be sent logs the plugin off from inside `SendPacket`, and what asked for it
runs on.  Whether there is a connection is also told by `myStatus`, and two flags say whether the server
may be pinged and whether its reply is awaited.

The **main result** `stays_consistent_iff` says in which runs of signals, packets and pings these
agree after every step, and the socket is never used where it is null or has been closed.
-/

namespace Licq.Msn

open Signals (ProtocolSignal)
open Signals.Msn (msnStatus onlineStatus invisibleStatus awayStatus occupiedStatus)

/-! ## The state -/

/-- Which packets can be sent and which connections can be made, and with which socket number, each
in the order they are tried; and where in memory the main loop's sockets are. -/
structure Network where
  sends : ℕ → Bool
  connects : ℕ → Option ℕ
  address : ℕ → ℕ

/-- `CMSN`, of its connection to the server. -/
structure Connection where
  /-- `myServerSocket` is its `server`. -/
  net : Net
  /-- `mySslSocket != NULL` -/
  mySslSocket : Bool
  myStatus : ℕ
  m_bCanPing : Bool
  m_bWaitingPingReply : Bool
  /-- The socket that the last ping was sent on. -/
  pingedOn : Option ℕ
  /-- How many packets have been tried, and how many connections. -/
  sent : ℕ
  attempts : ℕ
  /-- The socket of the server whose packets `HandlePacket` goes through. -/
  sock : Option Session
  /-- A null or closed socket has been used, or the socket of the server was closed and
  `myServerSocket` not cleared. -/
  failed : Bool

/-- `User::IdleStatus` -/
def idleStatus : ℕ := 2 ^ 1

/-- The status that the server says we have. -/
def chgStatus (strStatus : List Char) : ℕ :=
  if strStatus = ['N', 'L', 'N'] then onlineStatus
  else if strStatus = ['B', 'S', 'Y'] then onlineStatus ||| occupiedStatus
  else if strStatus = ['H', 'D', 'N'] then onlineStatus ||| invisibleStatus
  else if strStatus = ['I', 'D', 'L'] then onlineStatus ||| idleStatus
  else onlineStatus ||| awayStatus

namespace Net

/-- The conversation of a message, where its socket number is positive. -/
def conversation (n : Net) (cid : ℕ) : Option Conversation :=
  if cid = 0 then none else (n.convos.find? (·.id = cid)).filter (0 < ·.socketId)

end Net

namespace Connection

variable (s : Connection) (n : Network)

/-! ## The operations -/

/-- `MSNLogoff(true)`, where there is a socket. -/
def disconnected : Connection :=
  { s with
    net := s.net.logoff
    myStatus := Signals.offlineStatus
    m_bCanPing := false }

/-- A packet has been tried. -/
def tried : Connection := { s with sent := s.sent + 1 }

/-- `SendPacket`; none where there is no socket. -/
def sendPacket : Option Connection :=
  if s.net.server = none then none
  else some (if n.sends s.sent then s.tried else s.tried.disconnected)

/-- `MSNLogoff(false)`.  The socket is closed once more after the packet could not be sent. -/
def msnLogoff : Option Connection :=
  if s.net.server = none then some s
  else (s.sendPacket n).bind fun s => if s.net.server = none then none else some s.disconnected

/-- A new socket is connected to the server. -/
def connected (fd : ℕ) : Connection :=
  { s with
    attempts := s.attempts + 1
    net := { s.net with
      server := some ⟨s.net.nextSession, fd, s.net.myOwnerId, false⟩
      nextSession := s.net.nextSession + 1 } }

/-- `Logon`, where it finds no socket; it cannot be connected without an owner either. -/
def logon (status : ℕ) : Option Connection :=
  if status = Signals.offlineStatus then some s
  else
    match n.connects s.attempts with
    | none => some { s with attempts := s.attempts + 1 }
    | some fd => ((s.connected fd).sendPacket n).map fun s => { s with myStatus := status }

/-- The socket is closed and deleted. -/
def closed : Connection := { s with net := { s.net with server := none } }

/-- The socket is closed, and another one connected. -/
def reconnect : Option Connection := s.closed.logon n s.myStatus

def msnChangeStatus (status : ℕ) : Option Connection :=
  (s.sendPacket n).map fun s => { s with myStatus := (msnStatus status).2 }

/-- `MSNBlockUser` and `MSNUnblockUser`: off one list and onto another. -/
def moveUser (userId : UserId) : Option Connection :=
  if s.net.known userId then (s.sendPacket n).bind (·.sendPacket n) else some s

/-- `Send_SB_Packet`, which closes the socket when the last user leaves. -/
def sendSBPacket (userId : UserId) (sock : Session) : Option Connection :=
  if n.sends s.sent then some s.tried
  else if s.net.server = some sock ∧ s.net.Closes sock.fd userId then none
  else some { s.tried with net := s.net.leave sock userId }

/-- To the session of a conversation. -/
def sendToConversation (userId : UserId) (cid : ℕ) : Option Connection :=
  match s.net.typingSocket userId cid with
  | none => some s
  | some sock => s.sendSBPacket n userId sock

/-- `MSNSendMessage` -/
def msnSendMessage (userId : UserId) (cid : ℕ) : Option Connection :=
  if (s.net.conversation cid).isSome then s.sendToConversation n userId cid
  -- Must connect to the SB and call the user
  else s.sendPacket n

/-- `MSNSBConnectStart`, for the user of a start and whether it is a data connection. -/
def msnSBConnectStart (userId : UserId) (bDataConnection : Bool) : Option Connection :=
  match n.connects s.attempts with
  | none => some { s with attempts := s.attempts + 1 }
  | some fd =>
    let sock := s.net.opened fd userId
    let net := s.net.openSession fd userId
    let net := if bDataConnection then net else net.setSocketDesc userId (some sock.id)
    sendSBPacket { s with attempts := s.attempts + 1, net := net } n userId sock

/-- `MSNSBConnectAnswer`, whose user is added to the list. -/
def msnSBConnectAnswer (userId : UserId) : Option Connection :=
  msnSBConnectStart { s with
    net := { s.net with known := Function.update s.net.known userId true } } n userId false

/-- `MSNAuthenticate` -/
def msnAuthenticate : Connection :=
  { s with attempts := s.attempts + 1, mySslSocket := (n.connects s.attempts).isSome }

/-- `sendServerPing` -/
def sendServerPing : Option Connection :=
  if s.m_bWaitingPingReply then
    (msnLogoff { s with m_bWaitingPingReply := false } n).bind (·.logon n s.myStatus)
  else if s.m_bCanPing then
    (s.sendPacket n).map fun s' => { s' with
      m_bWaitingPingReply := true
      pingedOn := s.net.server.map Session.id }
  else some s

end Connection

/-! ## Signals and packets -/

/-- The packets of the server.  A presence comes with whether its picture is another one than the
user has, an `XFR` to a switchboard with the start that it is for. -/
inductive ServerPacket
  | ver
  | cvr
  | xfr
  | xfrSB (start : Option (UserId × Bool))
  | usrOk
  | usr
  | chl
  | syn
  | lst (userId : UserId)
  | chg (strStatus : List Char)
  | presence (userId : UserId) (newPicture : Bool)
  | rng (userId : UserId)
  | qng
  | qry
  | other

/-- What the authentication server answers. -/
inductive SslAnswer
  | ok
  | found
  | other

/-- What happens on the sessions, and to the contact list. -/
inductive SessionStep
  | join (sock : Session) (userId : UserId)
  | leave (sock : Session) (userId : UserId)
  | lost (sock : Session)
  | dataDone (sock : Session)
  | listed (userId : UserId) (known : Bool)

/-- A session has to be open. -/
def Net.session? (n : Net) : SessionStep → Net
  | .join sock userId => if sock ∈ n.sessions then n.addUser sock userId else n
  | .leave sock userId => if sock ∈ n.sessions then n.leave sock userId else n
  | .lost sock =>
    if sock ∈ n.sessions then (n.killConversation sock).closeSocket sock else n
  | .dataDone sock => if sock ∈ n.sessions then n.removeDataEvent sock else n
  | .listed userId known => { n with known := Function.update n.known userId known }

/-- What happens: a signal, a packet of the server, another one that was received along with it, a
lost connection, an answer of the authentication server, a timer of the pings or of the typing
notifications, something on a session, the end. -/
inductive ServerStep
  | signal (sig : ProtocolSignal)
  | packet (p : ServerPacket)
  | more (p : ServerPacket)
  | lost
  | ssl (answer : SslAnswer)
  | ping
  | typing (userId : UserId) (cid : ℕ)
  | session (a : SessionStep)
  | quit

namespace Connection

variable (s : Connection) (n : Network)

/-- `ProcessSignal` -/
def processSignal (sig : ProtocolSignal) : Option Connection :=
  match s.net.server.isSome, sig.signal with
  | false, .logon status => logon { s with net := { s.net with myOwnerId := sig.userId } } n status
  | false, _ => some s
  | true, .logon _ => some s
  | true, .changeStatus status => s.msnChangeStatus n status
  | true, .logoff => s.msnLogoff n
  | true, .addUser => s.sendPacket n
  | true, .removeUser => (s.sendPacket n).map fun s => { s with
      net := { s.net with known := Function.update s.net.known sig.userId false } }
  | true, .renameUser => if s.net.known sig.userId then s.sendPacket n else some s
  | true, .notifyTyping active cid =>
    if active then s.sendToConversation n sig.userId cid else some s
  | true, .sendMessage _ _ _ cid => s.msnSendMessage n sig.userId cid
  | true, .grantAuth _ => s.sendPacket n
  | true, .updateInfo _ => s.sendPacket n
  | true, .blockUser => s.moveUser n sig.userId
  | true, .unblockUser => s.moveUser n sig.userId
  | true, _ => some s

/-- `ProcessServerPacket` -/
def processServerPacket : ServerPacket → Option Connection
  | .ver | .cvr | .usrOk | .chl => s.sendPacket n
  | .xfr => s.reconnect n
  | .xfrSB none => some s
  | .xfrSB (some (userId, bDataConnection)) => s.msnSBConnectStart n userId bDataConnection
  | .usr => some (s.msnAuthenticate n)
  | .syn => s.msnChangeStatus n s.myStatus
  | .lst userId => some { s with
      net := { s.net with known := Function.update s.net.known userId true } }
  | .chg strStatus => some { s with myStatus := chgStatus strStatus }
  | .presence userId newPicture =>
    -- If we are invisible, this will result in an error, so don't allow it
    if s.net.known userId ∧ newPicture ∧ s.myStatus &&& invisibleStatus = 0 then s.sendPacket n
    else some s
  | .rng userId => s.msnSBConnectAnswer n userId
  | .qng => some { s with m_bWaitingPingReply := false }
  | .qry => some { s with m_bCanPing := true }
  | .other => some s

/-- `ProcessSSLServerPacket` -/
def processSSLServerPacket : SslAnswer → Option Connection
  | .ok => (s.sendPacket n).map fun s => { s with mySslSocket := false }
  | .found => some (s.msnAuthenticate n)
  | .other => some { s with mySslSocket := false }

/-- `sock == myServerSocket` -/
def IsServer (sock : Session) : Prop := ∃ c ∈ s.net.server, n.address c.id = n.address sock.id

instance (sock : Session) : Decidable (s.IsServer n sock) :=
  inferInstanceAs (Decidable (∃ c ∈ s.net.server, n.address c.id = n.address sock.id))

/-- The main loop has nothing of the server at hand. -/
def idle : Connection := { s with sock := none }

def act : ServerStep → Option Connection
  | .signal sig => s.idle.processSignal n sig
  | .packet p =>
    match s.net.server with
    | none => some s
    | some sock => processServerPacket { s with sock := some sock } n p
  | .more p =>
    match s.sock with
    | none => some s
    -- the socket has been deleted, and is taken for that of a session
    | some sock => if s.IsServer n sock then s.processServerPacket n p else none
  | .lost => if s.net.server = none then some s else s.idle.reconnect n
  | .ssl answer => if s.mySslSocket then s.idle.processSSLServerPacket n answer else some s
  | .ping => s.idle.sendServerPing n
  | .typing userId cid => s.idle.sendToConversation n userId cid
  | .session a => some { s.idle with net := s.net.session? a }
  | .quit => s.idle.msnLogoff n

end Connection

/-- One step; there are none after the socket was misused. -/
def Connection.step (n : Network) (s : Connection) (a : ServerStep) : Option Connection :=
  if s.failed then none else some ((s.act n a).getD { s with failed := true })

namespace Connection

variable {s : Connection} {n : Network}

/-- No connection yet. -/
def init (myOwnerId : UserId) (known : UserId → Bool) : Connection where
  net := (CMSN.start myOwnerId known).net
  mySslSocket := false
  myStatus := Signals.offlineStatus
  m_bCanPing := false
  m_bWaitingPingReply := false
  pingedOn := none
  sent := 0
  attempts := 0
  sock := none
  failed := false

/-! ## What is to hold -/

/-- The socket has been used rightly, there is none just when the status is offline, and a reply to
a ping is awaited on the socket of the ping alone. -/
structure Sound (s : Connection) : Prop where
  alive : s.failed = false
  status : s.net.server = none ↔ s.myStatus = Signals.offlineStatus
  ping : s.m_bWaitingPingReply = true → ∀ c ∈ s.net.server, s.pingedOn = some c.id

/-- A socket that is opened anew is connected and greeted, and no reply is awaited. -/
def ReconnectOk (s : Connection) (n : Network) : Prop :=
  (n.connects s.attempts).isSome ∧ n.sends s.sent = true ∧ s.m_bWaitingPingReply = false

/-- The packet to a conversation can be sent, or its socket is not the server's, or others stay in
the conversation. -/
def ConversationOk (s : Connection) (n : Network) (userId : UserId) (cid : ℕ) : Prop :=
  ∀ sock ∈ s.net.typingSocket userId cid,
    n.sends s.sent = true ∨ ¬ (s.net.server = some sock ∧ s.net.Closes sock.fd userId)

/-- The greeting of a logon can be sent and no reply is awaited, a new status and the goodbye can be
sent, and so can the first of two packets about a user. -/
def SignalOk (s : Connection) (n : Network) (sig : ProtocolSignal) : Prop :=
  match s.net.server.isSome, sig.signal with
  | false, .logon status => status ≠ Signals.offlineStatus → (n.connects s.attempts).isSome →
      n.sends s.sent = true ∧ s.m_bWaitingPingReply = false
  | true, .changeStatus _ => n.sends s.sent = true
  | true, .logoff => n.sends s.sent = true
  | true, .notifyTyping active cid => active = true → s.ConversationOk n sig.userId cid
  | true, .sendMessage _ _ _ cid => (s.net.conversation cid).isSome →
      s.ConversationOk n sig.userId cid
  | true, .blockUser => s.net.known sig.userId = true → n.sends s.sent = true
  | true, .unblockUser => s.net.known sig.userId = true → n.sends s.sent = true
  | _, _ => True

def PacketOk (s : Connection) (n : Network) : ServerPacket → Prop
  | .xfr => s.ReconnectOk n
  | .syn => n.sends s.sent = true
  | _ => True

/-- What has to be so for a step to leave everything right. -/
def Ok (n : Network) (s : Connection) : ServerStep → Prop
  | .signal sig => s.SignalOk n sig
  | .packet p => s.net.server ≠ none → s.PacketOk n p
  | .more p => ∀ sock ∈ s.sock, s.IsServer n sock ∧ s.PacketOk n p
  | .lost => s.net.server ≠ none → s.ReconnectOk n
  | .ssl .ok => s.mySslSocket = true → s.net.server ≠ none
  | .ping => s.m_bWaitingPingReply = true → s.net.server ≠ none → n.sends s.sent = true ∧
      ((n.connects s.attempts).isSome → n.sends (s.sent + 1) = true)
  | .typing userId cid => s.ConversationOk n userId cid
  | .quit => s.net.server ≠ none → n.sends s.sent = true
  | _ => True

/-- Without a socket the server is not pinged, and sockets have been numbered. -/
structure Inv (s : Connection) : Prop where
  quiet : s.net.server = none → s.m_bCanPing = false
  server : ∀ c ∈ s.net.server, c.id < s.net.nextSession
  pinged : ∀ id ∈ s.pingedOn, id < s.net.nextSession

structure Fine (s : Connection) : Prop where
  sound : s.Sound
  inv : s.Inv

/-- The outcome of an operation is fine if the condition holds, and wrong if not. -/
def Decides (r : Option Connection) (ok : Prop) : Prop :=
  (ok ∧ ∃ s', r = some s' ∧ s'.Fine) ∨ (¬ ok ∧ ∀ s', r = some s' → ¬ s'.Sound)

/-! ## The operations -/

theorem Fine.decides (h : s.Fine) : Decides (some s) True := Or.inl ⟨trivial, s, rfl, h⟩

theorem Decides.congr {r : Option Connection} {p q : Prop} (h : Decides r p) (hpq : p ↔ q) :
    Decides r q := by
  rwa [← propext hpq]

/-- Nothing changes but what is sent, and the sessions. -/
theorem Fine.same (h : s.Fine) {s' : Connection} (hserver : s'.net.server = s.net.server)
    (hnext : s.net.nextSession ≤ s'.net.nextSession) (hstatus : s'.myStatus = s.myStatus)
    (hcan : s'.m_bCanPing = s.m_bCanPing) (hwait : s'.m_bWaitingPingReply = s.m_bWaitingPingReply)
    (hpinged : s'.pingedOn = s.pingedOn) (hfailed : s'.failed = s.failed) : s'.Fine where
  sound := ⟨hfailed.trans h.sound.alive, by rw [hserver, hstatus]; exact h.sound.status,
    by rw [hserver, hwait, hpinged]; exact h.sound.ping⟩
  inv := ⟨by rw [hserver, hcan]; exact h.inv.quiet,
    fun c hc => (h.inv.server c (hserver ▸ hc)).trans_le hnext,
    fun id hid => (h.inv.pinged id (hpinged ▸ hid)).trans_le hnext⟩

theorem Fine.tried (h : s.Fine) : s.tried.Fine :=
  h.same rfl (Nat.le_refl _) rfl rfl rfl rfl rfl

theorem Fine.idle (h : s.Fine) : s.idle.Fine := h.same rfl (Nat.le_refl _) rfl rfl rfl rfl rfl

theorem logoff_server (net : Net) : net.logoff.server = none := by
  rw [Net.logoff]
  split_ifs with hnone
  · exact hnone
  · rfl

theorem logoff_nextSession (net : Net) : net.logoff.nextSession = net.nextSession := by
  rw [Net.logoff]
  split_ifs <;> rfl

/-- Whoever is logged off is offline. -/
theorem fine_disconnected (halive : s.failed = false)
    (hpinged : ∀ id ∈ s.pingedOn, id < s.net.nextSession) : s.disconnected.Fine := by
  have hserver : s.disconnected.net.server = none := logoff_server s.net
  have hnext : s.disconnected.net.nextSession = s.net.nextSession := logoff_nextSession s.net
  refine ⟨⟨halive, iff_of_true hserver rfl, fun _ c hc => ?_⟩, fun _ => rfl, fun c hc => ?_, ?_⟩
  · rw [hserver] at hc
    cases hc
  · rw [hserver] at hc
    cases hc
  · rw [hnext]
    exact hpinged

theorem Fine.disconnected (h : s.Fine) : s.disconnected.Fine :=
  fine_disconnected h.sound.alive h.inv.pinged

theorem sendPacket_sent (hserver : s.net.server ≠ none) (hsent : n.sends s.sent = true) :
    s.sendPacket n = some s.tried := by
  rw [sendPacket, if_neg hserver, if_pos hsent]

theorem sendPacket_failed (hserver : s.net.server ≠ none) (hsent : ¬ n.sends s.sent = true) :
    s.sendPacket n = some s.tried.disconnected := by
  rw [sendPacket, if_neg hserver, if_neg hsent]

/-- A single packet is fine, whether it can be sent or not. -/
theorem Fine.sendPacket (h : s.Fine) (hserver : s.net.server ≠ none) :
    Decides (s.sendPacket n) True := by
  by_cases hsent : n.sends s.sent = true
  · exact Or.inl ⟨trivial, _, sendPacket_sent hserver hsent, h.tried⟩
  · exact Or.inl ⟨trivial, _, sendPacket_failed hserver hsent, h.tried.disconnected⟩

/-- A status that is set after a packet. -/
theorem Fine.sendPacket_status (h : s.Fine) (hserver : s.net.server ≠ none) {status : ℕ}
    (hstatus : status ≠ Signals.offlineStatus) :
    Decides ((s.sendPacket n).map fun s => { s with myStatus := status })
      (n.sends s.sent = true) := by
  by_cases hsent : n.sends s.sent = true
  · refine Or.inl ⟨hsent, _, by rw [sendPacket_sent hserver hsent]; rfl, ?_⟩
    exact ⟨⟨h.sound.alive, iff_of_false hserver hstatus, h.sound.ping⟩, h.inv.quiet, h.inv.server,
      h.inv.pinged⟩
  · refine Or.inr ⟨hsent, fun s' hs' hsound => ?_⟩
    rw [sendPacket_failed hserver hsent] at hs'
    cases hs'
    exact hstatus (hsound.status.mp (logoff_server _))

theorem msnStatus_ne_offline (status : ℕ) : (msnStatus status).2 ≠ Signals.offlineStatus := by
  rw [msnStatus]
  split_ifs <;> decide

theorem chgStatus_ne_offline (strStatus : List Char) : chgStatus strStatus ≠ Signals.offlineStatus := by
  rw [chgStatus]
  split_ifs <;> decide

theorem msnLogoff_none (hserver : s.net.server = none) : s.msnLogoff n = some s := by
  rw [msnLogoff, if_pos hserver]

theorem msnLogoff_sent (hserver : s.net.server ≠ none) (hsent : n.sends s.sent = true) :
    s.msnLogoff n = some s.tried.disconnected := by
  rw [msnLogoff, if_neg hserver, sendPacket_sent hserver hsent, Option.bind_some]
  exact if_neg hserver

/-- The second goodbye finds no socket. -/
theorem msnLogoff_failed (hserver : s.net.server ≠ none) (hsent : ¬ n.sends s.sent = true) :
    s.msnLogoff n = none := by
  have hclosed : s.tried.disconnected.net.server = none := logoff_server _
  rw [msnLogoff, if_neg hserver, sendPacket_failed hserver hsent, Option.bind_some, if_pos hclosed]

theorem Fine.msnLogoff (h : s.Fine) :
    Decides (s.msnLogoff n) (s.net.server ≠ none → n.sends s.sent = true) := by
  by_cases hserver : s.net.server = none
  · rw [msnLogoff_none hserver]
    exact h.decides.congr (by simp [hserver])
  · by_cases hsent : n.sends s.sent = true
    · exact Or.inl ⟨fun _ => hsent, _, msnLogoff_sent hserver hsent, h.tried.disconnected⟩
    · refine Or.inr ⟨fun hok => hsent (hok hserver), fun s' hs' => ?_⟩
      rw [msnLogoff_failed hserver hsent] at hs'
      cases hs'

/-- A new connection. -/
theorem logon_decides (halive : s.failed = false)
    (hpinged : ∀ id ∈ s.pingedOn, id < s.net.nextSession) {status : ℕ}
    (hstatus : status ≠ Signals.offlineStatus) {fd : ℕ}
    (hconnects : n.connects s.attempts = some fd) :
    Decides (s.logon n status) (n.sends s.sent = true ∧ s.m_bWaitingPingReply = false) := by
  have hconnected : (s.connected fd).net.server ≠ none := Option.some_ne_none _
  rw [logon, if_neg hstatus, hconnects]
  dsimp only
  by_cases hsent : n.sends s.sent = true
  · rw [sendPacket_sent hconnected hsent, Option.map_some]
    by_cases hwait : s.m_bWaitingPingReply = true
    · refine Or.inr ⟨fun hok => absurd hwait (by rw [hok.2]; decide), fun s' hs' hsound => ?_⟩
      cases hs'
      exact absurd (hpinged _ (hsound.ping hwait _ rfl)) (Nat.lt_irrefl _)
    · rw [Bool.not_eq_true] at hwait
      refine Or.inl ⟨⟨hsent, hwait⟩, _, rfl, ⟨halive, iff_of_false hconnected hstatus, ?_⟩,
        fun hnone => absurd hnone hconnected, ?_, ?_⟩
      · intro hwait'
        exact absurd (hwait.symm.trans hwait') (by decide)
      · rintro c ⟨⟩
        exact Nat.lt_succ_self _
      · exact fun id hid => Nat.lt_succ_of_lt (hpinged id hid)
  · refine Or.inr ⟨fun hok => hsent hok.1, fun s' hs' hsound => ?_⟩
    rw [sendPacket_failed hconnected hsent] at hs'
    cases hs'
    exact hstatus (hsound.status.mp (logoff_server _))

theorem Fine.logon (h : s.Fine) (status : ℕ) :
    Decides (s.logon n status) (status ≠ Signals.offlineStatus → (n.connects s.attempts).isSome →
      n.sends s.sent = true ∧ s.m_bWaitingPingReply = false) := by
  by_cases hstatus : status = Signals.offlineStatus
  · rw [Connection.logon, if_pos hstatus]
    exact h.decides.congr (by simp [hstatus])
  · cases hconnects : n.connects s.attempts with
    | none =>
      rw [Connection.logon, if_neg hstatus, hconnects]
      have htried : ({ s with attempts := s.attempts + 1 } : Connection).Fine :=
        h.same rfl (Nat.le_refl _) rfl rfl rfl rfl rfl
      exact htried.decides.congr (by simp)
    | some fd =>
      exact (logon_decides h.sound.alive h.inv.pinged hstatus hconnects).congr (by simp [hstatus])

/-- A connection that takes the place of another. -/
theorem Fine.reconnect (h : s.Fine) (hserver : s.net.server ≠ none) :
    Decides (s.reconnect n) (s.ReconnectOk n) := by
  have hstatus : s.myStatus ≠ Signals.offlineStatus := fun hoff => hserver (h.sound.status.mpr hoff)
  rw [Connection.reconnect, ReconnectOk]
  cases hconnects : n.connects s.attempts with
  | none =>
    refine Or.inr ⟨fun hok => by simpa using hok.1, fun s' hs' hsound => ?_⟩
    rw [Connection.logon, if_neg hstatus, show n.connects s.closed.attempts = none from hconnects]
      at hs'
    cases hs'
    exact hstatus (hsound.status.mp rfl)
  | some fd =>
    have halive : s.closed.failed = false := h.sound.alive
    exact (logon_decides halive h.inv.pinged hstatus hconnects).congr
      ⟨fun hok => ⟨rfl, hok.1, hok.2⟩, fun hok => ⟨hok.2.1, hok.2.2⟩⟩

/-- Two packets about a user. -/
theorem Fine.moveUser (h : s.Fine) (hserver : s.net.server ≠ none) (userId : UserId) :
    Decides (s.moveUser n userId) (s.net.known userId = true → n.sends s.sent = true) := by
  rw [Connection.moveUser]
  split_ifs with hknown
  · by_cases hsent : n.sends s.sent = true
    · rw [sendPacket_sent hserver hsent, Option.bind_some]
      exact (h.tried.sendPacket hserver).congr (by simp [hsent])
    · refine Or.inr ⟨fun hok => hsent (hok hknown), fun s' hs' => ?_⟩
      rw [sendPacket_failed hserver hsent, Option.bind_some] at hs'
      have hclosed : s.tried.disconnected.net.server = none := logoff_server _
      rw [Connection.sendPacket, if_pos hclosed] at hs'
      cases hs'
  · exact h.decides.congr (by simp [hknown])

/-- What is done with the sessions leaves the connection to the server alone. -/
theorem Fine.withNet (h : s.Fine) {net : Net} (hserver : net.server = s.net.server)
    (hnext : s.net.nextSession ≤ net.nextSession) : ({ s with net := net } : Connection).Fine :=
  h.same hserver hnext rfl rfl rfl rfl rfl

theorem leave_server (net : Net) (sock : Session) (userId : UserId) :
    (net.leave sock userId).server = net.server ∧
      (net.leave sock userId).nextSession = net.nextSession := by
  rw [Net.leave]
  dsimp only
  split_ifs <;> exact ⟨rfl, rfl⟩

theorem Fine.sendSBPacket (h : s.Fine) (userId : UserId) (sock : Session) :
    Decides (s.sendSBPacket n userId sock)
      (n.sends s.sent = true ∨ ¬ (s.net.server = some sock ∧ s.net.Closes sock.fd userId)) := by
  rw [Connection.sendSBPacket]
  split_ifs with hsent hcloses
  · exact h.tried.decides.congr (by simp [hsent])
  · refine Or.inr ⟨fun hok => ?_, fun s' hs' => by cases hs'⟩
    exact hok.elim hsent fun hopen => hopen hcloses
  · obtain ⟨hserver, hnext⟩ := leave_server s.net sock userId
    exact (h.tried.withNet hserver hnext.ge).decides.congr (by simp [hcloses])

theorem Fine.sendToConversation (h : s.Fine) (userId : UserId) (cid : ℕ) :
    Decides (s.sendToConversation n userId cid) (s.ConversationOk n userId cid) := by
  rw [Connection.sendToConversation, ConversationOk]
  cases s.net.typingSocket userId cid with
  | none => exact h.decides.congr (by simp)
  | some sock => exact (h.sendSBPacket userId sock).congr (by simp)

theorem Fine.msnSendMessage (h : s.Fine) (hserver : s.net.server ≠ none) (userId : UserId)
    (cid : ℕ) :
    Decides (s.msnSendMessage n userId cid)
      ((s.net.conversation cid).isSome → s.ConversationOk n userId cid) := by
  rw [Connection.msnSendMessage]
  split_ifs with hconvo
  · exact (h.sendToConversation userId cid).congr (by simp [hconvo])
  · exact (h.sendPacket hserver).congr (by simp [hconvo])

/-- A session that is opened is not the connection to the server. -/
theorem Fine.msnSBConnectStart (h : s.Fine) (userId : UserId) (bDataConnection : Bool) :
    Decides (s.msnSBConnectStart n userId bDataConnection) True := by
  rw [Connection.msnSBConnectStart]
  cases n.connects s.attempts with
  | none =>
    have htried : ({ s with attempts := s.attempts + 1 } : Connection).Fine :=
      h.same rfl (Nat.le_refl _) rfl rfl rfl rfl rfl
    exact htried.decides
  | some fd =>
    have hopened : ∀ net : Net, net.server = s.net.server →
        net.nextSession = s.net.nextSession + 1 →
        Decides (Connection.sendSBPacket { s with attempts := s.attempts + 1, net := net } n userId
          (s.net.opened fd userId)) True := by
      intro net hserver hnext
      have hfine : ({ s with attempts := s.attempts + 1, net := net } : Connection).Fine :=
        h.same hserver (hnext ▸ Nat.le_succ _) rfl rfl rfl rfl rfl
      refine (hfine.sendSBPacket userId _).congr (iff_of_true (Or.inr ?_) trivial)
      rintro ⟨hsome, -⟩
      exact Nat.lt_irrefl _ (h.inv.server _ (hserver.symm.trans hsome))
    refine hopened _ ?_ ?_
    · cases bDataConnection with
      | true => rfl
      | false =>
        rw [if_neg Bool.false_ne_true, Net.setSocketDesc]
        split_ifs <;> rfl
    · cases bDataConnection with
      | true => rfl
      | false =>
        rw [if_neg Bool.false_ne_true, Net.setSocketDesc]
        split_ifs <;> rfl

theorem Fine.msnSBConnectAnswer (h : s.Fine) (userId : UserId) :
    Decides (s.msnSBConnectAnswer n userId) True := by
  have hknown : ({ s with net := { s.net with
      known := Function.update s.net.known userId true } } : Connection).Fine :=
    h.withNet rfl (Nat.le_refl _)
  exact hknown.msnSBConnectStart userId false

theorem Fine.msnAuthenticate (h : s.Fine) : (s.msnAuthenticate n).Fine :=
  h.same rfl (Nat.le_refl _) rfl rfl rfl rfl rfl

theorem Fine.sendServerPing (h : s.Fine) :
    Decides (s.sendServerPing n) (s.m_bWaitingPingReply = true → s.net.server ≠ none →
      n.sends s.sent = true ∧ ((n.connects s.attempts).isSome → n.sends (s.sent + 1) = true)) := by
  rw [Connection.sendServerPing]
  split_ifs with hwait hcan
  · obtain ⟨s₀, hs₀⟩ : ∃ s₀ : Connection, s₀ = { s with m_bWaitingPingReply := false } := ⟨_, rfl⟩
    have hnot : s₀.Fine := by
      subst hs₀
      exact ⟨⟨h.sound.alive, h.sound.status, nofun⟩, h.inv.quiet,
        h.inv.server, h.inv.pinged⟩
    have hnet : s₀.net = s.net := by rw [hs₀]
    have hnext : s₀.sent = s.sent := by rw [hs₀]
    rw [← hs₀, ← hnet, ← hnext]
    by_cases hserver : s₀.net.server = none
    · have hstatus := h.sound.status.mp (hnet ▸ hserver)
      rw [msnLogoff_none hserver, Option.bind_some, Connection.logon, if_pos hstatus]
      exact hnot.decides.congr (by simp [hserver])
    · by_cases hsent : n.sends s₀.sent = true
      · have hstatus : s.myStatus ≠ Signals.offlineStatus := fun hoff =>
          hserver (hnet ▸ h.sound.status.mpr hoff)
        rw [msnLogoff_sent hserver hsent, Option.bind_some]
        refine (hnot.tried.disconnected.logon s.myStatus).congr ?_
        have hattempts : s₀.tried.disconnected.attempts = s.attempts := by rw [hs₀]; rfl
        have hwaiting : s₀.tried.disconnected.m_bWaitingPingReply = false := by rw [hs₀]; rfl
        rw [hattempts, hwaiting]
        constructor
        · intro hok _ _
          exact ⟨hsent, fun hconnects => (hok hstatus hconnects).1⟩
        · intro hok _ hconnects
          exact ⟨(hok hwait hserver).2 hconnects, rfl⟩
      · refine Or.inr ⟨fun hok => hsent (hok hwait hserver).1, fun s' hs' => ?_⟩
        rw [msnLogoff_failed hserver hsent] at hs'
        cases hs'
  · have hserver : s.net.server ≠ none := fun hnone => by
      rw [h.inv.quiet hnone] at hcan
      cases hcan
    refine Or.inl ⟨fun hwait' => absurd hwait' hwait, ?_⟩
    obtain ⟨c, hc⟩ := Option.ne_none_iff_exists'.mp hserver
    by_cases hsent : n.sends s.sent = true
    · rw [sendPacket_sent hserver hsent]
      refine ⟨_, rfl, ⟨h.sound.alive, h.sound.status, fun _ d hd => ?_⟩, h.inv.quiet, h.inv.server,
        fun id hid => ?_⟩
      · obtain rfl : c = d := Option.some.inj (hc.symm.trans hd)
        rw [hc]
        rfl
      · obtain ⟨d, hd, rfl⟩ := Option.map_eq_some_iff.mp hid
        exact h.inv.server d hd
    · rw [sendPacket_failed hserver hsent]
      have hclosed : s.tried.disconnected.net.server = none := logoff_server _
      have hnext : s.tried.disconnected.net.nextSession = s.net.nextSession := logoff_nextSession _
      refine ⟨_, rfl, ⟨h.sound.alive, iff_of_true hclosed rfl, fun _ d hd => ?_⟩, fun _ => rfl,
        fun d hd => ?_, fun id hid => ?_⟩
      · cases hclosed.symm.trans hd
      · cases hclosed.symm.trans hd
      · obtain ⟨d, hd, rfl⟩ := Option.map_eq_some_iff.mp hid
        exact (h.inv.server d hd).trans_eq hnext.symm
  · exact h.decides.congr (by simp [hwait])

/-! ## Steps -/

theorem Fine.known (h : s.Fine) (known : UserId → Bool) :
    ({ s with net := { s.net with known := known } } : Connection).Fine :=
  h.withNet rfl (Nat.le_refl _)

theorem Fine.processSignal (h : s.Fine) (sig : ProtocolSignal) :
    Decides (s.processSignal n sig) (s.SignalOk n sig) := by
  obtain ⟨signal, userId⟩ := sig
  by_cases hserver : s.net.server = none
  · have hnone : s.net.server.isSome = false := by rw [hserver]; rfl
    rw [Connection.processSignal, SignalOk, hnone]
    cases signal with
    | logon status =>
      have howner : ({ s with net := { s.net with myOwnerId := userId } } : Connection).Fine :=
        h.withNet rfl (Nat.le_refl _)
      exact howner.logon status
    | _ => exact h.decides
  · have hsome : s.net.server.isSome = true := Option.isSome_iff_ne_none.mpr hserver
    rw [Connection.processSignal, SignalOk, hsome]
    cases signal with
    | changeStatus status => exact h.sendPacket_status hserver (msnStatus_ne_offline status)
    | logoff => exact h.msnLogoff.congr (by simp [hserver])
    | addUser => exact h.sendPacket hserver
    | removeUser =>
      rcases h.sendPacket hserver (n := n) with ⟨-, s', hs', hfine⟩ | ⟨hnot, -⟩
      · exact Or.inl ⟨trivial, _, by rw [hs']; rfl, hfine.known _⟩
      · exact absurd trivial hnot
    | renameUser =>
      dsimp only
      split_ifs
      · exact h.sendPacket hserver
      · exact h.decides
    | notifyTyping active cid =>
      dsimp only
      split_ifs with hactive
      · exact (h.sendToConversation userId cid).congr (by simp [hactive])
      · exact h.decides.congr (by simp [hactive])
    | sendMessage eventId message isUrgent cid => exact h.msnSendMessage hserver userId cid
    | grantAuth => exact h.sendPacket hserver
    | updateInfo => exact h.sendPacket hserver
    | blockUser => exact h.moveUser hserver userId
    | unblockUser => exact h.moveUser hserver userId
    | _ => exact h.decides

theorem Fine.processServerPacket (h : s.Fine) (hserver : s.net.server ≠ none) (p : ServerPacket) :
    Decides (s.processServerPacket n p) (s.PacketOk n p) := by
  have hstatus : s.myStatus ≠ Signals.offlineStatus := fun hoff => hserver (h.sound.status.mpr hoff)
  cases p with
  | ver | cvr | usrOk | chl => exact h.sendPacket hserver
  | xfr => exact h.reconnect hserver
  | xfrSB start =>
    cases start with
    | none => exact h.decides
    | some p => exact h.msnSBConnectStart p.1 p.2
  | usr => exact h.msnAuthenticate.decides
  | syn => exact h.sendPacket_status hserver (msnStatus_ne_offline s.myStatus)
  | lst userId => exact (h.known _).decides
  | chg strStatus =>
    have hchanged : ({ s with myStatus := chgStatus strStatus } : Connection).Fine :=
      ⟨⟨h.sound.alive, iff_of_false hserver (chgStatus_ne_offline strStatus), h.sound.ping⟩,
        h.inv.quiet, h.inv.server, h.inv.pinged⟩
    exact hchanged.decides
  | presence userId newPicture =>
    rw [Connection.processServerPacket]
    split_ifs
    · exact h.sendPacket hserver
    · exact h.decides
  | rng userId => exact h.msnSBConnectAnswer userId
  | qng =>
    have hanswered : ({ s with m_bWaitingPingReply := false } : Connection).Fine :=
      ⟨⟨h.sound.alive, h.sound.status, nofun⟩, h.inv.quiet, h.inv.server,
        h.inv.pinged⟩
    exact hanswered.decides
  | qry =>
    have hcan : ({ s with m_bCanPing := true } : Connection).Fine :=
      ⟨⟨h.sound.alive, h.sound.status, h.sound.ping⟩, fun hnone => absurd hnone hserver,
        h.inv.server, h.inv.pinged⟩
    exact hcan.decides
  | other => exact h.decides

theorem Fine.ssl (h : s.Fine) (mySslSocket : Bool) :
    ({ s with mySslSocket := mySslSocket } : Connection).Fine :=
  h.same rfl (Nat.le_refl _) rfl rfl rfl rfl rfl

theorem Fine.processSSLServerPacket_ok (h : s.Fine) :
    Decides (s.processSSLServerPacket n .ok) (s.net.server ≠ none) := by
  by_cases hserver : s.net.server = none
  · refine Or.inr ⟨fun hok => hok hserver, fun s' hs' => ?_⟩
    rw [Connection.processSSLServerPacket, Connection.sendPacket, if_pos hserver] at hs'
    cases hs'
  · rcases h.sendPacket hserver (n := n) with ⟨-, s', hs', hfine⟩ | ⟨hnot, -⟩
    · refine Or.inl ⟨hserver, _, ?_, hfine.ssl false⟩
      rw [Connection.processSSLServerPacket, hs']
      rfl
    · exact absurd trivial hnot

/-- Sessions come and go, and the socket of the server stays. -/
theorem session_server (net : Net) (a : SessionStep) :
    (net.session? a).server = net.server ∧ (net.session? a).nextSession = net.nextSession := by
  cases a with
  | join sock userId =>
    rw [Net.session?]
    split_ifs
    · rw [Net.addUser]
      cases net.getFromSocket sock.fd <;> exact ⟨rfl, rfl⟩
    · exact ⟨rfl, rfl⟩
  | leave sock userId =>
    rw [Net.session?]
    split_ifs
    · exact leave_server net sock userId
    · exact ⟨rfl, rfl⟩
  | lost sock =>
    rw [Net.session?]
    split_ifs <;> exact ⟨rfl, rfl⟩
  | dataDone sock =>
    rw [Net.session?]
    split_ifs <;> exact ⟨rfl, rfl⟩
  | listed userId known => exact ⟨rfl, rfl⟩

/-- **One step.** -/
theorem Fine.act (h : s.Fine) (a : ServerStep) : Decides (s.act n a) (Ok n s a) := by
  cases a with
  | signal sig => exact h.idle.processSignal sig
  | packet p =>
    rw [Connection.act, Ok]
    cases hserver : s.net.server with
    | none => exact h.decides.congr (by simp)
    | some sock =>
      have hsome : s.net.server ≠ none := by simp [hserver]
      have hsock : ({ s with sock := some sock } : Connection).Fine :=
        h.same rfl (Nat.le_refl _) rfl rfl rfl rfl rfl
      refine (hsock.processServerPacket hsome p).congr ?_
      simp only [ne_eq, reduceCtorEq, not_false_eq_true, true_imp_iff]
      cases p <;> rfl
  | more p =>
    rw [Connection.act, Ok]
    cases s.sock with
    | none => exact h.decides.congr (by simp)
    | some sock =>
      dsimp only
      split_ifs with hsame
      · have hserver : s.net.server ≠ none := by
          obtain ⟨c, hc, -⟩ := hsame
          rw [Option.mem_def.mp hc]
          exact Option.some_ne_none c
        exact (h.processServerPacket hserver p).congr (by simp [hsame])
      · exact Or.inr ⟨fun hok => hsame (hok sock rfl).1, fun s' hs' => by cases hs'⟩
  | lost =>
    rw [Connection.act, Ok]
    split_ifs with hserver
    · exact h.decides.congr (by simp [hserver])
    · exact (h.idle.reconnect hserver).congr (by simp [hserver]; rfl)
  | ssl answer =>
    rw [Connection.act]
    split_ifs with hssl
    · cases answer with
      | ok => exact h.idle.processSSLServerPacket_ok.congr (by simp [Ok, hssl, Connection.idle])
      | found => exact h.idle.msnAuthenticate.decides
      | other => exact (h.idle.ssl false).decides
    · cases answer with
      | ok => exact h.decides.congr (by simp [Ok, hssl])
      | found | other => exact h.decides
  | ping => exact h.idle.sendServerPing
  | typing userId cid => exact h.idle.sendToConversation userId cid
  | session a =>
    obtain ⟨hserver, hnext⟩ := session_server s.net a
    exact (h.idle.withNet hserver hnext.ge).decides
  | quit => exact h.idle.msnLogoff

theorem Fine.init (myOwnerId : UserId) (known : UserId → Bool) : (init myOwnerId known).Fine where
  sound := ⟨rfl, iff_of_true rfl rfl, nofun⟩
  inv := ⟨fun _ => rfl, fun c hc => (by cases hc), fun id hid => (by cases hid)⟩

/-- **The state is consistent after every step** of a run, and the socket rightly used, exactly when
every step meets `Ok`. -/
theorem stays_consistent_iff (n : Network) (myOwnerId : UserId) (known : UserId → Bool)
    (as : List ServerStep) :
    Steps.Stays (step n) Sound (init myOwnerId known) as ↔
      Steps.Each (step n) (Ok n) (init myOwnerId known) as := by
  have hstep : ∀ (s : Connection) a, s.Sound →
      step n s a = some ((s.act n a).getD { s with failed := true }) := fun s a hs =>
    if_neg (by rw [hs.alive]; exact Bool.false_ne_true)
  have hinit := Fine.init myOwnerId known
  refine Steps.stays_iff_each_of_inv (I := Inv) ?_ ?_ ?_ hinit.sound hinit.inv as
  · intro s a hs _ hnone
    rw [hstep s a hs] at hnone
    cases hnone
  · intro s a s' hs hinv hs'
    rw [hstep s a hs] at hs'
    cases hs'
    rcases Fine.act ⟨hs, hinv⟩ a with ⟨hok, t, ht, hfine⟩ | ⟨hnot, hwrong⟩
    · rw [ht]
      exact iff_of_true hfine.sound hok
    · refine iff_of_false (fun hsound => ?_) hnot
      cases hact : s.act n a with
      | none =>
        rw [hact] at hsound
        exact absurd hsound.alive (by simp)
      | some t =>
        rw [hact] at hsound
        exact hwrong t hact hsound
  · intro s a s' hs hinv hs' hsound
    rw [hstep s a hs] at hs'
    cases hs'
    rcases Fine.act ⟨hs, hinv⟩ a with ⟨-, t, ht, hfine⟩ | ⟨-, hwrong⟩
    · rw [ht]
      exact hfine.inv
    · cases hact : s.act n a with
      | none =>
        rw [hact] at hsound
        exact absurd hsound.alive (by simp)
      | some t =>
        rw [hact] at hsound
        exact absurd hsound (hwrong t hact)

/-- A contact is blocked, and the first of the two packets cannot be sent. -/
theorem not_stays_consistent_block : ¬ ∀ (n : Network) (myOwnerId : UserId) (known : UserId → Bool)
    (as : List ServerStep), Steps.Stays (step n) Sound (init myOwnerId known) as := by
  intro h
  have hrun := h ⟨fun k => k == 0, fun _ => some 5, id⟩ (CMSN.account 'o') (fun _ => true)
    [.signal ⟨.logon onlineStatus, CMSN.account 'o'⟩, .signal ⟨.blockUser, CMSN.account 'a'⟩]
  have hsound := hrun.2 _ rfl |>.2 _ rfl
  cases hsound.alive

end Connection

end Licq.Msn
