import Licq.Plugin.Signals

/-!
# Msn/Signals — the handlers of the MSN plugin

Without a connection to the server every signal but a logon is dropped.  A message is put aside with
its event, until a switchboard acknowledges it; the other handlers write to the server.
-/

namespace Licq.Signals.Msn

/-! ## Packets -/

/-- `CONTACT_LIST`, `ALLOW_LIST`, `BLOCK_LIST` -/
inductive UserList
  | contact
  | allow
  | block
  deriving DecidableEq

/-- The packets to the server, a name as it is before it is encoded. -/
inductive Packet
  | version
  | xfr
  | logoff
  | changeStatus (status : List Char)
  | addUser (user : List Char) (list : UserList)
  | removeUser (user : List Char) (list : UserList)
  | renameUser (user name : List Char)
  deriving DecidableEq

/-- `CMSN`: the ids of the events that wait for an acknowledgement and for a session, the events that
have been pushed, and the packets that have been written. -/
structure State where
  /-- `myServerSocket != NULL` -/
  myServerSocket : Bool
  myOwnerId : UserId
  myStatus : ℕ
  contacts : Contacts
  pEvents : List ℕ
  lStart : List ℕ
  events : List Event
  sent : List Packet

/-- Whether the server can be reached, whether a packet can be written to it, and the sockets of the
conversations. -/
structure Network where
  connects : Bool
  sends : Packet → Bool
  socketId : ℕ → ℤ

/-! ## Status -/

def onlineStatus : ℕ := 2 ^ 0
def invisibleStatus : ℕ := 2 ^ 2
def awayStatus : ℕ := 2 ^ 8
def occupiedStatus : ℕ := 2 ^ 10
def doNotDisturbStatus : ℕ := 2 ^ 11
def freeForChatStatus : ℕ := 2 ^ 12

/-- What the server is told of a status, and the status that it stands for. -/
def msnStatus (status : ℕ) : List Char × ℕ :=
  if status &&& invisibleStatus ≠ 0 then (['H', 'D', 'N'], onlineStatus ||| invisibleStatus)
  else if status &&& freeForChatStatus ≠ 0 ∨ status = onlineStatus then
    (['N', 'L', 'N'], onlineStatus)
  else if status &&& (occupiedStatus ||| doNotDisturbStatus) ≠ 0 then
    (['B', 'S', 'Y'], onlineStatus ||| occupiedStatus)
  else (['A', 'W', 'Y'], onlineStatus ||| awayStatus)

namespace State

/-- `pushPluginEvent` -/
def pushPluginEvent (s : State) (e : Event) : State := { s with events := s.events ++ [e] }

/-- `MSNLogoff(true)`, of which the users' sockets and status are left out. -/
def disconnected (s : State) : State :=
  { s with
    myServerSocket := false
    myStatus := offlineStatus
    contacts := s.contacts.statusChanged offlineStatus }

/-- `SendPacket`; none where its assertion fails. -/
def sendPacket (s : State) (n : Network) (p : Packet) : Option State :=
  if s.myServerSocket then some (if n.sends p then { s with sent := s.sent ++ [p] } else s.disconnected)
  else none

/-! ## The handlers -/

/-- `Logon` -/
def logon (s : State) (n : Network) (ownerId : UserId) (status : ℕ) : Option State :=
  if status = offlineStatus then some s
  else if s.contacts.owner.isNone then some { s with myOwnerId := ownerId }
  else if ¬ n.connects then some { s with myOwnerId := ownerId }
  else (sendPacket { s with myOwnerId := ownerId, myServerSocket := true } n .version).map fun s =>
    { s with myStatus := status }

/-- `MSNLogoff(false)`.  The socket is closed once more after the packet could not be written. -/
def msnLogoff (s : State) (n : Network) : Option State :=
  if ¬ s.myServerSocket then some s
  else (s.sendPacket n .logoff).bind fun s => if s.myServerSocket then some s.disconnected else none

def msnChangeStatus (s : State) (n : Network) (status : ℕ) : Option State :=
  (s.sendPacket n (.changeStatus (msnStatus status).1)).map fun s =>
    { s with myStatus := (msnStatus status).2 }

def msnAddUser (s : State) (n : Network) (userId : UserId) : Option State :=
  s.sendPacket n (.addUser userId.accountId .contact)

def msnRemoveUser (s : State) (n : Network) (userId : UserId) : Option State :=
  (s.sendPacket n (.removeUser userId.accountId .contact)).map fun s =>
    { s with contacts := s.contacts.removeLocalUser userId }

def msnRenameUser (s : State) (n : Network) (userId : UserId) : Option State :=
  match s.contacts.user? userId with
  | none => some s
  | some u => s.sendPacket n (.renameUser userId.accountId u.myAlias)

def msnGrantAuth (s : State) (n : Network) (userId : UserId) : Option State :=
  s.sendPacket n (.addUser userId.accountId .allow)

def msnUpdateUser (s : State) (n : Network) (newAlias : List Char) : Option State :=
  s.sendPacket n (.renameUser s.myOwnerId.accountId newAlias)

/-- `MSNBlockUser` and `MSNUnblockUser`: from one list to the other. -/
def moveUser (s : State) (n : Network) (userId : UserId) (old new : UserList) : Option State :=
  match s.contacts.user? userId with
  | none => some s
  | some _ => (s.sendPacket n (.removeUser userId.accountId old)).bind fun s =>
    s.sendPacket n (.addUser userId.accountId new)

def msnBlockUser (s : State) (n : Network) (userId : UserId) : Option State :=
  s.moveUser n userId .allow .block

def msnUnblockUser (s : State) (n : Network) (userId : UserId) : Option State :=
  s.moveUser n userId .block .allow

/-- `MSNSendMessage` -/
def msnSendMessage (s : State) (n : Network) (eventId convoId : ℕ) : Option State :=
  let nSocket := if convoId ≠ 0 then n.socketId convoId else -1
  if nSocket > 0 then some { s with pEvents := s.pEvents ++ [eventId] }
  -- Must connect to the SB and call the user
  else sendPacket { s with lStart := s.lStart ++ [eventId] } n .xfr

/-- The alias that the owner's information is updated with.  It is read where the guard holds no
owner, through a null pointer, and stays empty where there is one. -/
def ownerAlias (s : State) : Option (List Char) :=
  if s.contacts.owner.isSome then some [] else none

/-- `ProcessSignal` -/
def processSignal (s : State) (n : Network) (sig : ProtocolSignal) : Option State :=
  match s.myServerSocket, sig.signal with
  | false, .logon status => s.logon n sig.userId status
  | false, _ => some s
  | true, .logon _ => some s
  | true, .changeStatus status => s.msnChangeStatus n status
  | true, .logoff => s.msnLogoff n
  | true, .addUser => s.msnAddUser n sig.userId
  | true, .removeUser => s.msnRemoveUser n sig.userId
  | true, .renameUser => s.msnRenameUser n sig.userId
  -- only the timers and the switchboard have to do with it
  | true, .notifyTyping .. => some s
  | true, .sendMessage eventId _ _ convoId => s.msnSendMessage n eventId convoId
  | true, .grantAuth eventId =>
    (s.msnGrantAuth n sig.userId).map (·.pushPluginEvent ⟨eventId, .success⟩)
  | true, .updateInfo eventId => s.ownerAlias.bind fun newAlias =>
    (s.msnUpdateUser n newAlias).map (·.pushPluginEvent ⟨eventId, .success⟩)
  | true, .blockUser => s.msnBlockUser n sig.userId
  | true, .unblockUser => s.msnUnblockUser n sig.userId
  -- Unsupported action, if it has an eventId, cancel it
  | true, _ =>
    some (if sig.eventId ≠ 0 then s.pushPluginEvent ⟨sig.eventId, .unsupported⟩ else s)

end State

end Licq.Signals.Msn
