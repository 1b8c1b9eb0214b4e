import Licq.Plugin.Signals

/-!
# Jabber/Plugin — the handlers of the Jabber plugin

One instance serves one owner.  Its client object exists between a logon and a logoff; most handlers
assert that it does.  `processSignal` is a partial function, which ends where an assertion fails or a
null pointer is followed.
-/

namespace Licq.Signals.Jabber

/-! ## The client -/

/-- `Client`: whether its connection is open, and whether it has logged on over it. -/
structure Client where
  isOpen : Bool
  isConnected : Bool
  deriving DecidableEq

/-- What the plugin has the client do. -/
inductive Call
  | changeStatus (status : ℕ)
  | sendMessage (user message : List Char) (isUrgent : Bool)
  | notifyTyping (user : List Char) (active : Bool)
  | getVCard (user : List Char)
  | setOwnerVCard (owner : Owner)
  | addUser (user : List Char) (groupNames : List (List Char))
  | changeUserGroups (user : List Char) (groupNames : List (List Char))
  | removeUser (user : List Char)
  | renameUser (user newName : List Char)
  | grantAuthorization (user : List Char)
  | refuseAuthorization (user : List Char)
  | requestAuthorization (user message : List Char)
  deriving DecidableEq

/-- `Plugin`, with the contact list, what the client has been told, each with whether its connection
was open then, and the events that have been pushed. -/
structure State where
  myClient : Option Client
  contacts : Contacts
  calls : List (Bool × Call)
  events : List Event

/-- What the library under the client does while a signal is processed: whether it can connect, and
whether it tells of a disconnect when the client is deleted or fails to. -/
structure Network where
  connects : Bool
  disconnects : Bool
  deriving DecidableEq

namespace State

/-- `pushPluginEvent` -/
def pushPluginEvent (s : State) (e : Event) : State := { s with events := s.events ++ [e] }

/-- `Handler::onDisconnect`, of which the users' status is left out. -/
def onDisconnect (s : State) : State :=
  { s with contacts := s.contacts.statusChanged offlineStatus }

/-- The client is told something; none where there is no client. -/
def call (s : State) (c : Call) : Option State :=
  s.myClient.map fun client => { s with calls := s.calls ++ [(client.isOpen, c)] }

/-- `delete myClient`, which disconnects. -/
def deleteClient (s : State) (n : Network) : State :=
  { if n.disconnects then s.onDisconnect else s with myClient := none }

/-! ## The handlers -/

def doLogon (s : State) (n : Network) (status : ℕ) : State :=
  if status = offlineStatus then s
  else if s.contacts.owner.isNone then s
  else
    let client := s.myClient.getD ⟨false, false⟩
    if client.isConnected then { s with myClient := some client }
    else if n.connects then { s with myClient := some { client with isOpen := true } }
    else s.deleteClient n

def doChangeStatus (s : State) (status : ℕ) : Option State :=
  (s.call (.changeStatus status)).map fun s =>
    { s with contacts := s.contacts.statusChanged status }

def doLogoff (s : State) (n : Network) : State :=
  if s.myClient.isNone then s else s.deleteClient n

/-- A handler that tells the client one thing and pushes an event. -/
def callAndAnswer (s : State) (c : Call) (e : Event) : Option State :=
  (s.call c).map (·.pushPluginEvent e)

def doSendMessage (s : State) (userId : UserId) (eventId : ℕ) (message : List Char)
    (isUrgent : Bool) : Option State :=
  s.callAndAnswer (.sendMessage userId.accountId message isUrgent) ⟨eventId, .acked⟩

def doNotifyTyping (s : State) (userId : UserId) (active : Bool) : Option State :=
  s.call (.notifyTyping userId.accountId active)

def doGetInfo (s : State) (userId : UserId) (eventId : ℕ) : Option State :=
  s.callAndAnswer (.getVCard userId.accountId) ⟨eventId, .success⟩

def doUpdateInfo (s : State) (eventId : ℕ) : Option State :=
  if s.myClient.isNone then none
  else
    match s.contacts.owner with
    | none => some s
    | some owner => s.callAndAnswer (.setOwnerVCard owner) ⟨eventId, .success⟩

def doGetPicture (s : State) (userId : UserId) (eventId : ℕ) : Option State :=
  s.callAndAnswer (.getVCard userId.accountId) ⟨eventId, .success⟩

def doAddUser (s : State) (userId : UserId) : Option State :=
  s.call (.addUser userId.accountId (s.contacts.getUserGroups userId))

def doChangeUserGroups (s : State) (userId : UserId) : Option State :=
  s.call (.changeUserGroups userId.accountId (s.contacts.getUserGroups userId))

def doRemoveUser (s : State) (userId : UserId) : Option State :=
  (s.call (.removeUser userId.accountId)).map fun s =>
    { s with contacts := s.contacts.removeLocalUser userId }

def doRenameUser (s : State) (userId : UserId) : Option State :=
  if s.myClient.isNone then none
  else
    match s.contacts.user? userId with
    | none => some s
    | some u => s.call (.renameUser userId.accountId u.myAlias)

def doGrantAuth (s : State) (userId : UserId) (eventId : ℕ) : Option State :=
  s.callAndAnswer (.grantAuthorization userId.accountId) ⟨eventId, .success⟩

def doRefuseAuth (s : State) (userId : UserId) (eventId : ℕ) : Option State :=
  s.callAndAnswer (.refuseAuthorization userId.accountId) ⟨eventId, .success⟩

def doRequestAuth (s : State) (userId : UserId) (message : List Char) : Option State :=
  s.call (.requestAuthorization userId.accountId message)

/-- What the client is told of a user whose group has a new name. -/
def groupsCall (c : Contacts) (u : User) : Call :=
  .changeUserGroups u.id.accountId (c.groupNames u)

/-- The loop does not look at the client before its first call. -/
def doRenameGroup (s : State) (groupId : ℕ) : Option State :=
  (s.contacts.users.filter (·.isInGroup groupId)).foldlM
    (fun t u => t.call (groupsCall s.contacts u)) s

/-- `processSignal` -/
def processSignal (s : State) (n : Network) (sig : ProtocolSignal) : Option State :=
  match sig.signal with
  | .logon status => some (s.doLogon n status)
  | .logoff => some (s.doLogoff n)
  | .changeStatus status => s.doChangeStatus status
  | .addUser => s.doAddUser sig.userId
  | .removeUser => s.doRemoveUser sig.userId
  | .renameUser => s.doRenameUser sig.userId
  | .changeUserGroups => s.doChangeUserGroups sig.userId
  | .sendMessage eventId message isUrgent _ =>
    s.doSendMessage sig.userId eventId message isUrgent
  | .notifyTyping active _ => s.doNotifyTyping sig.userId active
  | .grantAuth eventId => s.doGrantAuth sig.userId eventId
  | .refuseAuth eventId => s.doRefuseAuth sig.userId eventId
  | .requestInfo eventId => s.doGetInfo sig.userId eventId
  | .updateInfo eventId => s.doUpdateInfo eventId
  | .requestPicture eventId => s.doGetPicture sig.userId eventId
  | .requestAuth message => s.doRequestAuth sig.userId message
  | .renameGroup groupId => s.doRenameGroup groupId
  -- Unsupported action, if it has an eventId, cancel it
  | _ => some (if sig.eventId ≠ 0 then s.pushPluginEvent ⟨sig.eventId, .unsupported⟩ else s)

end State

/-- The signals whose handler tells the client something, whichever users there are. -/
def needsClient : SignalType → Bool
  | .changeStatus _ | .addUser | .removeUser | .renameUser | .changeUserGroups | .sendMessage ..
  | .notifyTyping .. | .grantAuth _ | .refuseAuth _ | .requestInfo _ | .updateInfo _
  | .requestPicture _ | .requestAuth _ => true
  | _ => false

end Licq.Signals.Jabber
