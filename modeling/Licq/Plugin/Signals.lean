import Licq.ContactList.UserId

/-!
# Plugin/Signals — what a protocol plugin is asked to do

The protocol manager turns a request into a signal for the plugin of the owner.  A request that its
caller wants to follow carries an event id, for which the plugin pushes an event when it is done.
-/

namespace Licq.Signals

/-! ## Signals -/

/-- `User::OfflineStatus` -/
def offlineStatus : ℕ := 0

/-- `ProtocolSignal::SignalType`, each with what its signal carries. -/
inductive SignalType
  | logon (status : ℕ)
  | logoff
  | changeStatus (status : ℕ)
  | addUser
  | removeUser
  | renameUser
  | changeUserGroups
  | sendMessage (eventId : ℕ) (message : List Char) (isUrgent : Bool) (convoId : ℕ)
  | notifyTyping (active : Bool) (convoId : ℕ)
  | grantAuth (eventId : ℕ)
  | refuseAuth (eventId : ℕ)
  | requestInfo (eventId : ℕ)
  | updateInfo (eventId : ℕ)
  | requestPicture (eventId : ℕ)
  | blockUser
  | unblockUser
  | acceptUser
  | unacceptUser
  | ignoreUser
  | unignoreUser
  | sendFile (eventId : ℕ)
  | sendChat
  | cancelEvent (eventId : ℕ)
  | sendReply
  | openSecure (eventId : ℕ)
  | closeSecure (eventId : ℕ)
  | requestAuth (message : List Char)
  | renameGroup (groupId : ℕ)
  | removeGroup (groupId : ℕ)
  | sendUrl (eventId : ℕ)
  | protocolSpecific (eventId : ℕ)
  deriving DecidableEq

/-- The id that the signal's constructor passes on. -/
def SignalType.eventId : SignalType → ℕ
  | .sendMessage eventId .. | .grantAuth eventId | .refuseAuth eventId | .requestInfo eventId
  | .updateInfo eventId | .requestPicture eventId | .sendFile eventId | .cancelEvent eventId
  | .openSecure eventId | .closeSecure eventId | .sendUrl eventId | .protocolSpecific eventId =>
    eventId
  | _ => 0

/-- `ProtocolSignal` -/
structure ProtocolSignal where
  signal : SignalType
  userId : UserId
  deriving DecidableEq

def ProtocolSignal.eventId (s : ProtocolSignal) : ℕ := s.signal.eventId

/-- `Event::ResultType`, of those that the plugins report. -/
inductive Result
  | acked
  | success
  | unsupported
  deriving DecidableEq

/-- `Event` -/
structure Event where
  eventId : ℕ
  result : Result
  deriving DecidableEq

/-! ## Contacts -/

/-- What the plugins read and write of an owner. -/
structure Owner where
  myAlias : List Char
  status : ℕ
  deriving DecidableEq

def Owner.isOnline (o : Owner) : Bool := o.status ≠ offlineStatus

/-- What the plugins read of a user. -/
structure User where
  id : UserId
  myAlias : List Char
  groups : List ℕ
  deriving DecidableEq

/-- `isInGroup` -/
def User.isInGroup (u : User) (groupId : ℕ) : Bool := groupId ∈ u.groups

/-- The contact list of one owner: the owner if it is there, its users, and the groups by id. -/
structure Contacts where
  owner : Option Owner
  users : List User
  groupName : ℕ → List Char

/-- `UserReadGuard` -/
def Contacts.user? (c : Contacts) (userId : UserId) : Option User :=
  c.users.find? (·.id = userId)

/-- `statusChanged`, of the owner. -/
def Contacts.statusChanged (c : Contacts) (status : ℕ) : Contacts :=
  { c with owner := c.owner.map fun o => { o with status := status } }

/-- `removeLocalUser` -/
def Contacts.removeLocalUser (c : Contacts) (userId : UserId) : Contacts :=
  { c with users := c.users.filter (·.id ≠ userId) }

/-- `isProtocolConnected` -/
def Contacts.isProtocolConnected (c : Contacts) : Bool := c.owner.any Owner.isOnline

/-- The groups of a user by name, those without one left out. -/
def Contacts.groupNames (c : Contacts) (u : User) : List (List Char) :=
  (u.groups.map c.groupName).filter fun name => name ≠ []

/-- `getUserGroups` -/
def Contacts.getUserGroups (c : Contacts) (userId : UserId) : List (List Char) :=
  ((c.user? userId).map c.groupNames).getD []

end Licq.Signals
