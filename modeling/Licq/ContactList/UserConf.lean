import Licq.IniFile.Edit
import Mathlib.Data.Finset.Sort

/-!
# ContactList/UserConf — the settings of a user and of an owner, and their file

`User::save` writes the settings of a contact to its file, one parameter at a time, and the
constructor reads them back.  Three of them are read as what older versions wrote (`readTimezone`, the
groups and the lists), and the status that a user is shown is kept in the bits of ICQ
(`icqStatusToUser`).  An owner adds its password, its server and the status to start with, whose name is
translated when it is written and English when it is read.
-/

namespace Licq.UserConf

open Text IniFile

/-! ## The parameters -/

/-- The section of the settings. -/
def userSection : List Char := ['u', 's', 'e', 'r']

def aliasKey : List Char := ['A', 'l', 'i', 'a', 's']

def keepAliasOnUpdateKey : List Char :=
  ['K', 'e', 'e', 'p', 'A', 'l', 'i', 'a', 's', 'O', 'n', 'U', 'p', 'd', 'a', 't', 'e']

def timezoneKey : List Char := ['T', 'i', 'm', 'e', 'z', 'o', 'n', 'e']

def authorizationKey : List Char :=
  ['A', 'u', 't', 'h', 'o', 'r', 'i', 'z', 'a', 't', 'i', 'o', 'n']

def historyKey : List Char := ['H', 'i', 's', 't', 'o', 'r', 'y']

def groupsSystemKey : List Char := ['G', 'r', 'o', 'u', 'p', 's', '.', 'S', 'y', 's', 't', 'e', 'm']

def onVisibleListKey : List Char :=
  ['O', 'n', 'V', 'i', 's', 'i', 'b', 'l', 'e', 'L', 'i', 's', 't']

def onInvisibleListKey : List Char :=
  ['O', 'n', 'I', 'n', 'v', 'i', 's', 'i', 'b', 'l', 'e', 'L', 'i', 's', 't']

def onIgnoreListKey : List Char := ['O', 'n', 'I', 'g', 'n', 'o', 'r', 'e', 'L', 'i', 's', 't']

def onlineNotifyKey : List Char := ['O', 'n', 'l', 'i', 'n', 'e', 'N', 'o', 't', 'i', 'f', 'y']

def newUserKey : List Char := ['N', 'e', 'w', 'U', 's', 'e', 'r']

def ipKey : List Char := ['I', 'p']

def intIpKey : List Char := ['I', 'n', 't', 'I', 'p']

def portKey : List Char := ['P', 'o', 'r', 't']

def newMessagesKey : List Char := ['N', 'e', 'w', 'M', 'e', 's', 's', 'a', 'g', 'e', 's']

def lastOnlineKey : List Char := ['L', 'a', 's', 't', 'O', 'n', 'l', 'i', 'n', 'e']

def lastSentKey : List Char := ['L', 'a', 's', 't', 'S', 'e', 'n', 't']

def lastRecvKey : List Char := ['L', 'a', 's', 't', 'R', 'e', 'c', 'v']

def lastCheckedARKey : List Char :=
  ['L', 'a', 's', 't', 'C', 'h', 'e', 'c', 'k', 'e', 'd', 'A', 'R']

def registeredTimeKey : List Char :=
  ['R', 'e', 'g', 'i', 's', 't', 'e', 'r', 'e', 'd', 'T', 'i', 'm', 'e']

def autoAcceptKey : List Char := ['A', 'u', 't', 'o', 'A', 'c', 'c', 'e', 'p', 't']

def statusToUserKey : List Char := ['S', 't', 'a', 't', 'u', 's', 'T', 'o', 'U', 's', 'e', 'r']

def customAutoRspKey : List Char :=
  ['C', 'u', 's', 't', 'o', 'm', 'A', 'u', 't', 'o', 'R', 's', 'p']

def sendIntIpKey : List Char := ['S', 'e', 'n', 'd', 'I', 'n', 't', 'I', 'p']

def userEncodingKey : List Char := ['U', 's', 'e', 'r', 'E', 'n', 'c', 'o', 'd', 'i', 'n', 'g']

def awaitingAuthKey : List Char := ['A', 'w', 'a', 'i', 't', 'i', 'n', 'g', 'A', 'u', 't', 'h']

def useGPGKey : List Char := ['U', 's', 'e', 'G', 'P', 'G']

def gpgKey : List Char := ['G', 'P', 'G', 'K', 'e', 'y']

def sendServerKey : List Char := ['S', 'e', 'n', 'd', 'S', 'e', 'r', 'v', 'e', 'r']

def serverGroupKey : List Char := ['S', 'e', 'r', 'v', 'e', 'r', 'G', 'r', 'o', 'u', 'p']

def gsidKey : List Char := ['G', 'S', 'I', 'D']

def groupsUserKey : List Char := ['G', 'r', 'o', 'u', 'p', 's', '.', 'U', 's', 'e', 'r']

def groupCountKey : List Char := ['G', 'r', 'o', 'u', 'p', 'C', 'o', 'u', 'n', 't']

def picturePresentKey : List Char :=
  ['P', 'i', 'c', 't', 'u', 'r', 'e', 'P', 'r', 'e', 's', 'e', 'n', 't']

def startupStatusKey : List Char :=
  ['S', 't', 'a', 'r', 't', 'u', 'p', 'S', 't', 'a', 't', 'u', 's']

def serverHostKey : List Char := ['S', 'e', 'r', 'v', 'e', 'r', 'H', 'o', 's', 't']

def serverPortKey : List Char := ['S', 'e', 'r', 'v', 'e', 'r', 'P', 'o', 'r', 't']

def autoResponseKey : List Char := ['A', 'u', 't', 'o', 'R', 'e', 's', 'p', 'o', 'n', 's', 'e']

def useGlobalStatusKey : List Char :=
  ['U', 's', 'e', 'G', 'l', 'o', 'b', 'a', 'l', 'S', 't', 'a', 't', 'u', 's']

def passwordKey : List Char := ['P', 'a', 's', 's', 'w', 'o', 'r', 'd']

/-- "Group%u" -/
def groupKey (i : ℕ) : List Char := ['G', 'r', 'o', 'u', 'p'] ++ decimal i

/-! ## Information about the user -/

/-- A value of `myUserInfo`, a `boost::any`. -/
inductive Property
  | string (s : List Char)
  | uint (n : ℕ)
  | bool (b : Bool)
  deriving DecidableEq, Repr

/-- The type of such a value. -/
inductive PropertyType
  | string
  | uint
  | bool
  deriving DecidableEq, Repr

def Property.type : Property → PropertyType
  | string _ => .string
  | uint _ => .uint
  | bool _ => .bool

/-- `IniFile::set` of a `boost::any`. -/
def Property.text : Property → List Char
  | string s => s
  | uint n => decimal n
  | bool b => boolText b

/-- `IniFile::get` of a `boost::any`, whose type says what is read. -/
def getProperty (ini : IniFile) (key : List Char) : PropertyType → Property
  | .string => .string (getString ini key [])
  | .uint => .uint (getUnsigned ini key 0)
  | .bool => .bool (getBool ini key false)

abbrev PropertyMap := List (List Char × Property)

/-- The properties of a new user, in the order of the map. -/
def initUserInfo : PropertyMap :=
  [(['A', 'b', 'o', 'u', 't'], .string []),
    (['A', 'd', 'd', 'r', 'e', 's', 's'], .string []),
    (['A', 'g', 'e'], .uint 65535),
    (['B', 'i', 'r', 't', 'h', 'D', 'a', 'y'], .uint 0),
    (['B', 'i', 'r', 't', 'h', 'M', 'o', 'n', 't', 'h'], .uint 0),
    (['B', 'i', 'r', 't', 'h', 'Y', 'e', 'a', 'r'], .uint 0),
    (['C', 'e', 'l', 'l', 'u', 'l', 'a', 'r', 'N', 'u', 'm', 'b', 'e', 'r'], .string []),
    (['C', 'i', 't', 'y'], .string []),
    (['C', 'o', 'm', 'p', 'a', 'n', 'y', 'A', 'd', 'd', 'r', 'e', 's', 's'], .string []),
    (['C', 'o', 'm', 'p', 'a', 'n', 'y', 'C', 'i', 't', 'y'], .string []),
    (['C', 'o', 'm', 'p', 'a', 'n', 'y', 'C', 'o', 'u', 'n', 't', 'r', 'y'], .uint 0),
    (['C', 'o', 'm', 'p', 'a', 'n', 'y', 'D', 'e', 'p', 'a', 'r', 't', 'm', 'e', 'n', 't'],
      .string []),
    (['C', 'o', 'm', 'p', 'a', 'n', 'y', 'F', 'a', 'x', 'N', 'u', 'm', 'b', 'e', 'r'],
      .string []),
    (['C', 'o', 'm', 'p', 'a', 'n', 'y', 'H', 'o', 'm', 'e', 'p', 'a', 'g', 'e'], .string []),
    (['C', 'o', 'm', 'p', 'a', 'n', 'y', 'N', 'a', 'm', 'e'], .string []),
    (['C', 'o', 'm', 'p', 'a', 'n', 'y', 'O', 'c', 'c', 'u', 'p', 'a', 't', 'i', 'o', 'n'],
      .uint 0),
    (['C', 'o', 'm', 'p', 'a', 'n', 'y', 'P', 'h', 'o', 'n', 'e', 'N', 'u', 'm', 'b', 'e', 'r'],
      .string []),
    (['C', 'o', 'm', 'p', 'a', 'n', 'y', 'P', 'o', 's', 'i', 't', 'i', 'o', 'n'], .string []),
    (['C', 'o', 'm', 'p', 'a', 'n', 'y', 'S', 't', 'a', 't', 'e'], .string []),
    (['C', 'o', 'm', 'p', 'a', 'n', 'y', 'Z', 'i', 'p'], .string []),
    (['C', 'o', 'u', 'n', 't', 'r', 'y'], .uint 0),
    (['E', 'm', 'a', 'i', 'l', '0'], .string []),
    (['E', 'm', 'a', 'i', 'l', '1'], .string []),
    (['E', 'm', 'a', 'i', 'l', '2'], .string []),
    (['F', 'a', 'x', 'N', 'u', 'm', 'b', 'e', 'r'], .string []),
    (['F', 'i', 'r', 's', 't', 'N', 'a', 'm', 'e'], .string []),
    (['G', 'e', 'n', 'd', 'e', 'r'], .uint 0),
    (['H', 'i', 'd', 'e', 'E', 'm', 'a', 'i', 'l'], .bool false),
    (['H', 'o', 'm', 'e', 'p', 'a', 'g', 'e'], .string []),
    (['H', 'o', 'm', 'e', 'p', 'a', 'g', 'e', 'C', 'a', 't', 'C', 'o', 'd', 'e'], .uint 0),
    (['H', 'o', 'm', 'e', 'p', 'a', 'g', 'e', 'C', 'a', 't', 'P', 'r', 'e', 's', 'e', 'n', 't'],
      .bool false),
    (['H', 'o', 'm', 'e', 'p', 'a', 'g', 'e', 'D', 'e', 's', 'c'], .string []),
    (['I', 'C', 'Q', 'H', 'o', 'm', 'e', 'p', 'a', 'g', 'e', 'P', 'r', 'e', 's', 'e', 'n', 't'],
      .bool false),
    (['L', 'a', 'n', 'g', 'u', 'a', 'g', 'e', '0'], .uint 0),
    (['L', 'a', 'n', 'g', 'u', 'a', 'g', 'e', '1'], .uint 0),
    (['L', 'a', 'n', 'g', 'u', 'a', 'g', 'e', '2'], .uint 0),
    (['L', 'a', 's', 't', 'N', 'a', 'm', 'e'], .string []),
    (['P', 'h', 'o', 'n', 'e', 'N', 'u', 'm', 'b', 'e', 'r'], .string []),
    (['S', 't', 'a', 't', 'e'], .string []),
    (['Z', 'i', 'p', 'c', 'o', 'd', 'e'], .string [])]

/-! ## Statuses -/

def OfflineStatus : ℕ := 0

def OnlineStatus : ℕ := 2 ^ 0

def IdleStatus : ℕ := 2 ^ 1

def InvisibleStatus : ℕ := 2 ^ 2

def AwayStatus : ℕ := 2 ^ 8

def NotAvailableStatus : ℕ := 2 ^ 9

def OccupiedStatus : ℕ := 2 ^ 10

def DoNotDisturbStatus : ℕ := 2 ^ 11

def FreeForChatStatus : ℕ := 2 ^ 12

/-- A flag of a status is set. -/
def has (status flag : ℕ) : Bool := status &&& flag ≠ 0

/-- The bits of ICQ that `saveLicqInfo` writes for the status that a user is shown. -/
def icqStatusToUser (myStatusToUser : ℕ) : ℕ :=
  if has myStatusToUser OnlineStatus then
    let icqStatusToUser :=
      if has myStatusToUser DoNotDisturbStatus then 0x0013
      else if has myStatusToUser OccupiedStatus then 0x0011
      else if has myStatusToUser NotAvailableStatus then 0x0005
      else if has myStatusToUser AwayStatus then 0x0001
      else if has myStatusToUser FreeForChatStatus then 0x0020
      else 0
    if has myStatusToUser InvisibleStatus then icqStatusToUser ||| 0x0100 else icqStatusToUser
  else 0xFFFF

/-- What `loadLicqInfo` makes of them. -/
def statusOfIcq (icqStatusToUser : ℕ) : ℕ :=
  if icqStatusToUser = 0xFFFF then OfflineStatus
  else
    let myStatusToUser :=
      if has icqStatusToUser 0x0002 then OnlineStatus ||| DoNotDisturbStatus
      else if has icqStatusToUser 0x0010 then OnlineStatus ||| OccupiedStatus
      else if has icqStatusToUser 0x0004 then OnlineStatus ||| NotAvailableStatus
      else if has icqStatusToUser 0x0001 then OnlineStatus ||| AwayStatus
      else if has icqStatusToUser 0x0020 then OnlineStatus ||| FreeForChatStatus
      else OnlineStatus
    if has icqStatusToUser 0x0100 then myStatusToUser ||| InvisibleStatus else myStatusToUser

/-- `User::statusToString`; `tr` translates to the language of the interface. -/
def statusToString (tr : List Char → List Char) (status : ℕ) (full markInvisible : Bool) : List Char :=
  let str :=
    if status = OfflineStatus then
      tr (if full then ['O', 'f', 'f', 'l', 'i', 'n', 'e'] else ['O', 'f', 'f'])
    else if !markInvisible && has status InvisibleStatus then
      tr (if full then ['I', 'n', 'v', 'i', 's', 'i', 'b', 'l', 'e'] else ['I', 'n', 'v'])
    else if has status DoNotDisturbStatus then
      tr (if full then ['D', 'o', ' ', 'N', 'o', 't', ' ', 'D', 'i', 's', 't', 'u', 'r', 'b']
        else ['D', 'N', 'D'])
    else if has status OccupiedStatus then
      tr (if full then ['O', 'c', 'c', 'u', 'p', 'i', 'e', 'd'] else ['O', 'c', 'c'])
    else if has status NotAvailableStatus then
      tr (if full then ['N', 'o', 't', ' ', 'A', 'v', 'a', 'i', 'l', 'a', 'b', 'l', 'e']
        else ['N', '/', 'A'])
    else if has status AwayStatus then tr ['A', 'w', 'a', 'y']
    else if has status FreeForChatStatus then
      tr (if full then ['F', 'r', 'e', 'e', ' ', 'F', 'o', 'r', ' ', 'C', 'h', 'a', 't']
        else ['F', 'F', 'C'])
    else if has status IdleStatus then tr ['I', 'd', 'l', 'e']
    else tr (if full then ['O', 'n', 'l', 'i', 'n', 'e'] else ['O', 'n'])
  if markInvisible && has status InvisibleStatus then '(' :: str ++ [')'] else str

/-- `strcasecmp` -/
def sameCase (a b : List Char) : Bool := (cString a).map Char.toLower = (cString b).map Char.toLower

/-- `User::stringToStatus`; `none` where it returns false. -/
def stringToStatus (strStatus : List Char) : Option ℕ :=
  let (str2, invisible) :=
    if strStatus.head? = some '*' then (strStatus.drop 1, true)
    else if strStatus.head? = some '(' ∧ strStatus.getLast? = some ')' then
      ((strStatus.drop 1).take (strStatus.length - 2), true)
    else (strStatus, false)
  let is := fun name : List Char => sameCase str2 name
  let retStatus : Option ℕ :=
    if is ['o', 'f', 'f', 'l', 'i', 'n', 'e'] || is ['o', 'f', 'f'] then some OfflineStatus
    else if is ['o', 'n', 'l', 'i', 'n', 'e'] || is ['o', 'n'] then some OnlineStatus
    else if is ['a', 'w', 'a', 'y'] then some (OnlineStatus ||| AwayStatus)
    else if is ['n', 'o', 't', ' ', 'a', 'v', 'a', 'i', 'l', 'a', 'b', 'l', 'e'] || is ['n', 'a']
        || is ['n', '/', 'a'] then some (OnlineStatus ||| NotAvailableStatus)
    else if is ['d', 'o', ' ', 'n', 'o', 't', ' ', 'd', 'i', 's', 't', 'u', 'r', 'b']
        || is ['d', 'n', 'd'] then some (OnlineStatus ||| DoNotDisturbStatus)
    else if is ['o', 'c', 'c', 'u', 'p', 'i', 'e', 'd'] || is ['o', 'c', 'c'] then
      some (OnlineStatus ||| OccupiedStatus)
    else if is ['f', 'r', 'e', 'e', ' ', 'f', 'o', 'r', ' ', 'c', 'h', 'a', 't']
        || is ['f', 'f', 'c'] then some (OnlineStatus ||| FreeForChatStatus)
    else if is ['i', 'd', 'l', 'e'] then some (OnlineStatus ||| IdleStatus)
    else if is ['i', 'n', 'v', 'i', 's', 'i', 'b', 'l', 'e'] || is ['i', 'n', 'v'] then
      some (OnlineStatus ||| InvisibleStatus)
    else none
  retStatus.map fun retStatus => if invisible then retStatus ||| InvisibleStatus else retStatus

/-! ## Users and owners -/

/-- The settings of a user.  The two addresses are the texts of them. -/
structure User where
  myAlias : List Char
  m_bKeepAliasOnUpdate : Bool
  myTimezone : ℤ
  m_bAuthorization : Bool
  myUserInfo : PropertyMap
  m_bPicturePresent : Bool
  myOnVisibleList : Bool
  myOnInvisibleList : Bool
  myOnIgnoreList : Bool
  myOnlineNotify : Bool
  myNewUser : Bool
  ipText : List Char
  intIpText : List Char
  m_nPort : ℕ
  lastOnline : ℤ
  lastSentEvent : ℤ
  lastReceivedEvent : ℤ
  lastCheckedAutoResponse : ℤ
  m_nRegisteredTime : ℤ
  myAcceptInAway : Bool
  myAcceptInNotAvailable : Bool
  myAcceptInOccupied : Bool
  myAcceptInDoNotDisturb : Bool
  myAutoAcceptChat : Bool
  myAutoAcceptFile : Bool
  myAutoSecure : Bool
  myStatusToUser : ℕ
  myCustomAutoResponse : List Char
  m_bSendIntIp : Bool
  myEncoding : List Char
  m_bAwaitingAuth : Bool
  m_bUseGPG : Bool
  myGpgKey : List Char
  m_bSendServer : Bool
  myServerGroup : ℤ
  myGroups : Finset ℤ

/-- The settings of an owner. -/
structure Owner extends User where
  m_bSavePassword : Bool
  myPassword : List Char
  myAutoResponse : List Char
  myStartupStatus : ℕ
  myServerHost : List Char
  myServerPort : ℤ
  myUseGlobalStatus : Bool

/-! ## Saving -/

/-- A `time_t` as an `unsigned long`, and back. -/
def toULong (t : ℤ) : ℕ := (t % 2 ^ 64).toNat

def toTime (n : ℕ) : ℤ := (n : ℤ).bmod (2 ^ 64)

/-- What `saveUserInfo` sets. -/
def userInfo (u : User) : List Entry :=
  (aliasKey, u.myAlias) ::
  (keepAliasOnUpdateKey, boolText u.m_bKeepAliasOnUpdate) ::
  (timezoneKey, decimalInt u.myTimezone) ::
  (authorizationKey, boolText u.m_bAuthorization) ::
  u.myUserInfo.map fun p => (p.1, p.2.text)

def autoAcceptFlags (u : User) : ℕ :=
  (if u.myAcceptInAway then 0x0001 else 0) |||
  (if u.myAcceptInNotAvailable then 0x0002 else 0) |||
  (if u.myAcceptInOccupied then 0x0004 else 0) |||
  (if u.myAcceptInDoNotDisturb then 0x0008 else 0) |||
  (if u.myAutoAcceptChat then 0x0100 else 0) |||
  (if u.myAutoAcceptFile then 0x0200 else 0) |||
  (if u.myAutoSecure then 0x0400 else 0)

/-- What `saveLicqInfo` sets before the groups; `newMessages` is the number of unread events. -/
def licqInfo (u : User) (newMessages : ℕ) : List Entry :=
  (onVisibleListKey, boolText u.myOnVisibleList) ::
  (onInvisibleListKey, boolText u.myOnInvisibleList) ::
  (onIgnoreListKey, boolText u.myOnIgnoreList) ::
  (onlineNotifyKey, boolText u.myOnlineNotify) ::
  (newUserKey, boolText u.myNewUser) ::
  (ipKey, u.ipText) ::
  (intIpKey, u.intIpText) ::
  (portKey, decimal (u.m_nPort % 2 ^ 16)) ::
  (newMessagesKey, decimal newMessages) ::
  (lastOnlineKey, decimal (toULong u.lastOnline)) ::
  (lastSentKey, decimal (toULong u.lastSentEvent)) ::
  (lastRecvKey, decimal (toULong u.lastReceivedEvent)) ::
  (lastCheckedARKey, decimal (toULong u.lastCheckedAutoResponse)) ::
  (registeredTimeKey, decimal (toULong u.m_nRegisteredTime)) ::
  (autoAcceptKey, decimal (autoAcceptFlags u)) ::
  (statusToUserKey, decimal (icqStatusToUser u.myStatusToUser)) ::
  (customAutoRspKey, u.myCustomAutoResponse) ::
  (sendIntIpKey, boolText u.m_bSendIntIp) ::
  (userEncodingKey, u.myEncoding) ::
  (awaitingAuthKey, boolText u.m_bAwaitingAuth) ::
  (useGPGKey, boolText u.m_bUseGPG) ::
  (gpgKey, u.myGpgKey) ::
  (sendServerKey, boolText u.m_bSendServer) ::
  if -1 < u.myServerGroup then [(serverGroupKey, decimalInt u.myServerGroup)] else []

/-- Numbered groups. -/
def numbered (i : ℕ) : List ℤ → List Entry
  | [] => []
  | g :: groups => (groupKey i, decimalInt g) :: numbered (i + 1) groups

/-- What `saveLicqInfo` sets for the groups. -/
def groupInfo (u : User) : List Entry :=
  (groupCountKey, decimal (u.myGroups.card % 2 ^ 32)) :: numbered 1 (u.myGroups.sort (· ≤ ·))

/-- What `Owner::saveOwnerInfo` sets. -/
def ownerInfo (tr : List Char → List Char) (o : Owner) : List Entry :=
  [(authorizationKey, boolText o.m_bAuthorization),
    (startupStatusKey, statusToString tr o.myStartupStatus true true),
    (serverHostKey, o.myServerHost), (serverPortKey, decimalInt o.myServerPort),
    (autoResponseKey, o.myAutoResponse), (useGlobalStatusKey, boolText o.myUseGlobalStatus),
    (passwordKey, if o.m_bSavePassword then o.myPassword else [])]

def saveLicqInfo (u : User) (newMessages : ℕ) (ini : IniFile) : Option IniFile := do
  let ini := (unset ini historyKey).2
  let ini := (unset ini groupsSystemKey).2
  let ini ← setAll ini (licqInfo u newMessages)
  let ini := (unset ini gsidKey).2
  let ini := (unset ini groupsUserKey).2
  setAll ini (groupInfo u)

/-- `User::save(SaveAll)`; `own` is what `saveOwnerInfo` sets, nothing for a contact. -/
def save (own : List Entry) (u : User) (newMessages : ℕ) (myConf : ConfFile) : Option ConfFile :=
  let r := ConfFile.loadFile myConf
  if !r.1 then some r.2
  else do
    let ini := (setSection r.2.ini userSection true).2
    let ini ← setAll ini (userInfo u)
    let ini ← saveLicqInfo u newMessages ini
    let ini ← setAll ini own
    let ini ← setAll ini [(newMessagesKey, decimal newMessages)]
    let ini ← setAll ini [(picturePresentKey, boolText u.m_bPicturePresent)]
    some (ConfFile.writeFile { r.2 with ini := ini }).2

/-! ## Constructing -/

/-- What a user finds where it is constructed: the language, its protocol and the groups of its owner. -/
structure Session where
  tr : List Char → List Char
  isIcq : Bool
  canSingleGroup : Bool
  getGroupFromServerId : ℕ → ℤ

def TimezoneUnknown : ℤ := 48 * 3600

/-- A time zone as `loadUserInfo` takes it. -/
def readTimezone (myTimezone : ℤ) : ℤ :=
  -- Old value used for unknown
  let myTimezone := if myTimezone = -100 then TimezoneUnknown else myTimezone
  -- Old ICQ style values
  if -24 < myTimezone ∧ myTimezone ≤ 24 then myTimezone * -1800 else myTimezone

def addToGroup (myGroups : Finset ℤ) (groupId : ℤ) : Finset ℤ :=
  if groupId ≤ 0 then myGroups else insert groupId myGroups

def loadGroups (ini : IniFile) : Finset ℤ :=
  match get ini groupCountKey with
  | some _ => (List.range' 1 (getUnsigned ini groupCountKey 0)).foldl
      (fun myGroups i => addToGroup myGroups (getInt ini (groupKey i) 0)) ∅
  | none =>
    -- Groupcount is missing in user config, try and read old group configuration
    let oldGroups := getUnsigned ini groupsUserKey 0
    (List.range 32).foldl
      (fun myGroups i => if oldGroups.testBit i then addToGroup myGroups (i + 1) else myGroups) ∅

def loadServerGroup (s : Session) (ini : IniFile) : ℤ :=
  if s.canSingleGroup then
    match get ini serverGroupKey with
    | some _ => getInt ini serverGroupKey 0
    | none => if s.isIcq then s.getGroupFromServerId (getUnsigned ini gsidKey 0) else 0
  else -1

def unknownText : List Char := ['U', 'n', 'k', 'n', 'o', 'w', 'n']

def noIp : List Char := ['0', '.', '0', '.', '0', '.', '0']

/-- The constructor of a user whose file has been loaded: `loadUserInfo`, `loadPictureInfo` and
`loadLicqInfo`, which reads the unread events as well. -/
def User.construct (s : Session) (isUser : Bool) (myConf : IniFile) : User :=
  let ini := (setSection myConf userSection true).2
  -- Get deprecated parameter and use as default if new values aren't available
  let oldSystemGroups := getULong ini groupsSystemKey 0
  let flags := getUnsigned ini autoAcceptKey 0
  { myAlias := getString ini aliasKey (s.tr unknownText)
    m_bKeepAliasOnUpdate := isUser && getBool ini keepAliasOnUpdateKey false
    myTimezone := readTimezone (getInt ini timezoneKey TimezoneUnknown)
    m_bAuthorization := getBool ini authorizationKey false
    myUserInfo := initUserInfo.map fun p => (p.1, getProperty ini p.1 p.2.type)
    m_bPicturePresent := getBool ini picturePresentKey false
    myOnVisibleList := getBool ini onVisibleListKey (oldSystemGroups.testBit 1)
    myOnInvisibleList := getBool ini onInvisibleListKey (oldSystemGroups.testBit 2)
    myOnIgnoreList := getBool ini onIgnoreListKey (oldSystemGroups.testBit 3)
    myOnlineNotify := getBool ini onlineNotifyKey (oldSystemGroups.testBit 0)
    myNewUser := getBool ini newUserKey (oldSystemGroups.testBit 4)
    ipText := getString ini ipKey noIp
    intIpText := getString ini intIpKey noIp
    m_nPort := getUnsigned ini portKey 0
    lastOnline := toTime (getULong ini lastOnlineKey 0)
    lastSentEvent := toTime (getULong ini lastSentKey 0)
    lastReceivedEvent := toTime (getULong ini lastRecvKey 0)
    lastCheckedAutoResponse := toTime (getULong ini lastCheckedARKey 0)
    m_nRegisteredTime := toTime (getULong ini registeredTimeKey 0)
    myAcceptInAway := has flags 0x0001
    myAcceptInNotAvailable := has flags 0x0002
    myAcceptInOccupied := has flags 0x0004
    myAcceptInDoNotDisturb := has flags 0x0008
    myAutoAcceptChat := has flags 0x0100
    myAutoAcceptFile := has flags 0x0200
    myAutoSecure := has flags 0x0400
    myStatusToUser := statusOfIcq (getUnsigned ini statusToUserKey 0xFFFF)
    myCustomAutoResponse := getString ini customAutoRspKey []
    m_bSendIntIp := getBool ini sendIntIpKey false
    myEncoding := getString ini userEncodingKey []
    m_bAwaitingAuth := getBool ini awaitingAuthKey false
    m_bUseGPG := getBool ini useGPGKey false
    myGpgKey := getString ini gpgKey []
    m_bSendServer := getBool ini sendServerKey false
    myServerGroup := loadServerGroup s ini
    myGroups := loadGroups ini }

def utf8 : List Char := ['U', 'T', 'F', '-', '8']

/-- The constructor of an owner. -/
def Owner.construct (s : Session) (myConf : IniFile) : Owner :=
  let u := User.construct s false myConf
  let ini := (setSection myConf userSection true).2
  { u with
    -- Owner encoding fixup to be UTF-8 by default
    myEncoding := if u.myEncoding = [] then utf8 else u.myEncoding
    m_bSavePassword := true
    myPassword := getString ini passwordKey []
    myAutoResponse := getString ini autoResponseKey []
    myStartupStatus := (stringToStatus (getString ini startupStatusKey [])).getD OfflineStatus
    myServerHost := getString ini serverHostKey []
    myServerPort := getInt ini serverPortKey 0
    myUseGlobalStatus := getBool ini useGlobalStatusKey true }

end Licq.UserConf
