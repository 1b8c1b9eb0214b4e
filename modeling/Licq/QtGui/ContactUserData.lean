import Licq.ContactList.UserId

/-!
# QtGui/ContactUserData — what the contact list knows of a user

The contact list of the Qt GUI keeps for every user a copy of what it shows.  A signal of the daemon
says which part of the user has changed, and only that part is read again.  From the copy follow the
extended status, the sub group and whether the user is shown while offline users are hidden.
-/

namespace Licq.QtGui

/-! ## Signals and statuses -/

/-- `PluginSignal::UserSubSignal` -/
def userStatus : ℕ := 1

def userEvents : ℕ := 2

def userInfo : ℕ := 4

def userGroups : ℕ := 5

def userSettings : ℕ := 6

def userSecurity : ℕ := 9

def userPicture : ℕ := 13

def userTyping : ℕ := 14

def userPluginStatus : ℕ := 15

/-- `User::OfflineStatus` -/
def offlineStatus : ℕ := 0

/-- `IcqPluginStatus` -/
def icqPluginInactive : ℕ := 0

def icqPluginActive : ℕ := 1

def icqPluginBusy : ℕ := 2

/-- `ContactListModel::SubGroupType` -/
inductive SubGroupType
  | online
  | offline
  | notInList
  deriving DecidableEq, Repr

/-! ## Extended status -/

def phoneStatus : ℕ := 2 ^ 0

def cellularStatus : ℕ := 2 ^ 1

def birthdayStatus : ℕ := 2 ^ 2

def invisibleStatus : ℕ := 2 ^ 3

def gpgKeyStatus : ℕ := 2 ^ 4

def gpgKeyEnabledStatus : ℕ := 2 ^ 5

def phoneFollowMeActiveStatus : ℕ := 2 ^ 6

def phoneFollowMeBusyStatus : ℕ := 2 ^ 7

def icqPhoneActiveStatus : ℕ := 2 ^ 8

def icqPhoneBusyStatus : ℕ := 2 ^ 9

def sharedFilesStatus : ℕ := 2 ^ 10

def typingStatus : ℕ := 2 ^ 11

def secureStatus : ℕ := 2 ^ 12

def customArStatus : ℕ := 2 ^ 13

def ignoreStatus : ℕ := 2 ^ 14

def onlineNotifyStatus : ℕ := 2 ^ 15

def notInListStatus : ℕ := 2 ^ 16

def invisibleListStatus : ℕ := 2 ^ 17

def visibleListStatus : ℕ := 2 ^ 18

def newUserStatus : ℕ := 2 ^ 19

def awaitingAuthStatus : ℕ := 2 ^ 20

/-! ## Users -/

/-- What the contact list reads of a user of the daemon: `birthday` says that today is the day, and
texts are there only as far as they are empty or not. -/
structure LicqUser where
  id : UserId
  status : ℕ
  isInvisible : Bool
  isTyping : Bool
  birthday : Bool
  phoneNumber : Bool
  cellularNumber : Bool
  secure : Bool
  gpgKey : Bool
  useGPG : Bool
  customAutoResponse : Bool
  notInList : Bool
  newUser : Bool
  awaitingAuth : Bool
  ignoreList : Bool
  onlineNotify : Bool
  invisibleList : Bool
  visibleList : Bool
  phoneFollowMeStatus : ℕ
  icqPhoneStatus : ℕ
  sharedFilesStatus : ℕ
  newMessages : UInt16
  groups : List ℤ
  deriving DecidableEq

/-- `ContactUserData` -/
structure ContactUserData where
  myUserId : UserId
  myStatus : ℕ
  myEvents : ℤ
  myStatusInvisible : Bool
  myStatusTyping : Bool
  myCustomAR : Bool
  mySecure : Bool
  myBirthday : Bool
  myPhone : Bool
  myCellular : Bool
  myGPGKey : Bool
  myGPGKeyEnabled : Bool
  myNewUser : Bool
  myNotInList : Bool
  myAwaitingAuth : Bool
  myInIgnoreList : Bool
  myInOnlineNotify : Bool
  myInInvisibleList : Bool
  myInVisibleList : Bool
  myPhoneFollowMeStatus : ℕ
  myIcqPhoneStatus : ℕ
  mySharedFilesStatus : ℕ
  myExtendedStatus : ℕ
  mySubGroup : SubGroupType
  myVisibility : Bool
  deriving DecidableEq

namespace ContactUserData

/-- The members before the first update, which sets those that the constructor leaves open. -/
def initial (userId : UserId) : ContactUserData where
  myUserId := userId
  myStatus := offlineStatus
  myEvents := 0
  myStatusInvisible := false
  myStatusTyping := false
  myCustomAR := false
  mySecure := false
  myBirthday := false
  myPhone := false
  myCellular := false
  myGPGKey := false
  myGPGKeyEnabled := false
  myNewUser := false
  myNotInList := false
  myAwaitingAuth := false
  myInIgnoreList := false
  myInOnlineNotify := false
  myInInvisibleList := false
  myInVisibleList := false
  myPhoneFollowMeStatus := icqPluginInactive
  myIcqPhoneStatus := icqPluginInactive
  mySharedFilesStatus := icqPluginInactive
  myExtendedStatus := 0
  mySubGroup := .offline
  myVisibility := false

/-! ## Reading the user -/

/-- The signal is about a part of the user; zero is about every part. -/
def About (subSignal part : ℕ) : Prop := subSignal = 0 ∨ subSignal = part

instance (subSignal part : ℕ) : Decidable (About subSignal part) :=
  inferInstanceAs (Decidable (_ ∨ _))

def readStatus (d : ContactUserData) (u : LicqUser) (subSignal : ℕ) : ContactUserData :=
  if About subSignal userStatus then
    { d with myStatus := u.status, myStatusInvisible := u.isInvisible }
  else d

def readTyping (d : ContactUserData) (u : LicqUser) (subSignal : ℕ) : ContactUserData :=
  if About subSignal userTyping then { d with myStatusTyping := u.isTyping } else d

def readInfo (d : ContactUserData) (u : LicqUser) (subSignal : ℕ) : ContactUserData :=
  if About subSignal userInfo then
    { d with myBirthday := u.birthday, myPhone := u.phoneNumber, myCellular := u.cellularNumber }
  else d

def readSecurity (d : ContactUserData) (u : LicqUser) (subSignal : ℕ) : ContactUserData :=
  if About subSignal userSecurity then
    { d with mySecure := u.secure, myGPGKey := u.gpgKey, myGPGKeyEnabled := u.useGPG }
  else d

def readSettings (d : ContactUserData) (u : LicqUser) (subSignal : ℕ) : ContactUserData :=
  if About subSignal userSettings then
    { d with
      myCustomAR := u.customAutoResponse, myNotInList := u.notInList, myNewUser := u.newUser,
      myAwaitingAuth := u.awaitingAuth, myInIgnoreList := u.ignoreList,
      myInOnlineNotify := u.onlineNotify, myInInvisibleList := u.invisibleList,
      myInVisibleList := u.visibleList }
  else d

/-- Only ICQ users have plugins. -/
def readPlugins (d : ContactUserData) (u : LicqUser) (subSignal : ℕ) : ContactUserData :=
  if d.myUserId.protocolId = icqPpid then
    if About subSignal userPluginStatus then
      { d with
        myPhoneFollowMeStatus := u.phoneFollowMeStatus, myIcqPhoneStatus := u.icqPhoneStatus,
        mySharedFilesStatus := u.sharedFilesStatus }
    else d
  else
    { d with
      myPhoneFollowMeStatus := icqPluginInactive, myIcqPhoneStatus := icqPluginInactive,
      mySharedFilesStatus := icqPluginInactive }

/-- The part of `update` that copies what the signal is about. -/
def read (d : ContactUserData) (u : LicqUser) (subSignal : ℕ) : ContactUserData :=
  (((((d.readStatus u subSignal).readTyping u subSignal).readInfo u subSignal).readSecurity u
    subSignal).readSettings u subSignal).readPlugins u subSignal

/-- The bits of the extended status and when they are set. -/
def extendedBits (d : ContactUserData) : List (Bool × ℕ) :=
  [(d.myStatusInvisible, invisibleStatus), (d.myStatusTyping, typingStatus),
    (d.myPhoneFollowMeStatus = icqPluginActive, phoneFollowMeActiveStatus),
    (d.myPhoneFollowMeStatus = icqPluginBusy, phoneFollowMeBusyStatus),
    (d.myIcqPhoneStatus = icqPluginActive, icqPhoneActiveStatus),
    (d.myIcqPhoneStatus = icqPluginBusy, icqPhoneBusyStatus),
    (d.mySharedFilesStatus = icqPluginActive, sharedFilesStatus),
    (d.myCustomAR, customArStatus), (d.mySecure, secureStatus), (d.myBirthday, birthdayStatus),
    (d.myPhone, phoneStatus), (d.myCellular, cellularStatus), (d.myGPGKey, gpgKeyStatus),
    (d.myGPGKeyEnabled, gpgKeyEnabledStatus), (d.myInIgnoreList, ignoreStatus),
    (d.myInOnlineNotify, onlineNotifyStatus), (d.myNotInList, notInListStatus),
    (d.myInInvisibleList, invisibleListStatus), (d.myInVisibleList, visibleListStatus),
    (d.myNewUser, newUserStatus), (d.myAwaitingAuth, awaitingAuthStatus)]

def updateExtendedStatus (d : ContactUserData) : ContactUserData :=
  { d with myExtendedStatus :=
      d.extendedBits.foldl (fun status bit => if bit.1 then status ||| bit.2 else status) 0 }

/-- The sub group that follows from what was read. -/
def subGroup (d : ContactUserData) : SubGroupType :=
  if d.myNotInList then .notInList
  else if d.myStatus = offlineStatus then .offline
  else .online

/-- `updateVisibility`: users who are offline are hidden, unless they have unread events, are on the
online notify list and its users are always shown, or are not in the list. -/
def updateVisibility (d : ContactUserData) (alwaysShowONU : Bool) : ContactUserData :=
  { d with myVisibility :=
      d.myStatus ≠ offlineStatus ∨ 0 < d.myEvents ∨
        (alwaysShowONU = true ∧ d.myExtendedStatus &&& onlineNotifyStatus ≠ 0) ∨
        d.myExtendedStatus &&& notInListStatus ≠ 0 }

/-- Whether `update` works out the sub group and the visibility for the signal. -/
def Regroups (subSignal : ℕ) : Prop :=
  subSignal ≠ userGroups ∧ subSignal ≠ userPicture ∧ subSignal ≠ userTyping ∧
    subSignal ≠ userSecurity

instance (subSignal : ℕ) : Decidable (Regroups subSignal) :=
  inferInstanceAs (Decidable (_ ∧ _))

/-- The part of `updateEvents` that counts the events. -/
def updateEvents (d : ContactUserData) (u : LicqUser) (subSignal : ℕ) : ContactUserData :=
  if About subSignal userEvents then { d with myEvents := u.newMessages.toNat } else d

/-- The part of `update` that works out the sub group and the visibility. -/
def regroup (d : ContactUserData) (subSignal : ℕ) (alwaysShowONU : Bool) : ContactUserData :=
  if Regroups subSignal then
    { d with mySubGroup := d.subGroup }.updateVisibility alwaysShowONU
  else d

/-- `update`, without what it does to the groups. -/
def update (d : ContactUserData) (u : LicqUser) (subSignal : ℕ) (alwaysShowONU : Bool) :
    ContactUserData :=
  (((d.read u subSignal).updateExtendedStatus.updateEvents u subSignal).regroup subSignal
    alwaysShowONU)

/-- The constructor. -/
def new (u : LicqUser) (alwaysShowONU : Bool) : ContactUserData :=
  (initial u.id).update u 0 alwaysShowONU

/-! ## What reading leaves alone -/

/-- What groups and bars count a user by. -/
def counted (d : ContactUserData) : SubGroupType × Bool × ℤ :=
  (d.mySubGroup, d.myVisibility, d.myEvents)

/-- **Reading the user** does not change what is counted. -/
theorem read_counted (d : ContactUserData) (u : LicqUser) (subSignal : ℕ) :
    (d.read u subSignal).counted = d.counted := by
  have hstatus (d : ContactUserData) : (d.readStatus u subSignal).counted = d.counted := by
    rw [readStatus]
    split_ifs <;> rfl
  have htyping (d : ContactUserData) : (d.readTyping u subSignal).counted = d.counted := by
    rw [readTyping]
    split_ifs <;> rfl
  have hinfo (d : ContactUserData) : (d.readInfo u subSignal).counted = d.counted := by
    rw [readInfo]
    split_ifs <;> rfl
  have hsecurity (d : ContactUserData) : (d.readSecurity u subSignal).counted = d.counted := by
    rw [readSecurity]
    split_ifs <;> rfl
  have hsettings (d : ContactUserData) : (d.readSettings u subSignal).counted = d.counted := by
    rw [readSettings]
    split_ifs <;> rfl
  have hplugins (d : ContactUserData) : (d.readPlugins u subSignal).counted = d.counted := by
    rw [readPlugins]
    split_ifs <;> rfl
  rw [read, hplugins, hsettings, hsecurity, hinfo, htyping, hstatus]

theorem updateEvents_subGroup (d : ContactUserData) (u : LicqUser) (subSignal : ℕ) :
    (d.updateEvents u subSignal).subGroup = d.subGroup := by
  rw [updateEvents]
  split_ifs <;> rfl

theorem updateEvents_mySubGroup (d : ContactUserData) (u : LicqUser) (subSignal : ℕ) :
    (d.updateEvents u subSignal).mySubGroup = d.mySubGroup := by
  rw [updateEvents]
  split_ifs <;> rfl

/-- **The sub group after an update** follows from what was read. -/
theorem update_mySubGroup (d : ContactUserData) (u : LicqUser) (subSignal : ℕ)
    (alwaysShowONU : Bool) :
    (d.update u subSignal alwaysShowONU).mySubGroup =
      if Regroups subSignal then (d.read u subSignal).subGroup else d.mySubGroup := by
  rw [update, regroup]
  split_ifs
  · exact updateEvents_subGroup (d.read u subSignal).updateExtendedStatus u subSignal
  · have hread : (d.read u subSignal).updateExtendedStatus.mySubGroup = d.mySubGroup :=
      congrArg (·.1) (read_counted d u subSignal)
    rw [updateEvents_mySubGroup, hread]

end ContactUserData

end Licq.QtGui
