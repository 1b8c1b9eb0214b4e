import Licq.ContactList.UserId

/-!
# Daemon/UserEvents — the classes of events, and copies of events

An event has the data of its class beside what all events have.  Its text is made from the data the
first time it is asked for, so a `UserEvent` carries that a text it holds is the one of its data.

`Copy` is written for each class.  Those of messages and of links leave out the conversation, the
one of messages lets the new event decrypt the message again, and the one of chat requests gives the
text that the event holds for the reason.  **Which copies agree** with their event is
`agrees_copy_iff`.
-/

namespace Licq.UserEvents

open Text

/-! ## The data of an event -/

inductive EventType
  | message | chat | file | url | authRequest | authRefused | authGranted | msgServer | added
  | webPanel | emailPager | contactList | sms | emailAlert | unknownSys
  deriving DecidableEq, Repr

/-- What a class of events has of its own. -/
inductive EventData
  | message (message : List Char)
  | file (filename fileDescription : List Char) (nFileSize : UInt64) (lFileList : List (List Char))
    (nMsgID1 nMsgID2 : UInt64)
  | url (url urlDescription : List Char)
  | chat (reason clients : List Char) (nPort : UInt16) (nMsgID1 nMsgID2 : UInt64)
  | added (userId : UserId) (alias_ firstName lastName email : List Char)
  | authRequest (userId : UserId) (alias_ firstName lastName email reason : List Char)
  | authGranted (userId : UserId) (message : List Char)
  | authRefused (userId : UserId) (message : List Char)
  | webPanel (name email message : List Char)
  | emailPager (name email message : List Char)
  | contactList (contacts : List (UserId × List Char))
  | sms (number message : List Char)
  | serverMessage (name email message : List Char)
  | emailAlert (name to_ email subject mspAuth sid kv id postUrl msgUrl creds : List Char)
    (sessionLength : UInt64)
  | unknownSys (nCommand nSubCommand : UInt16) (userId : UserId) (message : List Char)
  deriving DecidableEq

/-- What an event relies on: `tr`, the translator, the decryption of a message, the clock, and the
color that a new event has. -/
structure Surroundings where
  tr : List Char → List Char
  toUtf8 : List Char → List Char
  fromUtf8 : List Char → List Char
  decrypt : List Char → Option (List Char)
  now : Int64
  defaultColor : UInt32 × UInt32

/-- `gTranslator.toUtf8(tr(..))` -/
def Surroundings.word (env : Surroundings) (s : String) : List Char := env.toUtf8 (env.tr s.toList)

namespace EventData

def eventType : EventData → EventType
  | message .. => .message
  | file .. => .file
  | url .. => .url
  | chat .. => .chat
  | added .. => .added
  | authRequest .. => .authRequest
  | authGranted .. => .authGranted
  | authRefused .. => .authRefused
  | webPanel .. => .webPanel
  | emailPager .. => .emailPager
  | contactList .. => .contactList
  | sms .. => .sms
  | serverMessage .. => .msgServer
  | emailAlert .. => .emailAlert
  | unknownSys .. => .unknownSys

/-- The constructor of the class takes a sequence number. -/
def HasSequence : EventData → Prop
  | file .. | chat .. => True
  | _ => False

/-- The constructor of the class takes a conversation. -/
def HasConvo : EventData → Prop
  | message .. | file .. | url .. | chat .. => True
  | _ => False

variable (env : Surroundings)

open Surroundings (word)

/-- The lines of a person. -/
def person (userId : UserId) (alias_ firstName lastName email : List Char) : List Char :=
  word env "Alias" ++ [':', ' '] ++ alias_ ++ ['\n'] ++
    word env "User" ++ [':', ' '] ++ userId.accountId ++ ['\n'] ++
    word env "Name" ++ [':', ' '] ++ firstName ++ [' '] ++ lastName ++ ['\n'] ++
    word env "Email" ++ [':', ' '] ++ email ++ ['\n']

/-- The answer to a request for authorization. -/
def answer (userId : UserId) (how : String) (message : List Char) : List Char :=
  word env "User " ++ userId.toString ++ word env how ++
    if message = [] then ['.', '\n'] else [':', '\n'] ++ message ++ ['\n']

/-- A message that did not come from a user. -/
def through (name email : List Char) (how : String) (message : List Char) : List Char :=
  word env "Message from " ++ name ++ [' ', '('] ++ email ++ [')'] ++ word env how ++
    [':', '\n'] ++ message ++ ['\n']

/-- `CreateDescription` -/
def createDescription : EventData → List Char
  | message m => m
  | file filename fileDescription nFileSize _ _ _ =>
    word env "File" ++ [':', ' '] ++ env.toUtf8 filename ++ [' ', '('] ++ decimal nFileSize.toNat ++
      [' '] ++ word env "bytes" ++ [')', '\n'] ++
      word env "Description" ++ [':', '\n'] ++ fileDescription ++ ['\n']
  | url u urlDescription =>
    word env "Url" ++ [':', ' '] ++ u ++ ['\n'] ++
      word env "Description" ++ [':', '\n'] ++ urlDescription ++ ['\n']
  | chat reason clients _ _ _ =>
    if clients = [] then reason
    else reason ++ "\n--------------------\n".toList ++ word env "Multiparty" ++ [':', '\n'] ++
      clients
  | added userId alias_ firstName lastName email =>
    person env userId alias_ firstName lastName email
  | authRequest userId alias_ firstName lastName email reason =>
    person env userId alias_ firstName lastName email ++
      if reason = [] then []
      else word env "Authorization Request" ++ [':', '\n'] ++ reason ++ ['\n']
  | authGranted userId m => answer env userId " authorized you" m
  | authRefused userId m => answer env userId " refused to authorize you" m
  | webPanel name email m => through env name email " through web panel" m
  | emailPager name email m => through env name email " through email pager" m
  | contactList contacts =>
    word env "Contact list" ++ [' ', '('] ++ decimal contacts.length ++ [' '] ++
      word env "contacts" ++ [')', ':', '\n'] ++
      contacts.flatMap fun c => c.2 ++ [' ', '('] ++ c.1.toString ++ [')', '\n']
  | sms number m => word env "Phone" ++ [':', ' '] ++ number ++ ['\n'] ++ m ++ ['\n']
  | serverMessage name email m =>
    word env "System Server Message from" ++ [' '] ++ name ++ [' ', '('] ++ email ++
      [')', ':', '\n'] ++ m ++ ['\n']
  | emailAlert name _ email subject _ _ _ _ _ _ _ _ =>
    word env "New Email from" ++ [' '] ++ name ++ [' ', '('] ++ email ++ [')', ':', '\n'] ++
      word env "Subject" ++ [':', ' '] ++ subject ++ ['\n']
  | unknownSys _ nSubCommand userId m =>
    word env "Unknown system message" ++ [' ', '(', '0', 'x'] ++
      (Nat.toDigits 16 nSubCommand.toNat).leftpad 4 '0' ++ [')', ' '] ++ word env "from" ++ [' '] ++
      userId.toString ++ [':', '\n'] ++ m ++ ['\n']

end EventData

/-! ## Events -/

/-- `UserEvent`.  The texts that it holds are those of its data. -/
structure UserEvent (env : Surroundings) where
  data : EventData
  myText : List Char
  myTextLoc : List Char
  nSequence : UInt16
  nId : ℤ
  tTime : Int64
  nFlags : UInt64
  bPending : Bool
  myColor : UInt32 × UInt32
  nConvoId : UInt64
  text_eq : myText = [] ∨ myText = data.createDescription env
  textLoc_eq : myTextLoc = [] ∨ myTextLoc = env.fromUtf8 (data.createDescription env)
  sequence_eq : ¬ data.HasSequence → nSequence = 0
  convo_eq : ¬ data.HasConvo → nConvoId = 0

namespace UserEvent

def timeNow : Int64 := 0

def flagDirect : UInt64 := 0x00010000

def flagCancelled : UInt64 := 0x00080000

def flagEncrypted : UInt64 := 0x00100000

def flagUnknown : UInt64 := 0x80000000

variable {env : Surroundings}

/-! ## What is asked of an event -/

/-- `eventName` -/
def eventName (env : Surroundings) : EventType → List Char
  | .message => env.tr "Message".toList
  | .file => env.tr "File Transfer".toList
  | .url => env.tr "URL".toList
  | .chat => env.tr "Chat Request".toList
  | .added => env.tr "Added to Contact List".toList
  | .authRequest => env.tr "Authorization Request".toList
  | .authGranted => env.tr "Authorization Granted".toList
  | .authRefused => env.tr "Authorization Refused".toList
  | .webPanel => env.tr "Web Panel".toList
  | .emailPager => env.tr "Email Pager".toList
  | .contactList => env.tr "Contact List".toList
  | .sms => env.tr "SMS".toList
  | .msgServer => env.tr "Server Message".toList
  | .emailAlert => env.tr "Email Alert".toList
  | .unknownSys => env.tr "Unknown Event".toList

/-- `text()` -/
def text (e : UserEvent env) : List Char :=
  if e.myText = [] then e.data.createDescription env else e.myText

/-- `textLoc()` -/
def textLoc (e : UserEvent env) : List Char :=
  if e.myTextLoc = [] then env.fromUtf8 e.text else e.myTextLoc

def isCancelled (e : UserEvent env) : Bool := e.nFlags &&& flagCancelled ≠ 0

/-- `description()` -/
def description (e : UserEvent env) : List Char :=
  eventName env e.data.eventType ++ if e.isCancelled then env.tr " (cancelled)".toList else []

/-- Two events are the same to every question. -/
structure Agrees (e e' : UserEvent env) : Prop where
  eventType : e'.data.eventType = e.data.eventType
  text : e'.text = e.text
  textLoc : e'.textLoc = e.textLoc
  description : e'.description = e.description
  data : e'.data = e.data
  sequence : e'.nSequence = e.nSequence
  id : e'.nId = e.nId
  time : e'.tTime = e.tTime
  flags : e'.nFlags = e.nFlags
  pending : e'.bPending = e.bPending
  color : e'.myColor = e.myColor
  convoId : e'.nConvoId = e.nConvoId

theorem text_of_data (e : UserEvent env) : e.text = e.data.createDescription env := by
  rw [text]
  split_ifs with h
  · rfl
  · exact e.text_eq.resolve_left h

theorem textLoc_of_data (e : UserEvent env) :
    e.textLoc = env.fromUtf8 (e.data.createDescription env) := by
  rw [textLoc, text_of_data]
  split_ifs with h
  · rfl
  · exact e.textLoc_eq.resolve_left h

/-- The texts follow from the rest. -/
theorem agrees_of {e e' : UserEvent env} (hdata : e'.data = e.data)
    (hsequence : e'.nSequence = e.nSequence) (hid : e'.nId = e.nId) (htime : e'.tTime = e.tTime)
    (hflags : e'.nFlags = e.nFlags) (hpending : e'.bPending = e.bPending)
    (hcolor : e'.myColor = e.myColor) (hconvo : e'.nConvoId = e.nConvoId) : Agrees e e' where
  eventType := congrArg _ hdata
  text := by rw [text_of_data, text_of_data, hdata]
  textLoc := by rw [textLoc_of_data, textLoc_of_data, hdata]
  description := by rw [description, description, isCancelled, isCancelled, hflags, hdata]
  data := hdata
  sequence := hsequence
  id := hid
  time := htime
  flags := hflags
  pending := hpending
  color := hcolor
  convoId := hconvo

/-! ## The constructors -/

/-- `UserEvent::UserEvent`, with the data that the class has put in. -/
def new (nId : ℤ) (data : EventData) (nSequence : UInt16) (tTime : Int64) (nFlags nConvoId : UInt64)
    (hsequence : ¬ data.HasSequence → nSequence = 0) (hconvo : ¬ data.HasConvo → nConvoId = 0) :
    UserEvent env where
  data := data
  myText := []
  myTextLoc := []
  nSequence := nSequence
  nId := nId
  tTime := if tTime = timeNow then env.now else tTime
  nFlags := nFlags
  bPending := true
  myColor := env.defaultColor
  nConvoId := nConvoId
  text_eq := .inl rfl
  textLoc_eq := .inl rfl
  sequence_eq := hsequence
  convo_eq := hconvo

/-- `GpgHelper::pgpSig` -/
def pgpSig : List Char := "-----BEGIN PGP MESSAGE-----".toList

/-- What a message decrypts to, if it is encrypted and this does not fail. -/
def decrypted (env : Surroundings) (message : List Char) : Option (List Char) :=
  if pgpSig <+: message then (env.decrypt (IniFile.cString message)).map IniFile.cString else none

variable (nId : ℤ)

def eventMsg (message : List Char) (tTime : Int64) (nFlags nConvoId : UInt64) : UserEvent env :=
  match decrypted env message with
  | none => new nId (.message message) 0 tTime nFlags nConvoId (fun _ => rfl) (absurd trivial)
  | some plaintext =>
    new nId (.message plaintext) 0 tTime (nFlags ||| flagEncrypted) nConvoId (fun _ => rfl)
      (absurd trivial)

def eventFile (filename fileDescription : List Char) (nFileSize : UInt64)
    (lFileList : List (List Char)) (nSequence : UInt16) (tTime : Int64)
    (nFlags nConvoId nMsgID1 nMsgID2 : UInt64) : UserEvent env :=
  new nId (.file filename fileDescription nFileSize lFileList nMsgID1 nMsgID2) nSequence tTime
    (nFlags ||| flagDirect) nConvoId (absurd trivial) (absurd trivial)

def eventUrl (url urlDescription : List Char) (tTime : Int64) (nFlags nConvoId : UInt64) :
    UserEvent env :=
  new nId (.url url urlDescription) 0 tTime nFlags nConvoId (fun _ => rfl) (absurd trivial)

def eventChat (reason clients : List Char) (nPort nSequence : UInt16) (tTime : Int64)
    (nFlags nConvoId nMsgID1 nMsgID2 : UInt64) : UserEvent env :=
  new nId (.chat reason clients nPort nMsgID1 nMsgID2) nSequence tTime (nFlags ||| flagDirect)
    nConvoId (absurd trivial) (absurd trivial)

/-- The constructors that take neither a sequence number nor a conversation. -/
def plain (data : EventData) (tTime : Int64) (nFlags : UInt64) : UserEvent env :=
  new nId data 0 tTime nFlags 0 (fun _ => rfl) (fun _ => rfl)

def eventAdded (userId : UserId) (alias_ firstName lastName email : List Char) (tTime : Int64)
    (nFlags : UInt64) : UserEvent env :=
  plain nId (.added userId alias_ firstName lastName email) tTime nFlags

def eventAuthRequest (userId : UserId) (alias_ firstName lastName email reason : List Char)
    (tTime : Int64) (nFlags : UInt64) : UserEvent env :=
  plain nId (.authRequest userId alias_ firstName lastName email reason) tTime nFlags

def eventAuthGranted (userId : UserId) (message : List Char) (tTime : Int64) (nFlags : UInt64) :
    UserEvent env :=
  plain nId (.authGranted userId message) tTime nFlags

def eventAuthRefused (userId : UserId) (message : List Char) (tTime : Int64) (nFlags : UInt64) :
    UserEvent env :=
  plain nId (.authRefused userId message) tTime nFlags

def eventWebPanel (name email message : List Char) (tTime : Int64) (nFlags : UInt64) :
    UserEvent env :=
  plain nId (.webPanel name email message) tTime nFlags

def eventEmailPager (name email message : List Char) (tTime : Int64) (nFlags : UInt64) :
    UserEvent env :=
  plain nId (.emailPager name email message) tTime nFlags

/-- The list is copied when it is to be deep, and else taken. -/
def eventContactList (cl : List (UserId × List Char)) (bDeep : Bool) (tTime : Int64)
    (nFlags : UInt64) : UserEvent env :=
  plain nId (.contactList (if bDeep then cl.map fun c => (c.1, c.2) else cl)) tTime nFlags

def eventSms (number message : List Char) (tTime : Int64) (nFlags : UInt64) : UserEvent env :=
  plain nId (.sms number message) tTime nFlags

def eventServerMessage (name email message : List Char) (tTime : Int64) : UserEvent env :=
  plain nId (.serverMessage name email message) tTime 0

def eventEmailAlert (name to_ email subject : List Char) (tTime : Int64)
    (mspAuth sid kv id postUrl msgUrl creds : List Char) (sessionLength : UInt64) : UserEvent env :=
  plain nId (.emailAlert name to_ email subject mspAuth sid kv id postUrl msgUrl creds
    sessionLength) tTime flagDirect

def eventUnknownSysMsg (nSubCommand nCommand : UInt16) (userId : UserId) (message : List Char)
    (tTime : Int64) (nFlags : UInt64) : UserEvent env :=
  plain nId (.unknownSys nCommand nSubCommand userId message) tTime (nFlags ||| flagUnknown)

/-! ## Copies -/

/-- `CopyBase` -/
def copyBase (e' e : UserEvent env) : UserEvent env :=
  { e' with nFlags := e.nFlags, bPending := e.bPending, nId := e.nId, myColor := e.myColor }

/-- `Copy`; the event that is made has a number of its own before it gets that of the other. -/
def copy (e : UserEvent env) : UserEvent env :=
  let e' := match e.data with
    | .message message => eventMsg nId message e.tTime e.nFlags 0
    | .file filename fileDescription nFileSize lFileList nMsgID1 nMsgID2 =>
      eventFile nId filename fileDescription nFileSize lFileList e.nSequence e.tTime e.nFlags
        e.nConvoId nMsgID1 nMsgID2
    | .url url urlDescription => eventUrl nId url urlDescription e.tTime e.nFlags 0
    | .chat _ clients nPort nMsgID1 nMsgID2 =>
      eventChat nId e.myText clients nPort e.nSequence e.tTime e.nFlags e.nConvoId nMsgID1 nMsgID2
    | .added userId alias_ firstName lastName email =>
      eventAdded nId userId alias_ firstName lastName email e.tTime e.nFlags
    | .authRequest userId alias_ firstName lastName email reason =>
      eventAuthRequest nId userId alias_ firstName lastName email reason e.tTime e.nFlags
    | .authGranted userId message => eventAuthGranted nId userId message e.tTime e.nFlags
    | .authRefused userId message => eventAuthRefused nId userId message e.tTime e.nFlags
    | .webPanel name email message => eventWebPanel nId name email message e.tTime e.nFlags
    | .emailPager name email message => eventEmailPager nId name email message e.tTime e.nFlags
    | .contactList contacts => eventContactList nId contacts true e.tTime e.nFlags
    | .sms number message => eventSms nId number message e.tTime e.nFlags
    | .serverMessage name email message => eventServerMessage nId name email message e.tTime
    | .emailAlert name to_ email subject mspAuth sid kv id postUrl msgUrl creds sessionLength =>
      eventEmailAlert nId name to_ email subject e.tTime mspAuth sid kv id postUrl msgUrl creds
        sessionLength
    | .unknownSys nCommand nSubCommand userId message =>
      eventUnknownSysMsg nId nSubCommand nCommand userId message e.tTime e.nFlags
  e'.copyBase e

/-- A copy is made with the time of the event, and not with the time now. -/
def KeepsTime (e : UserEvent env) : Prop := e.tTime = timeNow → env.now = timeNow

/-- What has to hold for the copy to agree: a message or a link is of no conversation, a message
does not decrypt to another one, and a chat request holds its reason for its text. -/
def Copies (e : UserEvent env) : Prop :=
  e.KeepsTime ∧ match e.data with
    | .message message => e.nConvoId = 0 ∧ ∀ plaintext ∈ decrypted env message, plaintext = message
    | .url .. => e.nConvoId = 0
    | .chat reason .. => e.myText = reason
    | _ => True

variable {nId : ℤ} {e e' : UserEvent env} {data : EventData} {nSequence : UInt16}
  {nFlags nConvoId : UInt64} {hsequence : ¬ data.HasSequence → nSequence = 0}
  {hconvo : ¬ data.HasConvo → nConvoId = 0}

theorem agrees_copyBase_iff : Agrees e (e'.copyBase e) ↔ e'.data = e.data ∧
    e'.nSequence = e.nSequence ∧ e'.tTime = e.tTime ∧ e'.nConvoId = e.nConvoId := by
  constructor
  · intro h
    exact ⟨h.data, h.sequence, h.time, h.convoId⟩
  · rintro ⟨hdata, hsequence, htime, hconvo⟩
    exact agrees_of hdata hsequence rfl htime rfl rfl rfl hconvo

/-- **A copy agrees** with what it was made from as far as the class gives it to the constructor. -/
theorem agrees_new_iff :
    Agrees e ((new nId data nSequence e.tTime nFlags nConvoId hsequence hconvo).copyBase e) ↔
      e.KeepsTime ∧ data = e.data ∧ nSequence = e.nSequence ∧ nConvoId = e.nConvoId := by
  have htime : (if e.tTime = timeNow then env.now else e.tTime) = e.tTime ↔ e.KeepsTime := by
    rw [KeepsTime]
    split_ifs with h
    · rw [h]
      exact ⟨fun heq _ => heq, fun heq => heq rfl⟩
    · exact ⟨fun _ heq => absurd heq h, fun _ => rfl⟩
  rw [agrees_copyBase_iff, ← htime]
  constructor
  · rintro ⟨hdata, hseq, htime, hconvo⟩
    exact ⟨htime, hdata, hseq, hconvo⟩
  · rintro ⟨htime, hdata, hseq, hconvo⟩
    exact ⟨hdata, hseq, htime, hconvo⟩

theorem agrees_plain_iff (hdata : e.data = data) (hsequence : ¬ data.HasSequence)
    (hconvo : ¬ data.HasConvo) :
    Agrees e ((plain nId data e.tTime nFlags).copyBase e) ↔ e.KeepsTime := by
  subst hdata
  rw [plain, agrees_new_iff]
  exact and_iff_left ⟨rfl, (e.sequence_eq hsequence).symm, (e.convo_eq hconvo).symm⟩

theorem agrees_copy_of_message {message : List Char} (hdata : e.data = .message message) :
    Agrees e ((eventMsg nId message e.tTime e.nFlags 0).copyBase e) ↔
      e.KeepsTime ∧ e.nConvoId = 0 ∧
        ∀ plaintext ∈ decrypted env message, plaintext = message := by
  have hzero : e.nSequence = 0 := e.sequence_eq (hdata ▸ id)
  cases hdecrypted : decrypted env message with
  | none =>
    simp only [eventMsg, hdecrypted, agrees_new_iff, hdata, hzero, Option.not_mem_none, true_and,
      false_imp_iff, implies_true, and_true]
    exact and_congr_right fun _ => eq_comm
  | some plaintext =>
    simp only [eventMsg, hdecrypted, agrees_new_iff, hdata, hzero, Option.mem_some_iff,
      forall_eq', EventData.message.injEq, true_and]
    exact and_congr_right fun _ => and_comm.trans (and_congr_left' eq_comm)

/-- **Which copies agree** with their event. -/
theorem agrees_copy_iff (nId : ℤ) (e : UserEvent env) : Agrees e (e.copy nId) ↔ e.Copies := by
  cases hdata : e.data with
  | message message =>
    simp only [copy, Copies, hdata]
    exact agrees_copy_of_message hdata
  | file filename fileDescription nFileSize lFileList nMsgID1 nMsgID2 =>
    simp only [copy, Copies, hdata, eventFile, agrees_new_iff, and_true]
  | url url urlDescription =>
    have hzero : e.nSequence = 0 := e.sequence_eq (hdata ▸ id)
    simp only [copy, Copies, hdata, eventUrl, agrees_new_iff, hzero, true_and]
    exact and_congr_right fun _ => eq_comm
  | chat reason clients nPort nMsgID1 nMsgID2 =>
    simp only [copy, Copies, hdata, eventChat, agrees_new_iff, and_true, EventData.chat.injEq]
  | added userId alias_ firstName lastName email =>
    simp only [copy, Copies, hdata, eventAdded, and_true]
    exact agrees_plain_iff hdata id id
  | authRequest userId alias_ firstName lastName email reason =>
    simp only [copy, Copies, hdata, eventAuthRequest, and_true]
    exact agrees_plain_iff hdata id id
  | authGranted userId message =>
    simp only [copy, Copies, hdata, eventAuthGranted, and_true]
    exact agrees_plain_iff hdata id id
  | authRefused userId message =>
    simp only [copy, Copies, hdata, eventAuthRefused, and_true]
    exact agrees_plain_iff hdata id id
  | webPanel name email message =>
    simp only [copy, Copies, hdata, eventWebPanel, and_true]
    exact agrees_plain_iff hdata id id
  | emailPager name email message =>
    simp only [copy, Copies, hdata, eventEmailPager, and_true]
    exact agrees_plain_iff hdata id id
  | contactList contacts =>
    simp only [copy, Copies, hdata, eventContactList, and_true, if_true, Prod.mk.eta, List.map_id']
    exact agrees_plain_iff hdata id id
  | sms number message =>
    simp only [copy, Copies, hdata, eventSms, and_true]
    exact agrees_plain_iff hdata id id
  | serverMessage name email message =>
    simp only [copy, Copies, hdata, eventServerMessage, and_true]
    exact agrees_plain_iff hdata id id
  | emailAlert name to_ email subject mspAuth sid kv id' postUrl msgUrl creds sessionLength =>
    simp only [copy, Copies, hdata, eventEmailAlert, and_true]
    exact agrees_plain_iff hdata id id
  | unknownSys nCommand nSubCommand userId message =>
    simp only [copy, Copies, hdata, eventUnknownSysMsg, and_true]
    exact agrees_plain_iff hdata id id

/-- The event after `text()`. -/
def readText (e : UserEvent env) : UserEvent env :=
  { e with myText := e.text, text_eq := .inr e.text_of_data }

/-- **A chat request whose text was read** is copied right just when it has no clients. -/
theorem copies_readText_iff {reason clients : List Char} {nPort : UInt16} {nMsgID1 nMsgID2 : UInt64}
    (hdata : e.data = .chat reason clients nPort nMsgID1 nMsgID2) :
    e.readText.Copies ↔ e.KeepsTime ∧ clients = [] := by
  have htext : e.readText.myText = e.data.createDescription env := e.text_of_data
  have hdata' : e.readText.data = .chat reason clients nPort nMsgID1 nMsgID2 := hdata
  simp only [Copies, hdata', htext, hdata, EventData.createDescription]
  refine and_congr_right fun _ => ?_
  split_ifs with hclients
  · exact iff_of_true rfl hclients
  · refine iff_of_false (fun h => ?_) hclients
    have hlen := congrArg List.length h
    simp only [List.length_append, List.length_cons] at hlen
    omega

/-- The copy of a link of a conversation is of none. -/
theorem not_agrees_copy : ¬ ∀ (env : Surroundings) (nId : ℤ) (e : UserEvent env),
    Agrees e (e.copy nId) := by
  intro h
  have hcopy := (h ⟨id, id, id, fun _ => none, 1, (0, 0)⟩ 2 (eventUrl 1 ['u'] [] 1 0 7)).convoId
  exact absurd hcopy (by decide)

end UserEvent

end Licq.UserEvents
