import Licq.Daemon.UserEvents

/-!
# Daemon/Filter — what is done with an event

`FilterManager::filterEvent` gives the action for an event: those of users that are ignored are
logged only, those of users in the list are accepted, and for other ones the first rule that matches
decides. The user is the one that the event names, if it names one.  When that is not the user with
whom the event came, the flags of the latter are looked at.

The **main result** `filterEvent_eq_iff` says when the action is that for the named user.
-/

namespace Licq.Filter

open UserEvents

/-! ## Rules -/

def actionAccept : ℤ := 1

def actionSilent : ℤ := 2

def actionIgnore : ℤ := 3

structure FilterRule where
  isEnabled : Bool
  /-- Zero for all protocols. -/
  protocolId : ℕ
  eventMask : UInt64
  expression : List Char
  action : ℤ
  deriving DecidableEq

/-- The numbers of the types. -/
def eventNumber : EventType → ℕ
  | .message => 0x0001
  | .chat => 0x0002
  | .file => 0x0003
  | .url => 0x0004
  | .authRequest => 0x0006
  | .authRefused => 0x0007
  | .authGranted => 0x0008
  | .msgServer => 0x0009
  | .added => 0x000C
  | .webPanel => 0x000D
  | .emailPager => 0x000E
  | .contactList => 0x0013
  | .sms => 0x001A
  | .emailAlert => 0x001C
  | .unknownSys => 0x001F

/-- `1<<event->eventType()`, an `int`, as an `unsigned long`. -/
def eventBit (t : EventType) : BitVec 64 := (1#32 <<< eventNumber t).signExtend 64

section Code

-- `boost::regex_match`: a message and an expression; none for an expression that is invalid
variable (regexMatch : List Char → List Char → Option Bool)

/-- The rules, one after the other. -/
def checkRules (userId : UserId) (t : EventType) (msg : List Char) : List FilterRule → ℤ
  | [] => actionAccept
  | rule :: rules =>
    if rule.isEnabled = false then checkRules userId t msg rules
    else if rule.protocolId ≠ 0 ∧ rule.protocolId ≠ userId.protocolId then
      checkRules userId t msg rules
    else if rule.eventMask.toBitVec &&& eventBit t = 0 then checkRules userId t msg rules
    else if rule.expression ≠ [] then
      match regexMatch msg rule.expression with
      | none => checkRules userId t msg rules
      | some false => checkRules userId t msg rules
      | some true => rule.action
    else rule.action

/-! ## Users -/

/-- What is looked at of a user. -/
structure Flags where
  notInList : Bool
  ignoreList : Bool
  deriving DecidableEq

structure User where
  id : UserId
  flags : Flags

/-- The user whom an event names. -/
def namedUser : EventData → Option UserId
  | .added userId .. => some userId
  | .authRequest userId .. => some userId
  | .authGranted userId _ => some userId
  | .authRefused userId _ => some userId
  | _ => none

/-- The message of an event. -/
def eventMessage : EventData → List Char
  | .message message => message
  | .file _ fileDescription .. => fileDescription
  | .url _ urlDescription => urlDescription
  | .chat reason .. => reason
  | .authRequest _ _ _ _ _ reason => reason
  | .authGranted _ message => message
  | .authRefused _ message => message
  | .webPanel _ _ message => message
  | .emailPager _ _ message => message
  | .sms _ message => message
  | .serverMessage _ _ message => message
  | .emailAlert _ _ _ subject .. => subject
  | _ => []

/-- `filterEvent`, with the users that are found. -/
def filterEvent (contacts : UserId → Option Flags) (myRules : List FilterRule) (user : User)
    (event : EventData) : ℤ :=
  let userId := (namedUser event).getD user.id
  let (userInList, ignoreUser) :=
    if userId = user.id then (!user.flags.notInList, user.flags.ignoreList)
    else
      match contacts userId with
      | some _ => (!user.flags.notInList, user.flags.ignoreList)
      | none => (false, false)
  if ignoreUser then actionSilent
  else if userInList then actionAccept
  else checkRules regexMatch userId event.eventType (eventMessage event) myRules

/-! ## What is asked for -/

/-- A rule matches, with what is asked of its mask. -/
def Matches (masked : BitVec 64 → Bool) (userId : UserId) (msg : List Char) (rule : FilterRule) :
    Bool :=
  rule.isEnabled && (rule.protocolId = 0 || rule.protocolId = userId.protocolId) &&
    masked rule.eventMask.toBitVec && (rule.expression = [] ||
      regexMatch msg rule.expression = some true)

/-- The action of the first rule that matches. -/
def firstAction (rules : List FilterRule) (p : FilterRule → Bool) : ℤ :=
  ((rules.find? p).map FilterRule.action).getD actionAccept

/-- The bit of a type of events. -/
def hasBit (t : EventType) (mask : BitVec 64) : Bool := mask.getLsbD (eventNumber t)

/-- The flags of a user: the one with whom the event came, or one that is found. -/
def flagsOf (contacts : UserId → Option Flags) (user : User) (userId : UserId) : Option Flags :=
  if userId = user.id then some user.flags else contacts userId

/-- What follows from the flags of a user alone. -/
def verdict : Option Flags → Option ℤ
  | none => none
  | some flags =>
    if flags.ignoreList then some actionSilent
    else if flags.notInList then none else some actionAccept

/-- **The action that is asked for.** -/
def askedAction (contacts : UserId → Option Flags) (myRules : List FilterRule) (user : User)
    (event : EventData) : ℤ :=
  let userId := (namedUser event).getD user.id
  (verdict (flagsOf contacts user userId)).getD
    (firstAction myRules (Matches regexMatch (hasBit event.eventType) userId (eventMessage event)))

/-- When the action is that for the named user.  Where that is the user with whom the event came,
this fails at most for an unknown system message, whose bit is taken for that and all higher ones.
Where it is not, that user is not found, or the flags of the two have the same verdict, or one has
the verdict that the rules have for the other. -/
def RightUser (contacts : UserId → Option Flags) (myRules : List FilterRule) (user : User)
    (event : EventData) : Prop :=
  let userId := (namedUser event).getD user.id
  let matching := fun masked => Matches regexMatch masked userId (eventMessage event)
  let first := firstAction myRules (matching (hasBit event.eventType))
  if userId = user.id then
    event.eventType = .unknownSys → verdict (some user.flags) ≠ none ∨
      first = firstAction myRules (matching fun mask => mask &&& 0xFFFFFFFF80000000#64 ≠ 0)
  else contacts userId = none ∨ verdict (some user.flags) = verdict (contacts userId) ∨
    (verdict (some user.flags) = none ∧ verdict (contacts userId) = some first) ∨
    (verdict (some user.flags) = some first ∧ verdict (contacts userId) = none)

/-! ## The rules -/

variable {regexMatch : List Char → List Char → Option Bool}

/-- **The first rule that matches decides.** -/
theorem checkRules_eq (userId : UserId) (t : EventType) (msg : List Char)
    (rules : List FilterRule) : checkRules regexMatch userId t msg rules =
      firstAction rules (Matches regexMatch (fun mask => mask &&& eventBit t ≠ 0) userId msg) := by
  induction rules with
  | nil => rfl
  | cons rule rules ih =>
    have hskip : Matches regexMatch (fun mask => mask &&& eventBit t ≠ 0) userId msg rule = false →
        firstAction (rule :: rules)
            (Matches regexMatch (fun mask => mask &&& eventBit t ≠ 0) userId msg) =
          firstAction rules
            (Matches regexMatch (fun mask => mask &&& eventBit t ≠ 0) userId msg) := by
      intro h
      rw [firstAction, List.find?_cons, h, firstAction]
    have htake : Matches regexMatch (fun mask => mask &&& eventBit t ≠ 0) userId msg rule = true →
        firstAction (rule :: rules)
            (Matches regexMatch (fun mask => mask &&& eventBit t ≠ 0) userId msg) =
          rule.action := by
      intro h
      rw [firstAction, List.find?_cons, h]
      rfl
    rw [checkRules, ih]
    split_ifs with henabled hprotocol hmask hexpression
    · exact (hskip (by simp [Matches, henabled])).symm
    · exact (hskip (by simp [Matches, hprotocol])).symm
    · exact (hskip (by simp [Matches, hmask])).symm
    · cases hmatch : regexMatch msg rule.expression with
      | none => exact (hskip (by simp [Matches, hexpression, hmatch])).symm
      | some b =>
        cases b with
        | false => exact (hskip (by simp [Matches, hexpression, hmatch])).symm
        | true =>
          refine (htake ?_).symm
          simp_all [Matches]
          omega
    · refine (htake ?_).symm
      simp_all [Matches]
      omega

/-- The bits of all types but one are those of the mask. -/
theorem and_eventBit {t : EventType} (ht : t ≠ .unknownSys) (mask : BitVec 64) :
    decide (mask &&& eventBit t ≠ 0) = hasBit t mask := by
  have hbit : eventBit t = BitVec.twoPow 64 (eventNumber t) := by
    cases t <;> first | rfl | exact absurd rfl ht
  have hlt : eventNumber t < 64 := by
    cases t <;> decide
  have hne : BitVec.twoPow 64 (eventNumber t) ≠ 0 := fun h => by
    have hget := congrArg (fun b => b.getLsbD (eventNumber t)) h
    simp [hlt] at hget
  rw [hasBit, hbit, BitVec.and_twoPow]
  cases mask.getLsbD (eventNumber t) with
  | false => simp
  | true => simpa using hne

theorem verdict_getD (flags : Flags) (r : ℤ) :
    (verdict (some flags)).getD r =
      if flags.ignoreList then actionSilent else if !flags.notInList then actionAccept else r := by
  obtain ⟨notInList, ignoreList⟩ := flags
  cases ignoreList <;> cases notInList <;> rfl

/-- A user is named by events of four types. -/
theorem ne_unknownSys_of_namedUser {event : EventData} {userId : UserId}
    (h : namedUser event = some userId) : event.eventType ≠ .unknownSys := by
  cases event <;> first | exact EventType.noConfusion | cases h

/-- For other types than one, the code has the bits that it should have. -/
theorem matches_eventBit {t : EventType} (ht : t ≠ .unknownSys) (userId : UserId)
    (msg : List Char) : Matches regexMatch (fun mask => mask &&& eventBit t ≠ 0) userId msg =
      Matches regexMatch (hasBit t) userId msg := by
  have hmask : (fun mask => decide (mask &&& eventBit t ≠ 0)) = hasBit t :=
    funext fun mask => and_eventBit ht mask
  rw [hmask]

/-- What the flags and the rules of the code decide. -/
theorem filterEvent_of_eq (contacts : UserId → Option Flags) (myRules : List FilterRule)
    (user : User) (event : EventData) {userId : UserId} {flags : Option Flags}
    (hid : (namedUser event).getD user.id = userId)
    (hflags : flags = if userId = user.id then some user.flags
      else (contacts userId).map fun _ => user.flags) :
    filterEvent regexMatch contacts myRules user event = (verdict flags).getD
      (firstAction myRules (Matches regexMatch (fun mask => mask &&& eventBit event.eventType ≠ 0)
        userId (eventMessage event))) := by
  rw [filterEvent, hid, ← checkRules_eq, hflags]
  by_cases hsame : userId = user.id
  · simp only [if_pos hsame, verdict_getD]
  · simp only [if_neg hsame]
    cases contacts userId with
    | none => rfl
    | some _ => simp only [Option.map_some, verdict_getD]

/-- **The action is that for the named user** just when the flags are, or make no difference. -/
theorem filterEvent_eq_iff (regexMatch : List Char → List Char → Option Bool)
    (contacts : UserId → Option Flags) (myRules : List FilterRule) (user : User)
    (event : EventData) :
    filterEvent regexMatch contacts myRules user event =
        askedAction regexMatch contacts myRules user event ↔
      RightUser regexMatch contacts myRules user event := by
  generalize hid : (namedUser event).getD user.id = userId
  rw [filterEvent_of_eq contacts myRules user event hid rfl, askedAction, RightUser, hid, flagsOf]
  simp only
  by_cases hsame : userId = user.id
  · simp only [if_pos hsame]
    by_cases htype : event.eventType = .unknownSys
    · have hbits : eventBit .unknownSys = 0xFFFFFFFF80000000#64 := rfl
      rw [htype, hbits]
      cases verdict (some user.flags) with
      | none => simp [eq_comm]
      | some action => simp
    · rw [matches_eventBit htype]
      exact iff_of_true rfl fun h => absurd h htype
  · have htype : event.eventType ≠ .unknownSys := by
      cases hnamed : namedUser event with
      | none =>
        rw [hnamed] at hid
        exact absurd hid.symm hsame
      | some _ => exact ne_unknownSys_of_namedUser hnamed
    rw [matches_eventBit htype]
    simp only [if_neg hsame]
    generalize firstAction myRules (Matches regexMatch (hasBit event.eventType) userId
      (eventMessage event)) = first
    cases hcontact : contacts userId with
    | none => exact iff_of_true rfl (.inl rfl)
    | some flags =>
      simp only [Option.map_some]
      cases verdict (some user.flags) <;> cases verdict (some flags) <;> simp [eq_comm]

end Code

/-- A user of a protocol, by a number. -/
def exampleId (n : ℕ) : UserId := .owner 1 (List.replicate n 'a')

/-- A contact of the list asks for authorization by a user that is to be ignored. -/
theorem not_filterEvent_eq : ¬ ∀ (regexMatch : List Char → List Char → Option Bool)
    (contacts : UserId → Option Flags) (myRules : List FilterRule) (user : User)
    (event : EventData), filterEvent regexMatch contacts myRules user event =
      askedAction regexMatch contacts myRules user event := by
  intro h
  have heq := h (fun _ _ => none) (fun _ => some ⟨true, true⟩) []
    ⟨exampleId 1, ⟨false, false⟩⟩ (.added (exampleId 2) [] [] [] [])
  exact absurd heq (by decide)

end Licq.Filter
