import Mathlib.Algebra.Group.Nat.Defs
import Mathlib.Data.Int.Notation
import Mathlib.Data.List.Count
import Mathlib.Logic.Function.Basic

/-!
# Icq/Events/Store — where the pointers to events are kept

An event that is sent to the server is in the send queue until a thread takes it, and in the running
list until it is done; the extended list has those of which the answer comes in parts.  A service
has a queue of its own.  An event ends in `delete` or in the hands of the plugin manager.

Events are known by their places in memory.  Threads appear as the events that they are sending.
-/

namespace Licq

/-- `Licq::Event::ResultType` -/
inductive ResultType
  | acked | success | failed | timedout | error | cancelled | unsupported
  deriving DecidableEq

/-- `Licq::Event` -/
structure IcqEvent where
  m_nEventId : ℕ
  m_nSequence : UInt16
  m_nSubSequence : UInt16
  m_nSocketDesc : ℤ
  m_nSNAC : UInt32
  /-- The channel of the packet, where that is a `CSrvPacketTcp`. -/
  icqChannel : Option UInt8
  flagDirect : Bool
  m_NoAck : Bool
  m_bCancelled : Bool
  deriving DecidableEq

/-- `ICQ_CHNxNEW` -/
def icqChnNew : UInt8 := 0x01

/-- `ICQ_CHNxPING` -/
def icqChnPing : UInt8 := 0x05

/-- The requests of which the plugins get the event: messages, the buddy list, registration,
information on a user and icons. -/
def pluginSnacs : List UInt32 :=
  [0x00040006, 0x00030004, 0x00030005, 0x00170004, 0x00020015, 0x00020005, 0x00100006]

/-- `MAKESNAC(ICQ_SNACxFAM_VARIOUS, ICQ_SNACxMETA)` -/
def metaSnac : UInt32 := 0x00150002

/-- What `ProcessDoneEvent` does with an event. -/
inductive Disposal
  | pushed | deleted | extended | kept
  deriving DecidableEq

/-- The plugin manager has it or it is deleted. -/
def Disposal.Ends : Disposal → Prop
  | .pushed | .deleted => True
  | .extended | .kept => False

instance (d : Disposal) : Decidable d.Ends := by
  cases d
  · exact .isTrue trivial
  · exact .isTrue trivial
  · exact .isFalse not_false
  · exact .isFalse not_false

/-- What `ProcessDoneEvent` does, by the channel and the command. -/
def IcqEvent.disposal (e : IcqEvent) (m_eResult : ResultType) : Disposal :=
  match e.icqChannel with
  | none => if e.flagDirect then .pushed else .deleted
  | some channel =>
    if channel = icqChnNew ∨ channel = icqChnPing then .deleted
    else if channel = 0x02 then
      if e.m_nSNAC ∈ pluginSnacs then .pushed
      else if e.m_nSNAC = metaSnac then
        match m_eResult with
        | .error | .timedout | .failed | .success | .cancelled => .pushed
        | .acked => .extended
        | .unsupported => .deleted
      else .deleted
    else .kept

/-- The store, with the places of events as numbers. -/
structure EventStore where
  /-- What stands at a place. -/
  events : ℕ → IcqEvent
  /-- The places in use are those before this one. -/
  next : ℕ
  m_lxSendQueue_Server : List ℕ
  m_lxRunningEvents : List ℕ
  m_lxExtendedEvents : List ℕ
  /-- The queue of the service. -/
  mySendQueue : List ℕ
  /-- The events that a thread is sending. -/
  threads : List ℕ
  /-- The events that were deleted or pushed to the plugins. -/
  disposed : List ℕ
  /-- An assertion failed, or memory was read that is not there. -/
  fault : Bool

namespace EventStore

/-! ## Moves -/

/-- `new Event`, at the place `s.next`. -/
def alloc (s : EventStore) (e : IcqEvent) : EventStore :=
  { s with events := Function.update s.events s.next e, next := s.next + 1 }

/-- `delete`, or `pushPluginEvent`. -/
def dispose (s : EventStore) (r : ℕ) : EventStore := { s with disposed := s.disposed ++ [r] }

/-- An event comes into the send queue. -/
def pushSend (s : EventStore) (r : ℕ) : EventStore :=
  { s with m_lxSendQueue_Server := s.m_lxSendQueue_Server ++ [r] }

def eraseSend (s : EventStore) (r : ℕ) : EventStore :=
  { s with m_lxSendQueue_Server := s.m_lxSendQueue_Server.erase r }

/-- `PushEvent` -/
def pushEvent (s : EventStore) (r : ℕ) : EventStore :=
  { s with m_lxRunningEvents := s.m_lxRunningEvents ++ [r] }

/-- `PushExtendedEvent` -/
def pushExtendedEvent (s : EventStore) (r : ℕ) : EventStore :=
  { s with m_lxExtendedEvents := s.m_lxExtendedEvents ++ [r] }

/-- An event comes into the queue of the service. -/
def pushService (s : EventStore) (r : ℕ) : EventStore :=
  { s with mySendQueue := s.mySendQueue ++ [r] }

def shiftService (s : EventStore) : EventStore := { s with mySendQueue := s.mySendQueue.tail }

/-- A thread has an event to send. -/
def startThread (s : EventStore) (r : ℕ) : EventStore := { s with threads := s.threads ++ [r] }

def endThread (s : EventStore) (r : ℕ) : EventStore := { s with threads := s.threads.erase r }

/-- `ProcessDoneEvent` -/
def processDoneEvent (s : EventStore) (r : ℕ) (m_eResult : ResultType) : EventStore :=
  match (s.events r).disposal m_eResult with
  | .pushed | .deleted => s.dispose r
  | .extended => s.pushExtendedEvent r
  | .kept => s

/-- What `DoneEvent` does with an event that is running: it leaves the list, and its thread is
cancelled. -/
def unlist (s : EventStore) (r : ℕ) : EventStore :=
  { s with
    m_lxRunningEvents := s.m_lxRunningEvents.erase r
    threads := s.threads.erase r }

/-- The event at a place changes. -/
def setEvent (s : EventStore) (r : ℕ) (e : IcqEvent) : EventStore :=
  { s with events := Function.update s.events r e }

/-- `DoneExtendedEvent` of an event. -/
def doneExtendedEvent (s : EventStore) (r : ℕ) : EventStore :=
  { s with m_lxExtendedEvents := s.m_lxExtendedEvents.erase r }

/-- The place of an event in the send queue goes to a cancelled copy, which has no packet. -/
def replaceCancelled (s : EventStore) (r : ℕ) : EventStore :=
  let copy : IcqEvent :=
    { s.events r with icqChannel := none, m_NoAck := false, m_bCancelled := true }
  ((s.alloc copy).eraseSend r).pushSend s.next

/-- `DoneEvent` and, where the event was running, `ProcessDoneEvent`; otherwise `delete`. -/
def finish (s : EventStore) (r : ℕ) (m_eResult : ResultType) : EventStore :=
  if r ∈ s.m_lxRunningEvents then (s.unlist r).processDoneEvent r m_eResult else s.dispose r

/-! ## Sending -/

/-- `SendEvent_Server` -/
def sendEvent (s : EventStore) (e : IcqEvent) : EventStore :=
  (s.alloc { e with flagDirect := false, m_NoAck := true, m_bCancelled := false }).pushSend s.next

/-- `SendExpectEvent_Server`, where the start of the thread may fail; `icqSendThroughServer`
sends an event without an acknowledgement in this way. -/
def sendExpectEvent (s : EventStore) (e : IcqEvent) (bExtendedEvent started : Bool) : EventStore :=
  let r := s.next
  let s := s.alloc { e with flagDirect := false, m_bCancelled := false }
  let s := if bExtendedEvent then s.pushExtendedEvent r else s
  let s := (s.pushEvent r).pushSend r
  if started then s
  else
    let s := ((s.unlist r).replaceCancelled r).processDoneEvent r .error
    if bExtendedEvent then s.doneExtendedEvent r else s

/-- `SendExpectEvent_Client`: the thread has the event at once. -/
def sendExpectEventClient (s : EventStore) (e : IcqEvent) (started : Bool) : EventStore :=
  let r := s.next
  let s := s.alloc
    { e with icqChannel := none, flagDirect := true, m_NoAck := false, m_bCancelled := false }
  let s := s.pushEvent r
  if started then s.startThread r else (s.unlist r).processDoneEvent r .error

/-- `COscarService::SendEvent`: the event has no packet yet. -/
def sendService (s : EventStore) (e : IcqEvent) (Request : Bool) : EventStore :=
  let r := s.next
  let s := s.alloc
    { e with icqChannel := none, flagDirect := false, m_NoAck := !Request, m_bCancelled := false }
  let s := if Request then s.pushEvent r else s
  s.pushService r

/-! ## Threads -/

/-- A thread for the server takes an event from the send queue; a cancelled one is deleted. -/
def take (s : EventStore) (r : ℕ) : EventStore :=
  let s := s.eraseSend r
  if (s.events r).m_bCancelled then s.dispose r else s.startThread r

/-- The thread of an event has connected. -/
def connected (s : EventStore) (r : ℕ) (socket : ℤ) : EventStore :=
  s.setEvent r { s.events r with m_nSocketDesc := socket }

/-- The thread of an event ends: it has sent the event or has failed to. -/
def threadDone (s : EventStore) (r : ℕ) (sent : Bool) : EventStore :=
  let s := s.endThread r
  if (s.events r).flagDirect then
    if sent then s else s.finish r .error
  else if sent then
    if (s.events r).m_NoAck then
      if r ∈ s.m_lxRunningEvents then
        ((s.unlist r).doneExtendedEvent r).processDoneEvent r .acked
      else s.dispose r
    else s
  else if r ∈ s.m_lxRunningEvents then
    ((s.unlist r).doneExtendedEvent r).processDoneEvent r .error
  else s.dispose r

/-- What comes of an event that the service is to send. -/
inductive ServiceOutcome
  /-- There is no connection. -/
  | failed
  /-- A packet is attached and sent. -/
  | sent (m_nSequence m_nSubSequence : UInt16) (m_nSNAC : UInt32)
  | notSent

/-- `OscarServiceSendQueue_tep` for the next event. -/
def serviceNext (s : EventStore) (outcome : ServiceOutcome) : EventStore :=
  match s.mySendQueue with
  | [] => s
  | r :: _ =>
    let s := s.shiftService
    if (s.events r).m_bCancelled then s.dispose r
    else match outcome with
      | .failed => s.finish r .error
      | .sent m_nSequence m_nSubSequence m_nSNAC =>
        let e : IcqEvent :=
          { s.events r with m_nSequence, m_nSubSequence, m_nSNAC, icqChannel := some 0x02 }
        let s := s.setEvent r e
        if e.m_NoAck then s.dispose r else s
      | .notSent =>
        let t := s.finish r .error
        -- The event is looked at once more.
        if (s.events r).m_NoAck then t.dispose r else t

/-! ## Answers -/

/-- How the event that an answer is for is found in the running list. -/
inductive EventKey
  | subSequence (nSubSequence : UInt16)
  | sequence (nSD : ℤ) (nSequence : UInt16)

def EventKey.Matches : EventKey → IcqEvent → Bool
  | .subSequence n, e => e.m_nSubSequence = n
  | .sequence nSD n, e => e.m_nSocketDesc = nSD ∧ e.m_nSequence = n

/-- What is done with the event that was found. -/
inductive AnswerEnd
  | process
  | delete
  /-- The list's acknowledgements and the end of the list do nothing with it. -/
  | nothing

def running? (s : EventStore) (key : EventKey) : Option ℕ :=
  s.m_lxRunningEvents.find? fun r => key.Matches (s.events r)

/-- `DoneServerEvent` or `DoneEvent` by socket and sequence, and what follows. -/
def answer (s : EventStore) (key : EventKey) (m_eResult : ResultType) (after : AnswerEnd) :
    EventStore :=
  match s.running? key with
  | none => s
  | some r =>
    match after with
    | .process => (s.unlist r).processDoneEvent r m_eResult
    | .delete => (s.unlist r).dispose r
    | .nothing => s.unlist r

/-- The answers to events of the extended list. -/
inductive ExtendedAnswer
  /-- A part of the information on a user. -/
  | infoPart
  /-- The last part, or an error. -/
  | infoLast (m_eResult : ResultType)
  /-- A user that was found. -/
  | searchPart
  /-- The last user that was found. -/
  | searchLast
  | searchNone
  /-- The rights that come at the end of the logon. -/
  | rights

def extended? (s : EventStore) (nSubSequence : UInt16) : Option ℕ :=
  s.m_lxExtendedEvents.find? fun r => (s.events r).m_nSubSequence = nSubSequence

/-- A copy of the event goes to the plugins. -/
def pushCopy (s : EventStore) (r : ℕ) : EventStore :=
  (s.alloc { s.events r with icqChannel := none, m_NoAck := false }).dispose s.next

/-- `DoneExtendedServerEvent`, and what follows. -/
def extendedAnswer (s : EventStore) (nSubSequence : UInt16) (reply : ExtendedAnswer) : EventStore :=
  match s.extended? nSubSequence with
  | none =>
    match reply with
    | .searchNone => { s with fault := true }
    | _ => s
  | some r =>
    let s := s.doneExtendedEvent r
    match reply with
    | .infoPart => s.pushExtendedEvent r
    | .infoLast m_eResult => (s.unlist r).processDoneEvent r m_eResult
    | .searchPart => (s.pushCopy r).pushExtendedEvent r
    | .searchLast | .searchNone => (s.pushCopy r).unlist r
    | .rights => s.processDoneEvent r .success

/-! ## Cancellation -/

/-- The first event that `Equals` an id, which `CompareEvent` takes as an `unsigned short`. -/
def byId? (s : EventStore) (t : ℕ) (queue : List ℕ) : Option ℕ :=
  queue.find? fun r => (s.events r).m_nEventId = t % 2 ^ 16

/-- `CancelEvent` of an id. -/
def cancelEvent (s : EventStore) (t : ℕ) : EventStore :=
  let eSrv := s.byId? t s.m_lxSendQueue_Server
  let eRun := s.byId? t s.m_lxRunningEvents
  let eExt := s.byId? t s.m_lxExtendedEvents
  let s := match eSrv with
    | some r => s.replaceCancelled r
    | none => s
  let s := match eRun with
    | some r => s.unlist r
    | none => s
  let s := match eExt with
    | some r => s.doneExtendedEvent r
    | none => s
  match (eRun.or eExt).or eSrv with
  | some r => s.processDoneEvent r .cancelled
  | none => s

/-- A round of `FailEvents` for an event of the socket; after a reset the event is sent again. -/
def failEvent (s : EventStore) (r : ℕ) (reset : Bool) : EventStore :=
  let s := s.unlist r
  if reset then ((s.connected r (-1)).pushEvent r).startThread r
  else s.processDoneEvent r .error

/-- `COscarService::ClearQueue`: the loop goes on from the entry that has been erased. -/
def clearQueue (s : EventStore) : EventStore :=
  match s.mySendQueue with
  | [] => s
  | [r] => s.shiftService.dispose r
  | r :: _ => { s.shiftService.dispose r with fault := true }

/-! ## Logoff -/

/-- The running event is one of the connection, or one that is to make it. -/
def OfConnection (s : EventStore) (nSD : ℤ) (r : ℕ) : Prop :=
  (s.events r).m_nSocketDesc = nSD ∨ (s.events r).icqChannel = some icqChnNew

instance (s : EventStore) (nSD : ℤ) (r : ℕ) : Decidable (s.OfConnection nSD r) :=
  inferInstanceAs (Decidable (_ ∨ _))

/-- A running event is cancelled at logoff. -/
def cancelRunning (s : EventStore) (r : ℕ) : EventStore :=
  ((s.unlist r).doneExtendedEvent r).processDoneEvent r .cancelled

/-- `postLogoff`; the queue of the service is cleared where that is connected. -/
def postLogoff (s : EventStore) (nSD : ℤ) (bartConnected : Bool) (cancelledEvent : Option IcqEvent) :
    EventStore :=
  let s := if bartConnected then s.clearQueue else s
  let s := s.m_lxSendQueue_Server.foldl replaceCancelled s
  let s := (s.m_lxRunningEvents.filter (s.OfConnection nSD ·)).foldl cancelRunning s
  let s := if s.m_lxExtendedEvents = [] then s else { s with fault := true }
  match cancelledEvent with
  | none => s
  | some e =>
    (s.alloc { e with icqChannel := none, m_NoAck := false, m_bCancelled := true }).pushSend s.next

/-! ## Steps -/

/-- What can happen. -/
inductive Action
  | sendEvent (e : IcqEvent)
  | sendExpectEvent (e : IcqEvent) (bExtendedEvent started : Bool)
  | sendExpectEventClient (e : IcqEvent) (started : Bool)
  | sendService (e : IcqEvent) (Request : Bool)
  | take (r : ℕ)
  | connected (r : ℕ) (socket : ℤ)
  | threadDone (r : ℕ) (sent : Bool)
  | serviceNext (outcome : ServiceOutcome)
  | answer (key : EventKey) (m_eResult : ResultType) (after : AnswerEnd)
  | extendedAnswer (nSubSequence : UInt16) (reply : ExtendedAnswer)
  | cancelEvent (t : ℕ)
  | failEvent (r : ℕ) (reset : Bool)
  | clearQueue
  | postLogoff (nSD : ℤ) (bartConnected : Bool) (cancelledEvent : Option IcqEvent)

/-- One step: threads take what is in the send queue, and end with what they took. -/
def step (s : EventStore) : Action → Option EventStore
  | .sendEvent e => some (s.sendEvent e)
  | .sendExpectEvent e bExtendedEvent started => some (s.sendExpectEvent e bExtendedEvent started)
  | .sendExpectEventClient e started => some (s.sendExpectEventClient e started)
  | .sendService e Request => some (s.sendService e Request)
  | .take r => if r ∈ s.m_lxSendQueue_Server then some (s.take r) else none
  | .connected r socket => if r ∈ s.threads then some (s.connected r socket) else none
  | .threadDone r sent => if r ∈ s.threads then some (s.threadDone r sent) else none
  | .serviceNext outcome => some (s.serviceNext outcome)
  | .answer key m_eResult after => some (s.answer key m_eResult after)
  | .extendedAnswer nSubSequence reply => some (s.extendedAnswer nSubSequence reply)
  | .cancelEvent t => some (s.cancelEvent t)
  | .failEvent r reset => if r ∈ s.m_lxRunningEvents then some (s.failEvent r reset) else none
  | .clearQueue => some s.clearQueue
  | .postLogoff nSD bartConnected cancelledEvent =>
    some (s.postLogoff nSD bartConnected cancelledEvent)

/-- Nothing has been sent. -/
def init : EventStore :=
  ⟨fun _ => ⟨0, 0, 0, 0, 0, none, false, false, false⟩, 0, [], [], [], [], [], [], false⟩

end EventStore

end Licq
