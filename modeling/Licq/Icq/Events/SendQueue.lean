import Mathlib.Data.Int.Notation
import Mathlib.Data.List.Chain
import Mathlib.Data.List.Nodup

/-!
# Icq/Events/SendQueue — the numbers of packets and the threads that send them

A packet draws its number where its buffer is made, by whichever thread makes it, and comes into the
send queue later.  Each event has a thread to send it, but a thread takes whatever event is next: one
that opens a connection, or the one with the number `nNext`.  A thread that finds none waits.

`taken` and `written` keep what the threads have done, the last of it first.
-/

namespace Licq

/-- A packet that has been constructed. -/
structure NumberedPacket where
  m_nSequence : UInt16
  /-- The channel is `ICQ_CHNxNEW`. -/
  newChannel : Bool
  deriving DecidableEq

/-- An event of the send queue.  A cancelled copy has no packet, and so no channel. -/
structure QueuedEvent where
  /-- Its place in memory, as a number that is not used again. -/
  serial : ℕ
  m_nSequence : UInt16
  newChannel : Bool
  m_nSocketDesc : ℤ
  m_bCancelled : Bool
  deriving DecidableEq

/-- A packet that has gone to a socket; one that was not in the queue has no event. -/
structure Write where
  socket : ℤ
  m_nSequence : UInt16
  event : Option ℕ

/-- How packets come by their numbers; `first` is what `initSequence` picks from `login_fix`. -/
inductive Construction
  | connectStart (first : UInt16)
  | registerFirst (first : UInt16)
  | sendCookie (first : UInt16)
  | other
  /-- The constructor returns before `InitBuffer`, and the number is whatever was there. -/
  | unnumbered (m_nSequence : UInt16)

/-- The counters, the packets that have not been queued, the queue and the threads. -/
structure SendState where
  s_bRegistered : Bool
  s_nSequence : UInt16
  nNext : UInt16
  packets : List NumberedPacket
  m_lxSendQueue_Server : List QueuedEvent
  /-- The event of the thread that has `send_mutex`. -/
  sending : Option QueuedEvent
  /-- The serial of the next event. -/
  nextSerial : ℕ
  taken : List QueuedEvent
  written : List Write

/-- Nothing has been sent: the counters are static. -/
def SendState.init : SendState := ⟨false, 0, 0, [], [], none, 0, [], []⟩

namespace SendState

/-! ## Packets -/

/-- `CSrvPacketTcp::initSequence` -/
def initSequence (s : SendState) (first : UInt16) : SendState := { s with s_nSequence := first }

/-- `CSrvPacketTcp::InitBuffer` -/
def initBuffer (s : SendState) (newChannel : Bool) : SendState :=
  { s with
    s_nSequence := s.s_nSequence + 1
    packets := s.packets ++ [⟨s.s_nSequence, newChannel⟩] }

def register (s : SendState) : SendState := { s with s_bRegistered := true }

/-- A packet is constructed. -/
def construct (s : SendState) : Construction → SendState
  | .connectStart first =>
    if s.s_bRegistered then s.initBuffer true else ((s.initSequence first).register).initBuffer true
  | .registerFirst first => ((s.initSequence first).register).initBuffer true
  | .sendCookie first => (s.initSequence first).initBuffer true
  | .other => s.initBuffer false
  | .unnumbered m_nSequence => { s with packets := s.packets ++ [⟨m_nSequence, false⟩] }

/-- A packet is deleted because the program ends. -/
def discard (s : SendState) (p : NumberedPacket) : SendState :=
  { s with packets := s.packets.erase p }

/-! ## The queue -/

/-- `SendEvent_Server` and `SendExpectEvent`, where the event was made for the socket `nSD`. -/
def sendEvent (s : SendState) (p : NumberedPacket) (nSD : ℤ) : SendState :=
  { s with
    packets := s.packets.erase p
    m_lxSendQueue_Server :=
      s.m_lxSendQueue_Server ++ [⟨s.nextSerial, p.m_nSequence, p.newChannel, nSD, false⟩]
    nextSerial := s.nextSerial + 1 }

/-- `new Event(e)`, cancelled. -/
def cancelledCopy (e : QueuedEvent) (serial : ℕ) : QueuedEvent :=
  { e with serial, newChannel := false, m_bCancelled := true }

/-- `CancelEvent`, or a thread that could not be started: a copy takes the place of the event. -/
def cancelEvent (s : SendState) (e : QueuedEvent) : SendState :=
  { s with
    m_lxSendQueue_Server :=
      s.m_lxSendQueue_Server.erase e ++ [cancelledCopy e s.nextSerial]
    nextSerial := s.nextSerial + 1 }

/-- The loop of `postLogoff` over the queue. -/
def cancelAll (s : SendState) : SendState :=
  { s with
    m_lxSendQueue_Server :=
      s.m_lxSendQueue_Server.mapIdx fun i e => cancelledCopy e (s.nextSerial + i)
    nextSerial := s.nextSerial + s.m_lxSendQueue_Server.length }

/-- The event that keeps the place of the packet of a logoff. -/
def pushCancelled (s : SendState) (p : NumberedPacket) (nSD : ℤ) : SendState :=
  { s with
    packets := s.packets.erase p
    m_lxSendQueue_Server :=
      s.m_lxSendQueue_Server ++ [⟨s.nextSerial, p.m_nSequence, false, nSD, true⟩]
    nextSerial := s.nextSerial + 1 }

/-- `postLogoff`, with the packet of the logoff where there is one. -/
def postLogoff (s : SendState) (nSD : ℤ) (cancelledEvent : Option NumberedPacket) : SendState :=
  match cancelledEvent with
  | none => s.cancelAll
  | some p => s.cancelAll.pushCancelled p nSD

/-! ## Threads -/

/-- Whether the event is next. -/
def IsNext (s : SendState) (e : QueuedEvent) : Prop :=
  e.newChannel = true ∨ e.m_nSequence = s.nNext

instance (s : SendState) (e : QueuedEvent) : Decidable (s.IsNext e) :=
  inferInstanceAs (Decidable (_ ∨ _))

/-- The search of `ProcessRunningEvent_Server_tep`. -/
def next? (s : SendState) : Option QueuedEvent :=
  s.m_lxSendQueue_Server.find? (s.IsNext ·)

/-- A thread takes an event; a cancelled one is deleted. -/
def take (s : SendState) (e : QueuedEvent) : SendState :=
  { s with
    nNext := e.m_nSequence + 1
    m_lxSendQueue_Server := s.m_lxSendQueue_Server.erase e
    sending := if e.m_bCancelled then none else some e
    taken := e :: s.taken }

/-- The packet of the event that is being sent goes to a socket. -/
def write (s : SendState) (e : QueuedEvent) (socket : ℤ) : SendState :=
  { s with sending := none, written := ⟨socket, e.m_nSequence, some e.serial⟩ :: s.written }

/-- The thread has been cancelled, or there is no connection. -/
def fail (s : SendState) : SendState := { s with sending := none }

/-- `SendEvent` of a packet to a socket, past the queue. -/
def sendNow (s : SendState) (p : NumberedPacket) (nSD : ℤ) : SendState :=
  { s with written := ⟨nSD, p.m_nSequence, none⟩ :: s.written }

/-- An event goes to its socket; one that opens a connection may have got it from the thread. -/
def CanWrite (e : QueuedEvent) (socket : ℤ) : Prop :=
  e.m_nSocketDesc = socket ∧ socket ≠ -1 ∨ e.m_nSocketDesc = -1 ∧ e.newChannel = true

instance (e : QueuedEvent) (socket : ℤ) : Decidable (CanWrite e socket) :=
  inferInstanceAs (Decidable (_ ∨ _))

/-! ## Steps -/

/-- What can happen, in any order. -/
inductive Action
  | construct (c : Construction)
  | discard (p : NumberedPacket)
  | sendEvent (p : NumberedPacket) (nSD : ℤ)
  | sendNow (p : NumberedPacket) (nSD : ℤ)
  | cancelEvent (e : QueuedEvent)
  | postLogoff (nSD : ℤ) (cancelledEvent : Option NumberedPacket)
  | take
  | write (socket : ℤ)
  | fail

/-- One step: packets are sent that have been constructed, events cancelled that are in the queue,
and one thread at a time sends. -/
def step (s : SendState) : Action → Option SendState
  | .construct c => some (s.construct c)
  | .discard p => if p ∈ s.packets then some (s.discard p) else none
  | .sendEvent p nSD => if p ∈ s.packets then some (s.sendEvent p nSD) else none
  | .sendNow p nSD => if p ∈ s.packets then some (s.sendNow p nSD) else none
  | .cancelEvent e => if e ∈ s.m_lxSendQueue_Server then some (s.cancelEvent e) else none
  | .postLogoff nSD none => some (s.postLogoff nSD none)
  | .postLogoff nSD (some p) =>
    if p ∈ s.packets ∧ p.newChannel = false then some (s.postLogoff nSD (some p)) else none
  | .take =>
    match s.sending, s.next? with
    | none, some e => some (s.take e)
    | _, _ => none
  | .write socket =>
    match s.sending with
    | some e => if CanWrite e socket then some (s.write e socket) else none
    | none => none
  | .fail => if s.sending = none then none else some s.fail

end SendState

end Licq
