import Licq.Data.Steps
import Mathlib.Algebra.BigOperators.Group.List.Basic
import Mathlib.Algebra.GroupWithZero.Nat
import Mathlib.Logic.Function.Basic

/-!
# Icq/Connections — the descriptors of direct connections

A descriptor of a direct connection is kept by the user, once for each channel, by the socket, and by the
socket manager's table; `connectToUser`, the handshake of a peer and `CloseSocket` change the three in
steps of their own.  `stays_connected` says in which runs of these steps a user's descriptors are always
those of its own sockets, and every call of `connectToUser` comes to an end.
-/

namespace Licq.Connections

open List Option

/-! ## Sockets and users -/

/-- `DcSocket`; a socket that a peer has opened has no user before its handshake. -/
structure Socket where
  myUserId : Option (List Char)
  myDescriptor : Option ℕ
  myChannel : ℕ
  myVersion : ℕ
  Secure : Bool
  getLocalPort : ℕ
  deriving DecidableEq

/-- `INetSocket::CloseConnection` -/
def Socket.CloseConnection (s : Socket) : Socket := { s with myDescriptor := none }

/-- The channels of a user: `ChannelNormal`, `ChannelInfo` and `ChannelStatus`. -/
def Known (channel : ℕ) : Prop := channel = 1 ∨ channel = 2 ∨ channel = 3

instance (channel : ℕ) : Decidable (Known channel) := inferInstanceAs (Decidable (_ ∨ _))

/-- The descriptors of a `User`, and what it knows of its connection. -/
structure User where
  myNormalSocketDesc : Option ℕ
  myInfoSocketDesc : Option ℕ
  myStatusSocketDesc : Option ℕ
  m_nLocalPort : ℕ
  myConnectionVersion : ℕ
  m_bSecure : Bool
  m_bConnectionInProgress : Bool
  myVersion : ℕ
  deriving DecidableEq

namespace User

def new (myVersion : ℕ) : User := ⟨none, none, none, 0, 0, false, false, myVersion⟩

def socketDesc (u : User) (channel : ℕ) : Option ℕ :=
  if channel = 1 then u.myNormalSocketDesc
  else if channel = 2 then u.myInfoSocketDesc
  else if channel = 3 then u.myStatusSocketDesc
  else none

def setSocketDesc (u : User) (s : Socket) : User :=
  { u with
    myNormalSocketDesc := if s.myChannel = 1 then s.myDescriptor else u.myNormalSocketDesc
    myInfoSocketDesc := if s.myChannel = 2 then s.myDescriptor else u.myInfoSocketDesc
    myStatusSocketDesc := if s.myChannel = 3 then s.myDescriptor else u.myStatusSocketDesc
    m_nLocalPort := s.getLocalPort
    myConnectionVersion := s.myVersion
    m_bSecure := s.Secure }

/-- A user with no descriptor forgets its connection. -/
def forget (u : User) : User :=
  if u.myStatusSocketDesc = none ∧ u.myInfoSocketDesc = none ∧ u.myNormalSocketDesc = none then
    { u with m_nLocalPort := 0, myConnectionVersion := 0, m_bSecure := false }
  else u

def clearSocketDesc (u : User) (s : Socket) : User :=
  forget { u with
    myNormalSocketDesc :=
      if s.myDescriptor = u.myNormalSocketDesc then none else u.myNormalSocketDesc
    myInfoSocketDesc := if s.myDescriptor = u.myInfoSocketDesc then none else u.myInfoSocketDesc
    myStatusSocketDesc :=
      if s.myDescriptor = u.myStatusSocketDesc then none else u.myStatusSocketDesc }

/-- `IcqProtocol::dcVersionToUse` -/
def dcVersionToUse (v_in : ℕ) : ℕ :=
  let v_out := if v_in < 8 then v_in else 8
  if v_out < 2 ∨ v_out = 5 then if v_out = 5 then 4 else 6 else v_out

def ConnectionVersion (u : User) : ℕ :=
  if u.myConnectionVersion ≠ 0 then u.myConnectionVersion else dcVersionToUse u.myVersion

end User

/-! ## The state -/

/-- Where a call of `connectToUser` is. -/
inductive Phase
  | entered
  | polling
  /-- No other connection is in progress. -/
  | polled
  /-- The flag is set, and the socket is to be opened. -/
  | connecting (nVersion : ℕ)
  | shaking (s : Socket) (nVersion : ℕ)
  | shaken (s : Socket)
  /-- The descriptor is in the user, and the socket is to be added to the manager. -/
  | stored (s : Socket)
  /-- With the descriptor, and whether it was that of a live socket of the user and the channel. -/
  | returned (nSD : Option ℕ) (live : Bool)
  /-- A user that is not there has been used. -/
  | crashed
  deriving DecidableEq

structure Call where
  userId : List Char
  channel : ℕ
  phase : Phase
  deriving DecidableEq

/-- The socket that a call holds. -/
def Phase.socket : Phase → Option Socket
  | .shaking s _ => some s
  | .shaken s => some s
  | .stored s => some s
  | _ => none

/-- The socket that a call is about to add. -/
def Phase.adding : Phase → Option Socket
  | .stored s => some s
  | _ => none

/-- The users, the socket manager's table, the calls of `connectToUser`, the sockets that nobody will
close, the socket that `CloseSocket` has closed and whose user it is about to clear, and the descriptor
whose `CloseSocket` with `bClearUser` has been the last step. -/
structure State where
  users : List Char → Option User
  m_hSockets : List Socket
  calls : List Call
  leaked : List Socket
  closing : Option (ℕ × Socket)
  closed : Option ℕ

namespace State

def init : State := ⟨fun _ => none, [], [], [], none, none⟩

def setUser (s : State) (id : List Char) (u : User) : State :=
  let users := Function.update s.users id (some u)
  { s with users := users }

def setPhase (s : State) (k : ℕ) (call : Call) (phase : Phase) : State :=
  { s with calls := s.calls.set k { call with phase := phase } }

/-- The sockets in the manager, and those that are about to be added to it. -/
def managed (s : State) : List Socket := s.m_hSockets ++ s.calls.filterMap (·.phase.adding)

/-- Every socket that has a descriptor of the system. -/
def opened (s : State) : List Socket :=
  s.m_hSockets ++ s.calls.filterMap (·.phase.socket) ++ s.leaked

/-- The descriptor is not one of an open socket; the system may hand it out. -/
def Free (s : State) (sd : ℕ) : Prop := ∀ x ∈ s.opened, x.myDescriptor ≠ some sd

instance (s : State) (sd : ℕ) : Decidable (s.Free sd) :=
  inferInstanceAs (Decidable (∀ x ∈ s.opened, x.myDescriptor ≠ some sd))

/-- The descriptor is that of a socket of the user and the channel. -/
def Live (s : State) (id : List Char) (channel sd : ℕ) : Prop :=
  ∃ x ∈ s.managed, x.myDescriptor = some sd ∧ x.myUserId = some id ∧ x.myChannel = channel

instance (s : State) (id : List Char) (channel sd : ℕ) : Decidable (s.Live id channel sd) :=
  inferInstanceAs (Decidable (∃ x ∈ s.managed, _))

/-! ## The socket manager -/

/-- `SocketHashTable::Retrieve` -/
def Retrieve (s : State) (sd : ℕ) : Option Socket := s.m_hSockets.find? (·.myDescriptor = some sd)

/-- `SocketHashTable::Remove` -/
def Remove (s : State) (sd : ℕ) : State :=
  { s with m_hSockets := s.m_hSockets.eraseP (·.myDescriptor = some sd) }

/-- `SocketManager::AddSocket` -/
def AddSocket (s : State) (x : Socket) : State := { s with m_hSockets := x :: s.m_hSockets }

/-- A socket of the table changes. -/
def setSocket (s : State) (x y : Socket) : State := { s with m_hSockets := s.m_hSockets.replace x y }

/-- `SocketManager::CloseSocket` up to the user.  One call of it runs at a time. -/
def CloseSocket (s : State) (sd : ℕ) (bClearUser : Bool) : Option State :=
  match s.closing with
  | some _ => none
  | none =>
    match s.Retrieve sd with
    | none => some s
    | some x =>
      let s := s.Remove sd
      some { s with closing := if bClearUser then some (sd, x.CloseConnection) else none }

/-- The end of `CloseSocket`, where the user is cleared. -/
def clearUser (s : State) : Option State :=
  match s.closing with
  | none => none
  | some (_, x) =>
    let s := match x.myUserId with
      | none => s
      | some id =>
        match s.users id with
        | none => s
        | some u => s.setUser id (u.clearSocketDesc x)
    some { s with closing := none }

/-! ## connectToUser -/

/-- A call returns. -/
def finish (s : State) (k : ℕ) (call : Call) (nSD : Option ℕ) : State :=
  let live := decide (∀ sd ∈ nSD, s.Live call.userId call.channel sd)
  s.setPhase k call (.returned nSD live)

/-- A call returns without a connection. -/
def fail (s : State) (k : ℕ) (call : Call) : State :=
  let s := match s.users call.userId with
    | none => s
    | some u => s.setUser call.userId { u with m_bConnectionInProgress := false }
  s.finish k call none

/-- The next step of a call of `connectToUser`; `o` is none where the wait is interrupted, the connection
cannot be opened or the handshake fails, and has the descriptor and the local port of the socket
otherwise. -/
def goCall (s : State) (k : ℕ) (call : Call) (o : Option (ℕ × ℕ)) : Option State :=
  match call.phase with
  | .entered =>
    match s.users call.userId with
    | none => some (s.finish k call none)
    | some u =>
      -- Check that we need to connect at all
      match u.socketDesc call.channel with
      | some sd => some (s.finish k call (some sd))
      | none => some (s.setPhase k call .polling)
  | .polling =>
    -- Poll if there is a connection in progress already
    if ∃ u ∈ s.users call.userId, u.m_bConnectionInProgress = false then
      some (s.setPhase k call .polled)
    else
      match o with
      | none => some (s.finish k call none)
      | some _ => some s
  | .polled =>
    match s.users call.userId with
    | none => some (s.setPhase k call .crashed)
    | some u =>
      match u.myNormalSocketDesc with
      | some sd => some (s.finish k call (some sd))
      | none =>
        let s := s.setUser call.userId { u with m_bConnectionInProgress := true }
        some (s.setPhase k call (.connecting u.ConnectionVersion))
  | .connecting nVersion =>
    match s.users call.userId, o with
    | some _, some (sd, port) =>
      if s.Free sd then
        let x : Socket := ⟨some call.userId, some sd, call.channel, 0, false, port⟩
        some (s.setPhase k call (.shaking x nVersion))
      else none
    | _, _ => some (s.fail k call)
  | .shaking x nVersion =>
    match o with
    | none => some (s.fail k call)
    | some _ => some (s.setPhase k call (.shaken { x with myVersion := nVersion }))
  | .shaken x =>
    match s.users call.userId with
    | none =>
      let leaked := x :: s.leaked
      some ({ s with leaked := leaked }.finish k call none)
    | some u =>
      -- Set the socket descriptor in the user
      let u := { u.setSocketDesc x with m_bConnectionInProgress := false }
      some ((s.setUser call.userId u).setPhase k call (.stored x))
  | .stored x => some ((s.AddSocket x).finish k call x.myDescriptor)
  | .returned _ _ => some s
  | .crashed => some s

def go (s : State) (k : ℕ) (o : Option (ℕ × ℕ)) : Option State :=
  match s.calls[k]? with
  | none => none
  | some call => s.goCall k call o

/-! ## The thread that monitors the sockets -/

/-- A peer connects, and its socket is added to the manager. -/
def accept (s : State) (sd channel port : ℕ) : Option State :=
  if s.Free sd then some (s.AddSocket ⟨none, some sd, channel, 0, false, port⟩) else none

/-- `ProcessTcpHandshake`; `channel` is what the handshake sets the socket's channel to, `result` the user
and the version where it succeeds. -/
def handshake (s : State) (sd : ℕ) (channel : Option ℕ) (result : Option (List Char × ℕ)) :
    Option State :=
  match s.Retrieve sd with
  | none => none
  | some x =>
    if x.myUserId ≠ none then none
    else
      let y := { x with myChannel := channel.getD x.myChannel }
      match result with
      | none => some (s.setSocket x y)
      | some (id, version) =>
        let y := { y with myUserId := some id, myVersion := version }
        let s := s.setSocket x y
        match s.users id with
        | none => some s
        | some u =>
          -- A user may already have an associated socket.
          if u.socketDesc y.myChannel = none then some (s.setUser id (u.setSocketDesc y)) else some s

/-- A secure channel is opened or closed. -/
def secure (s : State) (sd : ℕ) (on : Bool) : Option State :=
  match s.Retrieve sd with
  | none => none
  | some x =>
    match x.myUserId with
    | none => none
    | some id =>
      let s := s.setSocket x { x with Secure := on }
      match s.users id with
      | none => some s
      | some u => some (s.setUser id { u with m_bSecure := on })

/-- `RecvPacket` fails; only a secure user is cleared here. -/
def recvFails (s : State) (sd : ℕ) : Option State :=
  match s.Retrieve sd with
  | none => none
  | some x =>
    match x.myUserId with
    | none => some s
    | some id =>
      match s.users id with
      | none => some s
      | some u =>
        if u.m_bSecure then some (s.setUser id { u.clearSocketDesc x with m_bSecure := false })
        else some s

end State

/-! ## Runs -/

inductive Action
  | addUser (id : List Char) (version : ℕ)
  | removeUser (id : List Char)
  /-- A thread calls `connectToUser`. -/
  | call (id : List Char) (channel : ℕ)
  | go (k : ℕ) (o : Option (ℕ × ℕ))
  | accept (sd channel port : ℕ)
  | handshake (sd : ℕ) (channel : Option ℕ) (result : Option (List Char × ℕ))
  | secure (sd : ℕ) (on : Bool)
  | recvFails (sd : ℕ)
  | close (sd : ℕ) (bClearUser : Bool)
  | clearUser
  deriving DecidableEq

def perform (s : State) : Action → Option State
  | .addUser id version =>
    match s.users id with
    | none => some (s.setUser id (.new version))
    | some _ => none
  | .removeUser id =>
    let users := Function.update s.users id none
    some { s with users := users }
  | .call id channel => some { s with calls := s.calls ++ [⟨id, channel, .entered⟩] }
  | .go k o => s.go k o
  | .accept sd channel port => s.accept sd channel port
  | .handshake sd channel result => s.handshake sd channel result
  | .secure sd on => s.secure sd on
  | .recvFails sd => s.recvFails sd
  | .close sd bClearUser => s.CloseSocket sd bClearUser
  | .clearUser => s.clearUser

/-- The descriptor that an action has been the end of `CloseSocket` with `bClearUser` for, unless the
system has handed it out again in between. -/
def closedBy (s t : State) : Action → Option ℕ
  | .close sd true => if s.Retrieve sd = none then some sd else none
  | .clearUser =>
    match s.closing with
    | some (sd, _) => if t.Free sd then some sd else none
    | none => none
  | _ => none

/-- One step of some thread; none where it cannot be taken. -/
def step (s : State) (a : Action) : Option State :=
  (perform s a).map fun t => { t with closed := closedBy s t a }

/-! ## The property -/

/-- The user has a descriptor on some channel. -/
def User.Connected (u : User) : Prop :=
  u.myNormalSocketDesc ≠ none ∨ u.myInfoSocketDesc ≠ none ∨ u.myStatusSocketDesc ≠ none

instance (u : User) : Decidable u.Connected := inferInstanceAs (Decidable (_ ∨ _))

/-- The call has set the user's flag. -/
def Phase.Connecting : Phase → Prop
  | .connecting _ | .shaking _ _ | .shaken _ => True
  | _ => False

/-- The call waits until no connection is in progress. -/
def Phase.Waiting : Phase → Prop
  | .polling | .polled => True
  | _ => False

/-- What a user knows of its connection is reset when it has none. -/
structure User.Reset (u : User) : Prop where
  port : ¬ u.Connected → u.m_nLocalPort = 0
  version : ¬ u.Connected → u.myConnectionVersion = 0
  secure : ¬ u.Connected → u.m_bSecure = false

/-- A user's descriptors are those of its own sockets in the manager, and none of them is one that
`CloseSocket` has just closed; a user with no descriptor is reset; a call returns the descriptor of a
live socket of its user and its channel, or none; and the flag is set only while a call connects, so that
nobody waits for a flag that is not cleared, nor for a user that has gone. -/
structure State.Sound (s : State) : Prop where
  stored : ∀ id u channel sd, s.users id = some u → u.socketDesc channel = some sd →
    s.Live id channel sd
  closed : ∀ sd id u channel, s.closed = some sd → s.users id = some u →
    u.socketDesc channel ≠ some sd
  reset : ∀ id u, s.users id = some u → u.Reset
  returned : ∀ call ∈ s.calls, ∀ nSD live, call.phase = .returned nSD live → live = true
  progress : ∀ id u, s.users id = some u → u.m_bConnectionInProgress = true →
    ∃ call ∈ s.calls, call.userId = id ∧ call.phase.Connecting
  waits : ∀ call ∈ s.calls, call.phase.Waiting → (s.users call.userId).isSome
  defined : ∀ call ∈ s.calls, call.phase ≠ .crashed

/-- **The condition on a step.**  A user is not removed while a call waits to connect to it.  A call that
goes on after the wait finds no normal channel, or is for the normal channel.  A socket whose channel is
none of a user's is set only in a user that is connected, and so is the secure flag.  A socket is closed
only when no user has its descriptor. -/
def ActionOk (s : State) : Action → Prop
  | .removeUser id => ∀ call ∈ s.calls, call.userId = id → ¬ call.phase.Waiting
  | .go k _ => ∀ call ∈ s.calls[k]?, ∀ u ∈ s.users call.userId,
    (call.phase = .polled → u.myNormalSocketDesc ≠ none → call.channel = 1) ∧
      (∀ x, call.phase = .shaken x → Known call.channel ∨ u.Connected)
  | .handshake sd channel result => ∀ x ∈ s.Retrieve sd, ∀ r ∈ result, ∀ u ∈ s.users r.1,
    Known (channel.getD x.myChannel) ∨ u.Connected
  | .secure sd on => ∀ x ∈ s.Retrieve sd, ∀ id ∈ x.myUserId, ∀ u ∈ s.users id,
    on = true → u.Connected
  | .close sd bClearUser => bClearUser = true ∨ (s.Retrieve sd).isSome →
    ∀ id u channel, s.users id = some u → u.socketDesc channel ≠ some sd
  | _ => True

/-! ## Users -/

namespace User

variable {u : User} {x : Socket} {channel sd : ℕ}

theorem not_connected : ¬ u.Connected ↔ u.myNormalSocketDesc = none ∧ u.myInfoSocketDesc = none ∧
    u.myStatusSocketDesc = none := by
  rw [Connected]
  simp only [not_or, not_not]

theorem reset_new (version : ℕ) : (User.new version).Reset :=
  ⟨fun _ => rfl, fun _ => rfl, fun _ => rfl⟩

theorem socketDesc_new (version : ℕ) : (User.new version).socketDesc channel = none := by
  rw [socketDesc]
  split_ifs <;> rfl

theorem reset_forget (u : User) : u.forget.Reset := by
  rw [forget]
  split_ifs with hnone
  · exact ⟨fun _ => rfl, fun _ => rfl, fun _ => rfl⟩
  · have hconnected : u.Connected := by
      by_contra hno
      obtain ⟨hn, hi, hs⟩ := not_connected.mp hno
      exact hnone ⟨hs, hi, hn⟩
    exact ⟨absurd hconnected, absurd hconnected, absurd hconnected⟩

theorem reset_clearSocketDesc (u : User) (x : Socket) : (u.clearSocketDesc x).Reset :=
  reset_forget _

theorem socketDesc_forget : u.forget.socketDesc channel = u.socketDesc channel := by
  rw [forget]
  split_ifs <;> rfl

/-- What is left is what has been there, and not the socket's. -/
theorem socketDesc_clearSocketDesc (h : (u.clearSocketDesc x).socketDesc channel = some sd) :
    u.socketDesc channel = some sd := by
  rw [clearSocketDesc, socketDesc_forget, socketDesc] at h
  rw [socketDesc]
  split_ifs at h ⊢ <;> exact h

theorem inProgress_clearSocketDesc :
    (u.clearSocketDesc x).m_bConnectionInProgress = u.m_bConnectionInProgress := by
  rw [clearSocketDesc, forget]
  split_ifs <;> rfl

/-- A descriptor that has been set is the socket's, on its channel. -/
theorem socketDesc_setSocketDesc (h : (u.setSocketDesc x).socketDesc channel = some sd) :
    channel = x.myChannel ∧ x.myDescriptor = some sd ∨ u.socketDesc channel = some sd := by
  rw [setSocketDesc, socketDesc] at h
  dsimp only at h
  rw [socketDesc]
  split_ifs at h ⊢
  all_goals first
    | exact .inr h
    | exact .inl ⟨by omega, h⟩

theorem reset_setSocketDesc (hx : x.myDescriptor ≠ none)
    (hknown : Known x.myChannel ∨ u.Connected) : (u.setSocketDesc x).Reset := by
  have hconnected : (u.setSocketDesc x).Connected := by
    rw [Connected, setSocketDesc]
    dsimp only
    rcases hknown with h | h
    · rcases h with h | h | h <;> rw [h] <;> simp [hx]
    · rcases h with h | h | h
      · left
        split_ifs <;> assumption
      · right
        left
        split_ifs <;> assumption
      · right
        right
        split_ifs <;> assumption
  exact ⟨absurd hconnected, absurd hconnected, absurd hconnected⟩

end User

/-! ## What holds in a run -/

/-- The socket has been opened by the call. -/
structure Socket.Of (call : Call) (x : Socket) : Prop where
  userId : x.myUserId = some call.userId
  channel : x.myChannel = call.channel
  descriptor : x.myDescriptor ≠ none

namespace State

/-- What holds beside `closed`: the property, and what calls hold. -/
structure Inv (s : State) : Prop where
  stored : ∀ id u channel sd, s.users id = some u → u.socketDesc channel = some sd →
    s.Live id channel sd
  reset : ∀ id u, s.users id = some u → u.Reset
  returned : ∀ call ∈ s.calls, ∀ nSD live, call.phase = .returned nSD live → live = true
  progress : ∀ id u, s.users id = some u → u.m_bConnectionInProgress = true →
    ∃ call ∈ s.calls, call.userId = id ∧ call.phase.Connecting
  waits : ∀ call ∈ s.calls, call.phase.Waiting → (s.users call.userId).isSome
  defined : ∀ call ∈ s.calls, call.phase ≠ .crashed
  held : ∀ call ∈ s.calls, ∀ x, call.phase.socket = some x → x.Of call
  closing : ∀ sd x, s.closing = some (sd, x) → x.myDescriptor = none

variable {s t : State} {k sd : ℕ} {call : Call} {id : List Char} {u : User} {x y : Socket}

theorem inv_init : init.Inv where
  stored _ _ _ _ h := by cases h
  reset _ _ h := by cases h
  returned _ h := absurd h not_mem_nil
  progress _ _ h := by cases h
  waits _ h := absurd h not_mem_nil
  defined _ h := absurd h not_mem_nil
  held _ h := absurd h not_mem_nil
  closing _ _ h := by cases h

/-- Another element than the one that is set stays. -/
theorem mem_set_or {α : Type} {l : List α} {a b c : α} (hk : l[k]? = some a) (hc : c ∈ l) :
    c ∈ l.set k b ∨ c = a := by
  obtain ⟨j, hj⟩ := mem_iff_getElem?.mp hc
  by_cases hkj : k = j
  · subst hkj
    rw [hk, some.injEq] at hj
    exact .inr hj.symm
  · refine .inl (mem_iff_getElem?.mpr ⟨j, ?_⟩)
    rwa [getElem?_set_ne hkj]

theorem mem_set_self {α : Type} {l : List α} {a b : α} (hk : l[k]? = some a) : b ∈ l.set k b :=
  mem_set (List.getElem?_eq_some_iff.mp hk).1 b

theorem setUser_eq_some {id' : List Char} {u' : User} : (s.setUser id u).users id' = some u' ↔
    id' = id ∧ u' = u ∨ id' ≠ id ∧ s.users id' = some u' := by
  by_cases hid : id' = id
  · subst hid
    simp [State.setUser, eq_comm]
  · simp [State.setUser, hid]

namespace Inv

/-- The users' property rests on the phases of the calls and the table only. -/
theorem setUser (h : s.Inv) (hstored : ∀ channel sd, u.socketDesc channel = some sd →
      s.Live id channel sd) (hreset : u.Reset)
    (hflag : u.m_bConnectionInProgress = true →
      ∃ call ∈ s.calls, call.userId = id ∧ call.phase.Connecting) : (s.setUser id u).Inv where
  stored id' u' channel sd hu hsd := by
    rcases setUser_eq_some.mp hu with ⟨rfl, rfl⟩ | ⟨-, hu⟩
    · exact hstored channel sd hsd
    · exact h.stored id' u' channel sd hu hsd
  reset id' u' hu := by
    rcases setUser_eq_some.mp hu with ⟨-, rfl⟩ | ⟨-, hu⟩
    · exact hreset
    · exact h.reset id' u' hu
  returned := h.returned
  progress id' u' hu hset := by
    rcases setUser_eq_some.mp hu with ⟨rfl, rfl⟩ | ⟨-, hu⟩
    · exact hflag hset
    · exact h.progress id' u' hu hset
  waits c hc hwaits := by
    obtain ⟨u', hu'⟩ := isSome_iff_exists.mp (h.waits c hc hwaits)
    rw [isSome_iff_exists]
    by_cases hid : c.userId = id
    · exact ⟨u, setUser_eq_some.mpr (.inl ⟨hid, rfl⟩)⟩
    · exact ⟨u', setUser_eq_some.mpr (.inr ⟨hid, hu'⟩)⟩
  defined := h.defined
  held := h.held
  closing := h.closing

/-- **A call goes on** to another phase. -/
theorem setPhase (h : s.Inv) (hk : s.calls[k]? = some call) {phase : Phase}
    (hadding : ∀ x, call.phase.adding = some x → x ∈ s.m_hSockets)
    (hheld : ∀ x, phase.socket = some x → x.Of call)
    (hreturned : ∀ nSD live, phase = .returned nSD live → live = true)
    (hwaits : phase.Waiting → (s.users call.userId).isSome) (hdefined : phase ≠ .crashed)
    (hflag : call.phase.Connecting → phase.Connecting ∨
      ∀ u, s.users call.userId = some u → u.m_bConnectionInProgress = false) :
    (s.setPhase k call phase).Inv where
  stored id u channel sd hu hsd := by
    obtain ⟨x, hx, hrest⟩ := h.stored id u channel sd hu hsd
    refine ⟨x, ?_, hrest⟩
    rcases mem_append.mp hx with hx | hx
    · exact mem_append_left _ hx
    · obtain ⟨c, hc, hadd⟩ := mem_filterMap.mp hx
      rcases mem_set_or hk hc with hmem | rfl
      · exact mem_append_right _ (mem_filterMap.mpr ⟨c, hmem, hadd⟩)
      · exact mem_append_left _ (hadding x hadd)
  reset := h.reset
  returned c hc nSD live hphase := by
    rcases mem_or_eq_of_mem_set hc with hc | rfl
    · exact h.returned c hc nSD live hphase
    · exact hreturned nSD live hphase
  progress id u hu hset := by
    obtain ⟨c, hc, hid, hconnecting⟩ := h.progress id u hu hset
    rcases mem_set_or (b := { call with phase := phase }) hk hc with hmem | rfl
    · exact ⟨c, hmem, hid, hconnecting⟩
    · rcases hflag hconnecting with hnew | hno
      · exact ⟨_, mem_set_self hk, hid, hnew⟩
      · rw [hno u (hid ▸ hu)] at hset
        cases hset
  waits c hc hphase := by
    rcases mem_or_eq_of_mem_set hc with hc | rfl
    · exact h.waits c hc hphase
    · exact hwaits hphase
  defined c hc := by
    rcases mem_or_eq_of_mem_set hc with hc | rfl
    · exact h.defined c hc
    · exact hdefined
  held c hc x hx := by
    rcases mem_or_eq_of_mem_set hc with hc | rfl
    · exact h.held c hc x hx
    · obtain ⟨hid, hch, hsd⟩ := hheld x hx
      exact ⟨hid, hch, hsd⟩
  closing := h.closing

/-- The table changes, and the sockets of the users stay. -/
theorem setTable (h : s.Inv) {t : State} (husers : t.users = s.users) (hcalls : t.calls = s.calls)
    (hlive : ∀ id u channel sd, s.users id = some u → u.socketDesc channel = some sd →
      s.Live id channel sd → t.Live id channel sd)
    (hclosing : ∀ sd x, t.closing = some (sd, x) → x.myDescriptor = none) : t.Inv where
  stored id u channel sd hu hsd := by
    rw [husers] at hu
    exact hlive id u channel sd hu hsd (h.stored id u channel sd hu hsd)
  reset := husers ▸ h.reset
  returned := hcalls ▸ h.returned
  progress := husers ▸ hcalls ▸ h.progress
  waits := husers ▸ hcalls ▸ h.waits
  defined := hcalls ▸ h.defined
  held := hcalls ▸ h.held
  closing := hclosing

/-! ## A call's steps -/

theorem finish (h : s.Inv) (hk : s.calls[k]? = some call) {nSD : Option ℕ}
    (hadding : ∀ x, call.phase.adding = some x → x ∈ s.m_hSockets)
    (hlive : ∀ sd, nSD = some sd → s.Live call.userId call.channel sd)
    (hflag : call.phase.Connecting →
      ∀ u, s.users call.userId = some u → u.m_bConnectionInProgress = false) :
    (s.finish k call nSD).Inv := by
  refine h.setPhase hk hadding (fun x hx => (by cases hx)) (fun nSD' live heq => ?_)
    (fun hw => hw.elim) (nofun) fun hc => .inr (hflag hc)
  rw [← (Phase.returned.inj heq).2, decide_eq_true_eq]
  exact hlive

theorem fail (h : s.Inv) (hk : s.calls[k]? = some call) (hadding : call.phase.adding = none) :
    (s.fail k call).Inv := by
  have hno (x : Socket) (hx : call.phase.adding = some x) : x ∈ s.m_hSockets :=
    nomatch hadding.symm.trans hx
  rw [State.fail]
  cases hu : s.users call.userId with
  | none =>
    refine h.finish hk hno nofun fun _ u hu' => ?_
    exact nomatch hu.symm.trans hu'
  | some u =>
    have hr := h.reset _ u hu
    have hset : (s.setUser call.userId { u with m_bConnectionInProgress := false }).Inv :=
      h.setUser (fun channel sd hsd => h.stored _ u channel sd hu hsd)
        ⟨hr.port, hr.version, hr.secure⟩ nofun
    refine hset.finish hk hno nofun fun _ u' hu' => ?_
    rcases setUser_eq_some.mp hu' with ⟨-, rfl⟩ | ⟨hne, -⟩
    · rfl
    · exact absurd rfl hne

/-- **A step of a call.** -/
theorem goCall (h : s.Inv) (hk : s.calls[k]? = some call) {o : Option (ℕ × ℕ)}
    (hok : ∀ u, s.users call.userId = some u →
      (call.phase = .polled → u.myNormalSocketDesc ≠ none → call.channel = 1) ∧
        (∀ x, call.phase = .shaken x → Known call.channel ∨ u.Connected))
    (hstep : s.goCall k call o = some t) : t.Inv := by
  have hmem := mem_of_getElem? hk
  obtain ⟨userId, channel, phase⟩ := call
  cases phase with
  | entered =>
    simp only [State.goCall] at hstep
    cases hu : s.users userId with
    | none =>
      simp only [hu] at hstep
      cases hstep
      exact h.finish hk nofun nofun False.elim
    | some u =>
      simp only [hu] at hstep
      cases hsd : u.socketDesc channel with
      | some sd =>
        simp only [hsd] at hstep
        cases hstep
        refine h.finish hk nofun (fun sd' hsd' => ?_) False.elim
        cases hsd'
        exact h.stored _ u _ sd hu hsd
      | none =>
        simp only [hsd] at hstep
        cases hstep
        exact h.setPhase hk nofun nofun nofun (fun _ => isSome_iff_exists.mpr ⟨u, hu⟩) nofun
          False.elim
  | polling =>
    simp only [State.goCall] at hstep
    split_ifs at hstep with hfree
    · cases hstep
      obtain ⟨u, hu, -⟩ := hfree
      exact h.setPhase hk nofun nofun nofun (fun _ => isSome_iff_exists.mpr ⟨u, hu⟩) nofun
        False.elim
    · cases o with
      | none =>
        cases hstep
        exact h.finish hk nofun nofun False.elim
      | some _ =>
        cases hstep
        exact h
  | polled =>
    obtain ⟨u, hu⟩ := isSome_iff_exists.mp (h.waits _ hmem trivial)
    simp only [State.goCall, hu] at hstep
    split at hstep
    · rename_i sd hsd
      cases hstep
      refine h.finish hk nofun (fun sd' hsd' => ?_) False.elim
      cases hsd'
      have hch : channel = 1 := (hok u hu).1 rfl (by rw [hsd]; exact some_ne_none sd)
      refine h.stored _ u _ sd hu ?_
      rw [hch]
      exact hsd
    · cases hstep
      have hgo := @setPhase _ _ _ h hk (.connecting u.ConnectionVersion) nofun nofun nofun
        (fun hw => hw.elim) nofun False.elim
      have hr := h.reset _ u hu
      exact hgo.setUser (u := { u with m_bConnectionInProgress := true })
        (fun channel sd hsd => hgo.stored _ u channel sd hu hsd) ⟨hr.port, hr.version, hr.secure⟩
        fun _ => ⟨_, mem_set_self hk, rfl, trivial⟩
  | connecting nVersion =>
    simp only [State.goCall] at hstep
    split at hstep
    · rename_i u sd port hu
      split_ifs at hstep
      cases hstep
      refine h.setPhase hk nofun (fun x hx => ?_) nofun (fun hw => hw.elim) nofun
        fun _ => .inl trivial
      cases hx
      exact ⟨rfl, rfl, some_ne_none sd⟩
    · cases hstep
      exact h.fail hk rfl
  | shaking x nVersion =>
    simp only [State.goCall] at hstep
    have hx := h.held _ hmem x rfl
    cases o with
    | none =>
      cases hstep
      exact h.fail hk rfl
    | some _ =>
      cases hstep
      refine h.setPhase hk nofun (fun y hy => ?_) nofun (fun hw => hw.elim) nofun
        fun _ => .inl trivial
      cases hy
      exact ⟨hx.userId, hx.channel, hx.descriptor⟩
  | shaken x =>
    simp only [State.goCall] at hstep
    have hx := h.held _ hmem x rfl
    cases hu : s.users userId with
    | none =>
      simp only [hu] at hstep
      cases hstep
      have hleaked : State.Inv { s with leaked := x :: s.leaked } :=
        h.setTable rfl rfl (fun _ _ _ _ _ _ hlive => hlive) h.closing
      refine hleaked.finish hk nofun nofun fun _ u hu' => ?_
      exact nomatch hu.symm.trans hu'
    | some u =>
      simp only [hu] at hstep
      cases hstep
      -- The flag is cleared, the call goes on, and the descriptor is set.
      have hr := h.reset _ u hu
      let clear : User := { u with m_bConnectionInProgress := false }
      have hclear : (s.setUser userId clear).Inv :=
        h.setUser (fun channel sd hsd => h.stored _ u channel sd hu hsd)
          ⟨hr.port, hr.version, hr.secure⟩ nofun
      have hgo : ((s.setUser userId clear).setPhase k ⟨userId, channel, .shaken x⟩ (.stored x)).Inv :=
        hclear.setPhase hk nofun (fun y hy => (by obtain rfl := some.inj hy; exact hx)) nofun
          (fun hw => hw.elim) nofun fun _ => .inr fun u' hu' => (by
            rcases setUser_eq_some.mp hu' with ⟨-, rfl⟩ | ⟨hne, -⟩
            · rfl
            · exact absurd rfl hne)
      have hset : (((s.setUser userId clear).setPhase k ⟨userId, channel, .shaken x⟩
          (.stored x)).setUser userId
          { u.setSocketDesc x with m_bConnectionInProgress := false }).Inv := by
        refine hgo.setUser (fun channel sd hsd => ?_) ?_ nofun
        · rcases User.socketDesc_setSocketDesc hsd with ⟨hch, hx'⟩ | hold
          · refine ⟨x, mem_append_right _ ?_, hx', hx.userId, hch.symm⟩
            exact mem_filterMap.mpr ⟨_, mem_set_self hk, rfl⟩
          · exact hgo.stored _ clear channel sd (setUser_eq_some.mpr (.inl ⟨rfl, rfl⟩)) hold
        · have hr' := User.reset_setSocketDesc hx.descriptor (hx.channel ▸ (hok u hu).2 x rfl)
          exact ⟨hr'.port, hr'.version, hr'.secure⟩
      rw [State.setUser, State.setPhase, State.setUser] at hset
      rw [State.setUser, State.setPhase]
      simpa only [Function.update_idem] using hset
  | stored x =>
    cases hstep
    have hx := h.held _ hmem x rfl
    have hadd : (s.AddSocket x).Inv := by
      refine h.setTable rfl rfl (fun id u channel sd _ _ ⟨y, hy, hrest⟩ => ⟨y, ?_, hrest⟩) h.closing
      exact mem_cons_of_mem x hy
    refine hadd.finish hk (fun y hy => ?_) (fun sd hsd => ?_) False.elim
    · cases hy
      exact mem_cons_self
    · exact ⟨x, mem_cons_self, hsd, hx.userId, hx.channel⟩
  | returned nSD live =>
    cases hstep
    exact h
  | crashed => exact absurd rfl (h.defined _ hmem)

/-! ## The steps of the monitoring thread -/

theorem retrieve_some (h : s.Retrieve sd = some x) :
    x ∈ s.m_hSockets ∧ x.myDescriptor = some sd := by
  refine ⟨mem_of_find?_eq_some h, ?_⟩
  simpa using find?_some h

theorem accept (h : s.Inv) {channel port : ℕ} (hstep : s.accept sd channel port = some t) : t.Inv := by
  rw [State.accept] at hstep
  split_ifs at hstep
  cases hstep
  refine h.setTable rfl rfl (fun _ _ _ _ _ _ ⟨y, hy, hrest⟩ => ⟨y, ?_, hrest⟩) h.closing
  exact mem_cons_of_mem _ hy

/-- What replaces a socket of the table is there. -/
theorem mem_replace {l : List Socket} (hx : x ∈ l) : y ∈ l.replace x y := by
  induction l with
  | nil => cases hx
  | cons z l ih =>
    by_cases hz : z = x
    · subst hz
      rw [replace_cons_self]
      exact mem_cons_self
    · rw [replace_cons, beq_false_of_ne (Ne.symm hz)]
      rcases mem_cons.mp hx with rfl | hx
      · exact absurd rfl hz
      · exact mem_cons_of_mem z (ih hx)

theorem mem_replace_of_ne {l : List Socket} {z : Socket} (hz : z ∈ l) (hne : z ≠ x) :
    z ∈ l.replace x y := by
  induction l with
  | nil => cases hz
  | cons w l ih =>
    by_cases hw : w = x
    · subst hw
      rw [replace_cons_self]
      rcases mem_cons.mp hz with rfl | hz
      · exact absurd rfl hne
      · exact mem_cons_of_mem y hz
    · rw [replace_cons, beq_false_of_ne (Ne.symm hw)]
      rcases mem_cons.mp hz with rfl | hz
      · exact mem_cons_self
      · exact mem_cons_of_mem w (ih hz)

theorem setSocket_users (s : State) (x y : Socket) : (s.setSocket x y).users = s.users := rfl

/-- **A socket of the table changes**, and if it is a user's it stays the user's. -/
theorem setSocket (h : s.Inv) (hx : x ∈ s.m_hSockets) (hsame : ∀ id, x.myUserId = some id →
      y.myDescriptor = x.myDescriptor ∧ y.myUserId = x.myUserId ∧ y.myChannel = x.myChannel) :
    (s.setSocket x y).Inv := by
  refine h.setTable rfl rfl (fun id u channel sd _ _ ⟨z, hz, hrest⟩ => ?_) h.closing
  rcases mem_append.mp hz with hz | hz
  · by_cases hzx : z = x
    · subst hzx
      obtain ⟨hdesc, hid, hch⟩ := hsame id hrest.2.1
      refine ⟨y, mem_append_left _ (mem_replace hx), ?_⟩
      rw [hdesc, hid, hch]
      exact hrest
    · exact ⟨z, mem_append_left _ (mem_replace_of_ne hz hzx), hrest⟩
  · exact ⟨z, mem_append_right _ hz, hrest⟩

/-- **The handshake of a peer.** -/
theorem handshake (h : s.Inv) {channel : Option ℕ} {result : Option (List Char × ℕ)}
    (hok : ∀ x ∈ s.Retrieve sd, ∀ r ∈ result, ∀ u ∈ s.users r.1,
      Known (channel.getD x.myChannel) ∨ u.Connected)
    (hstep : s.handshake sd channel result = some t) : t.Inv := by
  rw [State.handshake] at hstep
  cases hx : s.Retrieve sd with
  | none => simp [hx] at hstep
  | some x =>
    obtain ⟨hmem, hdesc⟩ := retrieve_some hx
    simp only [hx] at hstep
    split_ifs at hstep with hid
    have hid : x.myUserId = none := not_not.mp hid
    have hfresh {y : Socket} : (s.setSocket x y).Inv := by
      refine h.setSocket hmem fun id hsome => ?_
      rw [hid] at hsome
      cases hsome
    cases result with
    | none =>
      cases hstep
      exact hfresh
    | some r =>
      obtain ⟨id, version⟩ := r
      simp only [setSocket_users] at hstep
      cases hu : s.users id with
      | none =>
        simp only [hu] at hstep
        cases hstep
        exact hfresh
      | some u =>
        simp only [hu] at hstep
        split_ifs at hstep with hfree
        · cases hstep
          refine hfresh.setUser (fun channel' sd' hsd => ?_) ?_ fun hf => ?_
          · rcases User.socketDesc_setSocketDesc hsd with ⟨hch, hsd⟩ | hold
            · exact ⟨_, mem_append_left _ (mem_replace hmem), hsd, rfl, hch.symm⟩
            · exact hfresh.stored id u channel' sd' hu hold
          · refine User.reset_setSocketDesc ?_ (hok x hx (id, version) rfl u hu)
            change x.myDescriptor ≠ none
            rw [hdesc]
            exact some_ne_none sd
          · exact h.progress id u hu hf
        · cases hstep
          exact hfresh

theorem secure (h : s.Inv) {on : Bool}
    (hok : ∀ x ∈ s.Retrieve sd, ∀ id ∈ x.myUserId, ∀ u ∈ s.users id, on = true → u.Connected)
    (hstep : s.secure sd on = some t) : t.Inv := by
  rw [State.secure] at hstep
  cases hx : s.Retrieve sd with
  | none => simp [hx] at hstep
  | some x =>
    simp only [hx] at hstep
    cases hid : x.myUserId with
    | none => simp [hid] at hstep
    | some id =>
      have hnew : (s.setSocket x { x with myUserId := some id, Secure := on }).Inv :=
        h.setSocket (retrieve_some hx).1 fun _ _ => ⟨rfl, hid.symm, rfl⟩
      simp only [hid, setSocket_users] at hstep
      cases hu : s.users id with
      | none =>
        simp only [hu] at hstep
        cases hstep
        exact hnew
      | some u =>
        simp only [hu] at hstep
        cases hstep
        have hr := h.reset id u hu
        refine hnew.setUser (u := { u with m_bSecure := on })
          (fun channel sd' hsd => hnew.stored id u channel sd' hu hsd) ⟨hr.port, hr.version, fun hno => ?_⟩ fun hf => h.progress id u hu hf
        cases on with
        | false => rfl
        | true => exact absurd (hok x hx id hid u hu rfl) hno

theorem recvFails (h : s.Inv) (hstep : s.recvFails sd = some t) : t.Inv := by
  rw [State.recvFails] at hstep
  cases hx : s.Retrieve sd with
  | none => simp [hx] at hstep
  | some x =>
    simp only [hx] at hstep
    cases hid : x.myUserId with
    | none =>
      simp only [hid] at hstep
      cases hstep
      exact h
    | some id =>
      simp only [hid] at hstep
      cases hu : s.users id with
      | none =>
        simp only [hu] at hstep
        cases hstep
        exact h
      | some u =>
        simp only [hu] at hstep
        split_ifs at hstep with hsecure
        · cases hstep
          have hr := User.reset_clearSocketDesc u x
          refine h.setUser (fun channel sd' hsd => ?_) ⟨hr.port, hr.version, fun _ => rfl⟩ fun hf => ?_
          · exact h.stored id u channel sd' hu (User.socketDesc_clearSocketDesc (x := x) hsd)
          · refine h.progress id u hu ?_
            rw [← User.inProgress_clearSocketDesc (x := x)]
            exact hf
        · cases hstep
          exact h

/-! ## CloseSocket -/

theorem CloseSocket (h : s.Inv) {bClearUser : Bool}
    (hok : bClearUser = true ∨ (s.Retrieve sd).isSome → ∀ id u channel, s.users id = some u →
      u.socketDesc channel ≠ some sd)
    (hstep : s.CloseSocket sd bClearUser = some t) : t.Inv := by
  rw [State.CloseSocket] at hstep
  cases hclosing : s.closing with
  | some _ => simp [hclosing] at hstep
  | none =>
    simp only [hclosing] at hstep
    cases hx : s.Retrieve sd with
    | none =>
      simp only [hx] at hstep
      cases hstep
      exact h
    | some x =>
      simp only [hx] at hstep
      cases hstep
      have hno := hok (.inr (by rw [hx]; rfl))
      refine h.setTable rfl rfl (fun id u channel sd' hu hsd ⟨z, hz, hrest⟩ => ⟨z, ?_, hrest⟩)
        fun sd' x' heq => ?_
      · rcases mem_append.mp hz with hz | hz
        · refine mem_append_left _ ((mem_eraseP_of_neg ?_).mpr hz)
          simp only [decide_eq_true_eq]
          intro hsd'
          rw [hrest.1, some.injEq] at hsd'
          exact hno id u channel hu (hsd' ▸ hsd)
        · exact mem_append_right _ hz
      · cases bClearUser with
        | false => cases heq
        | true =>
          obtain ⟨-, rfl⟩ := Prod.mk.inj (some.inj heq)
          rfl

theorem clearUser (h : s.Inv) (hstep : s.clearUser = some t) : t.Inv := by
  rw [State.clearUser] at hstep
  cases hclosing : s.closing with
  | none => simp [hclosing] at hstep
  | some c =>
    obtain ⟨sd, x⟩ := c
    simp only [hclosing] at hstep
    cases hstep
    have hdone {r : State} (hr : r.Inv) : State.Inv { r with closing := none } :=
      hr.setTable rfl rfl (fun _ _ _ _ _ _ hlive => hlive) nofun
    cases hid : x.myUserId with
    | none => exact hdone h
    | some id =>
      cases hu : s.users id with
      | none =>
        simp only [hu]
        exact hdone h
      | some u =>
        simp only [hu]
        refine hdone (h.setUser (fun channel sd' hsd => ?_) (User.reset_clearSocketDesc u x) ?_)
        · exact h.stored id u channel sd' hu (User.socketDesc_clearSocketDesc hsd)
        · intro hf
          rw [User.inProgress_clearSocketDesc] at hf
          exact h.progress id u hu hf

/-! ## Users and calls come and go -/

theorem removeUser (h : s.Inv)
    (hok : ∀ call ∈ s.calls, call.userId = id → ¬ call.phase.Waiting) :
    State.Inv { s with users := Function.update s.users id none } := by
  have hsome {id' : List Char} {u : User} (hu : Function.update s.users id none id' = some u) :
      s.users id' = some u := by
    by_cases hid : id' = id
    · subst hid
      simp at hu
    · rwa [Function.update_of_ne hid] at hu
  exact
    { stored := fun id' u channel sd hu hsd => h.stored id' u channel sd (hsome hu) hsd
      reset := fun id' u hu => h.reset id' u (hsome hu)
      returned := h.returned
      progress := fun id' u hu hset => h.progress id' u (hsome hu) hset
      waits := fun c hc hw => by
        have hne : c.userId ≠ id := fun heq => hok c hc heq hw
        change (Function.update s.users id none c.userId).isSome
        rw [Function.update_of_ne hne]
        exact h.waits c hc hw
      defined := h.defined
      held := h.held
      closing := h.closing }

theorem addCall (h : s.Inv) {channel : ℕ} :
    State.Inv { s with calls := s.calls ++ [⟨id, channel, .entered⟩] } where
  stored id' u channel' sd hu hsd := by
    obtain ⟨x, hx, hrest⟩ := h.stored id' u channel' sd hu hsd
    refine ⟨x, ?_, hrest⟩
    rw [managed, filterMap_append, ← append_assoc]
    exact mem_append_left _ hx
  reset := h.reset
  returned c hc nSD live hphase := by
    rcases mem_append.mp hc with hc | hc
    · exact h.returned c hc nSD live hphase
    · obtain rfl := mem_singleton.mp hc
      cases hphase
  progress id' u hu hset := by
    obtain ⟨c, hc, hrest⟩ := h.progress id' u hu hset
    exact ⟨c, mem_append_left _ hc, hrest⟩
  waits c hc hw := by
    rcases mem_append.mp hc with hc | hc
    · exact h.waits c hc hw
    · obtain rfl := mem_singleton.mp hc
      exact hw.elim
  defined c hc := by
    rcases mem_append.mp hc with hc | hc
    · exact h.defined c hc
    · obtain rfl := mem_singleton.mp hc
      exact nofun
  held c hc x hx := by
    rcases mem_append.mp hc with hc | hc
    · exact h.held c hc x hx
    · obtain rfl := mem_singleton.mp hc
      cases hx
  closing := h.closing

theorem perform (h : s.Inv) {a : Action} (hok : ActionOk s a) (hstep : perform s a = some t) :
    t.Inv := by
  cases a with
  | addUser id version =>
    rw [Connections.perform] at hstep
    cases hu : s.users id with
    | some u => simp [hu] at hstep
    | none =>
      simp only [hu] at hstep
      cases hstep
      refine h.setUser (fun channel sd hsd => ?_) (User.reset_new version) nofun
      rw [User.socketDesc_new] at hsd
      cases hsd
  | removeUser id =>
    cases hstep
    exact h.removeUser hok
  | call id channel =>
    cases hstep
    exact h.addCall
  | go k o =>
    rw [Connections.perform, State.go] at hstep
    cases hk : s.calls[k]? with
    | none => simp [hk] at hstep
    | some call =>
      simp only [hk] at hstep
      exact h.goCall hk (fun u hu => hok call hk u hu) hstep
  | accept sd channel port => exact h.accept hstep
  | handshake sd channel result => exact h.handshake hok hstep
  | secure sd on => exact h.secure hok hstep
  | recvFails sd => exact h.recvFails hstep
  | close sd bClearUser => exact h.CloseSocket hok hstep
  | clearUser => exact h.clearUser hstep

/-- **One step.** -/
theorem step (h : s.Inv) {a : Action} (hok : ActionOk s a) (hstep : step s a = some t) : t.Inv := by
  obtain ⟨r, hr, rfl⟩ := map_eq_some_iff.mp hstep
  have hinv := h.perform hok hr
  exact hinv.setTable rfl rfl (fun _ _ _ _ _ _ hlive => hlive) hinv.closing

/-- A descriptor that is free is no user's. -/
theorem not_stored_of_free (h : s.Inv) (hfree : s.Free sd) {channel : ℕ} (hu : s.users id = some u) :
    u.socketDesc channel ≠ some sd := by
  intro hsd
  obtain ⟨x, hx, hdesc, -⟩ := h.stored id u channel sd hu hsd
  refine hfree x ?_ hdesc
  rcases mem_append.mp hx with hx | hx
  · exact mem_append_left _ (mem_append_left _ hx)
  · obtain ⟨c, hc, hadd⟩ := mem_filterMap.mp hx
    refine mem_append_left _ (mem_append_right _ (mem_filterMap.mpr ⟨c, hc, ?_⟩))
    cases hphase : c.phase <;> rw [hphase] at hadd <;> first | cases hadd; done | exact hadd

/-- **What has just been closed is no user's.** -/
theorem not_stored_of_closed (h : s.Inv) {a : Action} (hok : ActionOk s a)
    (hstep : Connections.step s a = some t) {channel : ℕ} (hclosed : t.closed = some sd)
    (hu : t.users id = some u) : u.socketDesc channel ≠ some sd := by
  have ht := h.step hok hstep
  obtain ⟨r, hr, rfl⟩ := map_eq_some_iff.mp hstep
  cases a with
  | close sd' bClearUser =>
    cases bClearUser with
    | false => cases hclosed
    | true =>
      change (if s.Retrieve sd' = none then some sd' else none) = some sd at hclosed
      split_ifs at hclosed with hnone
      cases hclosed
      rw [Connections.perform, State.CloseSocket] at hr
      cases hclosing : s.closing with
      | some _ => simp [hclosing] at hr
      | none =>
        simp only [hclosing, hnone] at hr
        cases hr
        exact hok (.inl rfl) id u channel hu
  | clearUser =>
    change (match s.closing with
      | some (sd, _) => if r.Free sd then some sd else none
      | none => none) = some sd at hclosed
    split at hclosed
    · split_ifs at hclosed with hfree
      cases hclosed
      exact ht.not_stored_of_free hfree hu
    · cases hclosed
  | _ => cases hclosed

/-- **The invariant is enough**, with what has just been closed. -/
theorem sound (h : s.Inv) (hclosed : ∀ sd id u channel, s.closed = some sd → s.users id = some u →
    u.socketDesc channel ≠ some sd) : s.Sound :=
  ⟨h.stored, hclosed, h.reset, h.returned, h.progress, h.waits, h.defined⟩

end Inv

end State

/-! ## Calls come to an end -/

/-- The steps that a call has left at most, without the polls in vain. -/
def Phase.left : Phase → ℕ
  | .entered => 7
  | .polling => 6
  | .polled => 5
  | .connecting _ => 4
  | .shaking _ _ => 3
  | .shaken _ => 2
  | .stored _ => 1
  | .returned _ _ => 0
  | .crashed => 0

def Phase.Returned : Phase → Prop
  | .returned _ _ => True
  | _ => False

def State.left (s : State) : ℕ := (s.calls.map (·.phase.left)).sum

/-- A round of a run: nobody makes a new call, and every call that has not returned has a step. -/
structure Round (s : State) (as : List Action) : Prop where
  noCall : ∀ id channel, Action.call id channel ∉ as
  steps : ∀ k call, s.calls[k]? = some call → ¬ call.phase.Returned → ∃ o, Action.go k o ∈ as

/-- Rounds that lead from one state to another, with any other steps that meet the condition. -/
def Rounds : State → List (List Action) → State → Prop
  | s, [], t => t = s
  | s, as :: rounds, t => Round s as ∧ Steps.Each step ActionOk s as ∧
    ∃ r, as.foldlM step s = some r ∧ Rounds r rounds t

namespace State

variable {s t : State} {k : ℕ} {call : Call} {a : Action} {as : List Action}

theorem fail_calls (s : State) (k : ℕ) (call : Call) : ∃ live, (s.fail k call).calls =
    s.calls.set k { call with phase := .returned none live } := by
  rw [State.fail]
  cases s.users call.userId with
  | none => exact ⟨_, rfl⟩
  | some u => exact ⟨_, rfl⟩

/-- **What a step of a call does**: it goes on, or there is nothing for it to do but wait. -/
theorem goCall_calls {o : Option (ℕ × ℕ)} (hstep : s.goCall k call o = some t) :
    (∃ phase : Phase, t.calls = s.calls.set k { call with phase := phase } ∧
      phase.left < call.phase.left) ∨
    t.calls = s.calls ∧ (call.phase.left = 0 ∨ call.phase = .polling ∧
      ¬ ∃ u ∈ s.users call.userId, u.m_bConnectionInProgress = false) := by
  cases hphase : call.phase with
  | entered =>
    simp only [goCall, hphase] at hstep
    split at hstep
    · cases hstep
      exact .inl ⟨_, rfl, by simp [Phase.left]⟩
    · split at hstep
      · cases hstep
        exact .inl ⟨_, rfl, by simp [Phase.left]⟩
      · cases hstep
        exact .inl ⟨_, rfl, by simp [Phase.left]⟩
  | polling =>
    simp only [goCall, hphase] at hstep
    split_ifs at hstep with hfree
    · cases hstep
      exact .inl ⟨_, rfl, by simp [Phase.left]⟩
    · split at hstep
      · cases hstep
        exact .inl ⟨_, rfl, by simp [Phase.left]⟩
      · cases hstep
        exact .inr ⟨rfl, .inr ⟨rfl, hfree⟩⟩
  | polled =>
    simp only [goCall, hphase] at hstep
    split at hstep
    · cases hstep
      exact .inl ⟨_, rfl, by simp [Phase.left]⟩
    · split at hstep
      · cases hstep
        exact .inl ⟨_, rfl, by simp [Phase.left]⟩
      · cases hstep
        exact .inl ⟨_, rfl, by simp [Phase.left]⟩
  | connecting nVersion =>
    simp only [goCall, hphase] at hstep
    split at hstep
    · split_ifs at hstep
      cases hstep
      exact .inl ⟨_, rfl, by simp [Phase.left]⟩
    · cases hstep
      obtain ⟨live, hcalls⟩ := fail_calls s k call
      exact .inl ⟨_, hcalls, by simp [Phase.left]⟩
  | shaking x nVersion =>
    simp only [goCall, hphase] at hstep
    split at hstep
    · cases hstep
      obtain ⟨live, hcalls⟩ := fail_calls s k call
      exact .inl ⟨_, hcalls, by simp [Phase.left]⟩
    · cases hstep
      exact .inl ⟨_, rfl, by simp [Phase.left]⟩
  | shaken x =>
    simp only [goCall, hphase] at hstep
    split at hstep
    · cases hstep
      exact .inl ⟨_, rfl, by simp [Phase.left]⟩
    · cases hstep
      exact .inl ⟨_, rfl, by simp [Phase.left]⟩
  | stored x =>
    simp only [goCall, hphase] at hstep
    cases hstep
    exact .inl ⟨_, rfl, by simp [Phase.left]⟩
  | returned nSD live =>
    simp only [goCall, hphase] at hstep
    cases hstep
    exact .inr ⟨rfl, .inl rfl⟩
  | crashed =>
    simp only [goCall, hphase] at hstep
    cases hstep
    exact .inr ⟨rfl, .inl rfl⟩

/-- A call that goes on has less left. -/
theorem sum_set {l : List Call} {b c : Call} (hk : l[k]? = some b)
    (hlt : c.phase.left < b.phase.left) :
    ((l.set k c).map (·.phase.left)).sum < (l.map (·.phase.left)).sum := by
  induction l generalizing k with
  | nil => cases hk
  | cons d l ih =>
    cases k with
    | zero =>
      cases hk
      simp only [set_cons_zero, map_cons, sum_cons]
      omega
    | succ k =>
      have := ih hk
      simp only [set_cons_succ, map_cons, sum_cons]
      omega

theorem left_congr (h : t.calls = s.calls) : t.left = s.left := by
  rw [left, left, h]

/-- **A step leaves no more than there has been**, and the calls as they are if it leaves as much. -/
theorem left_step (hcall : ∀ id channel, a ≠ .call id channel) (hstep : step s a = some t) :
    t.left < s.left ∨ t.calls = s.calls := by
  obtain ⟨r, hr, rfl⟩ := map_eq_some_iff.mp hstep
  have hcalls : ({ r with closed := closedBy s r a } : State).calls = r.calls := rfl
  rw [State.left, hcalls]
  cases a with
  | call id channel => exact absurd rfl (hcall id channel)
  | go k o =>
    rw [perform, go] at hr
    cases hk : s.calls[k]? with
    | none => simp [hk] at hr
    | some call =>
      simp only [hk] at hr
      rcases goCall_calls hr with ⟨phase, hset, hlt⟩ | ⟨hsame, -⟩
      · left
        rw [hset]
        exact sum_set hk hlt
      · exact .inr hsame
  | _ =>
    -- No other step touches the calls.
    right
    simp only [perform, accept, handshake, secure, recvFails, CloseSocket, clearUser] at hr
    repeat' split at hr
    all_goals first
      | cases hr; done
      | cases hr
        rfl

/-- What one step does, a whole run does. -/
theorem left_run (hcall : ∀ id channel, .call id channel ∉ as)
    (hrun : as.foldlM step s = some t) : t.left < s.left ∨ t.calls = s.calls := by
  induction as generalizing s with
  | nil =>
    cases hrun
    exact .inr rfl
  | cons a as ih =>
    rw [foldlM_cons] at hrun
    obtain ⟨r, hr, hrun⟩ := bind_eq_some_iff.mp hrun
    have hhead := left_step (fun id channel heq => hcall id channel (heq ▸ mem_cons_self)) hr
    have htail := ih (fun id channel hmem => hcall id channel (mem_cons_of_mem a hmem)) hrun
    rcases hhead with hlt | hsame
    · have hle : t.left ≤ r.left := by
        rcases htail with hlt' | hsame'
        · exact Nat.le_of_lt hlt'
        · exact Nat.le_of_eq (left_congr hsame')
      exact .inl (Nat.lt_of_le_of_lt hle hlt)
    · rwa [left_congr hsame, hsame] at htail

theorem left_eq_zero (h : s.Inv) (hmem : call ∈ s.calls) (hzero : call.phase.left = 0) :
    call.phase.Returned := by
  cases hphase : call.phase with
  | returned nSD live => trivial
  | crashed => exact absurd hphase (h.defined call hmem)
  | _ =>
    rw [hphase] at hzero
    cases hzero

/-- **A call that has its step in vain** polls, and another one is connecting. -/
theorem polls_of_left_eq (h : s.Inv) (hok : Steps.Each step ActionOk s as)
    (hcall : ∀ id channel, .call id channel ∉ as) (hrun : as.foldlM step s = some t)
    (hleft : ¬ t.left < s.left) (hk : s.calls[k]? = some call) (hreturned : ¬ call.phase.Returned)
    {o : Option (ℕ × ℕ)} (hgo : .go k o ∈ as) :
    call.phase = .polling ∧ ∃ c ∈ s.calls, c.phase.Connecting := by
  induction as generalizing s with
  | nil => cases hgo
  | cons a as ih =>
    rw [foldlM_cons] at hrun
    obtain ⟨r, hr, hrun⟩ := bind_eq_some_iff.mp hrun
    have hcall' : ∀ id channel, .call id channel ∉ as :=
      fun id channel hmem => hcall id channel (mem_cons_of_mem a hmem)
    have hle : t.left ≤ r.left := by
      rcases left_run hcall' hrun with hlt | hsame
      · exact Nat.le_of_lt hlt
      · exact Nat.le_of_eq (left_congr hsame)
    have hsame : r.calls = s.calls := by
      rcases left_step (fun id channel heq => hcall id channel (heq ▸ mem_cons_self)) hr with
        hlt | hsame
      · omega
      · exact hsame
    rcases mem_cons.mp hgo with rfl | hgo
    · obtain ⟨q, hq, rfl⟩ := map_eq_some_iff.mp hr
      have hsame : q.calls = s.calls := hsame
      rw [perform, go] at hq
      simp only [hk] at hq
      have hmem : call ∈ s.calls := mem_of_getElem? hk
      rcases goCall_calls hq with ⟨phase, hset, hlt⟩ | ⟨-, hzero | ⟨hphase, hbusy⟩⟩
      · have hlt' := sum_set (c := { call with phase := phase }) hk hlt
        rw [← hset, hsame] at hlt'
        omega
      · exact absurd (left_eq_zero h hmem hzero) hreturned
      · refine ⟨hphase, ?_⟩
        obtain ⟨u, hu⟩ := isSome_iff_exists.mp (h.waits call hmem (by rw [hphase]; trivial))
        have hset : u.m_bConnectionInProgress = true := by
          by_contra hno
          exact hbusy ⟨u, hu, by simpa using hno⟩
        obtain ⟨c, hc, -, hconnecting⟩ := h.progress _ u hu hset
        exact ⟨c, hc, hconnecting⟩
    · have hr' := h.step hok.1 hr
      have hgoal := ih hr' (hok.2 r hr) hcall' hrun (by rwa [left_congr hsame])
        (by rw [hsame]; exact hk) hgo
      rwa [hsame] at hgoal

/-- **A round gets on**, as long as there is a call that has not returned. -/
theorem left_round (h : s.Inv) (hok : Steps.Each step ActionOk s as) (hround : Round s as)
    (hrun : as.foldlM step s = some t) (hmem : call ∈ s.calls) (hreturned : ¬ call.phase.Returned) :
    t.left < s.left := by
  by_contra hleft
  obtain ⟨k, hk⟩ := mem_iff_getElem?.mp hmem
  obtain ⟨o, hgo⟩ := hround.steps k call hk hreturned
  obtain ⟨-, c, hc, hconnecting⟩ :=
    polls_of_left_eq h hok hround.noCall hrun hleft hk hreturned hgo
  -- The call that is connecting has a step of its own, and none in vain.
  obtain ⟨j, hj⟩ := mem_iff_getElem?.mp hc
  have hbusy : ¬ c.phase.Returned := by
    cases hphase : c.phase <;> rw [hphase] at hconnecting <;> first | exact id | exact hconnecting.elim
  obtain ⟨o', hgo'⟩ := hround.steps j c hj hbusy
  obtain ⟨hpolling, -⟩ := polls_of_left_eq h hok hround.noCall hrun hleft hj hbusy hgo'
  rw [hpolling] at hconnecting
  exact hconnecting

/-- **Every call returns**, in as many rounds as there are steps left. -/
theorem returned_of_rounds {rounds : List (List Action)} (h : s.Inv) (hrounds : Rounds s rounds t)
    (hleft : s.left ≤ rounds.length) : ∀ call ∈ t.calls, call.phase.Returned := by
  induction rounds generalizing s with
  | nil =>
    obtain rfl : t = s := hrounds
    intro call hmem
    refine left_eq_zero h hmem ?_
    have hsum : (t.calls.map (·.phase.left)).sum = 0 := Nat.le_zero.mp hleft
    exact List.sum_eq_zero_iff_forall_eq_nat.mp hsum _ (mem_map.mpr ⟨call, hmem, rfl⟩)
  | cons as rounds ih =>
    obtain ⟨hround, hok, r, hrun, hrest⟩ := hrounds
    have hr : r.Inv := (Steps.stays_of_each (P := State.Inv)
      (fun _ _ _ hinv hok hstep => hinv.step hok hstep) h hok).foldlM hrun
    refine ih hr hrest ?_
    rw [length_cons] at hleft
    by_cases hbusy : ∃ call ∈ s.calls, ¬ call.phase.Returned
    · obtain ⟨call, hmem, hreturned⟩ := hbusy
      have := left_round h hok hround hrun hmem hreturned
      omega
    · have hzero : s.left = 0 := by
        refine sum_eq_zero fun n hn => ?_
        obtain ⟨call, hmem, rfl⟩ := mem_map.mp hn
        have hreturned : call.phase.Returned := by
          by_contra hno
          exact hbusy ⟨call, hmem, hno⟩
        cases hphase : call.phase <;> rw [hphase] at hreturned <;>
          first | exact hreturned.elim | rfl
      have hle : r.left ≤ s.left := by
        rcases left_run hround.noCall hrun with hlt | hsame
        · exact Nat.le_of_lt hlt
        · exact Nat.le_of_eq (left_congr hsame)
      omega

end State

/-! ## Every run -/

/-- **Direct connections.**  In every run whose steps all meet the condition, the descriptors of the users
are those of their sockets, and whatever happens between them, the calls all return when each goes on
having its steps. -/
theorem stays_connected {as : List Action} (h : Steps.Each step ActionOk State.init as) :
    Steps.Stays step State.Sound State.init as ∧
      ∀ s rounds t, as.foldlM step State.init = some s → Rounds s rounds t →
        s.left ≤ rounds.length → ∀ call ∈ t.calls, call.phase.Returned := by
  have hinv : Steps.Stays step State.Inv State.init as := Steps.stays_of_each
    (fun _ _ _ hinv hok hstep => hinv.step hok hstep) State.inv_init h
  constructor
  · refine (Steps.stays_of_each (P := fun s => s.Inv ∧ s.Sound) (fun s a t hs hok hstep => ?_)
      ⟨State.inv_init, State.inv_init.sound nofun⟩ h).mono fun _ => And.right
    have ht := hs.1.step hok hstep
    exact ⟨ht, ht.sound fun sd id u channel hc hu =>
      hs.1.not_stored_of_closed hok hstep hc hu⟩
  · intro s rounds t hrun hrounds hleft
    exact State.returned_of_rounds (hinv.foldlM hrun) hrounds hleft

/-- User 7 is connected on the normal channel and secured, and connects back on the info channel; the
first connection is lost, and the user is cleared before the socket is closed. -/
def lostRun : List Action :=
  [.addUser ['7'] 8, .call ['7'] 1, .go 0 (some (3, 5000)), .go 0 (some (3, 5000)),
    .go 0 (some (3, 5000)), .go 0 (some (3, 5000)), .go 0 (some (3, 5000)), .go 0 (some (3, 5000)),
    .go 0 (some (3, 5000)), .accept 4 0 5001, .handshake 4 (some 2) (some (['7'], 8)),
    .secure 3 true, .recvFails 3, .close 3 true, .clearUser]

theorem stays_connected_lostRun : Steps.Stays step State.Sound State.init lostRun := by
  have hgo {s : State} {k : ℕ} {o : Option (ℕ × ℕ)} {call : Call} (hk : s.calls[k]? = some call)
      (hpolled : call.phase = .polled → call.channel = 1) (hknown : Known call.channel) :
      ActionOk s (.go k o) := by
    intro c hc u _
    cases hk.symm.trans hc
    exact ⟨fun hp _ => hpolled hp, fun _ _ => .inl hknown⟩
  refine (stays_connected ?_).1
  refine (Steps.each_cons rfl).mpr ⟨trivial, (Steps.each_cons rfl).mpr ⟨trivial, ?_⟩⟩
  iterate 7 refine (Steps.each_cons rfl).mpr ⟨hgo rfl (by decide) (by decide), ?_⟩
  refine (Steps.each_cons rfl).mpr ⟨trivial, ?_⟩
  refine (Steps.each_cons rfl).mpr ⟨fun x hx r hr u _ => ?_, ?_⟩
  · exact .inl (.inr (.inl rfl))
  refine (Steps.each_cons rfl).mpr ⟨fun x hx id hid u hu _ => ?_, ?_⟩
  · cases hx
    cases hid
    cases hu
    decide
  refine (Steps.each_cons rfl).mpr ⟨trivial, (Steps.each_cons rfl).mpr ⟨fun _ id u ch hu => ?_, ?_⟩⟩
  · by_cases hid : id = ['7']
    · subst hid
      cases hu
      intro hsd
      rw [User.socketDesc] at hsd
      split_ifs at hsd <;> cases hsd
    · simp [State.setUser, State.setPhase, State.finish, State.AddSocket, State.setSocket,
        State.init, hid] at hu
  · exact (Steps.each_cons rfl).mpr ⟨trivial, trivial⟩

/-- User 7 is connected on the normal channel, and the socket is closed. -/
def closeRun : List Action :=
  [.addUser ['7'] 8, .call ['7'] 1, .go 0 (some (3, 5000)), .go 0 (some (3, 5000)),
    .go 0 (some (3, 5000)), .go 0 (some (3, 5000)), .go 0 (some (3, 5000)), .go 0 (some (3, 5000)),
    .go 0 (some (3, 5000)), .close 3 true, .clearUser]

/-- **A descriptor that is left behind.**  The socket is closed before its user is cleared, so that its
descriptor is not found there. -/
theorem not_stays_connected : ¬ ∀ as, Steps.Stays step State.Sound State.init as := by
  intro h
  have hend : ∃ t u, closeRun.foldlM step State.init = some t ∧ t.closed = some 3 ∧
      t.users ['7'] = some u ∧ u.socketDesc 1 = some 3 := ⟨_, _, rfl, rfl, rfl, rfl⟩
  obtain ⟨t, u, hrun, hclosed, hu, hsd⟩ := hend
  exact ((h closeRun).foldlM hrun).closed 3 _ u 1 hclosed hu hsd

end Licq.Connections
