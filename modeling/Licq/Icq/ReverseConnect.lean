import Licq.Data.Steps
import Mathlib.Data.List.Nodup
import Mathlib.Logic.Function.Basic

/-!
# Icq/ReverseConnect — the rendezvous with a peer that connects back

A thread that cannot reach a user puts a record into `m_lReverseConnect`, asks the user to connect back,
and waits for the record to be finished.  The thread that serves the peer's connection finishes the
record under the mutex, and wakes the waiting threads later and outside it.  `stays_rendezvous` says in
which orders of these steps no wake-up is lost and no thread is told of a connection that is not there.
-/

namespace Licq.ReverseConnect

open List Option

/-! ## State -/

/-- `CReverseConnectToUserData`, as far as it is used here, and the thread that has put it there. -/
structure Record where
  myIdString : List Char
  nId : ℕ
  nData : ℕ
  bSuccess : Bool
  bFinished : Bool
  waiter : ℕ
  deriving DecidableEq

/-- Where a thread is in `waitForReverseConnection`. -/
inductive Wait
  /-- `requestReverseConnection` has returned. -/
  | registered
  | waiting (deadline : ℕ)
  /-- The condition variable has been signalled. -/
  | woken (deadline : ℕ)
  | expired (deadline : ℕ)
  | returned (success : Bool) (deadline : ℕ)
  deriving DecidableEq

/-- A thread, with what the property speaks of: a peer's descriptor has been looked up or set for its
record, and the time when a handshake for its record has been completed. -/
structure Waiter where
  id : ℕ
  account : List Char
  channel : ℕ
  phase : Wait
  stored : Bool
  completed : Option ℕ
  deriving DecidableEq

/-- Where the thread that serves a peer is in `ProcessTcpHandshake`. -/
inductive Phase
  | received
  /-- `Handshake_Recv` has returned true. -/
  | matched
  /-- The descriptor is that of the user. -/
  | stored
  | finished
  | failed
  deriving DecidableEq

/-- The connection of a peer: its handshake, the channel of the socket, which nothing sets for peers
before version 7, and the thread whose record it has finished. -/
structure Peer where
  account : List Char
  seven : Bool
  id : ℕ
  channel : ℕ
  phase : Phase
  record : Option ℕ
  deriving DecidableEq

/-- The list of records, the threads, the peers by their descriptor, and the descriptors of the
users. -/
structure State where
  m_lReverseConnect : List Record
  waiters : ℕ → Option Waiter
  peers : ℕ → Option Peer
  desc : List Char → ℕ → Option ℕ
  now : ℕ

def Record.Matches (id : ℕ) (account : List Char) (r : Record) : Prop :=
  r.nId = id ∧ r.myIdString = account

instance (id : ℕ) (account : List Char) (r : Record) : Decidable (r.Matches id account) :=
  inferInstanceAs (Decidable (_ ∧ _))

def Record.finish (r : Record) : Record := { r with bSuccess := true, bFinished := true }

/-- The first record of the kind is finished. -/
def finishFirst (p : Record → Prop) [DecidablePred p] : List Record → List Record
  | [] => []
  | r :: rs => if p r then r.finish :: rs else r :: finishFirst p rs

/-- `ChannelNormal`, `ChannelInfo` or `ChannelStatus`. -/
def Known (channel : ℕ) : Prop := channel = 1 ∨ channel = 2 ∨ channel = 3

instance (channel : ℕ) : Decidable (Known channel) := inferInstanceAs (Decidable (_ ∨ _))

namespace State

def init : State := ⟨[], fun _ => none, fun _ => none, fun _ _ => none, 0⟩

def setWaiter (s : State) (i : ℕ) (w : Waiter) : State :=
  ⟨s.m_lReverseConnect, Function.update s.waiters i (some w), s.peers, s.desc, s.now⟩

def setPeer (s : State) (sd : ℕ) (p : Peer) : State :=
  ⟨s.m_lReverseConnect, s.waiters, Function.update s.peers sd (some p), s.desc, s.now⟩

/-- `User::socketDesc` -/
def socketDesc (s : State) (account : List Char) (channel : ℕ) : Option ℕ :=
  if Known channel then s.desc account channel else none

/-- `User::setSocketDesc` -/
def setSocketDesc (s : State) (account : List Char) (channel sd : ℕ) : State :=
  if Known channel then
    let channels := Function.update (s.desc account) channel (some sd)
    { s with desc := Function.update s.desc account channels }
  else s

/-! ## The waiting thread -/

/-- The record that `requestReverseConnection` adds. -/
def register (s : State) (i id : ℕ) (account : List Char) (channel : ℕ) : Option State :=
  match s.waiters i with
  | some _ => none
  | none =>
    let s := s.setWaiter i ⟨id, account, channel, .registered, false, none⟩
    some { s with m_lReverseConnect :=
      s.m_lReverseConnect ++ [⟨account, id, channel, false, false, i⟩] }

/-- `waitForReverseConnection` up to the wait. -/
def enter (s : State) (i : ℕ) : Option State :=
  match s.waiters i with
  | some w =>
    if w.phase ≠ .registered then none
    else if ∃ r ∈ s.m_lReverseConnect, r.Matches w.id w.account then
      -- Wait for 30 seconds
      some (s.setWaiter i { w with phase := .waiting (s.now + 30) })
    else some (s.setWaiter i { w with phase := .returned false s.now })
  | none => none

/-- `pthread_cond_timedwait` times out. -/
def timeOut (s : State) (i : ℕ) : Option State :=
  match s.waiters i with
  | some w =>
    match w.phase with
    | .waiting deadline =>
      if deadline ≤ s.now then some (s.setWaiter i { w with phase := .expired deadline }) else none
    | _ => none
  | none => none

def remove (s : State) (w : Waiter) : State :=
  { s with m_lReverseConnect := s.m_lReverseConnect.eraseP fun r => r.Matches w.id w.account }

/-- One round of the loop around the wait. -/
def wake (s : State) (i : ℕ) : Option State :=
  match s.waiters i with
  | some w =>
    match w.phase with
    | .woken deadline =>
      match s.m_lReverseConnect.find? fun r => r.Matches w.id w.account with
      | none => some (s.setWaiter i { w with phase := .returned false deadline })
      | some r =>
        if r.bFinished then
          some ((s.remove w).setWaiter i { w with phase := .returned r.bSuccess deadline })
        else some (s.setWaiter i { w with phase := .waiting deadline })
    | _ => none
  | none => none

/-- Timed out, just remove the record. -/
def expire (s : State) (i : ℕ) : Option State :=
  match s.waiters i with
  | some w =>
    match w.phase with
    | .expired deadline =>
      some ((s.remove w).setWaiter i { w with phase := .returned false deadline })
    | _ => none
  | none => none

/-! ## The thread that serves a peer -/

/-- A peer connects; a descriptor may be one that has been closed. -/
def accept (s : State) (sd : ℕ) (account : List Char) (seven : Bool) (id channel : ℕ) :
    Option State :=
  match s.peers sd with
  | none => some (s.setPeer sd ⟨account, seven, id, channel, .received, none⟩)
  | some p =>
    if p.phase = .failed then some (s.setPeer sd ⟨account, seven, id, channel, .received, none⟩)
    else none

/-- The end of `Handshake_Recv`; `done` is false where the handshake fails before the record is looked
up, `confirmed` where its confirmation fails. -/
def recv (s : State) (sd : ℕ) (done confirmed : Bool) : Option State :=
  match s.peers sd with
  | some p =>
    if p.phase ≠ .received then none
    else if ¬ done then some (s.setPeer sd { p with phase := .failed })
    else if p.seven then
      if p.id = 0 then
        some (s.setPeer sd { p with phase := if confirmed then .matched else .failed })
      else
        match s.m_lReverseConnect.find? fun r => r.Matches p.id p.account with
        | none => some (s.setPeer sd { p with phase := .failed })
        | some r =>
          let s := s.setPeer sd { p with
            channel := r.nData
            phase := if confirmed then .matched else .failed
            record := some r.waiter }
          let records := finishFirst (·.Matches p.id p.account) s.m_lReverseConnect
          some { s with m_lReverseConnect := records }
    else
      -- There is no connection id, so just use uin
      match s.m_lReverseConnect.find? fun r => r.myIdString = p.account with
      | none => some (s.setPeer sd { p with phase := .matched })
      | some r =>
        let s := s.setPeer sd { p with phase := .matched, record := some r.waiter }
        let records := finishFirst (·.myIdString = p.account) s.m_lReverseConnect
        some { s with m_lReverseConnect := records }
  | none => none

/-- What is noted of the thread whose record a peer has finished. -/
def note (s : State) (p : Peer) (f : Waiter → Waiter) : State :=
  match p.record with
  | none => s
  | some i =>
    let w := (s.waiters i).map f
    { s with waiters := Function.update s.waiters i w }

def Waiter.store (w : Waiter) : Waiter := { w with stored := true }

def Waiter.complete (now : ℕ) (w : Waiter) : Waiter :=
  { w with stored := true, completed := if w.completed = none then some now else w.completed }

/-- `ProcessTcpHandshake`, while it holds the user. -/
def store (s : State) (sd : ℕ) : Option State :=
  match s.peers sd with
  | some p =>
    if p.phase ≠ .matched then none
    else
      match s.socketDesc p.account p.channel with
      | none => some <| ((s.setSocketDesc p.account p.channel sd).setPeer sd
          { p with phase := .stored }).note p Waiter.store
      | some cur =>
        if cur = sd then some <| (s.setPeer sd { p with phase := .stored }).note p Waiter.store
        -- The user already has an associated socket.
        else some <| (s.setPeer sd { p with phase := .finished }).note p (Waiter.complete s.now)
  | none => none

def Waiter.wake (w : Waiter) : Waiter :=
  match w.phase with
  | .waiting deadline => { w with phase := .woken deadline }
  | _ => w

/-- Awaken waiting threads, maybe unnecessarily. -/
def broadcast (s : State) (sd : ℕ) : Option State :=
  match s.peers sd with
  | some p =>
    if p.phase ≠ .stored then none
    else some <| ({ s with waiters := fun i => (s.waiters i).map Waiter.wake }.setPeer sd
      { p with phase := .finished }).note p (Waiter.complete s.now)
  | none => none

end State

/-! ## Runs -/

inductive Action
  | register (i id : ℕ) (account : List Char) (channel : ℕ)
  | enter (i : ℕ)
  | timeOut (i : ℕ)
  | wake (i : ℕ)
  | expire (i : ℕ)
  | accept (sd : ℕ) (account : List Char) (seven : Bool) (id channel : ℕ)
  | recv (sd : ℕ) (done confirmed : Bool)
  | store (sd : ℕ)
  | broadcast (sd : ℕ)
  /-- A second passes. -/
  | tick

/-- One step of some thread; none where it cannot be taken. -/
def step (s : State) : Action → Option State
  | .register i id account channel => s.register i id account channel
  | .enter i => s.enter i
  | .timeOut i => s.timeOut i
  | .wake i => s.wake i
  | .expire i => s.expire i
  | .accept sd account seven id channel => s.accept sd account seven id channel
  | .recv sd done confirmed => s.recv sd done confirmed
  | .store sd => s.store sd
  | .broadcast sd => s.broadcast sd
  | .tick => some { s with now := s.now + 1 }

/-! ## The property -/

/-- The handshake has succeeded, and its connection stands. -/
def Peer.Passed (p : Peer) : Prop := p.phase = .stored ∨ p.phase = .finished

def Wait.Open : Wait → Prop
  | .returned _ _ => False
  | _ => True

namespace State

/-- A handshake for the thread's user, and for its id where a handshake has one, has succeeded. -/
def Reached (s : State) (w : Waiter) : Prop :=
  ∃ sd p, s.peers sd = some p ∧ p.Passed ∧ p.account = w.account ∧ (p.seven → p.id = w.id)

/-- The user's descriptor for the channel is that of a connected socket. -/
def Linked (s : State) (w : Waiter) : Prop :=
  ∃ sd p, s.socketDesc w.account w.channel = some sd ∧ s.peers sd = some p ∧ p.Passed

/-- A thread whose handshake is completed before its deadline does not sleep and returns true; it
returns true only when the handshake has succeeded and the connection is there; and its record is in
the list until it returns, and nobody's else is. -/
structure Sound (s : State) : Prop where
  sleeps : ∀ i w deadline t, s.waiters i = some w → w.phase = .waiting deadline →
    w.completed = some t → deadline ≤ t
  returns : ∀ i w success deadline t, s.waiters i = some w → w.phase = .returned success deadline →
    w.completed = some t → t < deadline → success = true
  cause : ∀ i w deadline, s.waiters i = some w → w.phase = .returned true deadline →
    s.Reached w ∧ s.Linked w
  records : ∀ i w, s.waiters i = some w → (w.phase.Open ↔ ∃ r ∈ s.m_lReverseConnect, r.waiter = i)
  owners : (s.m_lReverseConnect.map Record.waiter).Nodup ∧
    ∀ r ∈ s.m_lReverseConnect, (s.waiters r.waiter).isSome

end State

/-- The deadline of a thread that sleeps. -/
def Wait.asleep : Wait → Option ℕ
  | .waiting deadline => some deadline
  | _ => none

/-- **The condition on a step.**  No other record has the new one's id and user.  The wait is not
entered when a handshake for the record is completed.  A thread that wakes finds its record finished
only when the peer's descriptor has been stored.  The descriptor is stored for the channel that the
record requests, and where the user has one already, the thread of the record does not sleep on. -/
def ActionOk (s : State) : Action → Prop
  | .register _ id account _ => ∀ r ∈ s.m_lReverseConnect, ¬ r.Matches id account
  | .enter i => ∀ w ∈ s.waiters i, w.completed = none
  | .wake i => ∀ w ∈ s.waiters i, ∀ r ∈ s.m_lReverseConnect, r.Matches w.id w.account →
    r.bFinished = true → w.stored = true
  | .store sd => ∀ p ∈ s.peers sd, ∀ i ∈ p.record, ∀ w ∈ s.waiters i,
    Known p.channel ∧ p.channel = w.channel ∧
      ∀ cur ∈ s.socketDesc p.account p.channel, cur ≠ sd →
        ∀ deadline ∈ w.phase.asleep, deadline ≤ s.now
  | _ => True

/-! ## What holds in a run -/

/-- What a thread knows of its time: where it sleeps, has run out of time or has returned false, no
handshake has been completed before the deadline. -/
structure Waiter.InTime (now : ℕ) (w : Waiter) : Prop where
  stored : w.completed ≠ none → w.stored = true
  waiting : ∀ deadline t, w.phase = .waiting deadline → w.completed = some t → deadline ≤ t
  expired : ∀ deadline, w.phase = .expired deadline → deadline ≤ now ∧
    ∀ t, w.completed = some t → deadline ≤ t
  failed : ∀ deadline, w.phase = .returned false deadline → deadline ≤ now ∧
    ∀ t, w.completed = some t → deadline ≤ t
  succeeded : ∀ deadline, w.phase = .returned true deadline → w.stored = true

def Record.key (r : Record) : ℕ × List Char := (r.nId, r.myIdString)

namespace State

/-- The peer has found the record of the thread. -/
def Found (s : State) (i : ℕ) (p : Peer) : Prop :=
  ∃ w, s.waiters i = some w ∧ w.account = p.account ∧ (p.seven → p.id = w.id)

/-- What holds beside the property.  Records have different keys and are those of the threads that have
not returned; a record is finished when a peer that has found it is past its look-up; and the users'
descriptors are those of peers that have passed. -/
structure Inv (s : State) : Prop where
  keys : (s.m_lReverseConnect.map Record.key).Nodup
  owned : ∀ r ∈ s.m_lReverseConnect, ∃ w, s.waiters r.waiter = some w ∧ w.id = r.nId ∧
    w.account = r.myIdString ∧ w.channel = r.nData ∧ w.phase.Open
  listed : ∀ i w, s.waiters i = some w → w.phase.Open → ∃ r ∈ s.m_lReverseConnect, r.waiter = i
  success : ∀ r ∈ s.m_lReverseConnect, r.bFinished = true → r.bSuccess = true
  finished : ∀ r ∈ s.m_lReverseConnect, ∀ w, s.waiters r.waiter = some w → w.stored = true →
    r.bFinished = true
  inTime : ∀ i w, s.waiters i = some w → w.InTime s.now
  reached : ∀ i w, s.waiters i = some w → w.stored = true → s.Reached w ∧ s.Linked w
  desc : ∀ a c sd, s.desc a c = some sd → ∃ p, s.peers sd = some p ∧ p.Passed
  received : ∀ sd p, s.peers sd = some p → p.phase = .received → p.record = none
  matched : ∀ sd p i, s.peers sd = some p → p.record = some i → p.phase = .matched →
    s.Found i p ∧ ∀ r ∈ s.m_lReverseConnect, r.waiter = i → r.bFinished = true
  stored : ∀ sd p i, s.peers sd = some p → p.record = some i → p.phase = .stored →
    ∃ w, s.waiters i = some w ∧ w.stored = true

variable {s s' : State} {i sd : ℕ} {w : Waiter} {p : Peer}

theorem inv_init : init.Inv where
  keys := nodup_nil
  owned _ h := absurd h not_mem_nil
  listed _ _ h := by cases h
  success _ h := absurd h not_mem_nil
  finished _ h := absurd h not_mem_nil
  inTime _ _ h := by cases h
  reached _ _ h := by cases h
  desc _ _ _ h := by cases h
  received _ _ h := by cases h
  matched _ _ _ h := by cases h
  stored _ _ _ h := by cases h

namespace Inv

/-- Two records of one thread are one. -/
theorem record_unique (h : s.Inv) {r r' : Record} (hr : r ∈ s.m_lReverseConnect)
    (hr' : r' ∈ s.m_lReverseConnect) (he : r.waiter = r'.waiter) : r = r' := by
  obtain ⟨w, hw, hid, hacc, -, -⟩ := h.owned r hr
  obtain ⟨w', hw', hid', hacc', -, -⟩ := h.owned r' hr'
  rw [he, hw', some.injEq] at hw
  subst hw
  exact inj_on_of_nodup_map h.keys hr hr'
    (Prod.ext (hid.symm.trans hid') (hacc.symm.trans hacc'))

/-- **The invariant is enough.** -/
theorem sound (h : s.Inv) : s.Sound where
  sleeps i w deadline t hw hphase ht := (h.inTime i w hw).waiting deadline t hphase ht
  returns i w success deadline t hw hphase ht hlt := by
    cases success with
    | true => rfl
    | false =>
      have := ((h.inTime i w hw).failed deadline hphase).2 t ht
      omega
  cause i w deadline hw hphase := h.reached i w hw ((h.inTime i w hw).succeeded deadline hphase)
  records i w hw := by
    refine ⟨h.listed i w hw, ?_⟩
    rintro ⟨r, hr, rfl⟩
    obtain ⟨w', hw', -, -, -, hopen⟩ := h.owned r hr
    rw [hw, some.injEq] at hw'
    exact hw' ▸ hopen
  owners := by
    refine ⟨?_, fun r hr => ?_⟩
    · refine List.Nodup.map_on ?_ (List.Nodup.of_map _ h.keys)
      exact fun r hr r' hr' he => h.record_unique hr hr' he
    · obtain ⟨w, hw, -⟩ := h.owned r hr
      rw [hw]
      rfl

/-- The record that a thread finds is its own. -/
theorem find_own (h : s.Inv) (hw : s.waiters i = some w) (hopen : w.phase.Open) :
    ∃ r ∈ s.m_lReverseConnect, r.waiter = i ∧ r.Matches w.id w.account ∧
      s.m_lReverseConnect.find? (fun r => r.Matches w.id w.account) = some r := by
  obtain ⟨r, hr, rfl⟩ := h.listed i w hw hopen
  obtain ⟨w', hw', hid, hacc, -, -⟩ := h.owned r hr
  cases hw.symm.trans hw'
  have hmatch : r.Matches w.id w.account := ⟨hid.symm, hacc.symm⟩
  refine ⟨r, hr, rfl, hmatch, ?_⟩
  obtain ⟨r', hfind⟩ := isSome_iff_exists.mp
    (find?_isSome (p := fun r : Record => decide (r.Matches w.id w.account)) |>.mpr
      ⟨r, hr, by simpa using hmatch⟩)
  have hr' := mem_of_find?_eq_some hfind
  have hmatch' : r'.Matches w.id w.account := by simpa using find?_some hfind
  rw [hfind, inj_on_of_nodup_map h.keys hr' hr
    (Prod.ext (hmatch'.1.trans hmatch.1.symm) (hmatch'.2.trans hmatch.2.symm))]

/-! ## The steps of the waiting thread -/

theorem setWaiter_eq_some {j : ℕ} {w x : Waiter} :
    (s.setWaiter i w).waiters j = some x ↔ j = i ∧ x = w ∨ j ≠ i ∧ s.waiters j = some x := by
  by_cases hj : j = i
  · subst hj
    simp [setWaiter, eq_comm]
  · simp [setWaiter, hj]

/-- A thread goes on waiting. -/
theorem setPhase (h : s.Inv) (hw : s.waiters i = some w) (hopen : w.phase.Open) {phase : Wait}
    (hphase : phase.Open) (htime : Waiter.InTime s.now { w with phase := phase }) :
    (s.setWaiter i { w with phase := phase }).Inv := by
  have hback {j : ℕ} {x : Waiter}
      (hx : (s.setWaiter i { w with phase := phase }).waiters j = some x) :
      ∃ y, s.waiters j = some y ∧ y.id = x.id ∧ y.account = x.account ∧ y.channel = x.channel ∧
        y.stored = x.stored ∧ (x.phase.Open → y.phase.Open) := by
    rcases setWaiter_eq_some.mp hx with ⟨rfl, rfl⟩ | ⟨-, hx⟩
    · exact ⟨w, hw, rfl, rfl, rfl, rfl, fun _ => hopen⟩
    · exact ⟨x, hx, rfl, rfl, rfl, rfl, id⟩
  have hforth {j : ℕ} {y : Waiter} (hy : s.waiters j = some y) :
      ∃ x, (s.setWaiter i { w with phase := phase }).waiters j = some x ∧ x.id = y.id ∧
        x.account = y.account ∧ x.channel = y.channel ∧ x.stored = y.stored ∧
        (y.phase.Open → x.phase.Open) := by
    by_cases hj : j = i
    · subst hj
      cases hw.symm.trans hy
      exact ⟨_, setWaiter_eq_some.mpr (.inl ⟨rfl, rfl⟩), rfl, rfl, rfl, rfl, fun _ => hphase⟩
    · exact ⟨y, setWaiter_eq_some.mpr (.inr ⟨hj, hy⟩), rfl, rfl, rfl, rfl, id⟩
  exact
    { keys := h.keys
      owned := fun r hr => by
        obtain ⟨y, hy, hid, hacc, hch, hopen'⟩ := h.owned r hr
        obtain ⟨x, hx, hid', hacc', hch', -, hphase'⟩ := hforth hy
        exact ⟨x, hx, hid'.trans hid, hacc'.trans hacc, hch'.trans hch, hphase' hopen'⟩
      listed := fun j x hx hopen' => by
        obtain ⟨y, hy, -, -, -, -, hphase'⟩ := hback hx
        exact h.listed j y hy (hphase' hopen')
      success := h.success
      finished := fun r hr x hx hstored => by
        obtain ⟨y, hy, -, -, -, hst, -⟩ := hback hx
        exact h.finished r hr y hy (hst.trans hstored)
      inTime := fun j x hx => by
        rcases setWaiter_eq_some.mp hx with ⟨rfl, rfl⟩ | ⟨-, hx⟩
        · exact htime
        · exact h.inTime j x hx
      reached := fun j x hx hstored => by
        obtain ⟨y, hy, hid, hacc, hch, hst, -⟩ := hback hx
        have := h.reached j y hy (hst.trans hstored)
        rwa [Reached, Linked, hid, hacc, hch] at this
      desc := h.desc
      received := h.received
      matched := fun sd p j hp hrec hmatched => by
        obtain ⟨⟨y, hy, hacc, hid⟩, hfin⟩ := h.matched sd p j hp hrec hmatched
        obtain ⟨x, hx, hid', hacc', -⟩ := hforth hy
        exact ⟨⟨x, hx, hacc'.trans hacc, fun hseven => (hid hseven).trans hid'.symm⟩, hfin⟩
      stored := fun sd p j hp hrec hstored => by
        obtain ⟨y, hy, hst⟩ := h.stored sd p j hp hrec hstored
        obtain ⟨x, hx, -, -, -, hst', -⟩ := hforth hy
        exact ⟨x, hx, hst'.trans hst⟩ }

theorem mem_remove (h : s.Inv) {r : Record} : r ∈ (s.remove w).m_lReverseConnect ↔
    r ∈ s.m_lReverseConnect ∧ ¬ r.Matches w.id w.account := by
  have hkeys := h.keys
  change r ∈ s.m_lReverseConnect.eraseP _ ↔ _
  generalize s.m_lReverseConnect = rs at hkeys ⊢
  induction rs with
  | nil => simp
  | cons x rs ih =>
    rw [map_cons, nodup_cons] at hkeys
    by_cases hx : x.Matches w.id w.account
    · rw [eraseP_cons_of_pos (by simpa using hx), mem_cons]
      constructor
      · intro hr
        refine ⟨.inr hr, fun hmatch => hkeys.1 (mem_map.mpr ⟨r, hr, ?_⟩)⟩
        exact Prod.ext (hmatch.1.trans hx.1.symm) (hmatch.2.trans hx.2.symm)
      · rintro ⟨rfl | hr, hmatch⟩
        · exact absurd hx hmatch
        · exact hr
    · rw [eraseP_cons_of_neg (by simpa using hx), mem_cons, mem_cons, ih hkeys.2]
      constructor
      · rintro (rfl | ⟨hr, hmatch⟩)
        · exact ⟨.inl rfl, hx⟩
        · exact ⟨.inr hr, hmatch⟩
      · rintro ⟨rfl | hr, hmatch⟩
        · exact .inl rfl
        · exact .inr ⟨hr, hmatch⟩

/-- **A thread returns** and takes its record with it. -/
theorem leave (h : s.Inv) (hw : s.waiters i = some w) (hopen : w.phase.Open) {success : Bool}
    {deadline : ℕ}
    (htime : Waiter.InTime s.now { w with phase := .returned success deadline }) :
    ((s.remove w).setWaiter i { w with phase := .returned success deadline }).Inv := by
  set t := (s.remove w).setWaiter i { w with phase := .returned success deadline } with ht
  obtain ⟨own, hown, hwaiter, hmatch, -⟩ := h.find_own hw hopen
  have hmem {r : Record} (hr : r ∈ t.m_lReverseConnect) : r ∈ s.m_lReverseConnect ∧ r.waiter ≠ i := by
    obtain ⟨hr, hno⟩ := h.mem_remove.mp hr
    refine ⟨hr, fun he => hno ?_⟩
    rwa [h.record_unique hr hown (he.trans hwaiter.symm)]
  have hsome {j : ℕ} {x : Waiter} : t.waiters j = some x ↔
      j = i ∧ x = { w with phase := .returned success deadline } ∨ j ≠ i ∧ s.waiters j = some x :=
    setWaiter_eq_some (s := s.remove w)
  exact
    { keys := h.keys.sublist (eraseP_sublist.map _)
      owned := fun r hr => by
        obtain ⟨hr, hne⟩ := hmem hr
        obtain ⟨y, hy, hrest⟩ := h.owned r hr
        exact ⟨y, hsome.mpr (.inr ⟨hne, hy⟩), hrest⟩
      listed := fun j x hx hopen' => by
        rcases hsome.mp hx with ⟨rfl, rfl⟩ | ⟨hne, hx⟩
        · exact absurd hopen' id
        · obtain ⟨r, hr, rfl⟩ := h.listed j x hx hopen'
          refine ⟨r, h.mem_remove.mpr ⟨hr, fun hm => hne ?_⟩, rfl⟩
          rw [inj_on_of_nodup_map h.keys hr hown
            (Prod.ext (hm.1.trans hmatch.1.symm) (hm.2.trans hmatch.2.symm)), hwaiter]
      success := fun r hr => h.success r (h.mem_remove.mp hr).1
      finished := fun r hr x hx hstored => by
        obtain ⟨hr, hne⟩ := hmem hr
        rcases hsome.mp hx with ⟨he, -⟩ | ⟨-, hx⟩
        · exact absurd he hne
        · exact h.finished r hr x hx hstored
      inTime := fun j x hx => by
        rcases hsome.mp hx with ⟨rfl, rfl⟩ | ⟨-, hx⟩
        · exact htime
        · exact h.inTime j x hx
      reached := fun j x hx hstored => by
        rcases hsome.mp hx with ⟨rfl, rfl⟩ | ⟨-, hx⟩
        · exact h.reached j w hw hstored
        · exact h.reached j x hx hstored
      desc := h.desc
      received := h.received
      matched := fun sd p j hp hrec hmatched => by
        obtain ⟨⟨y, hy, hacc, hid⟩, hfin⟩ := h.matched sd p j hp hrec hmatched
        refine ⟨?_, fun r hr => hfin r (hmem hr).1⟩
        by_cases hj : j = i
        · subst hj
          cases hw.symm.trans hy
          exact ⟨_, hsome.mpr (.inl ⟨rfl, rfl⟩), hacc, hid⟩
        · exact ⟨y, hsome.mpr (.inr ⟨hj, hy⟩), hacc, hid⟩
      stored := fun sd p j hp hrec hstored => by
        obtain ⟨y, hy, hst⟩ := h.stored sd p j hp hrec hstored
        by_cases hj : j = i
        · subst hj
          cases hw.symm.trans hy
          exact ⟨_, hsome.mpr (.inl ⟨rfl, rfl⟩), hst⟩
        · exact ⟨y, hsome.mpr (.inr ⟨hj, hy⟩), hst⟩ }

theorem register (h : s.Inv) {id channel : ℕ} {account : List Char}
    (hok : ∀ r ∈ s.m_lReverseConnect, ¬ r.Matches id account)
    (hstep : s.register i id account channel = some s') : s'.Inv := by
  rw [State.register] at hstep
  cases hw : s.waiters i with
  | some w => simp [hw] at hstep
  | none =>
    simp only [hw] at hstep
    cases hstep
    have hne {r : Record} (hr : r ∈ s.m_lReverseConnect) : r.waiter ≠ i := by
      rintro rfl
      obtain ⟨w, hw', -⟩ := h.owned r hr
      rw [hw] at hw'
      cases hw'
    have hold {j : ℕ} {y : Waiter} (hy : s.waiters j = some y) : j ≠ i := by
      rintro rfl
      rw [hw] at hy
      cases hy
    exact
      { keys := by
          rw [map_append, map_singleton]
          refine nodup_append.mpr ⟨h.keys, nodup_singleton _, ?_⟩
          rintro _ hk _ hk' rfl
          obtain ⟨r, hr, hkey⟩ := mem_map.mp hk
          rw [mem_singleton.mp hk'] at hkey
          exact hok r hr ⟨congrArg Prod.fst hkey, congrArg Prod.snd hkey⟩
        owned := fun r hr => by
          rcases mem_append.mp hr with hr | hr
          · obtain ⟨y, hy, hrest⟩ := h.owned r hr
            exact ⟨y, setWaiter_eq_some.mpr (.inr ⟨hne hr, hy⟩), hrest⟩
          · obtain rfl := mem_singleton.mp hr
            exact ⟨_, setWaiter_eq_some.mpr (.inl ⟨rfl, rfl⟩), rfl, rfl, rfl, trivial⟩
        listed := fun j x hx hopen => by
          rcases setWaiter_eq_some.mp hx with ⟨rfl, rfl⟩ | ⟨-, hx⟩
          · exact ⟨_, mem_append_right _ (mem_singleton_self _), rfl⟩
          · obtain ⟨r, hr, he⟩ := h.listed j x hx hopen
            exact ⟨r, mem_append_left _ hr, he⟩
        success := fun r hr hfin => by
          rcases mem_append.mp hr with hr | hr
          · exact h.success r hr hfin
          · obtain rfl := mem_singleton.mp hr
            cases hfin
        finished := fun r hr x hx hstored => by
          rcases setWaiter_eq_some.mp hx with ⟨-, rfl⟩ | ⟨hj, hx⟩
          · cases hstored
          · rcases mem_append.mp hr with hr | hr
            · exact h.finished r hr x hx hstored
            · obtain rfl := mem_singleton.mp hr
              exact absurd rfl hj
        inTime := fun j x hx => by
          rcases setWaiter_eq_some.mp hx with ⟨-, rfl⟩ | ⟨-, hx⟩
          · exact ⟨fun hc => absurd rfl hc, nofun, nofun,
              nofun, nofun⟩
          · exact h.inTime j x hx
        reached := fun j x hx hstored => by
          rcases setWaiter_eq_some.mp hx with ⟨-, rfl⟩ | ⟨-, hx⟩
          · cases hstored
          · exact h.reached j x hx hstored
        desc := h.desc
        received := h.received
        matched := fun sd p j hp hrec hmatched => by
          obtain ⟨⟨y, hy, hacc, hid⟩, hfin⟩ := h.matched sd p j hp hrec hmatched
          refine ⟨⟨y, setWaiter_eq_some.mpr (.inr ⟨hold hy, hy⟩), hacc, hid⟩, fun r hr he => ?_⟩
          rcases mem_append.mp hr with hr | hr
          · exact hfin r hr he
          · obtain rfl := mem_singleton.mp hr
            exact absurd he.symm (hold hy)
        stored := fun sd p j hp hrec hstored => by
          obtain ⟨y, hy, hst⟩ := h.stored sd p j hp hrec hstored
          exact ⟨y, setWaiter_eq_some.mpr (.inr ⟨hold hy, hy⟩), hst⟩ }

theorem enter (h : s.Inv) (hok : ∀ w ∈ s.waiters i, w.completed = none)
    (hstep : s.enter i = some s') : s'.Inv := by
  rw [State.enter] at hstep
  cases hw : s.waiters i with
  | none => simp [hw] at hstep
  | some w =>
    simp only [hw] at hstep
    split_ifs at hstep with hphase hfound
    · have hreg : w.phase = .registered := not_not.mp hphase
      have hopen : w.phase.Open := by
        rw [hreg]
        trivial
      cases hstep
      refine h.setPhase hw hopen trivial ⟨fun hc => ?_, fun d t _ ht => ?_, nofun,
        nofun, nofun⟩
      · exact absurd (hok w hw) hc
      · rw [hok w hw] at ht
        cases ht
    · have hreg : w.phase = .registered := not_not.mp hphase
      have hopen : w.phase.Open := by
        rw [hreg]
        trivial
      obtain ⟨r, hr, -, hmatch, -⟩ := h.find_own hw hopen
      exact absurd ⟨r, hr, hmatch⟩ hfound

theorem timeOut (h : s.Inv) (hstep : s.timeOut i = some s') : s'.Inv := by
  rw [State.timeOut] at hstep
  cases hw : s.waiters i with
  | none => simp [hw] at hstep
  | some w =>
    cases hphase : w.phase <;> simp only [hw, hphase] at hstep <;> try cases hstep
    rename_i deadline
    split_ifs at hstep with hd
    cases hstep
    have hin := h.inTime i w hw
    have hopen : w.phase.Open := by
      rw [hphase]
      trivial
    refine h.setPhase hw hopen trivial ⟨hin.stored, nofun, fun d hp => ?_,
      nofun, nofun⟩
    obtain rfl := Wait.expired.inj hp
    exact ⟨hd, fun t ht => hin.waiting _ t hphase ht⟩

theorem expire (h : s.Inv) (hstep : s.expire i = some s') : s'.Inv := by
  rw [State.expire] at hstep
  cases hw : s.waiters i with
  | none => simp [hw] at hstep
  | some w =>
    cases hphase : w.phase <;> simp only [hw, hphase] at hstep <;> cases hstep
    rename_i deadline
    have hin := h.inTime i w hw
    have hopen : w.phase.Open := by
      rw [hphase]
      trivial
    refine h.leave hw hopen ⟨hin.stored, nofun, nofun,
      fun d hp => ?_, nofun⟩
    obtain ⟨-, rfl⟩ := Wait.returned.inj hp
    exact hin.expired _ hphase

/-- **A thread that wakes** returns when its record is finished, and goes on waiting otherwise. -/
theorem wake (h : s.Inv) (hok : ∀ w ∈ s.waiters i, ∀ r ∈ s.m_lReverseConnect,
    r.Matches w.id w.account → r.bFinished = true → w.stored = true)
    (hstep : s.wake i = some s') : s'.Inv := by
  rw [State.wake] at hstep
  cases hw : s.waiters i with
  | none => simp [hw] at hstep
  | some w =>
    cases hphase : w.phase <;> simp only [hw, hphase] at hstep <;> try cases hstep
    rename_i deadline
    have hin := h.inTime i w hw
    have hopen : w.phase.Open := by
      rw [hphase]
      trivial
    obtain ⟨r, hr, hwaiter, hmatch, hfind⟩ := h.find_own hw hopen
    simp only [hfind] at hstep
    split_ifs at hstep with hfin
    · cases hstep
      have hst := hok w hw r hr hmatch hfin
      refine h.leave hw hopen ⟨hin.stored, nofun, nofun,
        fun d hp => ?_, fun _ _ => hst⟩
      rw [h.success r hr hfin] at hp
      cases hp
    · cases hstep
      refine h.setPhase hw hopen trivial ⟨hin.stored, fun d t _ ht => ?_, nofun,
        nofun, nofun⟩
      have hst := hin.stored (by rw [ht]; exact some_ne_none t)
      exact absurd (h.finished r hr w (hwaiter ▸ hw) hst) hfin

/-! ## The steps of the thread that serves a peer -/

theorem setPeer_eq_some {x : ℕ} {p q : Peer} :
    (s.setPeer sd p).peers x = some q ↔ x = sd ∧ q = p ∨ x ≠ sd ∧ s.peers x = some q := by
  by_cases hx : x = sd
  · subst hx
    simp [setPeer, eq_comm]
  · simp [setPeer, hx]

/-- What rests on peers that have passed does not rest on one that has not. -/
theorem Reached.setPeer {q : Peer} (hold : ∀ q, s.peers sd = some q → ¬ q.Passed)
    (h : s.Reached w) : (s.setPeer sd q).Reached w := by
  obtain ⟨x, p, hp, hpassed, hrest⟩ := h
  refine ⟨x, p, setPeer_eq_some.mpr (.inr ⟨?_, hp⟩), hpassed, hrest⟩
  rintro rfl
  exact hold p hp hpassed

theorem Linked.setPeer {q : Peer} (hold : ∀ q, s.peers sd = some q → ¬ q.Passed)
    (h : s.Linked w) : (s.setPeer sd q).Linked w := by
  obtain ⟨x, p, hdesc, hp, hpassed⟩ := h
  refine ⟨x, p, hdesc, setPeer_eq_some.mpr (.inr ⟨?_, hp⟩), hpassed⟩
  rintro rfl
  exact hold p hp hpassed

/-- A peer connects, or its handshake finds no record. -/
theorem setPeer (h : s.Inv) {q : Peer} (hold : ∀ q, s.peers sd = some q → ¬ q.Passed)
    (hq : q.record = none) : (s.setPeer sd q).Inv where
  keys := h.keys
  owned := h.owned
  listed := h.listed
  success := h.success
  finished := h.finished
  inTime := h.inTime
  reached i w hw hst :=
    ⟨Reached.setPeer hold (h.reached i w hw hst).1, Linked.setPeer hold (h.reached i w hw hst).2⟩
  desc a c x hx := by
    obtain ⟨p, hp, hpassed⟩ := h.desc a c x hx
    refine ⟨p, setPeer_eq_some.mpr (.inr ⟨?_, hp⟩), hpassed⟩
    rintro rfl
    exact hold p hp hpassed
  received x p hp hphase := by
    rcases setPeer_eq_some.mp hp with ⟨-, rfl⟩ | ⟨-, hp⟩
    · exact hq
    · exact h.received x p hp hphase
  matched x p i hp hrec hphase := by
    rcases setPeer_eq_some.mp hp with ⟨-, rfl⟩ | ⟨-, hp⟩
    · rw [hq] at hrec
      cases hrec
    · exact h.matched x p i hp hrec hphase
  stored x p i hp hrec hphase := by
    rcases setPeer_eq_some.mp hp with ⟨-, rfl⟩ | ⟨-, hp⟩
    · rw [hq] at hrec
      cases hrec
    · exact h.stored x p i hp hrec hphase

theorem accept (h : s.Inv) {account : List Char} {seven : Bool} {id channel : ℕ}
    (hstep : s.accept sd account seven id channel = some s') : s'.Inv := by
  rw [State.accept] at hstep
  cases hp : s.peers sd with
  | none =>
    simp only [hp] at hstep
    cases hstep
    refine h.setPeer (fun q hq => ?_) rfl
    rw [hp] at hq
    cases hq
  | some p =>
    simp only [hp] at hstep
    split_ifs at hstep with hfailed
    cases hstep
    refine h.setPeer (fun q hq => ?_) rfl
    cases hp.symm.trans hq
    rw [Peer.Passed, hfailed]
    simp

section FinishFirst

variable {P : Record → Prop} [DecidablePred P] {rs : List Record} {r : Record}

theorem map_finishFirst {α : Type} (f : Record → α) (hf : ∀ r, f r.finish = f r) :
    (finishFirst P rs).map f = rs.map f := by
  induction rs with
  | nil => rfl
  | cons x rs ih =>
    rw [finishFirst]
    split_ifs
    · rw [map_cons, map_cons, hf]
    · rw [map_cons, map_cons, ih]

theorem mem_finishFirst (h : r ∈ finishFirst P rs) : ∃ x ∈ rs, r = x ∨ r = x.finish := by
  induction rs with
  | nil => cases h
  | cons x rs ih =>
    rw [finishFirst] at h
    split_ifs at h
    · rcases mem_cons.mp h with rfl | h
      · exact ⟨x, mem_cons_self, .inr rfl⟩
      · exact ⟨r, mem_cons_of_mem x h, .inl rfl⟩
    · rcases mem_cons.mp h with rfl | h
      · exact ⟨r, mem_cons_self, .inl rfl⟩
      · obtain ⟨y, hy, hr⟩ := ih h
        exact ⟨y, mem_cons_of_mem x hy, hr⟩

theorem finish_mem (h : rs.find? P = some r) : r.finish ∈ finishFirst P rs := by
  induction rs with
  | nil => cases h
  | cons x rs ih =>
    rw [finishFirst]
    by_cases hx : P x
    · rw [find?_cons_of_pos (by simpa using hx), some.injEq] at h
      rw [if_pos hx, h]
      exact mem_cons_self
    · rw [find?_cons_of_neg (by simpa using hx)] at h
      rw [if_neg hx]
      exact mem_cons_of_mem x (ih h)

end FinishFirst

/-- **A handshake finds a record**, and finishes it. -/
theorem finish (h : s.Inv) (hp : s.peers sd = some p) (hreceived : p.phase = .received)
    {P : Record → Prop} [DecidablePred P] {r : Record}
    (hfind : s.m_lReverseConnect.find? (fun r => P r) = some r) {q : Peer}
    (hq : q.record = some r.waiter) (hphase : q.phase = .matched ∨ q.phase = .failed)
    (hacc : q.account = r.myIdString) (hid : q.seven → q.id = r.nId) :
    State.Inv { s.setPeer sd q with m_lReverseConnect := finishFirst P s.m_lReverseConnect } := by
  have hold : ∀ q, s.peers sd = some q → ¬ q.Passed := by
    intro q hq
    cases hp.symm.trans hq
    rw [Peer.Passed, hreceived]
    simp
  have hr : r ∈ s.m_lReverseConnect := mem_of_find?_eq_some hfind
  have hkeys : ((finishFirst P s.m_lReverseConnect).map Record.key).Nodup := by
    rw [map_finishFirst Record.key fun _ => rfl]
    exact h.keys
  have hkept {x y : Record} (hx : x = y ∨ x = y.finish) (hy : y.bFinished = true) :
      x.bFinished = true := by
    rcases hx with rfl | rfl
    · exact hy
    · rfl
  exact
    { keys := hkeys
      owned := fun x hx => by
        obtain ⟨y, hy, rfl | rfl⟩ := mem_finishFirst hx
        · exact h.owned x hy
        · exact h.owned y hy
      listed := fun i w hw hopen => by
        obtain ⟨x, hx, hi⟩ := h.listed i w hw hopen
        have hmem : i ∈ (finishFirst P s.m_lReverseConnect).map Record.waiter := by
          rw [map_finishFirst Record.waiter fun _ => rfl]
          exact mem_map.mpr ⟨x, hx, hi⟩
        exact mem_map.mp hmem
      success := fun x hx hfin => by
        obtain ⟨y, hy, rfl | rfl⟩ := mem_finishFirst hx
        · exact h.success x hy hfin
        · rfl
      finished := fun x hx w hw hst => by
        obtain ⟨y, hy, hxy⟩ := mem_finishFirst hx
        have hwaiter : x.waiter = y.waiter := by rcases hxy with rfl | rfl <;> rfl
        exact hkept hxy (h.finished y hy w (hwaiter ▸ hw) hst)
      inTime := h.inTime
      reached := fun i w hw hst =>
        ⟨Reached.setPeer hold (h.reached i w hw hst).1, Linked.setPeer hold (h.reached i w hw hst).2⟩
      desc := fun a c x hx => by
        obtain ⟨p', hp', hpassed⟩ := h.desc a c x hx
        refine ⟨p', setPeer_eq_some.mpr (.inr ⟨?_, hp'⟩), hpassed⟩
        rintro rfl
        exact hold p' hp' hpassed
      received := fun x p hp hrec => by
        rcases setPeer_eq_some.mp hp with ⟨-, rfl⟩ | ⟨-, hp⟩
        · rw [hrec] at hphase
          simp at hphase
        · exact h.received x p hp hrec
      matched := fun x p i hp hrec hmatched => by
        rcases setPeer_eq_some.mp hp with ⟨-, rfl⟩ | ⟨-, hp⟩
        · cases hq.symm.trans hrec
          obtain ⟨w, hw, hwid, hwacc, -, -⟩ := h.owned r hr
          refine ⟨⟨w, hw, hwacc.trans hacc.symm, fun hseven => (hid hseven).trans hwid.symm⟩,
            fun y hy he => ?_⟩
          -- The finished record is the only one of the thread.
          obtain ⟨z, hz, hyz⟩ := mem_finishFirst hy
          have hzr : z = r := h.record_unique hz hr (by rcases hyz with rfl | rfl <;> exact he)
          subst hzr
          have hkey : y.key = z.finish.key := by rcases hyz with rfl | rfl <;> rfl
          rw [inj_on_of_nodup_map hkeys hy (finish_mem hfind) hkey]
          rfl
        · obtain ⟨hfound, hfin⟩ := h.matched x p i hp hrec hmatched
          refine ⟨hfound, fun y hy he => ?_⟩
          obtain ⟨z, hz, hyz⟩ := mem_finishFirst hy
          exact hkept hyz (hfin z hz (by rcases hyz with rfl | rfl <;> exact he))
      stored := fun x p i hp hrec hst => by
        rcases setPeer_eq_some.mp hp with ⟨-, rfl⟩ | ⟨-, hp⟩
        · rw [hst] at hphase
          simp at hphase
        · exact h.stored x p i hp hrec hst }

theorem recv (h : s.Inv) {done confirmed : Bool} (hstep : s.recv sd done confirmed = some s') :
    s'.Inv := by
  rw [State.recv] at hstep
  cases hp : s.peers sd with
  | none => simp [hp] at hstep
  | some p =>
    simp only [hp] at hstep
    split_ifs at hstep with hphase hdone hseven hid hconfirmed hconfirmed
    all_goals have hreceived : p.phase = .received := not_not.mp hphase
    all_goals have hnone : p.record = none := h.received sd p hp hreceived
    all_goals
      have hold : ∀ q, s.peers sd = some q → ¬ q.Passed := by
        intro q hq
        cases hp.symm.trans hq
        rw [Peer.Passed, hreceived]
        simp
    · cases hstep
      exact h.setPeer hold hnone
    · cases hstep
      exact h.setPeer hold hnone
    · cases hfind : s.m_lReverseConnect.find? fun r => r.Matches p.id p.account with
      | none =>
        simp only [hfind] at hstep
        cases hstep
        exact h.setPeer hold hnone
      | some r =>
        simp only [hfind] at hstep
        cases hstep
        have hmatch : r.Matches p.id p.account := by simpa using find?_some hfind
        exact h.finish hp hreceived hfind rfl (.inl rfl) hmatch.2.symm fun _ => hmatch.1.symm
    · cases hfind : s.m_lReverseConnect.find? fun r => r.Matches p.id p.account with
      | none =>
        simp only [hfind] at hstep
        cases hstep
        exact h.setPeer hold hnone
      | some r =>
        simp only [hfind] at hstep
        cases hstep
        have hmatch : r.Matches p.id p.account := by simpa using find?_some hfind
        exact h.finish hp hreceived hfind rfl (.inr rfl) hmatch.2.symm fun _ => hmatch.1.symm
    · cases hfind : s.m_lReverseConnect.find? fun r => r.myIdString = p.account with
      | none =>
        simp only [hfind] at hstep
        cases hstep
        exact h.setPeer hold hnone
      | some r =>
        simp only [hfind] at hstep
        cases hstep
        have hmatch : r.myIdString = p.account := by simpa using find?_some hfind
        exact h.finish hp hreceived hfind rfl (.inl rfl) hmatch.symm fun hs => absurd hs hseven
    · cases hstep
      exact h.setPeer hold hnone

/-- What a thread that serves a peer leaves of a waiting one. -/
structure Kept (w x : Waiter) : Prop where
  id : x.id = w.id
  account : x.account = w.account
  channel : x.channel = w.channel
  isOpen : x.phase.Open ↔ w.phase.Open
  stored : w.stored = true → x.stored = true

theorem kept_refl (w : Waiter) : Kept w w := ⟨rfl, rfl, rfl, Iff.rfl, id⟩

/-- The descriptors are those of connected sockets. -/
theorem linked_iff (hdesc : ∀ a c sd, s.desc a c = some sd → ∃ p, s.peers sd = some p ∧ p.Passed) :
    s.Linked w ↔ (s.socketDesc w.account w.channel).isSome := by
  constructor
  · rintro ⟨sd, -, hsd, -⟩
    rw [hsd]
    rfl
  · intro hsome
    obtain ⟨sd, hsd⟩ := isSome_iff_exists.mp hsome
    have hstored := hsd
    rw [socketDesc] at hstored
    split_ifs at hstored
    obtain ⟨p, hp, hpassed⟩ := hdesc _ _ _ hstored
    exact ⟨sd, p, hsd, hp, hpassed⟩

/-- **A peer that passes**, and what its thread does to the waiting ones. -/
theorem serve (h : s.Inv) {t : State} {q : Peer} (hp : s.peers sd = some p) (hq : q.Passed)
    (hacc : q.account = p.account) (hid : p.seven → q.seven ∧ q.id = p.id)
    (hid' : q.seven → p.seven) (hlist : t.m_lReverseConnect = s.m_lReverseConnect)
    (hpeers : t.peers = Function.update s.peers sd (some q)) (hnow : t.now = s.now)
    (g : ℕ → Waiter → Waiter) (hwaiters : ∀ j, t.waiters j = (s.waiters j).map (g j))
    (hkept : ∀ j w, s.waiters j = some w → Kept w (g j w))
    (htime : ∀ j w, s.waiters j = some w → w.InTime s.now → (g j w).InTime s.now)
    (hnew : ∀ j w, s.waiters j = some w → (g j w).stored = true → w.stored = true ∨
      w.account = p.account ∧ (p.seven → p.id = w.id) ∧
        (t.socketDesc w.account w.channel).isSome ∧
        ∀ r ∈ s.m_lReverseConnect, r.waiter = j → r.bFinished = true)
    (hdesc : ∀ a c x, t.desc a c = some x → s.desc a c = some x ∨ x = sd)
    (hset : ∀ a c, (s.desc a c).isSome → (t.desc a c).isSome)
    (hstored : ∀ i, q.record = some i → ∃ w, t.waiters i = some w ∧ w.stored = true) : t.Inv := by
  have hpeer {x : ℕ} {r : Peer} :
      t.peers x = some r ↔ x = sd ∧ r = q ∨ x ≠ sd ∧ s.peers x = some r := by
    rw [hpeers]
    exact setPeer_eq_some (s := s)
  have hpass {x : ℕ} {r : Peer} (hr : s.peers x = some r) (hpassed : r.Passed) :
      ∃ r', t.peers x = some r' ∧ r'.Passed := by
    by_cases hx : x = sd
    · exact ⟨q, hpeer.mpr (.inl ⟨hx, rfl⟩), hq⟩
    · exact ⟨r, hpeer.mpr (.inr ⟨hx, hr⟩), hpassed⟩
  have hback {j : ℕ} {x : Waiter} (hx : t.waiters j = some x) :
      ∃ w, s.waiters j = some w ∧ x = g j w := by
    rw [hwaiters, map_eq_some_iff] at hx
    obtain ⟨w, hw, rfl⟩ := hx
    exact ⟨w, hw, rfl⟩
  have hforth {j : ℕ} {w : Waiter} (hw : s.waiters j = some w) :
      t.waiters j = some (g j w) := by
    rw [hwaiters, hw, map_some]
  have hdescs : ∀ a c x, t.desc a c = some x → ∃ p, t.peers x = some p ∧ p.Passed := by
    intro a c x hx
    rcases hdesc a c x hx with hx | rfl
    · obtain ⟨r, hr, hpassed⟩ := h.desc a c x hx
      exact hpass hr hpassed
    · exact ⟨q, hpeer.mpr (.inl ⟨rfl, rfl⟩), hq⟩
  exact
    { keys := hlist ▸ h.keys
      owned := fun r hr => by
        rw [hlist] at hr
        obtain ⟨w, hw, hwid, hwacc, hch, hopen⟩ := h.owned r hr
        have hk := hkept _ w hw
        exact ⟨g r.waiter w, hforth hw, hk.id.trans hwid, hk.account.trans hwacc,
          hk.channel.trans hch, hk.isOpen.mpr hopen⟩
      listed := fun j x hx hopen => by
        obtain ⟨w, hw, rfl⟩ := hback hx
        rw [hlist]
        exact h.listed j w hw ((hkept j w hw).isOpen.mp hopen)
      success := fun r hr => h.success r (hlist ▸ hr)
      finished := fun r hr x hx hst => by
        rw [hlist] at hr
        obtain ⟨w, hw, rfl⟩ := hback hx
        rcases hnew _ w hw hst with hst | ⟨-, -, -, hfin⟩
        · exact h.finished r hr w hw hst
        · exact hfin r hr rfl
      inTime := fun j x hx => by
        obtain ⟨w, hw, rfl⟩ := hback hx
        rw [hnow]
        exact htime j w hw (h.inTime j w hw)
      reached := fun j x hx hst => by
        obtain ⟨w, hw, rfl⟩ := hback hx
        have hk := hkept j w hw
        rw [linked_iff hdescs, Reached, hk.id, hk.account, hk.channel]
        rcases hnew j w hw hst with hst | ⟨hwacc, hwid, hsome, -⟩
        · obtain ⟨⟨y, r, hr, hpassed, hracc, hrid⟩, hlinked⟩ := h.reached j w hw hst
          constructor
          · by_cases hy : y = sd
            · subst hy
              cases hp.symm.trans hr
              refine ⟨y, q, hpeer.mpr (.inl ⟨rfl, rfl⟩), hq, hacc.trans hracc, fun hseven => ?_⟩
              exact (hid (hid' hseven)).2.trans (hrid (hid' hseven))
            · exact ⟨y, r, hpeer.mpr (.inr ⟨hy, hr⟩), hpassed, hracc, hrid⟩
          · have hsome := (linked_iff h.desc).mp hlinked
            rw [socketDesc] at hsome ⊢
            split_ifs at hsome ⊢
            · exact hset _ _ hsome
            · cases hsome
        · refine ⟨⟨sd, q, hpeer.mpr (.inl ⟨rfl, rfl⟩), hq, hacc.trans hwacc.symm, fun hseven => ?_⟩,
            hsome⟩
          exact (hid (hid' hseven)).2.trans (hwid (hid' hseven))
      desc := hdescs
      received := fun x r hr hphase => by
        rcases hpeer.mp hr with ⟨-, rfl⟩ | ⟨-, hr⟩
        · rw [Peer.Passed, hphase] at hq
          simp at hq
        · exact h.received x r hr hphase
      matched := fun x r j hr hrec hphase => by
        rcases hpeer.mp hr with ⟨-, rfl⟩ | ⟨-, hr⟩
        · rw [Peer.Passed, hphase] at hq
          simp at hq
        · obtain ⟨⟨w, hw, hwacc, hwid⟩, hfin⟩ := h.matched x r j hr hrec hphase
          have hk := hkept j w hw
          rw [hlist]
          exact ⟨⟨g j w, hforth hw, hk.account.trans hwacc,
            fun hseven => (hwid hseven).trans hk.id.symm⟩, hfin⟩
      stored := fun x r j hr hrec hphase => by
        rcases hpeer.mp hr with ⟨-, rfl⟩ | ⟨-, hr⟩
        · exact hstored j hrec
        · obtain ⟨w, hw, hst⟩ := h.stored x r j hr hrec hphase
          exact ⟨g j w, hforth hw, (hkept j w hw).stored hst⟩ }

section Note

variable {f : Waiter → Waiter}

theorem note_waiters (s : State) (p : Peer) (f : Waiter → Waiter) (j : ℕ) :
    (s.note p f).waiters j = (s.waiters j).map (if p.record = some j then f else id) := by
  rw [note]
  cases hrec : p.record with
  | none => simp
  | some i =>
    by_cases hj : j = i
    · subst hj
      simp
    · simp [hj, Ne.symm hj]

theorem note_list : (s.note p f).m_lReverseConnect = s.m_lReverseConnect := by
  rw [note]
  cases p.record <;> rfl

theorem note_peers : (s.note p f).peers = s.peers := by
  rw [note]
  cases p.record <;> rfl

theorem note_desc : (s.note p f).desc = s.desc := by
  rw [note]
  cases p.record <;> rfl

theorem note_now : (s.note p f).now = s.now := by
  rw [note]
  cases p.record <;> rfl

end Note

theorem inTime_store {now : ℕ} (h : w.InTime now) : (Waiter.store w).InTime now where
  stored _ := rfl
  waiting := h.waiting
  expired := h.expired
  failed := h.failed
  succeeded _ _ := rfl

theorem inTime_complete {now : ℕ} (h : w.InTime now)
    (hasleep : ∀ deadline, w.phase = .waiting deadline → deadline ≤ now) :
    (Waiter.complete now w).InTime now := by
  have hlate {deadline t : ℕ} (hd : deadline ≤ now)
      (hold : ∀ t, w.completed = some t → deadline ≤ t)
      (ht : (Waiter.complete now w).completed = some t) : deadline ≤ t := by
    rw [Waiter.complete] at ht
    dsimp only at ht
    split_ifs at ht with hnone
    · cases ht
      exact hd
    · exact hold t ht
  exact
    { stored := fun _ => rfl
      waiting := fun deadline t hphase => hlate (hasleep deadline hphase)
        fun t => h.waiting deadline t hphase
      expired := fun deadline hphase =>
        ⟨(h.expired deadline hphase).1, fun t => hlate (h.expired deadline hphase).1
          (h.expired deadline hphase).2⟩
      failed := fun deadline hphase =>
        ⟨(h.failed deadline hphase).1, fun t => hlate (h.failed deadline hphase).1
          (h.failed deadline hphase).2⟩
      succeeded := fun _ _ => rfl }

theorem inTime_wake {now : ℕ} (h : w.InTime now) : (Waiter.wake w).InTime now := by
  rw [Waiter.wake]
  split
  · exact ⟨h.stored, nofun, nofun,
      nofun, nofun⟩
  · exact h

theorem kept_wake (w : Waiter) : Kept w (Waiter.wake w) := by
  rw [Waiter.wake]
  split
  · rename_i hphase
    exact ⟨rfl, rfl, rfl, by rw [hphase]; exact Iff.rfl, id⟩
  · exact kept_refl w

theorem kept_store (w : Waiter) : Kept w (Waiter.store w) := ⟨rfl, rfl, rfl, Iff.rfl, fun _ => rfl⟩

theorem kept_complete (now : ℕ) (w : Waiter) : Kept w (Waiter.complete now w) :=
  ⟨rfl, rfl, rfl, Iff.rfl, fun _ => rfl⟩

/-- A peer that passes and whose thread notes it with the record's thread. -/
theorem serveNote (h : s.Inv) {t : State} {phase : Phase} (hp : s.peers sd = some p)
    (hq : phase = .stored ∨ phase = .finished) (hlist : t.m_lReverseConnect = s.m_lReverseConnect)
    (hpeers : t.peers = Function.update s.peers sd (some { p with phase := phase }))
    (hnow : t.now = s.now) {f g : Waiter → Waiter}
    (hwaiters : ∀ j, t.waiters j = (s.waiters j).map g)
    (hg : ∀ w, Kept w (g w) ∧ ((g w).stored = true → w.stored = true) ∧
      (w.InTime s.now → (g w).InTime s.now))
    (hf : ∀ w, Kept w (f w) ∧ (f w).stored = true)
    (hnote : ∀ j w, p.record = some j → s.waiters j = some w → w.InTime s.now →
      (f (g w)).InTime s.now)
    (hrecord : ∀ j w, p.record = some j → s.waiters j = some w → w.stored = true ∨
      w.account = p.account ∧ (p.seven → p.id = w.id) ∧
        (t.socketDesc w.account w.channel).isSome ∧
        ∀ r ∈ s.m_lReverseConnect, r.waiter = j → r.bFinished = true)
    (hexists : ∀ j, p.record = some j → ∃ w, s.waiters j = some w)
    (hdesc : ∀ a c x, t.desc a c = some x → s.desc a c = some x ∨ x = sd)
    (hset : ∀ a c, (s.desc a c).isSome → (t.desc a c).isSome) : (t.note p f).Inv := by
  have hnoted (j : ℕ) :
      (t.note p f).waiters j =
        (s.waiters j).map fun w => (if p.record = some j then f else id) (g w) := by
    rw [note_waiters, hwaiters, Option.map_map]
    rfl
  refine h.serve hp (q := { p with phase := phase }) hq rfl (fun hs => ⟨hs, rfl⟩) id
    (note_list.trans hlist) (note_peers.trans hpeers) (note_now.trans hnow) _ hnoted
    (fun j w hw => ?_) (fun j w hw htime => ?_) (fun j w hw hst => ?_) ?_ ?_ (fun j hrec => ?_)
  · have hgw := (hg w).1
    split_ifs
    · have hfw := (hf (g w)).1
      exact ⟨hfw.id.trans hgw.id, hfw.account.trans hgw.account, hfw.channel.trans hgw.channel,
        hfw.isOpen.trans hgw.isOpen, fun hst => hfw.stored (hgw.stored hst)⟩
    · exact hgw
  · split_ifs with hrec
    · exact hnote j w hrec hw htime
    · exact (hg w).2.2 htime
  · split_ifs at hst with hrec
    · rcases hrecord j w hrec hw with hst | ⟨hacc, hid, hsome, hfin⟩
      · exact .inl hst
      · refine .inr ⟨hacc, hid, ?_, hfin⟩
        rwa [socketDesc, note_desc]
    · exact .inl ((hg w).2.1 hst)
  · rwa [note_desc]
  · rwa [note_desc]
  · obtain ⟨w, hw⟩ := hexists j hrec
    refine ⟨f (g w), ?_, (hf _).2⟩
    rw [hnoted, hw, Option.map_some, if_pos hrec]

/-- **The descriptor is stored**, or is that of another socket already. -/
theorem store (h : s.Inv) (hok : ∀ p ∈ s.peers sd, ∀ i ∈ p.record, ∀ w ∈ s.waiters i,
      Known p.channel ∧ p.channel = w.channel ∧
        ∀ cur ∈ s.socketDesc p.account p.channel, cur ≠ sd →
          ∀ deadline ∈ w.phase.asleep, deadline ≤ s.now)
    (hstep : s.store sd = some s') : s'.Inv := by
  rw [State.store] at hstep
  cases hp : s.peers sd with
  | none => simp [hp] at hstep
  | some p =>
    simp only [hp] at hstep
    split_ifs at hstep with hphase
    have hmatched : p.phase = .matched := not_not.mp hphase
    have hok := hok p hp
    have hrecord (j : ℕ) (w : Waiter) (hrec : p.record = some j) (hw : s.waiters j = some w) :
        w.account = p.account ∧ (p.seven → p.id = w.id) ∧
          ∀ r ∈ s.m_lReverseConnect, r.waiter = j → r.bFinished = true := by
      obtain ⟨⟨w', hw', hacc, hid⟩, hfin⟩ := h.matched sd p j hp hrec hmatched
      rw [hw, Option.some.injEq] at hw'
      exact ⟨hw' ▸ hacc, hw' ▸ hid, hfin⟩
    have hexists (j : ℕ) (hrec : p.record = some j) : ∃ w, s.waiters j = some w := by
      obtain ⟨⟨w, hw, -⟩, -⟩ := h.matched sd p j hp hrec hmatched
      exact ⟨w, hw⟩
    have hid (w : Waiter) : Kept w (id w) ∧ ((id w).stored = true → w.stored = true) ∧
        (w.InTime s.now → (id w).InTime s.now) := ⟨kept_refl w, id, id⟩
    cases hcur : s.socketDesc p.account p.channel with
    | none =>
      simp only [hcur] at hstep
      cases hstep
      refine h.serveNote hp (.inl rfl) ?_ ?_ ?_ (g := id) (fun j => ?_) hid
        (fun w => ⟨kept_store w, rfl⟩) (fun _ _ _ _ htime => inTime_store htime)
        (fun j w hrec hw => ?_) hexists ?_ ?_
      · rw [setSocketDesc]
        split_ifs <;> rfl
      · rw [setSocketDesc]
        split_ifs <;> rfl
      · rw [setSocketDesc]
        split_ifs <;> rfl
      · rw [Option.map_id, setSocketDesc]
        split_ifs <;> rfl
      · obtain ⟨hacc, hid, hfin⟩ := hrecord j w hrec hw
        obtain ⟨hknown, hch, -⟩ := hok j hrec w hw
        refine .inr ⟨hacc, hid, ?_, hfin⟩
        rw [socketDesc, ← hch, hacc, if_pos hknown, setSocketDesc, if_pos hknown]
        simp [State.setPeer]
      · intro a c x hx
        rw [setSocketDesc] at hx
        split_ifs at hx
        · by_cases ha : a = p.account
          · subst ha
            by_cases hc : c = p.channel
            · subst hc
              right
              simpa [State.setPeer, eq_comm] using hx
            · left
              simpa [State.setPeer, hc] using hx
          · left
            simpa [State.setPeer, ha] using hx
        · exact .inl hx
      · intro a c hsome
        rw [setSocketDesc]
        split_ifs
        · by_cases ha : a = p.account
          · subst ha
            by_cases hc : c = p.channel
            · subst hc
              simp [State.setPeer]
            · simpa [State.setPeer, hc] using hsome
          · simpa [State.setPeer, ha] using hsome
        · exact hsome
    | some cur =>
      simp only [hcur] at hstep
      have hne : cur ≠ sd := by
        rintro rfl
        rw [socketDesc] at hcur
        split_ifs at hcur
        obtain ⟨p', hp', hpassed⟩ := h.desc _ _ _ hcur
        cases hp.symm.trans hp'
        rw [Peer.Passed, hmatched] at hpassed
        simp at hpassed
      rw [if_neg hne] at hstep
      cases hstep
      refine h.serveNote (t := s.setPeer sd { p with phase := .finished }) hp (.inr rfl) rfl rfl rfl
        (g := id) (fun j => ?_) hid
        (fun w => ⟨kept_complete s.now w, rfl⟩) (fun j w hrec hw htime => ?_)
        (fun j w hrec hw => ?_) hexists (fun _ _ _ hx => .inl hx) (fun _ _ hsome => hsome)
      · rw [Option.map_id]
        rfl
      · refine inTime_complete htime fun deadline hphase => ?_
        refine (hok j hrec w hw).2.2 cur hcur hne deadline ?_
        have hwaiting : w.phase = .waiting deadline := hphase
        rw [hwaiting]
        rfl
      · obtain ⟨hacc, hid, hfin⟩ := hrecord j w hrec hw
        refine .inr ⟨hacc, hid, ?_, hfin⟩
        change (s.socketDesc w.account w.channel).isSome
        rw [hacc, ← (hok j hrec w hw).2.1, hcur]
        rfl

/-- **The waiting threads are woken.** -/
theorem broadcast (h : s.Inv) (hstep : s.broadcast sd = some s') : s'.Inv := by
  rw [State.broadcast] at hstep
  cases hp : s.peers sd with
  | none => simp [hp] at hstep
  | some p =>
    simp only [hp] at hstep
    split_ifs at hstep with hphase
    have hstored : p.phase = .stored := not_not.mp hphase
    cases hstep
    set woken : State := { s with waiters := fun i => (s.waiters i).map Waiter.wake }
    refine h.serveNote (t := woken.setPeer sd { p with phase := .finished }) hp (.inr rfl) rfl rfl rfl
      (g := Waiter.wake) (fun _ => rfl) (fun w => ?_) (fun w => ⟨kept_complete s.now w, rfl⟩)
      (fun j w hrec hw htime => ?_)
      (fun j w hrec hw => ?_) (fun j hrec => ?_) (fun _ _ _ hx => .inl hx) (fun _ _ hsome => hsome)
    · refine ⟨kept_wake w, fun hst => ?_, inTime_wake⟩
      rw [Waiter.wake] at hst
      split at hst <;> exact hst
    · refine inTime_complete (inTime_wake htime) fun deadline hwaiting => ?_
      rw [Waiter.wake] at hwaiting
      split at hwaiting
      · cases hwaiting
      · rename_i hno
        exact absurd hwaiting (hno deadline)
    · obtain ⟨w', hw', hst⟩ := h.stored sd p j hp hrec hstored
      rw [hw, some.injEq] at hw'
      exact .inl (hw' ▸ hst)
    · obtain ⟨w, hw, -⟩ := h.stored sd p j hp hrec hstored
      exact ⟨w, hw⟩

/-- A second passes. -/
theorem tick (h : s.Inv) : State.Inv { s with now := s.now + 1 } :=
  { h with
    inTime := fun j w hw =>
      have hin := h.inTime j w hw
      ⟨hin.stored, hin.waiting,
        fun deadline hp => ⟨Nat.le_succ_of_le (hin.expired deadline hp).1, (hin.expired deadline hp).2⟩,
        fun deadline hp => ⟨Nat.le_succ_of_le (hin.failed deadline hp).1, (hin.failed deadline hp).2⟩,
        hin.succeeded⟩
    reached := h.reached
    desc := h.desc
    matched := h.matched }

/-- **One step.** -/
theorem step (h : s.Inv) {a : Action} (hok : ActionOk s a) (hstep : step s a = some s') :
    s'.Inv := by
  cases a with
  | register i id account channel => exact h.register hok hstep
  | enter i => exact h.enter hok hstep
  | timeOut i => exact h.timeOut hstep
  | wake i => exact h.wake hok hstep
  | expire i => exact h.expire hstep
  | accept sd account seven id channel => exact h.accept hstep
  | recv sd done confirmed => exact h.recv hstep
  | store sd => exact h.store hok hstep
  | broadcast sd => exact h.broadcast hstep
  | tick =>
    cases hstep
    exact h.tick

end Inv

end State

/-! ## Every run -/

/-- **The rendezvous.**  In every run whose steps all meet the condition, no thread whose handshake is
completed in time sleeps on or returns false, none returns true without a handshake and a connected
socket, and every record is there until its thread returns. -/
theorem stays_rendezvous {as : List Action} (h : Steps.Each step ActionOk State.init as) :
    Steps.Stays step State.Sound State.init as :=
  (Steps.stays_of_each (P := State.Inv)
    (fun _ _ _ hinv hok hstep => hinv.step hok hstep) State.inv_init h).mono fun _ => State.Inv.sound

instance (s : State) : (a : Action) → Decidable (ActionOk s a)
  | .register _ id account _ =>
    inferInstanceAs (Decidable (∀ r ∈ s.m_lReverseConnect, ¬ r.Matches id account))
  | .enter i => inferInstanceAs (Decidable (∀ w ∈ s.waiters i, w.completed = none))
  | .wake i => inferInstanceAs (Decidable (∀ w ∈ s.waiters i, ∀ r ∈ s.m_lReverseConnect,
      r.Matches w.id w.account → r.bFinished = true → w.stored = true))
  | .store sd => inferInstanceAs (Decidable (∀ p ∈ s.peers sd, ∀ i ∈ p.record, ∀ w ∈ s.waiters i,
      Known p.channel ∧ p.channel = w.channel ∧
        ∀ cur ∈ s.socketDesc p.account p.channel, cur ≠ sd →
          ∀ deadline ∈ w.phase.asleep, deadline ≤ s.now))
  | .timeOut _ | .expire _ | .accept .. | .recv .. | .broadcast _ | .tick =>
    inferInstanceAs (Decidable True)

/-- A thread waits for user 7, who connects back with the id. -/
def rendezvousRun : List Action :=
  [.register 0 5 ['7'] 1, .enter 0, .accept 3 ['7'] true 5 0, .recv 3 true true, .store 3,
    .broadcast 3, .wake 0]

theorem stays_rendezvous_rendezvousRun : Steps.Stays step State.Sound State.init rendezvousRun :=
  stays_rendezvous (by decide)

/-- User 7 connects back before the thread waits. -/
def earlyRun : List Action :=
  [.register 0 5 ['7'] 1, .accept 3 ['7'] true 5 0, .recv 3 true true, .store 3, .broadcast 3,
    .enter 0]

/-- **A wake-up that is lost.**  The thread enters the wait without a look at its record, which is
finished, and nobody wakes it. -/
theorem not_stays_rendezvous : ¬ ∀ as, Steps.Stays step State.Sound State.init as := by
  intro h
  have hend : ∃ t w, earlyRun.foldlM step State.init = some t ∧ t.waiters 0 = some w ∧
      w.phase = .waiting 30 ∧ w.completed = some 0 := ⟨_, _, rfl, rfl, rfl, rfl⟩
  obtain ⟨t, w, hrun, hw, hphase, hdone⟩ := hend
  have hlate := ((h earlyRun).foldlM hrun).sleeps 0 w 30 0 hw hphase hdone
  omega

end Licq.ReverseConnect
