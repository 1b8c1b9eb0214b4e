import Licq.Data.Steps
import Licq.Icq.Srv.ServerList

/-!
# Icq/Srv/ModifyUsers — changes of the contact list that wait for their acknowledgement

A change is entered in `m_lszModifyServerUsers` under its subsequence when it is sent, and most
senders put an event in the running list as well.  The acknowledgement takes the event from that
list, and then reads result codes in a loop that ends at the first error.

The **main result** `modifyRun_tracked`: where every change is entered, subsequences do not come
round to one in use, and an acknowledgement is for a change with an event and has at most one code
and no error, the map holds exactly the changes that wait, and every acknowledgement is processed.
-/

namespace Licq

open List

/-! ## What is sent -/

/-- A packet that is made and sent. -/
inductive Sending
  /-- `SendEvent_Server` of a packet that is no change of the list. -/
  | event
  /-- `SendExpectEvent_Server` of one. -/
  | expectEvent (nSubType nExtraInfo : UInt16)
  /-- A change: `entered` says that `addToModifyUsers` is called with the item, `expected` that it is
  `SendExpectEvent_Server` that sends it. -/
  | change (item : List UInt8) (entered expected : Bool) (nSubType nExtraInfo : UInt16)

/-- `Licq::Event` in the running list. -/
structure RunningEvent where
  m_nSubSequence : ℕ
  m_nSubType : UInt16
  m_nExtraInfo : UInt16
  deriving DecidableEq

/-- A change that has been sent. -/
structure SentChange where
  item : List UInt8
  event : RunningEvent
  expected : Bool
  deriving DecidableEq

/-- An acknowledgement: the change that it is for, the codes that it carries, what was processed
of them, and the events that were completed. -/
structure AckRecord where
  change : SentChange
  codes : List UInt16
  processed : List (List UInt8 × UInt16)
  completed : List RunningEvent

/-- The protocol, and what has come to the server. -/
structure ModifyState where
  s_nSubSequence : UInt16
  m_lszModifyServerUsers : SortedMap ℕ (List UInt8)
  m_lxRunningEvents : List RunningEvent
  /-- The changes that have been sent and not been acknowledged. -/
  unacked : List SentChange
  acks : List AckRecord

namespace ModifyState

/-- `addToModifyUsers` -/
def addToModifyUsers (s : ModifyState) (unique_id : ℕ) (data : List UInt8) : ModifyState :=
  { s with m_lszModifyServerUsers := s.m_lszModifyServerUsers.insert unique_id data }

/-- `SendExpectEvent_Server`; `refused` says that the daemon is shutting down or that there is no
thread to be had. -/
def sendExpectEvent (s : ModifyState) (refused : Bool) (e : RunningEvent) : ModifyState :=
  if refused then s else { s with m_lxRunningEvents := s.m_lxRunningEvents ++ [e] }

/-- A packet draws a subsequence when it is made. -/
def send (s : ModifyState) (refused : Bool) : Sending → ModifyState
  | .event => { s with s_nSubSequence := s.s_nSubSequence + 1 }
  | .expectEvent nSubType nExtraInfo =>
    { s with s_nSubSequence := s.s_nSubSequence + 1 }.sendExpectEvent refused
      ⟨s.s_nSubSequence.toNat, nSubType, nExtraInfo⟩
  | .change item entered expected nSubType nExtraInfo =>
    let e : RunningEvent := ⟨s.s_nSubSequence.toNat, nSubType, nExtraInfo⟩
    let drawn : ModifyState := { s with s_nSubSequence := s.s_nSubSequence + 1 }
    let known := if entered then drawn.addToModifyUsers e.m_nSubSequence item else drawn
    if expected then
      let sent := known.sendExpectEvent refused e
      if refused then sent else { sent with unacked := sent.unacked ++ [⟨item, e, true⟩] }
    else { known with unacked := known.unacked ++ [⟨item, e, false⟩] }

def sendAll (s : ModifyState) (refused : Bool) (sendings : List Sending) : ModifyState :=
  sendings.foldl (fun s sending => s.send refused sending) s

end ModifyState

/-! ## The senders -/

section Senders

variable (UseServerContactList : Bool)

/-- A change that is entered and for which an event waits. -/
def Sending.tracked (item : List UInt8) (nSubType nExtraInfo : UInt16) : Sending :=
  .change item true true nSubType nExtraInfo

/-- `icqAddUserServer` for a group on the list or not, and the id of the group that the user comes
into. -/
def icqAddUserServer (accountId groupName : List UInt8) (serverGroupExists : Bool)
    (nGSID : UInt16) : List Sending :=
  .event :: ((if serverGroupExists then [] else [.tracked groupName icqSnacListRostAdd 0]) ++
    [.tracked accountId icqSnacListRostAdd nGSID, .event])

/-- `icqExportUsers` -/
def icqExportUsers (nExtraInfo : UInt16) : List Sending :=
  if UseServerContactList then
    [.event, .change [] true false icqSnacListRostAdd nExtraInfo, .event]
  else []

/-- `icqExportGroups` -/
def icqExportGroups : List Sending :=
  if UseServerContactList then [.event, .tracked [] icqSnacListRostAdd 0, .event] else []

/-- `icqUpdateServerGroups`, with the number of groups that are on the list. -/
def icqUpdateServerGroups (nGroups : ℕ) : List Sending :=
  if UseServerContactList then
    List.replicate (nGroups + 1) (.tracked [] icqSnacListRostUpdGroup 0)
  else []

/-- `icqChangeGroup` -/
def icqChangeGroup (accountId : List UInt8) (oldGSID nGSID : UInt16) : List Sending :=
  if UseServerContactList then
    .event :: ((if oldGSID ≠ 0 then [.tracked accountId icqSnacListRostRem oldGSID] else []) ++
      [.tracked accountId icqSnacListRostAdd nGSID])
  else []

/-- `icqRemoveUser` of a user on the list; the visible and the invisible item are not entered. -/
def icqRemoveUser (accountId : List UInt8) (nGSID nVisibleSID nInvisibleSID : UInt16) :
    List Sending :=
  (if UseServerContactList then
    [.event, .tracked accountId icqSnacListRostRem nGSID] ++
      ((if nVisibleSID ≠ 0 then [.change accountId false false icqSnacListRostRem 0] else []) ++
        (if nInvisibleSID ≠ 0 then [.change accountId false false icqSnacListRostRem 0] else []))
  else []) ++ [.expectEvent 0x0005 0]

/-- `icqRemoveGroup` -/
def icqRemoveGroup (groupName : List UInt8) : List Sending :=
  if UseServerContactList then [.event, .tracked groupName icqSnacListRostRem 0] else []

/-- `icqRenameGroup` of a group on the list and `icqRenameUser`, while there is a connection. -/
def icqRename (name : List UInt8) : List Sending :=
  if UseServerContactList then [.tracked name icqSnacListRostUpdGroup 0] else []

/-- `icqAddToVisibleList` and `icqAddToInvisibleList`; only the former waits for an event. -/
def icqAddToVisibilityList (visible : Bool) (accountId : List UInt8) : List Sending :=
  .event :: if UseServerContactList then
    [.change accountId true visible icqSnacListRostAdd 0]
  else []

/-- `icqRemoveFromVisibleList` and `icqRemoveFromInvisibleList` -/
def icqRemoveFromVisibilityList (visible : Bool) (accountId : List UInt8) : List Sending :=
  .event :: if UseServerContactList then
    [.change accountId true visible icqSnacListRostRem 0]
  else []

/-- `icqAddToIgnoreList` -/
def icqAddToIgnoreList (accountId : List UInt8) (nGSID nVisibleSID nInvisibleSID : UInt16) :
    List Sending :=
  if UseServerContactList then
    icqRemoveUser UseServerContactList accountId nGSID nVisibleSID nInvisibleSID ++
      [.change accountId false false icqSnacListRostAdd 0]
  else []

/-- The packet is no change, or one that is entered and for which an event waits. -/
def Sending.IsTracked : Sending → Prop
  | .change _ entered expected _ _ => entered = true ∧ expected = true
  | _ => True

end Senders

/-! ## Acknowledgements -/

/-- What the processing of an acknowledgement reads from elsewhere. -/
structure AckEnv where
  UseServerContactList : Bool
  refused : Bool
  /-- `GetSSTime` is zero. -/
  noListTime : Bool
  getGroupFromId : UInt16 → ℤ
  /-- The id of the group that a user is added to who needs authorization. -/
  nGSID : UInt16
  /-- The name of a group, and whether it is on the list. -/
  group : ℤ → Option (List UInt8 × Bool)

/-- What is sent for a code that is no error, and whether the group has been handled. -/
def ackSendings (env : AckEnv) (e : RunningEvent) (pending : List UInt8) (nError : UInt16)
    (bHandled : Bool) : List Sending × Bool :=
  if e.m_nSubType = icqSnacListRostAdd ∨ e.m_nSubType = icqSnacListRostRem then
    if nError = 0x0E ∧ e.m_nSubType = icqSnacListRostAdd then
      if pending ≠ [] then
        let group := (env.group 0).getD ([], false)
        (icqAddUserServer pending group.1 group.2 env.nGSID, bHandled)
      else ([], bHandled)
    else if bHandled = true then ([], bHandled)
    else
      let n := env.getGroupFromId e.m_nExtraInfo
      if n < 1 ∧ e.m_nExtraInfo ≠ 0 then ([], true)
      else
        let groupName := if e.m_nExtraInfo ≠ 0 then ((env.group n).getD ([], false)).1 else []
        let nSubType := if e.m_nExtraInfo = 0 ∧ env.noListTime = true then icqSnacListRostAdd
          else icqSnacListRostUpdGroup
        ([.event, .tracked groupName nSubType 0, .event], true)
  else if e.m_nSubType = icqSnacListRostUpdGroup then
    if bHandled = true then ([], bHandled)
    else if nError = 0x0E then ([.tracked pending icqSnacListRostUpdGroup 0], true)
    else ([], true)
  else ([], bHandled)

/-- The round of the loop for the next code, up to the erasure of the entry; the result says whether
the loop goes on, and what was processed. -/
def ackRound (env : AckEnv) (nSubSequence : ℕ) (e : RunningEvent) (nError : UInt16)
    (s : ModifyState) (bHandled : Bool) :
    ModifyState × Bool × Bool × List (List UInt8 × UInt16) :=
  match s.m_lszModifyServerUsers.find? nSubSequence with
  | none => (s, bHandled, false, [])
  | some pending =>
    if nError ≠ 0 ∧ nError ≠ 0x0E then (s, bHandled, false, [(pending, nError)])
    else
      let sendings := ackSendings env e pending nError bHandled
      let sent := s.sendAll env.refused sendings.1
      ({ sent with m_lszModifyServerUsers := sent.m_lszModifyServerUsers.erase nSubSequence },
        sendings.2, true, [(pending, nError)])

/-- The loop over the codes; what is read behind the last one is zero. -/
def ackLoop (env : AckEnv) (nSubSequence : ℕ) (e : RunningEvent) :
    List UInt16 → ModifyState → Bool → ModifyState × List (List UInt8 × UInt16)
  | [], s, bHandled =>
    let round := ackRound env nSubSequence e 0 s bHandled
    (round.1, round.2.2.2)
  | nError :: codes, s, bHandled =>
    let round := ackRound env nSubSequence e nError s bHandled
    if round.2.2.1 = true ∧ codes ≠ [] then
      let rest := ackLoop env nSubSequence e codes round.1 round.2.1
      (rest.1, round.2.2.2 ++ rest.2)
    else (round.1, round.2.2.2)

namespace ModifyState

/-- `DoneServerEvent` -/
def doneServerEvent (s : ModifyState) (nSubSequence : ℕ) : Option RunningEvent × ModifyState :=
  (s.m_lxRunningEvents.find? (·.m_nSubSequence = nSubSequence),
    { s with m_lxRunningEvents := s.m_lxRunningEvents.eraseP (·.m_nSubSequence = nSubSequence) })

/-- `ProcessListFam` for `ICQ_SNACxLIST_UPDxACK`: also what was processed, and the event that was
completed. -/
def updAck (s : ModifyState) (env : AckEnv) (nSubSequence : ℕ) (codes : List UInt16) :
    ModifyState × List (List UInt8 × UInt16) × List RunningEvent :=
  if env.UseServerContactList = false then (s, [], [])
  else
    let done := s.doneServerEvent nSubSequence
    match done.1 with
    | none => (done.2, [], [])
    | some e =>
      let loop := ackLoop env nSubSequence e codes done.2 false
      (loop.1, loop.2, [e])

end ModifyState

/-! ## Runs -/

/-- What happens: a packet is sent, a change is acknowledged, or an event that is no change is
done. -/
inductive ModifyAction
  | send (sending : Sending) (refused : Bool)
  | ack (change : SentChange) (codes : List UInt16) (env : AckEnv)
  | done (nSubSequence : ℕ)

namespace ModifyState

/-- One step.  Only a change that waits is acknowledged, and then it waits no longer. -/
def step (s : ModifyState) : ModifyAction → Option ModifyState
  | .send sending refused => some (s.send refused sending)
  | .ack change codes env =>
    if change ∈ s.unacked then
      let ack := s.updAck env change.event.m_nSubSequence codes
      some { ack.1 with
        unacked := ack.1.unacked.erase change
        acks := ack.1.acks ++ [⟨change, codes, ack.2.1, ack.2.2⟩] }
    else none
  | .done nSubSequence =>
    if nSubSequence ∈ s.unacked.map (·.event.m_nSubSequence) then none
    else some (s.doneServerEvent nSubSequence).2

end ModifyState

/-- An acknowledgement was processed as it should be: every code that it carries against the item
of the change, and the event of the change is the one that was completed. -/
structure AckRecord.Right (ack : AckRecord) : Prop where
  processed : ack.codes.map (ack.change.item, ·) <+: ack.processed
  completed : ack.completed = [ack.change.event]

/-- **The map holds exactly the changes that wait**, and every acknowledgement was processed. -/
structure ModifyState.Tracked (s : ModifyState) : Prop where
  users : ∀ n item, s.m_lszModifyServerUsers.find? n = some item ↔
    ∃ change ∈ s.unacked, change.event.m_nSubSequence = n ∧ change.item = item
  nodup : (s.unacked.map (·.event.m_nSubSequence)).Nodup
  acks : ∀ ack ∈ s.acks, ack.Right

/-- What a packet has to meet: a change is entered and it is sent, and the subsequence is not in use,
by another change or by another event. -/
def SendOk (s : ModifyState) (refused : Bool) : Sending → Prop
  | .event => True
  | .expectEvent _ _ => s.s_nSubSequence.toNat ∉ s.m_lxRunningEvents.map (·.m_nSubSequence) ∧
    s.s_nSubSequence.toNat ∉ s.unacked.map (·.event.m_nSubSequence)
  | .change _ entered expected _ _ => entered = true ∧ (expected = true → refused = false) ∧
    s.s_nSubSequence.toNat ∉ s.m_lxRunningEvents.map (·.m_nSubSequence) ∧
    s.s_nSubSequence.toNat ∉ s.unacked.map (·.event.m_nSubSequence)

/-- Every packet meets it when it is sent. -/
def SendAllOk (s : ModifyState) (refused : Bool) : List Sending → Prop
  | [] => True
  | sending :: sendings => SendOk s refused sending ∧
    SendAllOk (s.send refused sending) refused sendings

/-- What an acknowledgement has to meet: the list is in use, an event waits for it, it carries at
most one code and no error, and what is sent for it can be sent. -/
structure AckOk (s : ModifyState) (change : SentChange) (codes : List UInt16) (env : AckEnv) :
    Prop where
  use : env.UseServerContactList = true
  expected : change.expected = true
  noError : codes = [] ∨ codes = [0] ∨ codes = [0x0E]
  sendings : SendAllOk (s.doneServerEvent change.event.m_nSubSequence).2 env.refused
    (ackSendings env change.event change.item (codes.headD 0) false).1

/-- The condition of a step. -/
def ModifyAction.Ok (s : ModifyState) : ModifyAction → Prop
  | .send sending refused => SendOk s refused sending
  | .ack change codes env => AckOk s change codes env
  | .done _ => True

/-! ## One packet -/

namespace ModifyState

/-- What holds between the steps; `done` tells the changes whose events have been completed
already. -/
structure Inv (done : ℕ → Prop) (s : ModifyState) : Prop extends s.Tracked where
  running : (s.m_lxRunningEvents.map (·.m_nSubSequence)).Nodup
  events : ∀ change ∈ s.unacked, change.expected = true → ¬done change.event.m_nSubSequence →
    change.event ∈ s.m_lxRunningEvents

variable {done : ℕ → Prop} {s : ModifyState} {refused : Bool}

theorem Inv.congr {t : ModifyState} (h : s.Inv done)
    (husers : t.m_lszModifyServerUsers = s.m_lszModifyServerUsers)
    (hrunning : t.m_lxRunningEvents = s.m_lxRunningEvents) (hunacked : t.unacked = s.unacked)
    (hacks : t.acks = s.acks) : t.Inv done where
  users := by rw [husers, hunacked]; exact h.users
  nodup := by rw [hunacked]; exact h.nodup
  acks := by rw [hacks]; exact h.acks
  running := by rw [hrunning]; exact h.running
  events := by rw [hunacked, hrunning]; exact h.events

theorem nodup_concat {α : Type*} {l : List α} {f : α → ℕ} {a : α} (h : (l.map f).Nodup)
    (ha : f a ∉ l.map f) : ((l ++ [a]).map f).Nodup := by
  rw [map_append, map_singleton]
  exact nodup_append_comm.mp (nodup_cons.mpr ⟨ha, h⟩)

/-- Another event waits. -/
theorem Inv.sendExpectEvent (h : s.Inv done) {e : RunningEvent}
    (hfresh : e.m_nSubSequence ∉ s.m_lxRunningEvents.map (·.m_nSubSequence)) :
    (s.sendExpectEvent refused e).Inv done := by
  rw [ModifyState.sendExpectEvent]
  split
  · exact h
  · exact { toTracked := ⟨h.users, h.nodup, h.acks⟩
            running := nodup_concat h.running hfresh
            events := fun change hc hexp hdone =>
              mem_append_left _ (h.events change hc hexp hdone) }

/-- **A change that is entered and sent.** -/
theorem Inv.change (h : s.Inv done) {c : SentChange}
    (hfresh : c.event.m_nSubSequence ∉ s.unacked.map (·.event.m_nSubSequence))
    (hevent : c.expected = true → c.event ∈ s.m_lxRunningEvents) :
    { s.addToModifyUsers c.event.m_nSubSequence c.item with
      unacked := s.unacked ++ [c] }.Inv done where
  users := by
    intro n item
    change (s.m_lszModifyServerUsers.insert c.event.m_nSubSequence c.item).find? n = some item ↔ _
    simp only [mem_append, mem_singleton, or_and_right, exists_or, exists_eq_left]
    by_cases hn : n = c.event.m_nSubSequence
    · subst hn
      rw [SortedMap.find?_insert_self, Option.some.injEq]
      constructor
      · exact fun hitem => .inr ⟨rfl, hitem⟩
      · rintro (⟨c', hc', hnum, -⟩ | ⟨-, hitem⟩)
        · exact absurd (mem_map.mpr ⟨c', hc', hnum⟩) hfresh
        · exact hitem
    · rw [SortedMap.find?_insert_of_ne _ _ hn, h.users]
      constructor
      · exact .inl
      · rintro (hold | ⟨hnum, -⟩)
        · exact hold
        · exact absurd hnum.symm hn
  nodup := nodup_concat h.nodup hfresh
  acks := h.acks
  running := h.running
  events := by
    intro c' hc' hexp hdone
    rcases mem_append.mp hc' with hold | hnew
    · exact h.events c' hold hexp hdone
    · obtain rfl := mem_singleton.mp hnew
      exact hevent hexp

/-- **One packet**, of which the subsequence is not in use. -/
theorem Inv.send (h : s.Inv done) {sending : Sending} (hok : SendOk s refused sending) :
    (s.send refused sending).Inv done := by
  have hdrawn : { s with s_nSubSequence := s.s_nSubSequence + 1 }.Inv done :=
    h.congr rfl rfl rfl rfl
  cases sending with
  | event => exact hdrawn
  | expectEvent nSubType nExtraInfo => exact hdrawn.sendExpectEvent hok.1
  | change item entered expected nSubType nExtraInfo =>
    obtain ⟨hentered, hsent, hrunning, hunacked⟩ := hok
    subst hentered
    cases expected with
    | false =>
      exact @Inv.change done _ hdrawn ⟨item, ⟨_, nSubType, nExtraInfo⟩, false⟩ hunacked
        fun hexp => Bool.noConfusion hexp
    | true =>
      obtain rfl := hsent rfl
      have hwaits := @Inv.sendExpectEvent done _ false hdrawn
        ⟨s.s_nSubSequence.toNat, nSubType, nExtraInfo⟩ hrunning
      exact (@Inv.change done _ hwaits ⟨item, ⟨_, nSubType, nExtraInfo⟩, true⟩ hunacked
        fun _ => mem_append_right _ mem_cons_self).congr rfl rfl rfl rfl

/-- A packet leaves the changes that wait. -/
theorem unacked_subset_send (s : ModifyState) (refused : Bool) (sending : Sending) :
    s.unacked ⊆ (s.send refused sending).unacked := by
  cases sending with
  | event => exact fun _ h => h
  | expectEvent nSubType nExtraInfo =>
    cases refused <;> exact fun _ h => h
  | change item entered expected nSubType nExtraInfo =>
    cases entered <;> cases expected <;> cases refused <;>
      first
      | exact fun _ h => mem_append_left _ h
      | exact fun _ h => h

theorem Inv.sendAll {sendings : List Sending} (h : s.Inv done)
    (hok : SendAllOk s refused sendings) : (s.sendAll refused sendings).Inv done := by
  induction sendings generalizing s with
  | nil => exact h
  | cons sending sendings ih => exact ih (h.send hok.1) hok.2

theorem unacked_subset_sendAll (s : ModifyState) (refused : Bool) (sendings : List Sending) :
    s.unacked ⊆ (s.sendAll refused sendings).unacked := by
  induction sendings generalizing s with
  | nil => exact fun _ h => h
  | cons sending sendings ih =>
    exact fun _ h => ih (s.send refused sending) (unacked_subset_send s refused sending h)

/-! ## One acknowledgement -/

/-- The event that is done is the one of the change. -/
theorem Inv.doneServerEvent (h : s.Inv fun _ => False) {c : SentChange} (hc : c ∈ s.unacked)
    (hexp : c.expected = true) :
    (s.doneServerEvent c.event.m_nSubSequence).1 = some c.event ∧
      (s.doneServerEvent c.event.m_nSubSequence).2.Inv (· = c.event.m_nSubSequence) := by
  have hmem := h.events c hc hexp not_false
  have hother : ∀ e ∈ s.m_lxRunningEvents, e.m_nSubSequence ≠ c.event.m_nSubSequence →
      e ∈ s.m_lxRunningEvents.eraseP (·.m_nSubSequence = c.event.m_nSubSequence) := by
    intro e he hne
    exact (mem_eraseP_of_neg (by simpa using hne)).mpr he
  refine ⟨?_, ?_⟩
  · change s.m_lxRunningEvents.find? (·.m_nSubSequence = c.event.m_nSubSequence) = some c.event
    cases hfind : s.m_lxRunningEvents.find? (·.m_nSubSequence = c.event.m_nSubSequence) with
    | none => exact absurd (find?_eq_none.mp hfind c.event hmem) (by simp)
    | some e =>
      have hnum : e.m_nSubSequence = c.event.m_nSubSequence := by
        simpa using find?_some hfind
      rw [inj_on_of_nodup_map h.running (mem_of_find?_eq_some hfind) hmem hnum]
  · exact { toTracked := ⟨h.users, h.nodup, h.acks⟩
            running := h.running.sublist (List.Sublist.map _ eraseP_sublist)
            events := fun c' hc' hexp' hne => hother _ (h.events c' hc' hexp' not_false) hne }

/-- **The change that has been acknowledged waits no longer**, and its entry is gone. -/
theorem Inv.acknowledged {c : SentChange} (h : s.Inv (· = c.event.m_nSubSequence))
    (hc : c ∈ s.unacked) {ack : AckRecord} (hack : ack.Right) :
    { s with
      m_lszModifyServerUsers := s.m_lszModifyServerUsers.erase c.event.m_nSubSequence
      unacked := s.unacked.erase c
      acks := s.acks ++ [ack] }.Inv fun _ => False := by
  have herase : ∀ c', c' ∈ s.unacked.erase c ↔
      c' ∈ s.unacked ∧ c'.event.m_nSubSequence ≠ c.event.m_nSubSequence := by
    intro c'
    rw [h.nodup.of_map.mem_erase_iff, and_comm]
    refine and_congr_right fun hc' => not_congr ?_
    exact ⟨fun heq => by rw [heq], fun hnum => inj_on_of_nodup_map h.nodup hc' hc hnum⟩
  refine { users := ?_, nodup := ?_, acks := ?_, running := h.running, events := ?_ }
  · intro n item
    change (s.m_lszModifyServerUsers.erase c.event.m_nSubSequence).find? n = some item ↔
      ∃ c' ∈ s.unacked.erase c, c'.event.m_nSubSequence = n ∧ c'.item = item
    by_cases hn : n = c.event.m_nSubSequence
    · subst hn
      rw [SortedMap.find?_erase_self]
      constructor
      · exact nofun
      · rintro ⟨c', hc', hnum, -⟩
        exact absurd hnum ((herase c').mp hc').2
    · rw [SortedMap.find?_erase_of_ne _ hn, h.users]
      constructor
      · rintro ⟨c', hc', rfl, hitem⟩
        exact ⟨c', (herase c').mpr ⟨hc', hn⟩, rfl, hitem⟩
      · rintro ⟨c', hc', hnum, hitem⟩
        exact ⟨c', ((herase c').mp hc').1, hnum, hitem⟩
  · exact h.nodup.sublist (List.Sublist.map _ erase_sublist)
  · intro a ha
    rcases mem_append.mp ha with hold | hnew
    · exact h.acks a hold
    · rwa [mem_singleton.mp hnew]
  · intro c' hc' hexp _
    obtain ⟨hmem, hne⟩ := (herase c').mp hc'
    exact h.events c' hmem hexp hne

/-- The loop over no code or one that is no error. -/
theorem ackLoop_noError {env : AckEnv} {n : ℕ} {e : RunningEvent} {item : List UInt8}
    {codes : List UInt16} (hcodes : codes = [] ∨ codes = [0] ∨ codes = [0x0E])
    (hfind : s.m_lszModifyServerUsers.find? n = some item) :
    let sent := s.sendAll env.refused (ackSendings env e item (codes.headD 0) false).1
    ackLoop env n e codes s false
      = ({ sent with m_lszModifyServerUsers := sent.m_lszModifyServerUsers.erase n },
        [(item, codes.headD 0)]) := by
  rcases hcodes with rfl | rfl | rfl
  all_goals
    simp only [ackLoop, ackRound, hfind, headD_nil, headD_cons]
    rfl

/-- **One acknowledgement.** -/
theorem Inv.ack (h : s.Inv fun _ => False) {c : SentChange} {codes : List UInt16} {env : AckEnv}
    (hc : c ∈ s.unacked) (hok : AckOk s c codes env) :
    let ack := s.updAck env c.event.m_nSubSequence codes
    { ack.1 with
      unacked := ack.1.unacked.erase c
      acks := ack.1.acks ++ [(⟨c, codes, ack.2.1, ack.2.2⟩ : AckRecord)] }.Inv
        fun _ => False := by
  obtain ⟨hevent, hdone⟩ := h.doneServerEvent hc hok.expected
  have hfind : (s.doneServerEvent c.event.m_nSubSequence).2.m_lszModifyServerUsers.find?
      c.event.m_nSubSequence = some c.item :=
    (hdone.users _ _).mpr ⟨c, hc, rfl, rfl⟩
  have hack : s.updAck env c.event.m_nSubSequence codes
      = ((ackLoop env c.event.m_nSubSequence c.event codes
          (s.doneServerEvent c.event.m_nSubSequence).2 false).1,
        (ackLoop env c.event.m_nSubSequence c.event codes
          (s.doneServerEvent c.event.m_nSubSequence).2 false).2, [c.event]) := by
    have huse : ¬env.UseServerContactList = false := by
      rw [hok.use]
      exact Bool.noConfusion
    simp only [updAck, if_neg huse, hevent]
  have hright : AckRecord.Right ⟨c, codes, [(c.item, codes.headD 0)], [c.event]⟩ := by
    refine ⟨?_, rfl⟩
    rcases hok.noError with hcodes | hcodes | hcodes
    all_goals
      rw [hcodes]
      first
      | exact nil_prefix
      | exact prefix_rfl
  intro ack
  simp only [ack, hack, ackLoop_noError hok.noError hfind]
  exact (hdone.sendAll hok.sendings).acknowledged (unacked_subset_sendAll _ _ _ hc) hright

/-! ## The run -/

theorem Inv.step (h : s.Inv fun _ => False) {a : ModifyAction} (hok : a.Ok s) {s' : ModifyState}
    (hstep : s.step a = some s') : s'.Inv fun _ => False := by
  cases a with
  | send sending refused =>
    cases hstep
    exact h.send hok
  | ack c codes env =>
    rw [ModifyState.step] at hstep
    split at hstep
    · rename_i hc
      cases hstep
      exact h.ack hc hok
    · cases hstep
  | done n =>
    rw [ModifyState.step] at hstep
    split at hstep
    · cases hstep
    · rename_i hn
      cases hstep
      exact { toTracked := ⟨h.users, h.nodup, h.acks⟩
              running := h.running.sublist (List.Sublist.map _ eraseP_sublist)
              events := fun c hc hexp hdone => (mem_eraseP_of_neg (by
                simpa using fun heq => hn (mem_map.mpr ⟨c, hc, heq⟩))).mpr
                  (h.events c hc hexp hdone) }

end ModifyState

/-- Where a run begins: no change has been sent. -/
def ModifyState.init (s_nSubSequence : UInt16) : ModifyState :=
  ⟨s_nSubSequence, SortedMap.empty, [], [], []⟩

theorem ModifyState.inv_init (n : UInt16) : (ModifyState.init n).Inv fun _ => False where
  users := by
    intro n item
    constructor
    · intro h
      cases h
    · rintro ⟨c, hc, -⟩
      cases hc
  nodup := nodup_nil
  acks := nofun
  running := nodup_nil
  events := nofun

/-- **Changes are sent and acknowledged, in any order.**  In every run whose steps meet the condition
the map holds exactly the changes that have been sent and not been acknowledged, in every state that
the run comes to, and every acknowledgement has been processed. -/
theorem modifyRun_tracked (n : UInt16) {as : List ModifyAction}
    (hok : Steps.Each ModifyState.step ModifyAction.Ok (.init n) as) :
    Steps.Stays ModifyState.step ModifyState.Tracked (.init n) as :=
  (Steps.stays_of_each (P := fun s => s.Inv fun _ => False)
    (fun _ _ _ h hok hstep => h.step hok hstep) (ModifyState.inv_init n) hok).mono
      fun _ h => h.toTracked

/-! ## Two runs -/

/-- Nothing is in the way of an acknowledgement, and there is a group 1. -/
def ackEnvOne : AckEnv where
  UseServerContactList := true
  refused := false
  noListTime := false
  getGroupFromId := fun _ => 1
  nGSID := 7
  group := fun n => if n = 1 then some ([71], true) else none

/-- The renamed user 1, in the subsequence 5. -/
def renamedOne : SentChange := ⟨[49], ⟨5, icqSnacListRostUpdGroup, 0⟩, true⟩

/-- The user 2 who was added to the group 7, in the subsequence 6. -/
def addedTwo : SentChange := ⟨[50], ⟨6, icqSnacListRostAdd, 7⟩, true⟩

/-- The second change is acknowledged first, and the update of its group is sent for it. -/
theorem modifyRun_tracked_two :
    Steps.Stays ModifyState.step ModifyState.Tracked (.init 5)
      [.send (.tracked [49] icqSnacListRostUpdGroup 0) false,
        .send (.tracked [50] icqSnacListRostAdd 7) false, .ack addedTwo [0] ackEnvOne,
        .ack renamedOne [] ackEnvOne] := by
  refine modifyRun_tracked 5 ((Steps.each_cons rfl).mpr ⟨?_, (Steps.each_cons rfl).mpr
    ⟨?_, (Steps.each_cons rfl).mpr ⟨?_, (Steps.each_cons rfl).mpr ⟨?_, trivial⟩⟩⟩⟩)
  · exact ⟨rfl, fun _ => rfl, by decide, by decide⟩
  · exact ⟨rfl, fun _ => rfl, by decide, by decide⟩
  · exact ⟨rfl, rfl, by decide, trivial, ⟨rfl, fun _ => rfl, by decide, by decide⟩, trivial,
      trivial⟩
  · exact ⟨rfl, rfl, by decide, trivial⟩

/-- An acknowledgement with an error leaves the entry. -/
theorem not_tracked_error :
    ¬Steps.Stays ModifyState.step ModifyState.Tracked (.init 5)
      ((icqRename true [49]).map (.send · false) ++ [.ack renamedOne [2] ackEnvOne]) := by
  intro h
  have hend := (h.2 _ rfl).2 _ rfl
  have hentry := (hend.users 5 [49]).mp rfl
  obtain ⟨c, hc, -⟩ := hentry
  exact absurd hc List.not_mem_nil

end Licq
