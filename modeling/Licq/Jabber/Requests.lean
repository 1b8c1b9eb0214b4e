import Licq.Data.Steps
import Licq.Jabber.Plugin

/-!
# Jabber/Requests — requests from other threads, and the connection

A request is checked against the owner's status in the thread that makes it, pushed later, and
processed by the plugin later still.  `good_of_each` says when no handler runs into a client that is
gone and every request is carried out or reported: a signal is pushed only where the queue in front of
it leaves the plugin connected, and nothing it needs goes away while it waits.
-/

namespace Licq.Signals.Jabber

open Option

/-! ## Requests -/

/-- What the client is to be told for a signal; none where the plugin cannot do what is asked. -/
def asked (c : Contacts) (sig : ProtocolSignal) : Option (List Call) :=
  let user := sig.userId.accountId
  match sig.signal with
  | .logon _ | .logoff => some []
  | .changeStatus status => some [.changeStatus status]
  | .addUser => some [.addUser user (c.getUserGroups sig.userId)]
  | .removeUser => some [.removeUser user]
  | .renameUser => (c.user? sig.userId).map fun u => [.renameUser user u.myAlias]
  | .changeUserGroups => some [.changeUserGroups user (c.getUserGroups sig.userId)]
  | .sendMessage _ message isUrgent _ => some [.sendMessage user message isUrgent]
  | .notifyTyping active _ => some [.notifyTyping user active]
  | .grantAuth _ => some [.grantAuthorization user]
  | .refuseAuth _ => some [.refuseAuthorization user]
  | .requestInfo _ | .requestPicture _ => some [.getVCard user]
  | .updateInfo _ => c.owner.map fun owner => [.setOwnerVCard owner]
  | .requestAuth message => some [.requestAuthorization user message]
  | .renameGroup groupId =>
    some ((c.users.filter (·.isInGroup groupId)).map (State.groupsCall c))
  | _ => none

/-- Over an open connection the client has been told just what the signal asks for. -/
def CarriedOut (s t : State) (sig : ProtocolSignal) : Prop :=
  ∃ cs ∈ asked s.contacts sig, t.calls = s.calls ++ cs.map fun c => (true, c)

instance (s t : State) (sig : ProtocolSignal) : Decidable (CarriedOut s t sig) := by
  unfold CarriedOut
  infer_instance

/-- An event has been pushed that tells that the request has failed. -/
def Reported (s t : State) (sig : ProtocolSignal) : Prop :=
  t.events = s.events ++ [⟨sig.eventId, .unsupported⟩]

instance (s t : State) (sig : ProtocolSignal) : Decidable (Reported s t sig) := by
  unfold Reported
  infer_instance

/-- The plugin with the signals that wait for it, the requests that have been accepted but not pushed
yet, and those that have been processed without being carried out or reported. -/
structure Requests where
  plugin : State
  accepted : List ProtocolSignal
  queue : List ProtocolSignal
  lost : List ProtocolSignal
  /-- An assertion has failed, or a null pointer has been followed. -/
  failed : Bool

namespace Requests

/-- Before the first signal. -/
def start (c : Contacts) : Requests := ⟨⟨none, c, [], []⟩, [], [], [], false⟩

/-- `ProtocolManager::setStatus`, up to the push. -/
def setStatus (s : Requests) (ownerId : UserId) (newStatus : ℕ) : Requests :=
  match s.plugin.contacts.owner with
  | none => s
  | some owner =>
    let signal : SignalType :=
      if newStatus = offlineStatus then .logoff
      else if ¬ owner.isOnline then .logon newStatus
      else .changeStatus newStatus
    { s with accepted := s.accepted ++ [⟨signal, ownerId⟩] }

/-- The signal is one that `setStatus` sends. -/
def setsStatus : SignalType → Bool
  | .logon _ | .logoff | .changeStatus _ => true
  | _ => false

/-- Any other request of the managers, up to the push. -/
def request (s : Requests) (sig : ProtocolSignal) : Requests :=
  if setsStatus sig.signal then s
  else if s.plugin.contacts.isProtocolConnected then { s with accepted := s.accepted ++ [sig] }
  else s

/-- The plugin takes the next signal; none while there is none. -/
def processSignal (s : Requests) (n : Network) : Option Requests :=
  match s.queue with
  | [] => none
  | sig :: queue =>
    match s.plugin.processSignal n sig with
    | none => some { s with queue := queue, failed := true }
    | some plugin => some { s with
        plugin := plugin
        queue := queue
        lost := if CarriedOut s.plugin plugin sig ∨ Reported s.plugin plugin sig then s.lost
          else s.lost ++ [sig] }

/-! ## Runs -/

inductive Action
  | setStatus (ownerId : UserId) (newStatus : ℕ)
  | request (sig : ProtocolSignal)
  /-- `UserManager::RemoveGroup` of a group that the user is in, which does not look at the owner. -/
  | removeGroup (userId : UserId)
  /-- One of the accepted requests is pushed. -/
  | push (i : ℕ)
  | processSignal (n : Network)
  /-- The client has logged on. -/
  | onConnect (status : ℕ)
  /-- The connection is lost. -/
  | onDisconnect
  /-- Users and groups are changed. -/
  | listChanged (users : List User) (groupName : ℕ → List Char)
  | removeOwner

/-- One action; none where it is not possible, and after the plugin has failed. -/
def step (s : Requests) (a : Action) : Option Requests :=
  if s.failed then none
  else match a with
  | .setStatus ownerId newStatus => some (s.setStatus ownerId newStatus)
  | .request sig => some (s.request sig)
  | .removeGroup userId => some { s with accepted := s.accepted ++ [⟨.changeUserGroups, userId⟩] }
  | .push i => s.accepted[i]?.map fun sig =>
    { s with accepted := s.accepted.eraseIdx i, queue := s.queue ++ [sig] }
  | .processSignal n => s.processSignal n
  | .onConnect status =>
    if s.plugin.myClient.any (·.isOpen) then
      some { s with plugin := { s.plugin with
        myClient := some ⟨true, true⟩
        contacts := s.plugin.contacts.statusChanged status } }
    else none
  | .onDisconnect =>
    if s.plugin.myClient.any (·.isOpen) then
      some { s with plugin := { s.plugin.onDisconnect with myClient := some ⟨false, false⟩ } }
    else none
  | .listChanged users groupName =>
    some { s with plugin := { s.plugin with
      contacts := { s.plugin.contacts with users := users, groupName := groupName } } }
  | .removeOwner =>
    if s.plugin.contacts.isProtocolConnected then some s
    else some { s with plugin := { s.plugin with
      contacts := { s.plugin.contacts with owner := none } } }

/-! ## The property -/

/-- No handler has run into a missing client, and every signal that has been processed has been
carried out or reported. -/
structure Good (s : Requests) : Prop where
  failed : s.failed = false
  lost : s.lost = []

/-- The plugin serves the signal, with the connection open or not. -/
def Serves (c : Contacts) (isOpen : Bool) (sig : ProtocolSignal) : Prop :=
  match sig.signal with
  | .logon _ | .logoff => True
  | .renameGroup groupId => isOpen = true ∨ ∀ u ∈ c.users, u.isInGroup groupId = false
  | .renameUser => isOpen = true ∧ (c.user? sig.userId).isSome = true
  | .updateInfo _ => isOpen = true ∧ c.owner.isSome = true
  | signal => if needsClient signal then isOpen = true else sig.eventId ≠ 0

/-- Whether the connection is open behind the signal, if it can be opened. -/
def openAfter (c : Contacts) (isOpen : Bool) : SignalType → Bool
  | .logon status => isOpen || (status ≠ offlineStatus && c.owner.isSome)
  | .logoff => false
  | _ => isOpen

/-- The contact list behind the signal. -/
def contactsAfter (c : Contacts) (sig : ProtocolSignal) : Contacts :=
  match sig.signal with
  | .changeStatus status => c.statusChanged status
  | .removeUser => c.removeLocalUser sig.userId
  | _ => c

/-- Every signal of the queue is served when its turn comes. -/
def ServesAll (c : Contacts) (isOpen : Bool) : List ProtocolSignal → Prop
  | [] => True
  | sig :: queue => Serves c isOpen sig ∧
    ServesAll (contactsAfter c sig) (openAfter c isOpen sig.signal) queue

instance (c : Contacts) (isOpen : Bool) (sig : ProtocolSignal) : Decidable (Serves c isOpen sig) := by
  unfold Serves
  split <;> infer_instance

instance ServesAll.decidable : (c : Contacts) → (isOpen : Bool) → (queue : List ProtocolSignal) →
    Decidable (ServesAll c isOpen queue)
  | _, _, [] => isTrue trivial
  | c, isOpen, sig :: queue =>
    have := ServesAll.decidable (contactsAfter c sig) (openAfter c isOpen sig.signal) queue
    inferInstanceAs (Decidable (Serves c isOpen sig ∧ ServesAll _ _ queue))

/-- The connection is open. -/
def isOpen (s : Requests) : Bool := s.plugin.myClient.any (·.isOpen)

/-- A signal is pushed only where it is served behind those in front of it, and what the signals in
the queue need does not go away: the connection, by being lost or by a connect that fails, a user or
the owner. -/
def ActionOk (s : Requests) : Action → Prop
  | .push i => ∀ sig ∈ s.accepted[i]?, ServesAll s.plugin.contacts s.isOpen (s.queue ++ [sig])
  | .processSignal n =>
    match s.queue with
    | ⟨.logon status, _⟩ :: queue => status ≠ offlineStatus → s.plugin.contacts.owner.isSome = true →
      s.plugin.myClient.any (·.isConnected) = false → n.connects = false →
        ServesAll s.plugin.contacts false queue
    | _ => True
  | .onDisconnect => ServesAll s.plugin.contacts false s.queue
  | .listChanged users groupName =>
    ServesAll { s.plugin.contacts with users := users, groupName := groupName } s.isOpen s.queue
  | .removeOwner => s.plugin.contacts.isProtocolConnected = false →
    ServesAll { s.plugin.contacts with owner := none } s.isOpen s.queue
  | .setStatus .. | .request _ | .removeGroup _ | .onConnect _ => True

instance (s : Requests) (a : Action) : Decidable (s.ActionOk a) := by
  unfold ActionOk
  split
  case h_2 => split <;> infer_instance
  all_goals infer_instance

/-! ## One signal -/

section

variable {c c' : Contacts} {o : Bool} {sig : ProtocolSignal}

/-- What a signal changes of the contact list, it changes alike in lists with the same users. -/
theorem contactsAfter_congr (husers : c'.users = c.users)
    (howner : c'.owner.isSome = c.owner.isSome) (sig : ProtocolSignal) :
    (contactsAfter c' sig).users = (contactsAfter c sig).users ∧
      (contactsAfter c' sig).owner.isSome = (contactsAfter c sig).owner.isSome := by
  obtain ⟨signal, userId⟩ := sig
  cases signal with
  | changeStatus =>
    exact ⟨husers, isSome_map.trans (howner.trans isSome_map.symm)⟩
  | removeUser => exact ⟨congrArg (List.filter fun u : User => u.id ≠ userId) husers, howner⟩
  | _ => exact ⟨husers, howner⟩

variable {queue : List ProtocolSignal} {s : State}

/-- **What the queue needs** of the contact list is its users and whether the owner is there. -/
theorem servesAll_congr (husers : c'.users = c.users) (howner : c'.owner.isSome = c.owner.isSome)
    (h : ServesAll c o queue) : ServesAll c' o queue := by
  induction queue generalizing c c' o with
  | nil => trivial
  | cons sig queue ih =>
    obtain ⟨hfirst, hrest⟩ := h
    obtain ⟨husers', howner'⟩ := contactsAfter_congr husers howner sig
    have huser : c'.user? sig.userId = c.user? sig.userId := by
      rw [Contacts.user?, Contacts.user?, husers]
    have hopen : openAfter c' o sig.signal = openAfter c o sig.signal := by
      cases sig.signal <;> simp only [openAfter, howner]
    rw [ServesAll, hopen]
    refine ⟨?_, ih husers' howner' hrest⟩
    rw [Serves] at hfirst ⊢
    simp only [husers, huser, howner]
    exact hfirst

/-- The loop over the members of a renamed group. -/
theorem foldlM_groupsCall (c : Contacts) {client : Client} (us : List User)
    (h : s.myClient = some client) : us.foldlM (fun t u => t.call (State.groupsCall c u)) s =
      some { s with
        calls := s.calls ++ (us.map (State.groupsCall c)).map fun c => (client.isOpen, c) } := by
  induction us generalizing s with
  | nil => simp
  | cons u us ih =>
    have hcall : s.call (State.groupsCall c u) = some { s with
        calls := s.calls ++ [(client.isOpen, State.groupsCall c u)] } := by
      rw [State.call, h, map_some]
    have hrest := ih (s := { s with
      calls := s.calls ++ [(client.isOpen, State.groupsCall c u)] }) h
    rw [List.foldlM_cons, hcall]
    refine hrest.trans ?_
    rw [List.append_assoc]
    rfl

theorem client_of_isOpen (h : s.myClient.any (·.isOpen) = true) :
    ∃ isConnected, s.myClient = some ⟨true, isConnected⟩ := by
  cases hclient : s.myClient with
  | none =>
    rw [hclient] at h
    cases h
  | some client =>
    obtain ⟨isOpen, isConnected⟩ := client
    rw [hclient] at h
    obtain rfl : isOpen = true := h
    exact ⟨isConnected, rfl⟩

/-- **A signal that is served**, other than a logon or logoff, is carried out or reported. -/
theorem processSignal_of_serves {n : Network}
    (h : Serves s.contacts (s.myClient.any (·.isOpen)) sig)
    (hlogon : ∀ status, sig.signal ≠ .logon status) (hlogoff : sig.signal ≠ .logoff) :
    ∃ t, s.processSignal n sig = some t ∧ (CarriedOut s t sig ∨ Reported s t sig) ∧
      t.myClient = s.myClient ∧ t.contacts = contactsAfter s.contacts sig := by
  obtain ⟨signal, userId⟩ := sig
  obtain ⟨myClient, c, calls, events⟩ := s
  cases signal with
  | logon status => exact absurd rfl (hlogon status)
  | logoff => exact absurd rfl hlogoff
  | changeStatus | addUser | removeUser | changeUserGroups | sendMessage | notifyTyping | grantAuth
  | refuseAuth | requestInfo | requestPicture | requestAuth =>
    obtain ⟨isConnected, hclient⟩ := client_of_isOpen h
    obtain rfl : myClient = _ := hclient
    exact ⟨_, rfl, .inl ⟨_, rfl, rfl⟩, rfl, rfl⟩
  | renameUser =>
    obtain ⟨hopen, huser⟩ := h
    obtain ⟨isConnected, hclient⟩ := client_of_isOpen hopen
    obtain ⟨u, hu⟩ := isSome_iff_exists.mp huser
    obtain rfl : myClient = _ := hclient
    refine ⟨⟨_, c, calls ++ [(true, .renameUser userId.accountId u.myAlias)], events⟩, ?_,
      .inl ⟨[.renameUser userId.accountId u.myAlias], ?_, rfl⟩, rfl, rfl⟩
    · change State.doRenameUser _ userId = _
      rw [State.doRenameUser]
      simp only [hu]
      rfl
    · simp only [asked, hu, map_some, mem_def]
  | updateInfo eventId =>
    obtain ⟨hopen, howner⟩ := h
    obtain ⟨isConnected, hclient⟩ := client_of_isOpen hopen
    obtain ⟨owner, users, groupName⟩ := c
    obtain ⟨owner, rfl⟩ := isSome_iff_exists.mp howner
    obtain rfl : myClient = _ := hclient
    exact ⟨_, rfl, .inl ⟨_, rfl, rfl⟩, rfl, rfl⟩
  | renameGroup groupId =>
    rcases h with hopen | hnone
    · obtain ⟨isConnected, hclient⟩ := client_of_isOpen hopen
      obtain rfl : myClient = _ := hclient
      exact ⟨_, foldlM_groupsCall c _ rfl, .inl ⟨_, rfl, rfl⟩, rfl, rfl⟩
    · have hmembers : c.users.filter (·.isInGroup groupId) = [] :=
        List.filter_eq_nil_iff.mpr fun u hu => by simpa using hnone u hu
      refine ⟨⟨myClient, c, calls, events⟩, ?_, .inl ⟨[], ?_, by simp⟩, rfl, rfl⟩
      · change State.doRenameGroup _ groupId = _
        rw [State.doRenameGroup, hmembers]
        rfl
      · exact congrArg (fun us => some (us.map (State.groupsCall c))) hmembers
  | _ => exact ⟨_, congrArg some (if_pos h), .inr rfl, rfl, rfl⟩

/-! ## Logging on and off -/

theorem servesAll_statusChanged {status : ℕ}
    (h : ServesAll c o queue) : ServesAll (c.statusChanged status) o queue := by
  have husers : (c.statusChanged status).users = c.users := rfl
  have howner : (c.statusChanged status).owner.isSome = c.owner.isSome := isSome_map
  exact servesAll_congr husers howner h

/-- A client that has logged on has an open connection. -/
def Connected (s : State) : Prop :=
  ∀ client ∈ s.myClient, client.isConnected = true → client.isOpen = true

/-- Deleting the client leaves a queue that needs no connection. -/
theorem serves_deleteClient (n : Network)
    (h : ServesAll s.contacts false queue) :
    (s.deleteClient n).calls = s.calls ∧ Connected (s.deleteClient n) ∧
      ServesAll (s.deleteClient n).contacts ((s.deleteClient n).myClient.any (·.isOpen)) queue := by
  obtain ⟨connects, disconnects⟩ := n
  cases disconnects with
  | false => exact ⟨rfl, nofun, h⟩
  | true => exact ⟨rfl, nofun, servesAll_statusChanged h⟩

theorem serves_doLogoff (n : Network) (hconnected : Connected s)
    (h : ServesAll s.contacts false queue) :
    (s.doLogoff n).calls = s.calls ∧ Connected (s.doLogoff n) ∧
      ServesAll (s.doLogoff n).contacts ((s.doLogoff n).myClient.any (·.isOpen)) queue := by
  rw [State.doLogoff]
  split_ifs with hnone
  · rw [isNone_iff_eq_none.mp hnone]
    exact ⟨rfl, hconnected, h⟩
  · exact serves_deleteClient n h

/-- **A logon** leaves the connection open, unless connecting fails. -/
theorem serves_doLogon {n : Network} {status : ℕ} (hconnected : Connected s)
    (h : ServesAll s.contacts (openAfter s.contacts (s.myClient.any (·.isOpen)) (.logon status)) queue)
    (hfails : status ≠ offlineStatus → s.contacts.owner.isSome = true →
      s.myClient.any (·.isConnected) = false → n.connects = false →
        ServesAll s.contacts false queue) :
    (s.doLogon n status).calls = s.calls ∧ Connected (s.doLogon n status) ∧
      ServesAll (s.doLogon n status).contacts ((s.doLogon n status).myClient.any (·.isOpen)) queue := by
  have hsame (hskip : openAfter s.contacts (s.myClient.any (·.isOpen)) (.logon status) =
      s.myClient.any (·.isOpen)) : s.calls = s.calls ∧ Connected s ∧
        ServesAll s.contacts (s.myClient.any (·.isOpen)) queue :=
    ⟨rfl, hconnected, hskip ▸ h⟩
  rw [State.doLogon]
  by_cases hstatus : status = offlineStatus
  · rw [if_pos hstatus]
    exact hsame (by simp [openAfter, hstatus])
  by_cases howner : s.contacts.owner.isNone = true
  · rw [if_neg hstatus, if_pos howner]
    exact hsame (by simp [openAfter, isNone_iff_eq_none.mp howner])
  have hsome : s.contacts.owner.isSome = true := by
    rw [← not_isNone, Bool.eq_false_iff.mpr howner]
    rfl
  rw [openAfter, hsome, decide_eq_true hstatus, Bool.and_self, Bool.or_true] at h
  rw [if_neg hstatus, if_neg howner]
  simp only
  split_ifs with hauthed hconnects
  · cases hclient : s.myClient with
    | none =>
      rw [hclient] at hauthed
      cases hauthed
    | some client =>
      rw [hclient] at hauthed
      have hopen := hconnected client hclient hauthed
      refine ⟨rfl, fun client' hclient' _ => ?_, ?_⟩
      · cases hclient'
        exact hopen
      · rw [getD_some, any_some, hopen]
        exact h
  · refine ⟨rfl, fun client' hclient' _ => ?_, h⟩
    cases hclient'
    rfl
  · refine serves_deleteClient n (hfails hstatus hsome ?_ (Bool.eq_false_iff.mpr hconnects))
    cases hclient : s.myClient with
    | none => rfl
    | some client =>
      rw [hclient] at hauthed
      exact Bool.eq_false_iff.mpr hauthed

end

/-! ## Every run -/

/-- What holds in a run besides: every signal in the queue is served when its turn comes. -/
structure Inv (s : Requests) : Prop where
  serves : ServesAll s.plugin.contacts s.isOpen s.queue
  connected : Connected s.plugin

variable {s : Requests}

/-- A signal that is processed without the plugin losing it. -/
theorem good_processed (h : s.Good) {t : State} {sig : ProtocolSignal}
    (hdone : CarriedOut s.plugin t sig ∨ Reported s.plugin t sig)
    (queue : List ProtocolSignal) :
    Good { s with
      plugin := t
      queue := queue
      lost := if CarriedOut s.plugin t sig ∨ Reported s.plugin t sig then s.lost
        else s.lost ++ [sig] } where
  failed := h.failed
  lost := (if_pos hdone).trans h.lost

/-- **Processing a signal.** -/
theorem good_processSignal {s' : Requests} {n : Network} (h : s.Good) (hi : s.Inv)
    (hok : s.ActionOk (.processSignal n)) (hs : s.processSignal n = some s') : s'.Good ∧ s'.Inv := by
  rw [processSignal] at hs
  cases hqueue : s.queue with
  | nil =>
    rw [hqueue] at hs
    cases hs
  | cons sig queue =>
    rw [hqueue] at hs
    have hserves := hi.serves
    rw [hqueue] at hserves
    obtain ⟨hfirst, hrest⟩ := hserves
    obtain ⟨signal, userId⟩ := sig
    cases signal with
    | logon status =>
      obtain ⟨hcalls, hconnected, hserves⟩ := serves_doLogon (n := n) hi.connected hrest
        (by rwa [ActionOk, hqueue] at hok)
      cases hs
      refine ⟨good_processed h (.inl ⟨[], rfl, ?_⟩) queue, hserves, hconnected⟩
      exact hcalls.trans (List.append_nil _).symm
    | logoff =>
      obtain ⟨hcalls, hconnected, hserves⟩ := serves_doLogoff n hi.connected hrest
      cases hs
      refine ⟨good_processed h (.inl ⟨[], rfl, ?_⟩) queue, hserves, hconnected⟩
      exact hcalls.trans (List.append_nil _).symm
    | _ =>
      obtain ⟨t, ht, hdone, hclient, hcontacts⟩ :=
        processSignal_of_serves (n := n) hfirst (by rintro _ ⟨⟩) (by rintro ⟨⟩)
      simp only [ht] at hs
      cases hs
      refine ⟨good_processed h hdone queue, ?_, ?_⟩
      · rw [isOpen, hclient, hcontacts]
        exact hrest
      · rw [Connected, hclient]
        exact hi.connected

/-- **One action** that meets its condition keeps every request served. -/
theorem good_step {s' : Requests} {a : Action} (h : s.Good ∧ s.Inv) (hok : s.ActionOk a)
    (hs : s.step a = some s') : s'.Good ∧ s'.Inv := by
  obtain ⟨hgood, hinv⟩ := h
  have hfailed : ¬ s.failed = true := by
    rw [hgood.failed]
    exact Bool.false_ne_true
  rw [step.eq_def, if_neg hfailed] at hs
  cases a with
  | setStatus ownerId newStatus =>
    cases hs
    rw [setStatus]
    split
    · exact ⟨hgood, hinv⟩
    · exact ⟨⟨hgood.failed, hgood.lost⟩, ⟨hinv.serves, hinv.connected⟩⟩
  | request sig =>
    cases hs
    rw [request]
    split_ifs
    · exact ⟨hgood, hinv⟩
    · exact ⟨⟨hgood.failed, hgood.lost⟩, ⟨hinv.serves, hinv.connected⟩⟩
    · exact ⟨hgood, hinv⟩
  | removeGroup userId =>
    cases hs
    exact ⟨⟨hgood.failed, hgood.lost⟩, ⟨hinv.serves, hinv.connected⟩⟩
  | push i =>
    obtain ⟨sig, hsig, rfl⟩ := map_eq_some_iff.mp hs
    exact ⟨⟨hgood.failed, hgood.lost⟩, ⟨hok sig hsig, hinv.connected⟩⟩
  | processSignal n => exact good_processSignal hgood hinv hok hs
  | onConnect status =>
    simp only at hs
    split_ifs at hs with hopen
    cases hs
    have hserves := hinv.serves
    rw [isOpen, hopen] at hserves
    refine ⟨⟨hgood.failed, hgood.lost⟩, ⟨servesAll_statusChanged hserves, ?_⟩⟩
    intro client hclient _
    cases hclient
    rfl
  | onDisconnect =>
    simp only at hs
    split_ifs at hs with hopen
    cases hs
    refine ⟨⟨hgood.failed, hgood.lost⟩, ⟨servesAll_statusChanged hok, ?_⟩⟩
    intro client hclient hconnected
    cases hclient
    cases hconnected
  | listChanged users groupName =>
    cases hs
    exact ⟨⟨hgood.failed, hgood.lost⟩, ⟨hok, hinv.connected⟩⟩
  | removeOwner =>
    simp only at hs
    split_ifs at hs with honline
    · cases hs
      exact ⟨hgood, hinv⟩
    · cases hs
      exact ⟨⟨hgood.failed, hgood.lost⟩,
        ⟨hok (Bool.eq_false_iff.mpr honline), hinv.connected⟩⟩

/-- **Requests and the connection.**  In every state of a run no handler has run into a missing client
and no request has been lost, if each signal is pushed where it is served behind those in front of it
and what the waiting signals need does not go away. -/
theorem good_of_each (c : Contacts) (as : List Action)
    (h : Steps.Each step ActionOk (start c) as) : Steps.Stays step Good (start c) as :=
  (Steps.stays_of_each (P := fun s => s.Good ∧ s.Inv) (fun _ _ _ => good_step)
    ⟨⟨rfl, rfl⟩, ⟨trivial, nofun⟩⟩ h).mono fun _ h => h.1

/-- The owner of the runs below. -/
def someOwner : UserId := .owner jabberPpid ['j']

/-- An owner who logs on, sends a message and logs off when it has gone out. -/
theorem good_session :
    Steps.Stays step Good (start ⟨some ⟨[], 0⟩, [], fun _ => []⟩) [.setStatus someOwner 1, .push 0,
      .processSignal ⟨true, true⟩, .onConnect 1, .request ⟨.sendMessage 1 ['a'] false 0, someOwner⟩,
      .push 0, .processSignal ⟨true, true⟩, .setStatus someOwner 0, .push 0,
      .processSignal ⟨true, true⟩] :=
  good_of_each _ _ (by decide +kernel)

/-- **A message that is pushed behind the logoff**, though its sender found the owner online: its
handler asserts that there is a client. -/
theorem not_good_pushed_late : ¬ ∀ (c : Contacts) (as : List Action),
    Steps.Stays step Good (start c) as := by
  intro h
  have hend := (h ⟨some ⟨[], 0⟩, [], fun _ => []⟩ [.setStatus someOwner 1, .push 0,
    .processSignal ⟨true, true⟩, .onConnect 1, .request ⟨.sendMessage 1 ['a'] false 0, someOwner⟩,
    .setStatus someOwner 0, .push 1, .push 0, .processSignal ⟨true, true⟩,
    .processSignal ⟨true, true⟩]).foldlM rfl
  exact absurd hend.failed (by decide +kernel)

end Requests

end Licq.Signals.Jabber
