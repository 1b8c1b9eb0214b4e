import Licq.Jabber.Plugin
import Licq.Msn.Signals

/-!
# Plugin/Answers — what becomes of an event id

The caller of a request waits for the event of the id that it has been given.  `answers_iff` says
which signals the plugins answer, or put aside until they do, and which they drop.
-/

namespace Licq.Signals

/-! ## The plugins -/

/-- A plugin, and how the network behaves while it processes the next signal. -/
inductive Plugin
  | msn (s : Msn.State) (n : Msn.Network)
  | jabber (s : Jabber.State) (n : Jabber.Network)

namespace Plugin

/-- The events that have been pushed. -/
def events : Plugin → List Event
  | .msn s _ => s.events
  | .jabber s _ => s.events

/-- The ids that are recorded with an event that is not complete yet. -/
def pending : Plugin → List ℕ
  | .msn s _ => s.pEvents ++ s.lStart
  | .jabber _ _ => []

def processSignal : Plugin → ProtocolSignal → Option Plugin
  | .msn s n, sig => (s.processSignal n sig).map (.msn · n)
  | .jabber s n, sig => (s.processSignal n sig).map (.jabber · n)

/-- The signal is processed, and either just one event for its id has been pushed then or the id has
become a pending one. -/
def Answers (p : Plugin) (sig : ProtocolSignal) : Prop :=
  ∃ q, p.processSignal sig = some q ∧
    ((∃ r, q.events = p.events ++ [⟨sig.eventId, r⟩]) ∧ q.pending.Perm p.pending ∨
      q.events = p.events ∧ q.pending.Perm (sig.eventId :: p.pending))

/-- The owner is there, if the signal is about its information. -/
def OwnerRead (c : Contacts) (sig : SignalType) : Prop :=
  ∀ eventId, sig = .updateInfo eventId → c.owner.isSome = true

/-- MSN has a connection to the server, Jabber a client unless it does not support the signal, and an
owner whose information is to be updated is still there. -/
def CanAnswer : Plugin → ProtocolSignal → Prop
  | .msn s _, sig => s.myServerSocket = true ∧ OwnerRead s.contacts sig.signal
  | .jabber s _, sig => Jabber.needsClient sig.signal = true →
    s.myClient.isSome = true ∧ OwnerRead s.contacts sig.signal

/-! ## One signal -/

variable {p q : Plugin} {sig : ProtocolSignal}

theorem answers_of_event (hq : p.processSignal sig = some q) {r : Result}
    (hevents : q.events = p.events ++ [⟨sig.eventId, r⟩]) (hpending : q.pending = p.pending) :
    p.Answers sig :=
  ⟨q, hq, .inl ⟨⟨r, hevents⟩, by rw [hpending]⟩⟩

theorem not_answers_of_none (h : p.processSignal sig = none) : ¬ p.Answers sig := by
  rintro ⟨q, hq, -⟩
  rw [h] at hq
  cases hq

/-- A signal that is dropped. -/
theorem not_answers_of_dropped (h : p.processSignal sig = some p) : ¬ p.Answers sig := by
  rintro ⟨q, hq, ⟨⟨r, hevents⟩, -⟩ | ⟨-, hpending⟩⟩
  · cases h.symm.trans hq
    have hlength := congrArg List.length hevents
    rw [List.length_append, List.length_singleton] at hlength
    omega
  · cases h.symm.trans hq
    have hlength := hpending.length_eq
    rw [List.length_cons] at hlength
    omega

theorem ownerRead_of_ne {c : Contacts} {sig : SignalType} (h : ∀ eventId, sig ≠ .updateInfo eventId) :
    OwnerRead c sig := fun eventId heq => absurd heq (h eventId)

/-! ## Jabber -/

section Jabber

variable {s : Jabber.State} {n : Jabber.Network}

/-- A handler that tells the client one thing answers exactly where there is a client. -/
theorem answers_callAndAnswer {c : Jabber.Call} {r : Result}
    (h : s.processSignal n sig = s.callAndAnswer c ⟨sig.eventId, r⟩) :
    (jabber s n).Answers sig ↔ s.myClient.isSome = true := by
  have hprocess : (jabber s n).processSignal sig =
      (s.callAndAnswer c ⟨sig.eventId, r⟩).map (jabber · n) := congrArg (Option.map (jabber · n)) h
  rw [Jabber.State.callAndAnswer, Jabber.State.call] at hprocess
  cases hclient : s.myClient with
  | none =>
    rw [hclient] at hprocess
    exact iff_of_false (not_answers_of_none hprocess) (by decide)
  | some client =>
    rw [hclient] at hprocess
    exact iff_of_true (answers_of_event hprocess rfl rfl) rfl

/-- The event of a signal that is not supported. -/
theorem answers_unsupported (hid : sig.eventId ≠ 0)
    (h : s.processSignal n sig = some (if sig.eventId ≠ 0 then
      s.pushPluginEvent ⟨sig.eventId, .unsupported⟩ else s)) : (jabber s n).Answers sig := by
  rw [if_pos hid] at h
  exact answers_of_event (congrArg (Option.map (jabber · n)) h) rfl rfl

theorem canAnswer_jabber_iff (hneeds : Jabber.needsClient sig.signal = true)
    (hread : ∀ eventId, sig.signal ≠ .updateInfo eventId) :
    (jabber s n).CanAnswer sig ↔ s.myClient.isSome = true :=
  ⟨fun h => (h hneeds).1, fun h _ => ⟨h, ownerRead_of_ne hread⟩⟩

/-- The owner's information. -/
theorem answers_updateInfo_jabber (eventId : ℕ) (userId : UserId) :
    (jabber s n).Answers ⟨.updateInfo eventId, userId⟩ ↔
      s.myClient.isSome = true ∧ s.contacts.owner.isSome = true := by
  have hprocess : s.processSignal n ⟨.updateInfo eventId, userId⟩ = s.doUpdateInfo eventId := rfl
  rw [Jabber.State.doUpdateInfo] at hprocess
  cases hclient : s.myClient with
  | none =>
    rw [hclient, if_pos Option.isNone_none] at hprocess
    exact iff_of_false (not_answers_of_none (congrArg (Option.map (jabber · n)) hprocess))
      fun h => by cases h.1
  | some client =>
    rw [hclient, if_neg (Bool.eq_false_iff.mp Option.isNone_some)] at hprocess
    cases howner : s.contacts.owner with
    | none =>
      rw [howner] at hprocess
      exact iff_of_false (not_answers_of_dropped (congrArg (Option.map (jabber · n)) hprocess))
        fun h => by cases h.2
    | some owner =>
      rw [howner] at hprocess
      rw [answers_callAndAnswer hprocess, hclient]
      simp

/-- **Jabber** answers where it has a client, and the owner whose information it is. -/
theorem answers_jabber_iff (hid : sig.eventId ≠ 0) :
    (jabber s n).Answers sig ↔ (jabber s n).CanAnswer sig := by
  obtain ⟨signal, userId⟩ := sig
  cases signal with
  | sendMessage | grantAuth | refuseAuth | requestInfo | requestPicture =>
    exact (answers_callAndAnswer rfl).trans (canAnswer_jabber_iff rfl (by rintro _ ⟨⟩)).symm
  | updateInfo eventId =>
    rw [answers_updateInfo_jabber]
    exact ⟨fun h _ => ⟨h.1, fun _ _ => h.2⟩, fun h => ⟨(h rfl).1, (h rfl).2 eventId rfl⟩⟩
  | sendFile | cancelEvent | openSecure | closeSecure | sendUrl | protocolSpecific =>
    exact iff_of_true (answers_unsupported hid rfl) nofun
  | _ => exact absurd rfl hid

end Jabber

/-! ## MSN -/

section Msn

variable {s : Msn.State} {n : Msn.Network}

/-- A packet goes out without an event. -/
theorem sendPacket_eq_some (h : s.myServerSocket = true) (packet : Msn.Packet) :
    ∃ t, s.sendPacket n packet = some t ∧ t.events = s.events ∧ t.pEvents = s.pEvents ∧
      t.lStart = s.lStart := by
  rw [Msn.State.sendPacket, if_pos h]
  split_ifs <;> exact ⟨_, rfl, rfl, rfl, rfl⟩

/-- A handler that writes a packet and pushes an event. -/
theorem answers_sendPacket (hsocket : s.myServerSocket = true) {packet : Msn.Packet}
    {r : Result} (h : s.processSignal n sig =
      (s.sendPacket n packet).map (·.pushPluginEvent ⟨sig.eventId, r⟩)) : (msn s n).Answers sig := by
  obtain ⟨t, hsent, hevents, hpending, hstart⟩ := sendPacket_eq_some (n := n) hsocket packet
  rw [hsent] at h
  refine answers_of_event (congrArg (Option.map (msn · n)) h) (r := r) ?_ ?_
  · exact congrArg (· ++ _) hevents
  · exact congrArg₂ (· ++ ·) hpending hstart

/-- A message is put aside. -/
theorem answers_msnSendMessage (hsocket : s.myServerSocket = true) {eventId convoId : ℕ}
    (hid : sig.eventId = eventId) (h : s.processSignal n sig = s.msnSendMessage n eventId convoId) :
    (msn s n).Answers sig := by
  rw [Msn.State.msnSendMessage] at h
  subst hid
  by_cases hopen : (if convoId ≠ 0 then n.socketId convoId else -1) > 0
  · rw [if_pos hopen] at h
    refine ⟨_, congrArg (Option.map (msn · n)) h, .inr ⟨rfl, ?_⟩⟩
    exact (List.perm_append_singleton sig.eventId s.pEvents).append_right s.lStart
  · rw [if_neg hopen] at h
    obtain ⟨t, hsent, hevents, hpending, hstart⟩ := sendPacket_eq_some (n := n)
      (s := { s with lStart := s.lStart ++ [sig.eventId] }) hsocket .xfr
    rw [hsent] at h
    refine ⟨_, congrArg (Option.map (msn · n)) h, .inr ⟨hevents, ?_⟩⟩
    have hids : t.pEvents ++ t.lStart = s.pEvents ++ s.lStart ++ [sig.eventId] := by
      rw [hpending, hstart, List.append_assoc]
    exact (List.Perm.of_eq hids).trans (List.perm_append_singleton sig.eventId _)

/-- The owner's information. -/
theorem answers_updateInfo_msn (hsocket : s.myServerSocket = true) (eventId : ℕ) (userId : UserId) :
    (msn s n).Answers ⟨.updateInfo eventId, userId⟩ ↔ s.contacts.owner.isSome = true := by
  have hprocess : s.processSignal n ⟨.updateInfo eventId, userId⟩ =
      s.ownerAlias.bind fun newAlias =>
        (s.msnUpdateUser n newAlias).map (·.pushPluginEvent ⟨eventId, .success⟩) := by
    rw [Msn.State.processSignal, hsocket]
  rw [Msn.State.ownerAlias] at hprocess
  by_cases howner : s.contacts.owner.isSome = true
  · rw [if_pos howner] at hprocess
    exact iff_of_true (answers_sendPacket hsocket hprocess) howner
  · rw [if_neg howner] at hprocess
    exact iff_of_false (not_answers_of_none (congrArg (Option.map (msn · n)) hprocess)) howner

/-- Without a connection a signal is dropped. -/
theorem processSignal_of_not_socket (h : s.myServerSocket = false) (hid : sig.eventId ≠ 0) :
    s.processSignal n sig = some s := by
  obtain ⟨signal, userId⟩ := sig
  rw [Msn.State.processSignal, h]
  cases signal with
  | logon => exact absurd rfl hid
  | _ => rfl

/-- **MSN** answers where it has a connection, and the owner whose information it is. -/
theorem answers_msn_iff (hid : sig.eventId ≠ 0) :
    (msn s n).Answers sig ↔ (msn s n).CanAnswer sig := by
  cases hsocket : s.myServerSocket with
  | false =>
    have hdropped := processSignal_of_not_socket (n := n) hsocket hid
    refine iff_of_false (not_answers_of_dropped (congrArg (Option.map (msn · n)) hdropped)) ?_
    intro h
    exact absurd (hsocket.symm.trans h.1) (by decide)
  | true =>
    have hprocess := Msn.State.processSignal.eq_def s n sig
    rw [hsocket] at hprocess
    obtain ⟨signal, userId⟩ := sig
    cases signal with
    | sendMessage =>
      exact iff_of_true (answers_msnSendMessage hsocket rfl hprocess)
        ⟨hsocket, ownerRead_of_ne (by rintro _ ⟨⟩)⟩
    | grantAuth =>
      exact iff_of_true (answers_sendPacket hsocket hprocess)
        ⟨hsocket, ownerRead_of_ne (by rintro _ ⟨⟩)⟩
    | updateInfo eventId =>
      rw [answers_updateInfo_msn hsocket]
      exact ⟨fun h => ⟨hsocket, fun _ _ => h⟩, fun h => h.2 eventId rfl⟩
    | refuseAuth | requestInfo | requestPicture | sendFile | cancelEvent | openSecure | closeSecure
    | sendUrl | protocolSpecific =>
      have hunsupported : s.processSignal n ⟨_, userId⟩ = some (s.pushPluginEvent _) :=
        hprocess.trans (congrArg some (if_pos hid))
      exact iff_of_true (answers_of_event (congrArg (Option.map (msn · n)) hunsupported) rfl rfl)
        ⟨hsocket, ownerRead_of_ne (by rintro _ ⟨⟩)⟩
    | _ => exact absurd rfl hid

end Msn

/-- **The event of a request.**  A plugin pushes just one event for the id of a signal, or puts the id
aside, exactly where MSN is connected and Jabber has a client for a signal that needs it, and the
owner is there whose information is to be updated. -/
theorem answers_iff (p : Plugin) (sig : ProtocolSignal) (h : sig.eventId ≠ 0) :
    p.Answers sig ↔ p.CanAnswer sig := by
  cases p with
  | msn s n => exact answers_msn_iff h
  | jabber s n => exact answers_jabber_iff h

/-- A contact list without users. -/
def noUsers (owner : Option Owner) : Contacts := ⟨owner, [], fun _ => []⟩

/-- MSN while it is connected or not, with an owner who is online. -/
def idleMsn (myServerSocket : Bool) : Plugin :=
  .msn ⟨myServerSocket, .owner msnPpid ['m'], 1, noUsers (some ⟨[], 1⟩), [], [], [], []⟩
    ⟨true, fun _ => true, fun _ => -1⟩

theorem answers_iff_updateInfo :
    (idleMsn true).Answers ⟨.updateInfo 1, .owner msnPpid ['m']⟩ ↔
      (idleMsn true).CanAnswer ⟨.updateInfo 1, .owner msnPpid ['m']⟩ :=
  answers_iff (idleMsn true) ⟨.updateInfo 1, .owner msnPpid ['m']⟩ (by decide)

/-- **A signal for a plugin that has lost its connection** is dropped together with its id. -/
theorem not_answers_disconnected : ¬ ∀ (p : Plugin) (sig : ProtocolSignal), sig.eventId ≠ 0 →
    p.Answers sig := by
  intro h
  have hdropped : (idleMsn false).processSignal ⟨.grantAuth 1, .owner msnPpid ['m']⟩ =
      some (idleMsn false) := rfl
  exact not_answers_of_dropped hdropped (h _ _ (by decide))

end Plugin

end Licq.Signals
