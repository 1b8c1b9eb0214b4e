import Licq.Buffer.Basic
import Licq.Icq.Chat.Basic

/-!
# Icq/Chat/Send — a command for the clients of a chat

`SendBuffer` walks the list of clients and writes a command to each that is to have it.  A client
whose send fails is closed, which takes its node out of the list while the loop stands on it; from
then on the loop is undefined.  `sendsOnce_iff` says what is left of the promise.
-/

open Wire

namespace Licq

open List Buffer

/-! ## The clients -/

/-- `CHAT_STATE_…` -/
inductive ChatState
  | disconnected | handshake | waitForColor | waitForColorFont | waitForFont | connected
  deriving DecidableEq

/-- What sending reads of a `ChatUser`. -/
structure ChatPeer where
  userId : UserId
  state : ChatState
  /-- `sock.Descriptor()` -/
  descriptor : ℤ
  /-- `sock.Version()` -/
  version : ℕ
  deriving DecidableEq

/-- The socket can be written to. -/
def ChatPeer.isOpen (p : ChatPeer) : Bool := p.state = .connected && p.descriptor ≠ -1

/-- What sending reads and writes of a chat manager. -/
structure ChatClients where
  myUserId : UserId
  /-- The `ChatUser` objects by their addresses.  An object is put into the list once, when it is
  created. -/
  chatUsers : List ℕ
  user : ℕ → ChatPeer
  chatUsersClosed : List ℕ
  /-- What was written, first to last, and to which object. -/
  sends : List (ℕ × List UInt8)
  /-- The disconnections that were pushed. -/
  events : List ℕ
  nodup : chatUsers.Nodup

namespace ChatClients

/-- `CloseClient` -/
def closeClient (c : ChatClients) (u : ℕ) : ChatClients :=
  if u ∈ c.chatUsers then
    { c with
      chatUsers := c.chatUsers.erase u
      user := fun v =>
        if v = u then { c.user u with state := .disconnected, descriptor := -1 } else c.user v
      chatUsersClosed := c.chatUsersClosed ++ [u]
      events := c.events ++ [u]
      nodup := c.nodup.erase u }
  else { c with events := c.events ++ [u] }

theorem notMem_closeClient (c : ChatClients) (u : ℕ) : u ∉ (c.closeClient u).chatUsers := by
  rw [closeClient]
  split_ifs with hu
  · exact c.nodup.not_mem_erase
  · exact hu

/-- A write to a client. -/
def write (c : ChatClients) (u : ℕ) (bytes : List UInt8) : ChatClients :=
  { c with sends := c.sends ++ [(u, bytes)] }

end ChatClients

/-! ## The bytes of a command -/

/-- What follows the command, as the header of version 6 counts it: with the next character for the
font family. -/
def chatSize (cmd : UInt8) (body : List UInt8) : ℕ :=
  body.length + if cmd = ChatCommand.fontFamily.code then 1 else 0

/-- The output buffer of `SendBufferToClient`. -/
def encodeBuffer (version : ℕ) (cmd : UInt8) (body : List UInt8) : Buffer :=
  if 6 ≤ version then
    ((((Buffer.ofSize 128).packUInt8 0).packUInt8 cmd).packUInt32LE
      (UInt32.ofNat (chatSize cmd body))).packRaw body
  else ((Buffer.ofSize 128).packUInt8 cmd).packRaw body

/-- A command as a peer of the version expects it. -/
def chatWire (version : ℕ) (cmd : UInt8) (body : List UInt8) : List UInt8 :=
  if 6 ≤ version then 0 :: cmd :: bytesLE 4 (chatSize cmd body) ++ body else cmd :: body

/-- The bytes before the body. -/
def chatHeader (version : ℕ) (cmd : UInt8) (body : List UInt8) : List UInt8 :=
  if 6 ≤ version then 0 :: cmd :: bytesLE 4 (chatSize cmd body) else [cmd]

theorem chatWire_eq (version : ℕ) (cmd : UInt8) (body : List UInt8) :
    chatWire version cmd body = chatHeader version cmd body ++ body := by
  rw [chatWire, chatHeader]
  split_ifs <;> rfl

/-- The number of bytes before the body. -/
def chatHeaderSize (version : ℕ) : ℕ := if 6 ≤ version then 6 else 1

/-- What `n` packs to is what it is modulo `2 ^ 32`. -/
theorem bytesLE_uint32 (n : ℕ) : bytesLE 4 (UInt32.ofNat n).toNat = bytesLE 4 n := by
  have h := bytesLE_valueLE (bytesLE 4 n)
  rwa [length_bytesLE, valueLE_bytesLE, show 256 ^ 4 = 2 ^ 32 from rfl, ← UInt32.toNat_ofNat'] at h

/-- Packing into a buffer of 128 bytes. -/
theorem packRaw_of_128 {b : Buffer} (hmax : b.maxSize = 128) (data : List UInt8) :
    (b.packRaw data).data
      = b.data ++ if b.data.length + data.length ≤ 128 then data else [] := by
  have hle := b.data_le
  by_cases hfits : b.data.length + data.length ≤ 128
  · rw [if_pos hfits, packRaw_data]
    rw [remainingDataToWrite]
    omega
  · rw [if_neg hfits, packRaw_of_lt, append_nil]
    rw [remainingDataToWrite]
    omega

/-- **The output buffer holds the header, and the body unless it is too long.** -/
theorem encodeBuffer_data (version : ℕ) (cmd : UInt8) (body : List UInt8) :
    (encodeBuffer version cmd body).data = chatHeader version cmd body
      ++ if chatHeaderSize version + body.length ≤ 128 then body else [] := by
  have hone : ∀ c : UInt8, ((ofSize 128).packUInt8 c).data = [c] := fun c => by
    rw [packUInt8, packRaw_of_128 rfl]
    rfl
  rw [encodeBuffer, chatHeader, chatHeaderSize]
  by_cases hversion : 6 ≤ version
  · simp only [if_pos hversion]
    have htwo : (((ofSize 128).packUInt8 0).packUInt8 cmd).data = [0, cmd] := by
      rw [packUInt8, packRaw_of_128 (by rw [packUInt8, packRaw_maxSize]; rfl),
        hone]
      rfl
    have hsix : ((((ofSize 128).packUInt8 0).packUInt8 cmd).packUInt32LE
        (UInt32.ofNat (chatSize cmd body))).data = 0 :: cmd :: bytesLE 4 (chatSize cmd body) := by
      rw [packUInt32LE, packRaw_of_128, htwo, bytesLE_uint32, length_bytesLE]
      · rfl
      · simp only [packUInt8, packRaw_maxSize]
        rfl
    rw [packRaw_of_128, hsix]
    · simp only [length_cons, length_bytesLE]
    · simp only [packUInt32LE, packUInt8, packRaw_maxSize]
      rfl
  · simp only [if_neg hversion]
    rw [packRaw_of_128, hone]
    · rfl
    · rw [packUInt8, packRaw_maxSize]
      rfl

theorem encodeBuffer_eq_iff (version : ℕ) (cmd : UInt8) (body : List UInt8) :
    (encodeBuffer version cmd body).data = chatWire version cmd body ↔
      chatHeaderSize version + body.length ≤ 128 := by
  rw [encodeBuffer_data, chatWire_eq, append_cancel_left_eq]
  split_ifs with hfits
  · simp only [hfits]
  · refine iff_of_false ?_ hfits
    rintro rfl
    rw [chatHeaderSize] at hfits
    split_ifs at hfits <;> simp at hfits

/-! ## Sending -/

/-- `SendBufferToClient`; the `k`-th send of all fails as `fails k` says. -/
def sendBufferToClient (fails : ℕ → Bool) (cmd : UInt8) (body : List UInt8) (c : ChatClients)
    (u : ℕ) : Bool × ChatClients :=
  if (c.user u).isOpen then
    let b_out := encodeBuffer (c.user u).version cmd body
    if fails c.sends.length then (false, (c.write u b_out.data).closeClient u)
    else (true, c.write u b_out.data)
  -- If the socket was closed, ignore the key event
  else (true, c)

/-- A loop over the clients from an iterator on, up to the iterator `stop`; an iterator is the list
from its node on, and none stands for the use of a node that was removed from the list. -/
def sendLoop (fails : ℕ → Bool) (cmd : UInt8) (body : List UInt8) (stop : List ℕ) :
    List ℕ → Bool → ChatClients → Option (Bool × ChatClients)
  | [], ok, c => if stop = [] then some (ok, c) else none
  | u :: rest, ok, c =>
    if u :: rest = stop then some (ok, c)
    else
      let (ok, c) := sendBufferToClient fails cmd body c u
      if u ∈ c.chatUsers then sendLoop fails cmd body stop rest ok c else none

/-- The body of `while (!ok)`; `target` is the object `u_iter` stands at, where there is an id. -/
def sendRound (fails : ℕ → Bool) (cmd : UInt8) (body : List UInt8) (target : Option ℕ)
    (bNotIter : Bool) (c : ChatClients) : Option (Bool × ChatClients) :=
  match target with
  | none => sendLoop fails cmd body [] c.chatUsers true c
  | some u =>
    if bNotIter then
      let u_iter := c.chatUsers.dropWhile (· ≠ u)
      match sendLoop fails cmd body u_iter c.chatUsers true c with
      | none => none
      | some (ok, c) =>
        if u ∈ c.chatUsers then
          if u_iter.tail = [] then some (true, c)
          else sendLoop fails cmd body [] u_iter.tail ok c
        else none
    else if u ∈ c.chatUsers then some (sendBufferToClient fails cmd body c u) else none

/-- `while (!ok)`, for as many rounds as the fuel allows. -/
def sendRounds (fails : ℕ → Bool) (cmd : UInt8) (body : List UInt8) (target : Option ℕ)
    (bNotIter : Bool) : ℕ → ChatClients → Option ChatClients
  | 0, _ => none
  | fuel + 1, c =>
    match sendRound fails cmd body target bNotIter c with
    | none => none
    | some (ok, c) => if ok then some c else sendRounds fails cmd body target bNotIter fuel c

/-- The first client with the id. -/
def ChatClients.find (c : ChatClients) (id : List Char) : Option ℕ :=
  c.chatUsers.find? fun u => (c.user u).userId = .user c.myUserId id

/-- `SendBuffer`; none where it does something undefined.  A round that is repeated has closed a
client, so that there are not more rounds than clients and one. -/
def sendBuffer (fails : ℕ → Bool) (cmd : UInt8) (body : List UInt8) (id : Option (List Char))
    (bNotIter : Bool) (c : ChatClients) : Option ChatClients :=
  match id with
  | none => sendRounds fails cmd body none bNotIter (c.chatUsers.length + 1) c
  | some id =>
    match c.find id with
    | none => some c
    | some u => sendRounds fails cmd body (some u) bNotIter (c.chatUsers.length + 1) c

/-! ## Who is to have a command -/

namespace ChatClients

/-- The clients a command is for: all, all but one, or one. -/
def receivers (c : ChatClients) (target : Option ℕ) (bNotIter : Bool) : List ℕ :=
  match target with
  | none => c.chatUsers
  | some u => if bNotIter then c.chatUsers.filter (· ≠ u) else [u]

/-- The clients among these that are still connected. -/
def opens (c : ChatClients) (us : List ℕ) : List ℕ := us.filter fun u => (c.user u).isOpen

/-- **The clients that are to have a command and are still connected.** -/
def recipients (c : ChatClients) (id : Option (List Char)) (bNotIter : Bool) : List ℕ :=
  match id with
  | none => c.opens (c.receivers none bNotIter)
  | some id =>
    match c.find id with
    | none => []
    | some u => c.opens (c.receivers (some u) bNotIter)

/-- What each of the clients is written once, in order. -/
def sent (c : ChatClients) (cmd : UInt8) (body : List UInt8) (us : List ℕ) : ChatClients :=
  { c with
    sends := c.sends ++ us.map fun u => (u, (encodeBuffer (c.user u).version cmd body).data) }

variable {c : ChatClients} {cmd : UInt8} {body : List UInt8} {us vs : List ℕ} {u : ℕ}

theorem opens_append : c.opens (us ++ vs) = c.opens us ++ c.opens vs :=
  filter_append ..

theorem opens_cons_of_open (h : (c.user u).isOpen = true) : c.opens (u :: us) = u :: c.opens us :=
  filter_cons_of_pos h

theorem opens_cons_of_closed (h : ¬ (c.user u).isOpen = true) : c.opens (u :: us) = c.opens us :=
  filter_cons_of_neg h

@[simp] theorem sent_nil : c.sent cmd body [] = c := by
  rw [sent, map_nil, append_nil]

theorem sent_append : c.sent cmd body (us ++ vs) = (c.sent cmd body us).sent cmd body vs := by
  rw [sent, sent, sent, map_append, append_assoc]

@[simp] theorem length_sends_sent : (c.sent cmd body us).sends.length = c.sends.length + us.length := by
  rw [sent, length_append, length_map]

end ChatClients

/-- `k` sends from the `n`-th on do not fail. -/
def Succeed (fails : ℕ → Bool) (n k : ℕ) : Prop := ∀ i < k, fails (n + i) = false

instance (fails : ℕ → Bool) (n k : ℕ) : Decidable (Succeed fails n k) :=
  inferInstanceAs (Decidable (∀ i < k, fails (n + i) = false))

variable {fails : ℕ → Bool} {cmd : UInt8} {body : List UInt8} {c : ChatClients} {u : ℕ}

theorem Succeed.zero (n : ℕ) : Succeed fails n 0 := fun _ h => absurd h (Nat.not_lt_zero _)

theorem succeed_add {n k l : ℕ} :
    Succeed fails n (k + l) ↔ Succeed fails n k ∧ Succeed fails (n + k) l := by
  constructor
  · intro h
    refine ⟨fun i hi => h i (by omega), fun i hi => ?_⟩
    rw [Nat.add_assoc]
    exact h (k + i) (by omega)
  · rintro ⟨hk, hl⟩ i hi
    by_cases hik : i < k
    · exact hk i hik
    · have := hl (i - k) (by omega)
      rwa [Nat.add_assoc, Nat.add_sub_cancel' (by omega)] at this

theorem succeed_one {n : ℕ} : Succeed fails n 1 ↔ fails n = false :=
  ⟨fun h => h 0 Nat.one_pos, fun h i hi => by rwa [show i = 0 by omega]⟩

/-- Sends to the clients, in order: none where one of them fails. -/
def ChatClients.attempt (c : ChatClients) (fails : ℕ → Bool) (cmd : UInt8) (body : List UInt8)
    (us : List ℕ) : Option ChatClients :=
  if Succeed fails c.sends.length us.length then some (c.sent cmd body us) else none

@[simp] theorem ChatClients.attempt_nil : c.attempt fails cmd body [] = some c := by
  rw [attempt, if_pos, sent_nil]
  exact Succeed.zero _

theorem ChatClients.attempt_append (us vs : List ℕ) : c.attempt fails cmd body (us ++ vs)
    = (c.attempt fails cmd body us).bind fun c => c.attempt fails cmd body vs := by
  have hadd : Succeed fails c.sends.length (us ++ vs).length ↔
      Succeed fails c.sends.length us.length ∧
        Succeed fails (c.sent cmd body us).sends.length vs.length := by
    rw [length_append, succeed_add, length_sends_sent]
  rw [attempt, attempt]
  by_cases hus : Succeed fails c.sends.length us.length
  · rw [if_pos hus, Option.bind_some, attempt, sent_append]
    simp only [hadd, hus, true_and]
  · rw [if_neg hus, Option.bind_none, if_neg fun h => hus (hadd.mp h).1]

theorem ChatClients.attempt_singleton (u : ℕ) : c.attempt fails cmd body [u]
    = if fails c.sends.length = false then some (c.sent cmd body [u]) else none := by
  rw [attempt]
  simp only [length_singleton, succeed_one]

/-! ## What a send does -/

theorem sendBufferToClient_closed (h : ¬ (c.user u).isOpen = true) :
    sendBufferToClient fails cmd body c u = (true, c) := if_neg h

theorem sendBufferToClient_sent (h : (c.user u).isOpen = true)
    (hfails : fails c.sends.length = false) :
    sendBufferToClient fails cmd body c u = (true, c.sent cmd body [u]) := by
  rw [sendBufferToClient, if_pos h]
  simp only [hfails, Bool.false_eq_true, if_false]
  rfl

/-- **A client whose send fails is no longer in the list.** -/
theorem sendBufferToClient_failed (h : (c.user u).isOpen = true)
    (hfails : fails c.sends.length = true) :
    (sendBufferToClient fails cmd body c u).1 = false ∧
      u ∉ (sendBufferToClient fails cmd body c u).2.chatUsers := by
  rw [sendBufferToClient, if_pos h]
  simp only [hfails, if_true]
  exact ⟨trivial, ChatClients.notMem_closeClient _ u⟩

/-- **A loop writes once to each connected client when no send fails, and is undefined when one
does.** -/
theorem sendLoop_eq {us : List ℕ} (stop : List ℕ) (hmem : ∀ u ∈ us, u ∈ c.chatUsers) :
    sendLoop fails cmd body stop (us ++ stop) true c
      = (c.attempt fails cmd body (c.opens us)).map fun c => (true, c) := by
  induction us generalizing c with
  | nil =>
    rw [show c.opens [] = [] from rfl, ChatClients.attempt_nil, Option.map_some, nil_append]
    cases stop with
    | nil => exact if_pos rfl
    | cons v stop => exact if_pos rfl
  | cons u us ih =>
    have hne : ¬ u :: (us ++ stop) = stop := by
      intro h
      have := congrArg List.length h
      simp only [length_cons, length_append] at this
      omega
    have hu : u ∈ c.chatUsers := hmem u mem_cons_self
    have hus : ∀ v ∈ us, v ∈ c.chatUsers := fun v hv => hmem v (mem_cons_of_mem u hv)
    rw [cons_append, sendLoop, if_neg hne]
    by_cases hopen : (c.user u).isOpen = true
    · rw [ChatClients.opens_cons_of_open hopen, ← singleton_append,
        ChatClients.attempt_append, ChatClients.attempt_singleton]
      cases hfails : fails c.sends.length with
      | true => exact if_neg (sendBufferToClient_failed hopen hfails).2
      | false =>
        rw [sendBufferToClient_sent hopen hfails]
        exact (if_pos hu).trans (@ih (c.sent cmd body [u]) hus)
    · rw [ChatClients.opens_cons_of_closed hopen, sendBufferToClient_closed hopen]
      exact (if_pos hu).trans (ih hus)

theorem ChatClients.chatUsers_of_attempt {us : List ℕ} {c' : ChatClients}
    (h : c.attempt fails cmd body us = some c') : c'.chatUsers = c.chatUsers ∧ c'.user = c.user := by
  rw [attempt] at h
  split_ifs at h
  cases h
  exact ⟨rfl, rfl⟩

/-- A round that leaves one client out. -/
theorem sendRound_allBut (hu : u ∈ c.chatUsers) : sendRound fails cmd body (some u) true c
    = (c.attempt fails cmd body (c.opens (c.receivers (some u) true))).map fun c => (true, c) := by
  obtain ⟨a, b, hab⟩ := append_of_mem hu
  have hnodup := c.nodup
  rw [hab, nodup_append, nodup_cons] at hnodup
  obtain ⟨-, ⟨hub, -⟩, hdisjoint⟩ := hnodup
  have hua : ∀ v ∈ a, v ≠ u := fun v hv => hdisjoint v hv u mem_cons_self
  have hrest : c.receivers (some u) true = a ++ b := by
    have ha : a.filter (· ≠ u) = a := filter_eq_self.mpr (by simpa using hua)
    have hb : b.filter (· ≠ u) = b :=
      filter_eq_self.mpr fun v hv => by simpa using ne_of_mem_of_not_mem hv hub
    change c.chatUsers.filter (· ≠ u) = a ++ b
    rw [hab, filter_append, filter_cons_of_neg (by simp), ha, hb]
  have hiter : c.chatUsers.dropWhile (· ≠ u) = u :: b := by
    rw [hab, dropWhile_append_of_pos (by simpa using hua),
      dropWhile_cons_of_neg (by simp)]
  have hfirst := @sendLoop_eq fails cmd body c a (u :: b) fun v hv => by
    rw [hab]
    exact mem_append_left _ hv
  rw [← hab] at hfirst
  rw [hrest, ChatClients.opens_append, ChatClients.attempt_append, sendRound]
  simp only [if_true, hiter, hfirst]
  cases hattempt : c.attempt fails cmd body (c.opens a) with
  | none => rfl
  | some c' =>
    obtain ⟨hlist, huser⟩ := ChatClients.chatUsers_of_attempt hattempt
    have hmem : u ∈ c'.chatUsers := hlist ▸ hu
    have hsecond := @sendLoop_eq fails cmd body c' b [] fun v hv => by
      rw [hlist, hab]
      exact mem_append_right _ (mem_cons_of_mem u hv)
    have hopens : c'.opens b = c.opens b := by
      rw [ChatClients.opens, huser]
      rfl
    rw [append_nil, hopens] at hsecond
    rw [Option.map_some, Option.bind_some]
    refine (if_pos hmem).trans ?_
    by_cases hb : b = []
    · subst hb
      rw [show c.opens [] = [] from rfl, ChatClients.attempt_nil]
      rfl
    · exact (if_neg hb).trans hsecond

/-- **Whatever the fuel, the rounds write once to each recipient when no send fails, and are
undefined when one does.** -/
theorem sendRounds_eq {target : Option ℕ} {bNotIter : Bool} {fuel : ℕ}
    (hu : ∀ u ∈ target, u ∈ c.chatUsers) (hfuel : c.chatUsers.length < fuel) :
    sendRounds fails cmd body target bNotIter fuel c
      = c.attempt fails cmd body (c.opens (c.receivers target bNotIter)) := by
  obtain ⟨fuel, rfl⟩ := Nat.exists_eq_succ_of_ne_zero (Nat.ne_of_gt (Nat.zero_lt_of_lt hfuel))
  have hround : ∀ us, sendRound fails cmd body target bNotIter c
      = (c.attempt fails cmd body us).map (fun c => (true, c)) →
      sendRounds fails cmd body target bNotIter (fuel + 1) c = c.attempt fails cmd body us := by
    intro us h
    rw [sendRounds, h]
    cases c.attempt fails cmd body us with
    | none => rfl
    | some c' => rfl
  cases target with
  | none =>
    have h := @sendLoop_eq fails cmd body c c.chatUsers [] fun _ hu => hu
    rw [append_nil] at h
    exact hround _ h
  | some u =>
    have hu : u ∈ c.chatUsers := hu u rfl
    cases bNotIter with
    | true => exact hround _ (sendRound_allBut hu)
    | false =>
      have hone : sendRound fails cmd body (some u) false c
          = some (sendBufferToClient fails cmd body c u) := if_pos hu
      change _ = c.attempt fails cmd body (c.opens [u])
      by_cases hopen : (c.user u).isOpen = true
      · rw [ChatClients.opens_cons_of_open hopen]
        change _ = c.attempt fails cmd body [u]
        rw [ChatClients.attempt_singleton, sendRounds, hone]
        cases hfails : fails c.sends.length with
        | true =>
          -- The client is closed, and the next round begins at its node.
          have hgone := @sendBufferToClient_failed fails cmd body c u hopen hfails
          generalize sendBufferToClient fails cmd body c u = r at hgone
          obtain ⟨fuel, rfl⟩ : ∃ k, fuel = k + 1 :=
            Nat.exists_eq_succ_of_ne_zero (by have := length_pos_of_mem hu; omega)
          have hnext : sendRound fails cmd body (some u) false r.2 = none := if_neg hgone.2
          obtain ⟨ok, c'⟩ := r
          simp only at hgone hnext
          rw [hgone.1]
          simp only [Bool.false_eq_true, if_false]
          rw [sendRounds, hnext]
          rfl
        | false =>
          rw [sendBufferToClient_sent hopen hfails]
          rfl
      · rw [ChatClients.opens_cons_of_closed hopen]
        change _ = c.attempt fails cmd body []
        rw [ChatClients.attempt_nil, sendRounds, hone, sendBufferToClient_closed hopen]
        rfl

/-- **What `SendBuffer` does**: it writes once to each recipient when no send fails, and is
undefined when one does. -/
theorem sendBuffer_eq (fails : ℕ → Bool) (cmd : UInt8) (body : List UInt8)
    (id : Option (List Char)) (bNotIter : Bool) (c : ChatClients) :
    sendBuffer fails cmd body id bNotIter c
      = c.attempt fails cmd body (c.recipients id bNotIter) := by
  cases id with
  | none => exact sendRounds_eq (by simp) (Nat.lt_succ_self _)
  | some id =>
    rw [sendBuffer, ChatClients.recipients]
    cases hfind : c.find id with
    | none => exact ChatClients.attempt_nil.symm
    | some u =>
      refine sendRounds_eq (fun v hv => ?_) (Nat.lt_succ_self _)
      cases hv
      exact mem_of_find?_eq_some hfind

/-! ## The promise -/

/-- The send to the client failed. -/
def SendFailed (fails : ℕ → Bool) (c c' : ChatClients) (u : ℕ) : Prop :=
  ∃ k bytes, c.sends.length ≤ k ∧ c'.sends[k]? = some (u, bytes) ∧ fails k = true

/-- **A command is written once to each of the clients, and the ones whose send failed are
closed.** -/
structure SendsOnce (fails : ℕ → Bool) (cmd : UInt8) (body : List UInt8) (us : List ℕ)
    (c c' : ChatClients) : Prop where
  written : ∃ ws, c'.sends = c.sends ++ ws ∧
    ws.Perm (us.map fun u => (u, chatWire (c.user u).version cmd body))
  closed : ∀ u ∈ c.chatUsers, u ∉ c'.chatUsers ↔ SendFailed fails c c' u

theorem not_sendFailed {us : List ℕ} (h : Succeed fails c.sends.length us.length) (u : ℕ) :
    ¬ SendFailed fails c (c.sent cmd body us) u := by
  rintro ⟨k, bytes, hle, hget, hfails⟩
  have hlt : k < c.sends.length + us.length := by
    have := (List.getElem?_eq_some_iff.mp hget).1
    rwa [ChatClients.length_sends_sent] at this
  have := h (k - c.sends.length) (by omega)
  rw [Nat.add_sub_cancel' hle, hfails] at this
  exact absurd this (by decide)

/-- **A command is written once to each recipient exactly when no send fails and the body fits the
output buffer.** -/
theorem sendsOnce_iff (fails : ℕ → Bool) (cmd : UInt8) (body : List UInt8)
    (id : Option (List Char)) (bNotIter : Bool) (c : ChatClients) :
    (∃ c', sendBuffer fails cmd body id bNotIter c = some c' ∧
      SendsOnce fails cmd body (c.recipients id bNotIter) c c') ↔
      Succeed fails c.sends.length (c.recipients id bNotIter).length ∧
        ∀ u ∈ c.recipients id bNotIter, chatHeaderSize (c.user u).version + body.length ≤ 128 := by
  rw [sendBuffer_eq, ChatClients.attempt]
  by_cases hsucceed : Succeed fails c.sends.length (c.recipients id bNotIter).length
  · rw [if_pos hsucceed]
    constructor
    · rintro ⟨c', hc', ⟨ws, hws, hperm⟩, -⟩
      cases hc'
      obtain rfl := List.append_cancel_left hws
      refine ⟨hsucceed, fun u hu => (encodeBuffer_eq_iff _ cmd body).mp ?_⟩
      obtain ⟨v, -, hv⟩ := List.mem_map.mp
        (hperm.mem_iff.mpr (List.mem_map.mpr ⟨u, hu, rfl⟩))
      obtain ⟨rfl, hbytes⟩ := Prod.mk.inj hv
      exact hbytes
    · rintro ⟨-, hfits⟩
      refine ⟨_, rfl, ⟨_, rfl, ?_⟩, fun u hu => ?_⟩
      · rw [List.map_congr_left fun u hu => congrArg (Prod.mk u)
          ((encodeBuffer_eq_iff _ cmd body).mpr (hfits u hu))]
      · exact iff_of_false (not_not_intro hu) (not_sendFailed hsucceed u)
  · rw [if_neg hsucceed]
    constructor
    · rintro ⟨c', hc', -⟩
      cases hc'
    · exact fun h => absurd h.1 hsucceed

/-- Two clients that are connected. -/
def twoClients : ChatClients where
  myUserId := .owner 0 ['1']
  chatUsers := [1, 2]
  user u := ⟨.user (.owner 0 ['1']) [Char.ofNat u], .connected, 5, 7⟩
  chatUsersClosed := []
  sends := []
  events := []
  nodup := by decide

/-- The first of two clients cannot be reached. -/
theorem not_sendsOnce_failed :
    ¬ ∃ c', sendBuffer (fun k => k == 0) ChatCommand.beep.code [] none true twoClients = some c' ∧
      SendsOnce (fun k => k == 0) ChatCommand.beep.code [] (twoClients.recipients none true)
        twoClients c' := by
  rintro ⟨c', hsend, -⟩
  have hnone : (sendBuffer (fun k => k == 0) ChatCommand.beep.code [] none true
      twoClients).isSome = false := by
    decide
  rw [hsend, Option.isSome_some] at hnone
  exact absurd hnone (by decide)

end Licq
