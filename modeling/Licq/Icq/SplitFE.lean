import Licq.ContactList.UserId
import Licq.Text.Bytes
import Licq.Text.Translator

/-!
# Icq/SplitFE — URLs and contact lists

The body of a URL message is the description and the URL, that of a contact list its length and for
every contact its id and its alias.  Bytes 0xFE stand between them.  The other side splits the body
at these bytes and converts the parts.

The **main result** `urlAndContacts_iff` says which URLs and contact lists come out as they were
sent: nothing in the encoding of the peer may have the byte 0xFE but the URL, the line ends of the
description are not turned back, and a URL that is longer than a message throws.
-/

namespace Licq

open Text List

/-- What a call does that throws. -/
inductive OutOfRange
  | outOfRange
  deriving DecidableEq, Repr

/-- `IcqProtocol::MaxMessageSize` -/
def maxMessageSize : ℕ := 6800

/-- A size as an `int`. -/
def sizeAsInt (n : ℕ) : ℤ := (n : ℤ).bmod (2 ^ 32)

/-! ## Splitting -/

/-- The parts between the bytes 0xFE; at most `maxcount` of them, if it is not 0. -/
def splitParts : ℕ → List UInt8 → List (List UInt8)
  | _, [] => [[]]
  | maxcount, c :: s =>
    if maxcount ≠ 1 ∧ c = 0xFE then [] :: splitParts (maxcount - 1) s
    else (splitParts maxcount s).modifyHead (c :: ·)

/-- `IcqProtocol::splitFE` -/
def splitFE (s : List UInt8) (maxcount : ℕ) (userEncoding : Encoding) : List (List UInt8) :=
  (splitParts maxcount s).map userEncoding.toUtf8

theorem splitParts_one (s : List UInt8) : splitParts 1 s = [s] := by
  induction s with
  | nil => rfl
  | cons c s ih =>
    rw [splitParts, if_neg fun hand => hand.1 rfl, ih]
    rfl

theorem splitParts_append {a : List UInt8} (h : 0xFE ∉ a) {maxcount : ℕ} (hcount : maxcount ≠ 1)
    (s : List UInt8) : splitParts maxcount (a ++ 0xFE :: s) = a :: splitParts (maxcount - 1) s := by
  induction a with
  | nil => exact if_pos ⟨hcount, rfl⟩
  | cons c a ih =>
    have hc : c ≠ 0xFE := fun heq => h (heq ▸ mem_cons_self)
    rw [cons_append, splitParts, if_neg fun hand => hc hand.2,
      ih fun hmem => h (mem_cons_of_mem c hmem)]
    rfl

/-- **The first part** is what was put before the byte, up to a byte 0xFE of its own. -/
theorem splitParts_first (x s : List UInt8) {maxcount : ℕ} (hcount : maxcount ≠ 1) :
    ∃ a rest, splitParts maxcount (x ++ 0xFE :: s) = a :: rest ∧ 0xFE ∉ a ∧ a <+: x ∧
      (0xFE ∉ x → a = x ∧ rest = splitParts (maxcount - 1) s) := by
  by_cases h : 0xFE ∈ x
  · obtain ⟨a, b, rfl, ha⟩ := eq_append_cons_of_mem h
    refine ⟨a, splitParts (maxcount - 1) (b ++ 0xFE :: s), ?_, ha, prefix_append _ _,
      fun hnot => absurd h hnot⟩
    rw [append_assoc, cons_append, splitParts_append ha hcount]
  · exact ⟨x, _, splitParts_append h hcount s, h, prefix_rfl, fun _ => ⟨rfl, rfl⟩⟩

/-! ## URLs -/

/-- `EventUrl` -/
structure EventUrl where
  url : List UInt8
  urlDescription : List UInt8
  deriving DecidableEq, Repr

/-- `IcqProtocol::parseUrlEvent` -/
def parseUrlEvent (s : List UInt8) (userEncoding : Encoding) : Option EventUrl :=
  match splitFE s 2 userEncoding with
  | part0 :: part1 :: _ => some ⟨returnToUnix part1, part0⟩
  | _ => none

/-- The description in the message is cut off. -/
def cutsDescription (bDirect : Bool) (url m : List UInt8) : Bool :=
  !bDirect && sizeAsInt (url.length + m.length + 2) > maxMessageSize

/-- The description as far as it is sent. -/
def sentDescription (userEncoding : Encoding) (bDirect : Bool) (url message : List UInt8) :
    List UInt8 :=
  let m := userEncoding.fromUtf8 (returnToDos message)
  if cutsDescription bDirect url m then m.take (maxMessageSize - url.length - 2) else m

/-- The body that `IcqProtocol::icqSendUrl` sends; to erase from behind the end throws. -/
def icqSendUrl (userEncoding : Encoding) (bDirect : Bool) (url message : List UInt8) :
    Except OutOfRange (List UInt8) :=
  if cutsDescription bDirect url (userEncoding.fromUtf8 (returnToDos message)) ∧
      maxMessageSize < url.length + 2 then .error .outOfRange
  else .ok (sentDescription userEncoding bDirect url message ++ 0xFE :: userEncoding.fromUtf8 url)

/-- The body is built, it is not too large for the server, and the same URL and description come out
of it. -/
def UrlArrives (userEncoding : Encoding) (bDirect : Bool) (url message : List UInt8) : Prop :=
  ∃ m, icqSendUrl userEncoding bDirect url message = .ok m ∧
    parseUrlEvent m userEncoding = some ⟨url, message⟩ ∧
    (bDirect = false → m.length ≤ maxMessageSize)

/-- What it takes for a URL message to arrive. -/
structure UrlSound (userEncoding : Encoding) (bDirect : Bool) (url message : List UInt8) : Prop where
  room : cutsDescription bDirect url (userEncoding.fromUtf8 (returnToDos message)) = true →
    url.length + 2 ≤ maxMessageSize
  size : bDirect = false → (sentDescription userEncoding bDirect url message).length + 1 +
    (userEncoding.fromUtf8 url).length ≤ maxMessageSize
  separated : 0xFE ∉ sentDescription userEncoding bDirect url message
  /-- Nothing is cut off and no carriage return is put in; or one is put in at the end, and what
  is sent stops before it. -/
  description :
    returnToDos message = message ∧
        userEncoding.toUtf8 (userEncoding.fromUtf8 message) = message ∧
        sentDescription userEncoding bDirect url message = userEncoding.fromUtf8 message ∨
      returnToDos message = message ++ [cr] ∧
        userEncoding.toUtf8 (sentDescription userEncoding bDirect url message) = message
  encoded : userEncoding.toUtf8 (userEncoding.fromUtf8 url) = url
  unix : cr ∉ url

section Url

variable {userEncoding : Encoding} {bDirect : Bool} {url message : List UInt8}

theorem sentDescription_isPrefix : sentDescription userEncoding bDirect url message <+:
    userEncoding.fromUtf8 (returnToDos message) := by
  rw [sentDescription]
  split_ifs
  · exact take_prefix _ _
  · exact prefix_rfl

theorem parseUrlEvent_eq_some_iff {s : List UInt8} {e : EventUrl} :
    parseUrlEvent s userEncoding = some e ↔ ∃ part0 part1 rest,
      splitParts 2 s = part0 :: part1 :: rest ∧
      e = ⟨returnToUnix (userEncoding.toUtf8 part1), userEncoding.toUtf8 part0⟩ := by
  rw [parseUrlEvent, splitFE]
  match splitParts 2 s with
  | [] =>
    constructor
    · intro h
      cases h
    · rintro ⟨_, _, _, h, -⟩
      cases h
  | [part0] =>
    constructor
    · intro h
      cases h
    · rintro ⟨_, _, _, h, -⟩
      cases h
  | part0 :: part1 :: rest =>
    constructor
    · intro h
      exact ⟨part0, part1, rest, rfl, (Option.some.inj h).symm⟩
    · rintro ⟨_, _, _, h, rfl⟩
      cases h
      rfl

/-- **The URL** comes out of its part. -/
theorem url_part_iff : returnToUnix (userEncoding.toUtf8 (userEncoding.fromUtf8 url)) = url ↔
    userEncoding.toUtf8 (userEncoding.fromUtf8 url) = url ∧ cr ∉ url := by
  constructor
  · intro h
    have hprefix := @Encoding.toUtf8_fromUtf8 userEncoding url
    have hlength := length_returnToUnix_le (userEncoding.toUtf8 (userEncoding.fromUtf8 url))
    rw [h] at hlength
    have heq := hprefix.eq_of_length_le hlength
    exact ⟨heq, returnToUnix_eq_self_iff.mp (by rwa [heq] at h)⟩
  · rintro ⟨heq, hcr⟩
    rw [heq, returnToUnix_eq_self_iff.mpr hcr]

/-- **The description** comes out of a beginning of what it was encoded to. -/
theorem description_part {a : List UInt8} (hsep : 0xFE ∉ a)
    (ha : a <+: sentDescription userEncoding bDirect url message)
    (hfirst : 0xFE ∉ sentDescription userEncoding bDirect url message →
      a = sentDescription userEncoding bDirect url message)
    (h : userEncoding.toUtf8 a = message) :
    a = sentDescription userEncoding bDirect url message ∧
      (returnToDos message = message ∧
          userEncoding.toUtf8 (userEncoding.fromUtf8 message) = message ∧
          sentDescription userEncoding bDirect url message = userEncoding.fromUtf8 message ∨
        returnToDos message = message ++ [cr] ∧
          userEncoding.toUtf8 (sentDescription userEncoding bDirect url message) = message) := by
  have hsent := @sentDescription_isPrefix userEncoding bDirect url message
  have hprefix : message <+: returnToDos message := by
    have hmono := @Encoding.toUtf8_mono userEncoding _ _ (ha.trans hsent)
    rw [h] at hmono
    exact hmono.trans (Encoding.toUtf8_fromUtf8 _)
  rcases returnToDos_cases hprefix with hdos | hdos
  · rw [hdos] at hsent
    have heq := Encoding.eq_fromUtf8 (ha.trans hsent) h
    have hall := hsent.eq_of_length_le (heq ▸ ha.length_le)
    exact ⟨heq.trans hall.symm,
      .inl ⟨hdos, Encoding.toUtf8_fromUtf8_of_isPrefix (ha.trans hsent) h, hall⟩⟩
  · rw [hdos] at hsent
    have hnot := Encoding.notMem_fromUtf8_return (ha.trans hsent) h hsep
    have heq := hfirst fun hmem => hnot (hsent.subset hmem)
    exact ⟨heq, .inr ⟨hdos, heq ▸ h⟩⟩

theorem icqSendUrl_eq_ok_iff {m : List UInt8} : icqSendUrl userEncoding bDirect url message = .ok m ↔
    (cutsDescription bDirect url (userEncoding.fromUtf8 (returnToDos message)) = true →
      url.length + 2 ≤ maxMessageSize) ∧
    m = sentDescription userEncoding bDirect url message ++ 0xFE :: userEncoding.fromUtf8 url := by
  rw [icqSendUrl]
  split_ifs with h
  · constructor
    · intro heq
      cases heq
    · exact fun hand => absurd (hand.1 h.1) (Nat.not_le.mpr h.2)
  · constructor
    · intro heq
      exact ⟨fun hcuts => Nat.le_of_not_lt fun hlt => h ⟨hcuts, hlt⟩, (Except.ok.inj heq).symm⟩
    · rintro ⟨-, rfl⟩
      rfl

/-- **Which URL messages arrive.** -/
theorem urlArrives_iff :
    UrlArrives userEncoding bDirect url message ↔ UrlSound userEncoding bDirect url message := by
  obtain ⟨a, rest, hparts, hsep, ha, hfirst⟩ := splitParts_first
    (sentDescription userEncoding bDirect url message) (userEncoding.fromUtf8 url)
    (show 2 ≠ 1 by decide)
  have hlength : ∀ s t : List UInt8, (s ++ 0xFE :: t).length = s.length + 1 + t.length := by
    intro s t
    rw [length_append, length_cons]
    omega
  constructor
  · rintro ⟨m, hm, hparse, hsize⟩
    obtain ⟨hroom, rfl⟩ := icqSendUrl_eq_ok_iff.mp hm
    obtain ⟨part0, part1, rest', hparts', he⟩ := parseUrlEvent_eq_some_iff.mp hparse
    obtain ⟨rfl, hrest⟩ := List.cons.inj (hparts.symm.trans hparts')
    obtain ⟨hurl, hmessage⟩ := EventUrl.mk.inj he
    obtain ⟨heq, hdescription⟩ :=
      description_part hsep ha (fun hnot => (hfirst hnot).1) hmessage.symm
    have hnot : 0xFE ∉ sentDescription userEncoding bDirect url message := heq ▸ hsep
    obtain rfl : part1 = userEncoding.fromUtf8 url := by
      have hone := (hfirst hnot).2
      rw [splitParts_one, hrest] at hone
      exact (List.cons.inj hone).1
    obtain ⟨hencoded, hunix⟩ := url_part_iff.mp hurl.symm
    exact ⟨hroom, fun hdirect => hlength _ _ ▸ hsize hdirect, hnot, hdescription, hencoded, hunix⟩
  · rintro ⟨hroom, hsize, hnot, hdescription, hencoded, hunix⟩
    refine ⟨_, icqSendUrl_eq_ok_iff.mpr ⟨hroom, rfl⟩, ?_, fun hdirect => ?_⟩
    · obtain ⟨rfl, rfl⟩ := hfirst hnot
      rw [splitParts_one] at hparts
      refine parseUrlEvent_eq_some_iff.mpr ⟨_, _, [], hparts, ?_⟩
      have hmessage :
          userEncoding.toUtf8 (sentDescription userEncoding bDirect url message) = message := by
        rcases hdescription with ⟨-, hback, hsent⟩ | ⟨-, hsent⟩
        · rw [hsent, hback]
        · exact hsent
      rw [url_part_iff.mpr ⟨hencoded, hunix⟩, hmessage]
    · rw [hlength]
      exact hsize hdirect

end Url

/-! ## Contact lists -/

/-- `EventContactList::Contact` -/
structure EventContact where
  userId : UserId
  alias_ : List UInt8
  deriving DecidableEq

/-- The loop of `parseContactEvent`, on the parts that are left; `at` throws where there are none. -/
def readContacts (myOwnerId : UserId) : ℕ → List (List UInt8) → Option (List EventContact)
  | 0, _ => some []
  | count + 1, id :: alias_ :: parts =>
    (readContacts myOwnerId count parts).map (⟨.user myOwnerId (byteChars id), alias_⟩ :: ·)
  | _ + 1, _ => none

/-- The number of contacts, as a `size_t`. -/
def contactCount (part : List UInt8) : ℕ := (atoi (byteChars part) % 2 ^ 64).toNat

/-- `IcqProtocol::parseContactEvent`; `none` where it returns a null pointer. -/
def parseContactEvent (myOwnerId : UserId) (s : List UInt8) (userEncoding : Encoding) :
    Except OutOfRange (Option (List EventContact)) :=
  let parts := splitFE s 0 userEncoding
  let count := contactCount parts.headI
  if parts.length < (count * 2 + 2) % 2 ^ 64 then .ok none
  else
    match readContacts myOwnerId count parts.tail with
    | none => .error .outOfRange
    | some vc => .ok (some vc)

/-- What is put into the body for a contact. -/
def contactParts (userEncoding : Encoding) (contact : List UInt8 × List UInt8) : List UInt8 :=
  contact.1 ++ 0xFE :: (userEncoding.fromUtf8 contact.2 ++ [0xFE])

/-- The body of a contact list, for ids and the aliases that go with them. -/
def contactBody (userEncoding : Encoding) (contacts : List (List UInt8 × List UInt8)) : List UInt8 :=
  decimalBytes contacts.length ++ 0xFE :: contacts.flatMap (contactParts userEncoding)

/-- The users with their aliases; one that is not on the list has none. -/
def withAliases (myOwnerId : UserId) (getAlias : UserId → Option (List UInt8))
    (users : List (List UInt8)) : List (List UInt8 × List UInt8) :=
  users.map fun id => (id, (getAlias (.user myOwnerId (byteChars id))).getD [])

/-- The contacts that `icqSendContactList` shows as sent. -/
def sentContacts (myOwnerId : UserId) (contacts : List (List UInt8 × List UInt8)) :
    List EventContact :=
  contacts.map fun contact => ⟨.user myOwnerId (byteChars contact.1), contact.2⟩

/-- The body that `IcqProtocol::icqSendContactList` sends; a list that is too large for the server
is not sent. -/
def icqSendContactList (userEncoding : Encoding) (bDirect : Bool)
    (contacts : List (List UInt8 × List UInt8)) : Option (List UInt8) :=
  let m := contactBody userEncoding contacts
  if bDirect = false ∧ sizeAsInt m.length > maxMessageSize then none else some m

/-- The same contacts come out of the body, and what is sent is not too large for the server. -/
def ContactsArrive (userEncoding : Encoding) (bDirect : Bool) (myOwnerId : UserId)
    (contacts : List (List UInt8 × List UInt8)) : Prop :=
  parseContactEvent myOwnerId (contactBody userEncoding contacts) userEncoding
      = .ok (some (sentContacts myOwnerId contacts)) ∧
    ∀ m, icqSendContactList userEncoding bDirect contacts = some m → bDirect = false →
      m.length ≤ maxMessageSize

/-- What it takes for a contact to arrive. -/
structure ContactSound (userEncoding : Encoding) (myOwnerId : UserId)
    (contact : List UInt8 × List UInt8) : Prop where
  idSeparated : 0xFE ∉ contact.1
  id : UserId.user myOwnerId (byteChars (userEncoding.toUtf8 contact.1))
    = .user myOwnerId (byteChars contact.1)
  aliasSeparated : 0xFE ∉ userEncoding.fromUtf8 contact.2
  alias_ : userEncoding.toUtf8 (userEncoding.fromUtf8 contact.2) = contact.2

/-- What it takes for a contact list to arrive. -/
structure ContactsSound (userEncoding : Encoding) (bDirect : Bool) (myOwnerId : UserId)
    (contacts : List (List UInt8 × List UInt8)) : Prop where
  count : contactCount (userEncoding.toUtf8 (decimalBytes contacts.length)) = contacts.length
  contact : ∀ contact ∈ contacts, ContactSound userEncoding myOwnerId contact
  /-- The size is no negative number as an `int`. -/
  size : bDirect = false → sizeAsInt (contactBody userEncoding contacts).length ≤ maxMessageSize →
    (contactBody userEncoding contacts).length ≤ maxMessageSize

section Contacts

variable {userEncoding : Encoding} {bDirect : Bool} {myOwnerId : UserId}
  {contacts : List (List UInt8 × List UInt8)}

theorem mem_byteChars {s : List UInt8} : Char.ofNat 0xFE ∈ byteChars s ↔ 0xFE ∈ s := by
  rw [byteChars, mem_map]
  constructor
  · rintro ⟨c, hc, heq⟩
    have hnat := congrArg Char.toNat heq
    rw [toNat_byteChar] at hnat
    have hc' : c = 0xFE := UInt8.toNat_inj.mp hnat
    exact hc' ▸ hc
  · exact fun h => ⟨0xFE, h, rfl⟩

theorem mem_normalizeId {s : List Char} {ppid : ℕ} :
    Char.ofNat 0xFE ∈ normalizeId s ppid ↔ Char.ofNat 0xFE ∈ s := by
  have hlower : ∀ c : Char, c.toLower = Char.ofNat 0xFE ↔ c = Char.ofNat 0xFE := by
    intro c
    rw [← Char.toNat_inj, ← Char.toNat_inj, toNat_toLower,
      show (Char.ofNat 0xFE).toNat = 254 from rfl]
    split_ifs <;> omega
  cases s with
  | nil => exact Iff.rfl
  | cons c s =>
    rw [normalizeId]
    split_ifs
    · simp only [mem_map, mem_filter, hlower]
      constructor
      · rintro ⟨d, ⟨hd, -⟩, rfl⟩
        exact hd
      · exact fun h => ⟨_, ⟨h, rfl⟩, rfl⟩
    · exact Iff.rfl

theorem readContacts_length {count : ℕ} {parts : List (List UInt8)} {vc : List EventContact}
    (h : readContacts myOwnerId count parts = some vc) : vc.length = count := by
  fun_induction readContacts myOwnerId count parts generalizing vc with
  | case1 parts =>
    cases h
    rfl
  | case2 count id alias_ parts ih =>
    obtain ⟨vc', hvc, rfl⟩ := Option.map_eq_some_iff.mp h
    rw [length_cons, ih hvc]
  | case3 => cases h

/-- An id that has the byte 0xFE does not come out. -/
theorem user_ne_of_mem {id a : List UInt8} (hid : 0xFE ∈ id) (ha : 0xFE ∉ a) :
    UserId.user myOwnerId (byteChars (userEncoding.toUtf8 a)) ≠ .user myOwnerId (byteChars id) := by
  intro heq
  have haccount : normalizeId (byteChars (userEncoding.toUtf8 a)) myOwnerId.protocolId
      = normalizeId (byteChars id) myOwnerId.protocolId := congrArg UserId.accountId heq
  have hmem := (@mem_normalizeId _ myOwnerId.protocolId).mpr (mem_byteChars.mpr hid)
  rw [← haccount, mem_normalizeId, mem_byteChars] at hmem
  exact Encoding.notMem_toUtf8 ha hmem

theorem readContacts_cons {count : ℕ} {part0 part1 : List UInt8} {parts : List (List UInt8)}
    {c : EventContact} {vc : List EventContact} :
    readContacts myOwnerId (count + 1) (part0 :: part1 :: parts) = some (c :: vc) ↔
      (UserId.user myOwnerId (byteChars part0) = c.userId ∧ part1 = c.alias_) ∧
        readContacts myOwnerId count parts = some vc := by
  rw [readContacts, Option.map_eq_some_iff]
  constructor
  · rintro ⟨vc', hvc, heq⟩
    cases heq
    exact ⟨⟨rfl, rfl⟩, hvc⟩
  · rintro ⟨⟨hid, halias⟩, hvc⟩
    refine ⟨vc, hvc, ?_⟩
    rw [hid, halias]

/-- **The contacts**, one by one. -/
theorem readContacts_iff :
    readContacts myOwnerId contacts.length
        ((splitParts 0 (contacts.flatMap (contactParts userEncoding))).map userEncoding.toUtf8)
      = some (sentContacts myOwnerId contacts) ↔
      ∀ contact ∈ contacts, ContactSound userEncoding myOwnerId contact := by
  induction contacts with
  | nil => exact iff_of_true rfl (forall_mem_nil _)
  | cons contact contacts ih =>
    have hbody : (contact :: contacts).flatMap (contactParts userEncoding)
        = contact.1 ++ 0xFE :: (userEncoding.fromUtf8 contact.2 ++
          0xFE :: contacts.flatMap (contactParts userEncoding)) := by
      rw [flatMap_cons, contactParts, append_assoc, cons_append, append_assoc]
      rfl
    obtain ⟨a, rest, hparts, hsep, -, hfirst⟩ := splitParts_first contact.1
      (userEncoding.fromUtf8 contact.2 ++ 0xFE :: contacts.flatMap (contactParts userEncoding))
      (show 0 ≠ 1 by decide)
    obtain ⟨b, rest', hparts', hsep', hb, hfirst'⟩ := splitParts_first
      (userEncoding.fromUtf8 contact.2) (contacts.flatMap (contactParts userEncoding))
      (show 0 ≠ 1 by decide)
    rw [hbody, hparts, forall_mem_cons, ← ih, sentContacts, map_cons, ← sentContacts]
    constructor
    · intro h
      match rest, hfirst with
      | [], _ => cases h
      | part1 :: rest, hfirst =>
        obtain ⟨⟨hid, halias⟩, hvc⟩ := readContacts_cons.mp h
        have hnot : 0xFE ∉ contact.1 := fun hmem => user_ne_of_mem hmem hsep hid
        obtain ⟨rfl, hrest⟩ := hfirst hnot
        obtain ⟨rfl, rfl⟩ := List.cons.inj (hrest.trans hparts')
        have hwhole := Encoding.eq_fromUtf8 hb halias
        have hnot' : 0xFE ∉ userEncoding.fromUtf8 contact.2 := hwhole ▸ hsep'
        obtain ⟨-, rfl⟩ := hfirst' hnot'
        exact ⟨⟨hnot, hid, hnot', hwhole ▸ halias⟩, hvc⟩
    · rintro ⟨hsound, hvc⟩
      obtain ⟨rfl, rfl⟩ := hfirst hsound.idSeparated
      obtain ⟨rfl, rfl⟩ := hfirst' hsound.aliasSeparated
      rw [show 0 - 1 = 0 from rfl, hparts']
      exact readContacts_cons.mpr ⟨⟨hsound.id, hsound.alias_⟩, hvc⟩

theorem length_splitParts (s : List UInt8) :
    (splitParts 0 s).length = s.countP (· = 0xFE) + 1 := by
  induction s with
  | nil => rfl
  | cons c s ih =>
    rw [splitParts, countP_cons]
    by_cases hc : c = 0xFE
    · rw [if_pos ⟨by decide, hc⟩, if_pos (decide_eq_true hc), length_cons, ih]
    · rw [if_neg fun hand => hc hand.2, if_neg (by simpa using hc), length_modifyHead, ih]

theorem notMem_decimalBytes (n : ℕ) : 0xFE ∉ decimalBytes n := fun h =>
  absurd (mem_decimalBytes h).2 (by decide)

theorem le_length_splitParts_contacts : contacts.length * 2 + 2
    ≤ (splitParts 0 (contactBody userEncoding contacts)).length := by
  rw [length_splitParts, contactBody, countP_append, countP_cons,
    if_pos (decide_eq_true rfl)]
  have hcount : contacts.length * 2
      ≤ (contacts.flatMap (contactParts userEncoding)).countP (· = 0xFE) := by
    induction contacts with
    | nil => exact Nat.le_refl 0
    | cons contact contacts ih =>
      rw [flatMap_cons, countP_append, contactParts, countP_append,
        countP_cons, if_pos (decide_eq_true rfl), countP_append, length_cons]
      have hone : [(0xFE : UInt8)].countP (· = 0xFE) = 1 := rfl
      omega
  omega

theorem parseContactEvent_eq_some_iff {s : List UInt8} {vc : List EventContact} :
    parseContactEvent myOwnerId s userEncoding = .ok (some vc) ↔
      (contactCount (splitFE s 0 userEncoding).headI * 2 + 2) % 2 ^ 64
          ≤ (splitFE s 0 userEncoding).length ∧
        readContacts myOwnerId (contactCount (splitFE s 0 userEncoding).headI)
          (splitFE s 0 userEncoding).tail = some vc := by
  rw [parseContactEvent]
  split_ifs with hfew
  · constructor
    · intro h
      cases h
    · exact fun h => absurd h.1 (not_le.mpr hfew)
  · rw [not_lt] at hfew
    cases readContacts myOwnerId (contactCount (splitFE s 0 userEncoding).headI)
        (splitFE s 0 userEncoding).tail with
    | none =>
      constructor
      · intro h
        cases h
      · rintro ⟨-, h⟩
        cases h
    | some vc' =>
      constructor
      · intro h
        cases h
        exact ⟨hfew, rfl⟩
      · rintro ⟨-, h⟩
        cases h
        rfl

/-- **Which contact lists arrive.** -/
theorem contactsArrive_iff : ContactsArrive userEncoding bDirect myOwnerId contacts ↔
    ContactsSound userEncoding bDirect myOwnerId contacts := by
  have hparts : splitFE (contactBody userEncoding contacts) 0 userEncoding
      = userEncoding.toUtf8 (decimalBytes contacts.length) ::
        (splitParts 0 (contacts.flatMap (contactParts userEncoding))).map userEncoding.toUtf8 := by
    rw [splitFE, contactBody, splitParts_append (notMem_decimalBytes _) (by decide)]
    rfl
  have hle := @le_length_splitParts_contacts userEncoding contacts
  have hlength : (splitFE (contactBody userEncoding contacts) 0 userEncoding).length
      = (splitParts 0 (contactBody userEncoding contacts)).length := length_map _
  have hsize : (∀ m, icqSendContactList userEncoding bDirect contacts = some m → bDirect = false →
      m.length ≤ maxMessageSize) ↔ (bDirect = false →
        sizeAsInt (contactBody userEncoding contacts).length ≤ maxMessageSize →
        (contactBody userEncoding contacts).length ≤ maxMessageSize) := by
    rw [icqSendContactList]
    split_ifs with hlarge
    · exact iff_of_true (fun m hm => by cases hm) fun _ hle => absurd hle (not_le.mpr hlarge.2)
    · constructor
      · exact fun h hdirect _ => h _ rfl hdirect
      · intro h m hm hdirect
        cases hm
        exact h hdirect (not_lt.mp fun hlt => hlarge ⟨hdirect, hlt⟩)
  rw [ContactsArrive, hsize, parseContactEvent_eq_some_iff, hlength, hparts,
    headI_cons, tail_cons]
  constructor
  · rintro ⟨⟨-, hvc⟩, hsize⟩
    have hcount := readContacts_length hvc
    rw [sentContacts, length_map] at hcount
    rw [← hcount] at hvc
    exact ⟨hcount.symm, readContacts_iff.mp hvc, hsize⟩
  · rintro ⟨hcount, hcontacts, hsize⟩
    rw [hcount]
    exact ⟨⟨(Nat.mod_le _ _).trans hle, readContacts_iff.mpr hcontacts⟩, hsize⟩

end Contacts

/-- **Main result.**  Which URLs and which contact lists come out as they were sent. -/
theorem urlAndContacts_iff (userEncoding : Encoding) (bDirect : Bool) :
    (∀ url message : List UInt8,
      UrlArrives userEncoding bDirect url message ↔ UrlSound userEncoding bDirect url message) ∧
    ∀ (myOwnerId : UserId) (getAlias : UserId → Option (List UInt8)) (users : List (List UInt8)),
      ContactsArrive userEncoding bDirect myOwnerId (withAliases myOwnerId getAlias users) ↔
        ContactsSound userEncoding bDirect myOwnerId (withAliases myOwnerId getAlias users) :=
  ⟨fun _ _ => urlArrives_iff, fun _ _ _ => contactsArrive_iff⟩

/-- A URL that is longer than a message throws, and a description of two lines comes out with a
carriage return in it. -/
theorem not_urlArrives :
    (∀ m, icqSendUrl .utf8 false (List.replicate 6799 0x61) [] ≠ .ok m) ∧
      ¬ UrlArrives .utf8 false [0x61] [0x62, lf, 0x63] ∧
      parseUrlEvent [0x62, lf, cr, 0x63, 0xFE, 0x61] .utf8 = some ⟨[0x61], [0x62, lf, cr, 0x63]⟩ := by
  refine ⟨fun m hm => ?_, fun h => ?_, rfl⟩
  · have hroom := (icqSendUrl_eq_ok_iff.mp hm).1 (by
      rw [cutsDescription, List.length_replicate]
      rfl)
    rw [List.length_replicate] at hroom
    exact absurd hroom (by decide)
  · rcases (urlArrives_iff.mp h).description with ⟨hdos, -, -⟩ | ⟨hdos, -⟩
    · exact absurd hdos (by decide)
    · exact absurd hdos (by decide)

end Licq
