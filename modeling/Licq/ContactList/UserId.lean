import Mathlib.Data.Char
import Mathlib.Data.List.Lex
import Mathlib.Data.Prod.Lex
import Licq.IniFile.File

/-!
# ContactList/UserId — protocols and accounts

A user is known by a protocol, the account of the owner whose list it is on, and its own account.
Account ids are normalized when a `UserId` is built, so a `UserId` carries that its ids are normal.
-/

namespace Licq

open Text

/-! ## Protocol ids -/

/-- `ICQ_PPID`, "ICQ_" as a number. -/
def icqPpid : ℕ := 0x4943515F

/-- `MSN_PPID`, "MSN_" as a number. -/
def msnPpid : ℕ := 0x4D534E5F

/-- `JABBER_PPID`, "XMPP" as a number. -/
def jabberPpid : ℕ := 0x584D5050

/-- The four low bytes of a protocol id as a string, up to the first null byte. -/
def protocolIdToString (protocolId : ℕ) : List Char :=
  IniFile.cString ([24, 16, 8, 0].map fun k => Char.ofNat (protocolId / 2 ^ k % 256))

/-- What the plugin manager knows of a loaded protocol plugin. -/
structure ProtocolPlugin where
  name : List Char
  protocolId : ℕ
  deriving DecidableEq, Repr

/-- `boost::iequals`. -/
def iequals (a b : List Char) : Bool := a.map Char.toLower == b.map Char.toLower

/-- Get the protocol id from a protocol name; zero when it is unknown. -/
def protocolIdFromString (plugins : List ProtocolPlugin) (s : List Char) : ℕ :=
  if iequals s ['I', 'C', 'Q'] ∨ s = ['I', 'C', 'Q', '_'] ∨ s = ['L', 'i', 'c', 'q'] then icqPpid
  else if iequals s ['M', 'S', 'N'] ∨ s = ['M', 'S', 'N', '_'] then msnPpid
  else if iequals s ['J', 'a', 'b', 'b', 'e', 'r'] ∨ s = ['X', 'M', 'P', 'P'] then jabberPpid
  else
    -- Try the names of all loaded plugins
    match plugins.find? fun p => iequals s p.name || s == protocolIdToString p.protocolId with
    | some plugin => plugin.protocolId
    | none => 0

/-! ## Account ids -/

/-- For AIM, the account id is case insensitive and spaces are ignored. -/
def normalizeId (accountId : List Char) (ppid : ℕ) : List Char :=
  match accountId with
  | [] => []
  | c :: _ =>
    if ppid = icqPpid ∧ c.isDigit = false then (accountId.filter (· ≠ ' ')).map Char.toLower
    else accountId

/-- The lower-case letters that `Char.toLower` gives are 32 code points up. -/
theorem toNat_toLower (c : Char) :
    c.toLower.toNat = if 65 ≤ c.toNat ∧ c.toNat ≤ 90 then c.toNat + 32 else c.toNat := by
  delta Char.toLower
  by_cases h : c.val ≥ 'A'.val ∧ c.val ≤ 'Z'.val
  · have hrange : 65 ≤ c.toNat ∧ c.toNat ≤ 90 := h
    rw [dif_pos h, if_pos hrange]
    exact Nat.mod_eq_of_lt (show c.toNat + 32 < 2 ^ 32 by omega)
  · have hrange : ¬ (65 ≤ c.toNat ∧ c.toNat ≤ 90) := h
    rw [dif_neg h, if_neg hrange]

theorem toLower_toLower (c : Char) : c.toLower.toLower = c.toLower := by
  refine Char.toNat_inj.mp ?_
  rw [toNat_toLower c.toLower, toNat_toLower c]
  split_ifs <;> omega

theorem toLower_ne {c d : Char} (hc : c ≠ d) (hd : d.toNat < 97) : c.toLower ≠ d := by
  intro h
  have hnat := congrArg Char.toNat h
  rw [toNat_toLower] at hnat
  split_ifs at hnat with hup
  · omega
  · exact hc (Char.toNat_inj.mp hnat)

/-- **Normalizing twice is normalizing once.** -/
theorem normalizeId_normalizeId (accountId : List Char) (ppid : ℕ) :
    normalizeId (normalizeId accountId ppid) ppid = normalizeId accountId ppid := by
  obtain rfl | hne := eq_or_ne accountId []
  · rfl
  obtain ⟨c, s, rfl⟩ := List.exists_cons_of_ne_nil hne
  by_cases h : ppid = icqPpid ∧ c.isDigit = false
  · have hn : normalizeId (c :: s) ppid = ((c :: s).filter (· ≠ ' ')).map Char.toLower := if_pos h
    rw [hn]
    cases hr : ((c :: s).filter (· ≠ ' ')).map Char.toLower with
    | nil => rfl
    | cons d t =>
      rw [normalizeId]
      split_ifs
      · rw [← hr, List.filter_eq_self.mpr, List.map_map]
        · exact congrArg (fun f => List.map f _) (funext toLower_toLower)
        · intro x hx
          obtain ⟨y, hy, rfl⟩ := List.mem_map.mp hx
          have hy : y ≠ ' ' := by simpa using (List.mem_filter.mp hy).2
          simpa using toLower_ne hy (by decide)
      · rfl
  · have hn : normalizeId (c :: s) ppid = c :: s := if_neg h
    rw [hn, hn]

theorem nul_notMem_normalizeId {accountId : List Char} (h : Char.ofNat 0 ∉ accountId) (ppid : ℕ) :
    Char.ofNat 0 ∉ normalizeId accountId ppid := by
  obtain rfl | hne := eq_or_ne accountId []
  · exact h
  obtain ⟨c, s, rfl⟩ := List.exists_cons_of_ne_nil hne
  rw [normalizeId]
  split_ifs
  · intro hmem
    obtain ⟨x, hx, hlow⟩ := List.mem_map.mp hmem
    refine toLower_ne ?_ (by decide) hlow
    rintro rfl
    exact h (List.mem_filter.mp hx).1
  · exact h

/-! ## User ids -/

/-- The identity of a user. -/
structure UserId where
  protocolId : ℕ
  ownerAccountId : List Char
  accountId : List Char
  owner_normal : normalizeId ownerAccountId protocolId = ownerAccountId
  normal : normalizeId accountId protocolId = accountId
  deriving DecidableEq

namespace UserId

/-- The id of an owner. -/
def owner (protocolId : ℕ) (accountId : List Char) : UserId where
  protocolId := protocolId
  ownerAccountId := normalizeId accountId protocolId
  accountId := normalizeId accountId protocolId
  owner_normal := normalizeId_normalizeId accountId protocolId
  normal := normalizeId_normalizeId accountId protocolId

/-- The id of a user on the list of an owner. -/
def user (ownerId : UserId) (accountId : List Char) : UserId where
  protocolId := ownerId.protocolId
  ownerAccountId := ownerId.ownerAccountId
  accountId := normalizeId accountId ownerId.protocolId
  owner_normal := ownerId.owner_normal
  normal := normalizeId_normalizeId accountId ownerId.protocolId

def ownerId (userId : UserId) : UserId := owner userId.protocolId userId.ownerAccountId

/-- The user id is that of an owner. -/
def IsOwner (userId : UserId) : Prop := userId.accountId = userId.ownerAccountId

def toString (userId : UserId) : List Char :=
  protocolIdToString userId.protocolId ++ userId.accountId

theorem ext_ids {a b : UserId} (hp : a.protocolId = b.protocolId)
    (ho : a.ownerAccountId = b.ownerAccountId) (ha : a.accountId = b.accountId) : a = b := by
  obtain ⟨p, o, i, h, h'⟩ := a
  obtain ⟨q, r, j, k, k'⟩ := b
  obtain rfl : p = q := hp
  obtain rfl : o = r := ho
  obtain rfl : i = j := ha
  rfl

/-- An owner id is rebuilt from its protocol and its account. -/
theorem owner_eq {o : UserId} (h : o.IsOwner) : owner o.protocolId o.accountId = o :=
  ext_ids rfl (o.normal.trans h) o.normal

/-- A user id is rebuilt from its owner and its account. -/
theorem user_eq {o u : UserId} (hp : u.protocolId = o.protocolId)
    (ho : u.ownerAccountId = o.ownerAccountId) : user o u.accountId = u :=
  ext_ids hp.symm ho.symm ((congrArg (normalizeId u.accountId) hp.symm).trans u.normal)

theorem ownerId_user {o : UserId} (h : o.IsOwner) (accountId : List Char) :
    (user o accountId).ownerId = o :=
  ext_ids rfl o.owner_normal (o.owner_normal.trans (Eq.symm h))

/-- `operator<`: by protocol, then by the owner's account, then by the own account. -/
instance : LinearOrder UserId :=
  LinearOrder.lift' (fun u => toLex (u.protocolId, toLex (u.ownerAccountId, u.accountId)))
    fun a b h => by
      rw [toLex_inj, Prod.mk.injEq, toLex_inj, Prod.mk.injEq] at h
      exact ext_ids h.1 h.2.1 h.2.2

end UserId

end Licq
