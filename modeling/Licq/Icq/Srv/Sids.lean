import Licq.ContactList.UserId
import Licq.Data.Steps
import Licq.Icq.Srv.ServerList

/-!
# Icq/Srv/Sids — ids for new items on the server

A new item of the server list needs an id that no other item has.  `generateSid` draws a number and
counts up from it until neither the owner's privacy item nor a user nor a group has it.  Users and
groups send it from 0x7FFF back to 1, the privacy item does not.

An export draws an id for every user that it is called with, and gives it to the user before it
draws the next one.  The **main result** `generateSid_exportUsers_iff` says when an id that is drawn
is a free one, and when all ids of an export are new.
-/

open Wire

namespace Licq

/-! ## The search -/

/-- The user gets an id on one of the lists. -/
def IcqUser.setSid (u : IcqUser) (nSID : UInt16) : ContactType → IcqUser
  | .normal => { u with nSID }
  | .ignore => { u with nSID }
  | .invisible => { u with nInvisibleSID := nSID }
  | .visible => { u with nVisibleSID := nSID }

/-- What has an id on the server. -/
structure SidTable where
  myOwnerId : UserId
  nPDINFO : UInt16
  users : SortedMap UserId IcqUser
  owners : SortedMap UserId IcqUser
  groupIds : List ℕ

namespace SidTable

/-- A user of the owner has the id on one of the lists. -/
def userHas (t : SidTable) (sid : ℕ) : Bool :=
  t.users.entries.any fun e => e.1.ownerId == t.myOwnerId &&
    (e.2.nSID.toNat == sid || e.2.nInvisibleSID.toNat == sid || e.2.nVisibleSID.toNat == sid)

/-- A group has the id; it is an `unsigned short` on the server. -/
def groupHas (t : SidTable) (sid : ℕ) : Bool :=
  t.groupIds.any fun serverId => (UInt16.ofNat serverId).toNat == sid

/-- The id to go on with where one is taken. -/
def nextSid (sid : ℕ) : ℕ := if sid = 0x7FFF then 1 else sid + 1

/-- The id that is looked at. -/
def candidate (t : SidTable) (sid : ℕ) : ℕ :=
  let sid := if sid = 0 then sid + 1 else sid
  if sid = t.nPDINFO.toNat then sid + 1 else sid

/-- The loop of `generateSid`; `none` when it takes more rounds. -/
def sidLoop (t : SidTable) : ℕ → ℕ → Option ℕ
  | 0, _ => none
  | rounds + 1, sid =>
    let sid := t.candidate sid
    if t.userHas sid then sidLoop t rounds (nextSid sid)
    else if t.groupHas sid then sidLoop t rounds (nextSid sid)
    else some sid

/-- The number that `rand` gives, below the limit of the server. -/
def drawnSid (draw : UInt16) : ℕ := (draw &&& 0x7FFF).toNat

/-- More rounds than the loop takes, if it ends (`sidLoop_le_maxRounds`). -/
def maxRounds : ℕ := 0x20000

/-- `IcqProtocol::generateSid`, `none` where it does not end. -/
def generateSid (t : SidTable) (draw : UInt16) : Option UInt16 :=
  (t.sidLoop maxRounds (drawnSid draw)).map UInt16.ofNat

/-! ## What the search gives -/

/-- No item on the server has the id. -/
structure Free (t : SidTable) (sid : ℕ) : Prop where
  pos : 1 ≤ sid
  le : sid ≤ 0x7FFF
  ne_pdinfo : sid ≠ t.nPDINFO.toNat
  user : t.userHas sid = false
  group : t.groupHas sid = false

/-- Where the search starts. -/
def start (draw : UInt16) : ℕ := max 1 (drawnSid draw)

theorem drawnSid_le (draw : UInt16) : drawnSid draw ≤ 0x7FFF := by
  rw [drawnSid, UInt16.toNat_and]
  exact Nat.and_le_right

theorem candidate_cases (t : SidTable) (sid : ℕ) :
    t.candidate sid ≠ t.nPDINFO.toNat ∧
      (t.candidate sid = max 1 sid ∨
        max 1 sid = t.nPDINFO.toNat ∧ t.candidate sid = max 1 sid + 1) := by
  have hmax : (if sid = 0 then sid + 1 else sid) = max 1 sid := by split_ifs <;> omega
  rw [candidate, hmax]
  split_ifs with h <;> omega

variable {sid : ℕ} {t : SidTable}

theorem nextSid_of_ne (h : sid ≠ 0x7FFF) : nextSid sid = sid + 1 := if_neg h

/-- An item has an id from 1 on that is not the owner's. -/
theorem taken_of_not_free (hpos : 1 ≤ sid) (hle : sid ≤ 0x7FFF)
    (hne : sid ≠ t.nPDINFO.toNat) (h : ¬ t.Free sid) :
    t.userHas sid = true ∨ t.groupHas sid = true := by
  by_contra hnot
  rw [not_or, Bool.not_eq_true, Bool.not_eq_true] at hnot
  exact h ⟨hpos, hle, hne, hnot.1, hnot.2⟩

theorem sidLoop_taken {rounds : ℕ}
    (h : t.userHas (t.candidate sid) = true ∨ t.groupHas (t.candidate sid) = true) :
    t.sidLoop (rounds + 1) sid = t.sidLoop rounds (nextSid (t.candidate sid)) := by
  rw [sidLoop]
  rcases h with h | h
  · rw [if_pos h]
  · rw [if_pos h, ite_self]

theorem sidLoop_kept {rounds : ℕ} (huser : t.userHas (t.candidate sid) = false)
    (hgroup : t.groupHas (t.candidate sid) = false) :
    t.sidLoop (rounds + 1) sid = some (t.candidate sid) := by
  rw [sidLoop]
  rw [huser, hgroup]
  rfl

theorem taken_lt (h : t.userHas sid = true ∨ t.groupHas sid = true) : sid < 2 ^ 16 := by
  rcases h with h | h
  · obtain ⟨e, -, he⟩ := List.any_eq_true.mp h
    simp only [Bool.and_eq_true, Bool.or_eq_true, beq_iff_eq] at he
    obtain ⟨-, (he | he) | he⟩ := he <;> rw [← he] <;> exact UInt16.toNat_lt _
  · obtain ⟨g, -, hg⟩ := List.any_eq_true.mp h
    rw [← beq_iff_eq.mp hg]
    exact UInt16.toNat_lt _

theorem Free.not_taken (h : t.Free sid) : ¬ (t.userHas sid = true ∨ t.groupHas sid = true) := by
  rw [h.user, h.group]
  decide

/-- A round ends the search, or goes on from the next id. -/
theorem sidLoop_succ (t : SidTable) (rounds sid : ℕ) :
    (t.userHas (t.candidate sid) = true ∨ t.groupHas (t.candidate sid) = true) ∧
        t.sidLoop (rounds + 1) sid = t.sidLoop rounds (nextSid (t.candidate sid)) ∨
      (t.userHas (t.candidate sid) = false ∧ t.groupHas (t.candidate sid) = false) ∧
        t.sidLoop (rounds + 1) sid = some (t.candidate sid) := by
  by_cases h : t.userHas (t.candidate sid) = true ∨ t.groupHas (t.candidate sid) = true
  · exact .inl ⟨h, sidLoop_taken h⟩
  · rw [not_or, Bool.not_eq_true, Bool.not_eq_true] at h
    exact .inr ⟨h, sidLoop_kept h.1 h.2⟩

/-- Upwards, the search ends at the first free id. -/
theorem sidLoop_up {t : SidTable} {rounds sid x : ℕ} (hx : t.Free x) (hle : max 1 sid ≤ x)
    (hrounds : x < sid + rounds) :
    ∃ y, t.sidLoop rounds sid = some y ∧ t.Free y ∧ max 1 sid ≤ y ∧
      ∀ z, t.Free z → max 1 sid ≤ z → y ≤ z := by
  induction rounds generalizing sid with
  | zero => omega
  | succ rounds ih =>
    obtain ⟨hne, hcases⟩ := t.candidate_cases sid
    have hxle := hx.le
    have hxne := hx.ne_pdinfo
    have hfirst : ∀ z, t.Free z → max 1 sid ≤ z → t.candidate sid ≤ z := by
      intro z hz hzle
      have hzne := hz.ne_pdinfo
      omega
    have hcx := hfirst x hx hle
    rcases sidLoop_succ t rounds sid with ⟨htaken, hloop⟩ | ⟨⟨huser, hgroup⟩, hloop⟩
    · have hcandidate : ∀ z, t.Free z → z ≠ t.candidate sid := by
        rintro z hz rfl
        exact hz.not_taken htaken
      have hcne := hcandidate x hx
      rw [hloop, nextSid_of_ne (by omega)]
      obtain ⟨y, hy, hfree, hley, hmin⟩ := @ih (t.candidate sid + 1) (by omega) (by omega)
      refine ⟨y, hy, hfree, by omega, fun z hz hzle => hmin z hz ?_⟩
      have hzc := hfirst z hz hzle
      have hzne := hcandidate z hz
      omega
    · exact ⟨_, hloop, ⟨by omega, by omega, hne, huser, hgroup⟩, by omega, hfirst⟩

/-- **Where no free id is left above, the search starts anew from 1**, unless the last id is the
owner's. -/
theorem sidLoop_wrap (hpdinfo : t.nPDINFO.toNat ≠ 0x7FFF)
    (hle : sid ≤ 0x7FFF) (hnone : ∀ z, t.Free z → z < max 1 sid) :
    ∃ k, k + sid ≤ 0x8000 ∧ ∀ rounds, t.sidLoop (k + rounds) sid = t.sidLoop rounds 1 := by
  obtain ⟨d, hd⟩ : ∃ d, d = 0x7FFF - sid := ⟨_, rfl⟩
  induction d using Nat.strong_induction_on generalizing sid with
  | _ d ih =>
    obtain ⟨hne, hcases⟩ := t.candidate_cases sid
    have htaken := taken_of_not_free (show 1 ≤ t.candidate sid by omega) (by omega) hne
      (fun hfree => absurd (hnone _ hfree) (by omega))
    by_cases hlast : t.candidate sid = 0x7FFF
    · refine ⟨1, by omega, fun rounds => ?_⟩
      rw [Nat.add_comm, sidLoop_taken htaken, hlast]
      rfl
    · obtain ⟨k, hk, hloop⟩ := @ih (0x7FFF - (t.candidate sid + 1)) (by omega)
        (t.candidate sid + 1) (by omega)
        (fun z hz => (hnone z hz).trans_le (by omega)) rfl
      refine ⟨k + 1, by omega, fun rounds => ?_⟩
      rw [Nat.add_right_comm, sidLoop_taken htaken, nextSid_of_ne hlast, hloop]

/-- **Past the owner's id the search goes on above the limit.** -/
theorem sidLoop_past {t : SidTable} {rounds sid : ℕ} (hpdinfo : t.nPDINFO.toNat = 0x7FFF)
    (hle : sid ≤ 2 ^ 16) (hnone : ∀ z, t.Free z → z < max 1 sid)
    (hrounds : 2 ^ 16 < sid + rounds) :
    ∃ y, t.sidLoop rounds sid = some y ∧ 0x8000 ≤ y ∧ y ≤ 2 ^ 16 := by
  induction rounds generalizing sid with
  | zero => omega
  | succ rounds ih =>
    obtain ⟨hne, hcases⟩ := t.candidate_cases sid
    rcases sidLoop_succ t rounds sid with ⟨htaken, hloop⟩ | ⟨⟨huser, hgroup⟩, hloop⟩
    · have hlt := taken_lt htaken
      rw [hloop, nextSid_of_ne (by omega)]
      exact ih (by omega) (fun z hz => (hnone z hz).trans_le (by omega)) (by omega)
    · refine ⟨_, hloop, ?_, by omega⟩
      by_contra hlt
      exact absurd (hnone _ ⟨by omega, by omega, hne, huser, hgroup⟩) (by omega)

/-- Where no id is free, the search does not end. -/
theorem sidLoop_eq_none (hpdinfo : t.nPDINFO.toNat ≠ 0x7FFF)
    (hle : sid ≤ 0x7FFF) (hnone : ∀ z, ¬ t.Free z) (rounds : ℕ) : t.sidLoop rounds sid = none := by
  induction rounds generalizing sid with
  | zero => rfl
  | succ rounds ih =>
    obtain ⟨hne, hcases⟩ := t.candidate_cases sid
    have htaken := taken_of_not_free (show 1 ≤ t.candidate sid by omega) (by omega) hne (hnone _)
    rw [sidLoop_taken htaken]
    refine ih ?_
    rw [nextSid]
    split_ifs <;> omega

/-- The order in which a search comes to the ids. -/
def rank (draw : UInt16) (sid : ℕ) : ℕ := if start draw ≤ sid then sid else sid + 0x7FFF

/-- **A free id** that the search can come to, and the first one. -/
theorem generateSid_of_free {draw : UInt16} {x : ℕ} (hx : t.Free x)
    (hpdinfo : t.nPDINFO.toNat = 0x7FFF → start draw ≤ x) :
    ∃ id, t.generateSid draw = some id ∧ t.Free id.toNat ∧
      (∀ z, t.Free z → rank draw id.toNat ≤ rank draw z) ∧
      (t.nPDINFO.toNat = 0x7FFF → start draw ≤ id.toNat) := by
  have hle := drawnSid_le draw
  have hid : ∀ {y : ℕ}, t.Free y → (UInt16.ofNat y).toNat = y := fun {y} hy =>
    UInt16.toNat_ofNat_of_lt' (show y < 2 ^ 16 by have := hy.le; omega)
  by_cases habove : ∃ z, t.Free z ∧ start draw ≤ z
  · obtain ⟨z, hz, hzle⟩ := habove
    have hzmax := hz.le
    obtain ⟨y, hy, hfree, hley, hmin⟩ := @sidLoop_up t maxRounds (drawnSid draw) z hz hzle
      (by rw [maxRounds]; omega)
    refine ⟨UInt16.ofNat y, by rw [generateSid, hy]; rfl, ?_, ?_, ?_⟩ <;> rw [hid hfree]
    · exact hfree
    · intro w hw
      have hwmin := hmin w hw
      have hlemax := hfree.le
      have hwpos := hw.pos
      rw [rank, rank, if_pos (show start draw ≤ y from hley)]
      split_ifs with h
      · exact hwmin h
      · omega
    · exact fun _ => hley
  · have hnone : ∀ z, t.Free z → z < max 1 (drawnSid draw) :=
      fun z hz => Nat.lt_of_not_le fun h => habove ⟨z, hz, h⟩
    have hne : t.nPDINFO.toNat ≠ 0x7FFF := fun h => habove ⟨x, hx, hpdinfo h⟩
    obtain ⟨k, hk, hloop⟩ := sidLoop_wrap hne hle hnone
    have hxle := hx.le
    obtain ⟨y, hy, hfree, -, hmin⟩ := @sidLoop_up t (maxRounds - k) 1 x hx (by have := hx.pos; omega)
      (by rw [maxRounds]; omega)
    have hrounds : maxRounds = k + (maxRounds - k) := by rw [maxRounds]; omega
    refine ⟨UInt16.ofNat y, ?_, ?_, ?_, fun h => absurd h hne⟩
    · rw [generateSid, hrounds, hloop, hy]
      rfl
    · rwa [hid hfree]
    · intro w hw
      have hwmin := hmin w hw (by have := hw.pos; omega)
      rw [hid hfree, rank, rank, if_neg (show ¬ start draw ≤ y from Nat.not_le.mpr (hnone y hfree)),
        if_neg (show ¬ start draw ≤ w from Nat.not_le.mpr (hnone w hw))]
      omega

/-- **An id above the limit, or 0**, where the free ids are all below and the last one is the
owner's. -/
theorem generateSid_of_pdinfo {t : SidTable} {draw : UInt16} (hpdinfo : t.nPDINFO.toNat = 0x7FFF)
    (hnone : ∀ z, t.Free z → z < start draw) :
    ∃ id, t.generateSid draw = some id ∧ ¬ (1 ≤ id.toNat ∧ id.toNat ≤ 0x7FFF) := by
  have hle := drawnSid_le draw
  obtain ⟨y, hy, hlow, hhigh⟩ := @sidLoop_past t maxRounds (drawnSid draw) hpdinfo (by omega) hnone
    (by rw [maxRounds]; omega)
  refine ⟨UInt16.ofNat y, by rw [generateSid, hy]; rfl, ?_⟩
  rw [UInt16.toNat_ofNat']
  omega

/-- The search does not end. -/
theorem generateSid_eq_none {draw : UInt16} (hpdinfo : t.nPDINFO.toNat ≠ 0x7FFF)
    (hnone : ∀ z, ¬ t.Free z) : t.generateSid draw = none := by
  rw [generateSid, sidLoop_eq_none hpdinfo (drawnSid_le draw) hnone]
  rfl

/-! ## Exporting users -/

/-- The user or the owner with an id. -/
def fetchUser (t : SidTable) (userId : UserId) : Option IcqUser :=
  if userId.accountId = userId.ownerAccountId then t.owners.find? userId
  else t.users.find? userId

/-- The table after a user has got an id. -/
def setSid (t : SidTable) (type : ContactType) (userId : UserId) (nSID : UInt16) : SidTable :=
  if userId.accountId = userId.ownerAccountId then
    { t with owners := t.owners.modify userId fun u => u.setSid nSID type }
  else { t with users := t.users.modify userId fun u => u.setSid nSID type }

/-- The user is there, and an ICQ user. -/
def exports (t : SidTable) (userId : UserId) : Bool :=
  (t.fetchUser userId).isSome && userId.protocolId == icqPpid

end SidTable

/-- The state of an export: what has an id, and the users with the ids they have got. -/
structure SidExport where
  table : SidTable
  given : List (UInt16 × UserId)

namespace SidExport

open SidTable

/-- The loop of `CPU_ExportToServerList` for one user, as far as ids of items go. -/
def step (type : ContactType) (s : SidExport) (a : UInt16 × UserId) : Option SidExport :=
  match s.table.generateSid a.1 with
  | none => none
  | some nSID =>
    if s.table.exports a.2 then
      some ⟨s.table.setSid type a.2 nSID, (nSID, a.2) :: s.given⟩
    else some s

/-- The id was free before the export, and it has not been given to a user. -/
def New (before : SidTable) (s : SidExport) (sid : ℕ) : Prop :=
  before.Free sid ∧ ∀ g ∈ s.given, g.1.toNat ≠ sid

/-- The ids that users have got differ from one another and were free before. -/
structure AllNew (before : SidTable) (s : SidExport) : Prop where
  nodup : (s.given.map Prod.fst).Nodup
  free : ∀ g ∈ s.given, before.Free g.1.toNat

/-- From the id that is drawn on, a new id comes before all that users have given up; for a user
that gets no id it is enough that the search ends. -/
def DrawsNew (before : SidTable) (s : SidExport) (a : UInt16 × UserId) : Prop :=
  if s.table.exports a.2 then
    ∃ y, s.table.Free y ∧ s.New before y ∧
      (∀ z, s.table.Free z → ¬ s.New before z → rank a.1 y < rank a.1 z) ∧
      (s.table.nPDINFO.toNat = 0x7FFF → start a.1 ≤ y)
  else s.table.nPDINFO.toNat = 0x7FFF ∨ ∃ z, s.table.Free z

end SidExport

/-- `CPU_ExportToServerList` ends, and the ids that it gives to users differ from one another and
were free before. -/
def SidTable.ExportsNew (t : SidTable) (type : ContactType) (users : List (UInt16 × UserId)) : Prop :=
  ∃ s, users.foldlM (SidExport.step type) ⟨t, []⟩ = some s ∧ s.AllNew t

namespace SidExport

open SidTable

variable {before : SidTable} {type : ContactType} {s s' : SidExport} {a : UInt16 × UserId}

variable {nSID draw : UInt16}

theorem step_exports (h : s.table.generateSid a.1 = some nSID)
    (hexports : s.table.exports a.2 = true) :
    step type s a = some ⟨s.table.setSid type a.2 nSID, (nSID, a.2) :: s.given⟩ := by
  rw [step, h]
  exact if_pos hexports

theorem step_skips (h : s.table.generateSid a.1 = some nSID)
    (hexports : s.table.exports a.2 = false) : step type s a = some s := by
  rw [step, h]
  exact if_neg (by rw [hexports]; decide)

theorem step_eq_none_iff : step type s a = none ↔ s.table.generateSid a.1 = none := by
  rw [step]
  cases s.table.generateSid a.1 with
  | none => exact ⟨fun _ => rfl, fun _ => rfl⟩
  | some nSID =>
    refine ⟨fun h => ?_, nofun⟩
    dsimp only at h
    split_ifs at h

/-- What a step does. -/
theorem step_cases (h : step type s a = some s') :
    ∃ nSID, s.table.generateSid a.1 = some nSID ∧
      (s.table.exports a.2 = true ∧
          s' = ⟨s.table.setSid type a.2 nSID, (nSID, a.2) :: s.given⟩ ∨
        s.table.exports a.2 = false ∧ s' = s) := by
  cases hid : s.table.generateSid a.1 with
  | none =>
    rw [step_eq_none_iff.mpr hid] at h
    cases h
  | some nSID =>
    refine ⟨nSID, rfl, ?_⟩
    cases hexports : s.table.exports a.2 with
    | true => exact .inl ⟨rfl, Option.some.inj (h.symm.trans (step_exports hid hexports))⟩
    | false => exact .inr ⟨rfl, Option.some.inj (h.symm.trans (step_skips hid hexports))⟩

theorem rank_inj {y z : ℕ} (hy : s.table.Free y) (hz : s.table.Free z)
    (h : rank draw y = rank draw z) : y = z := by
  have hypos := hy.pos
  have hyle := hy.le
  have hzpos := hz.pos
  have hzle := hz.le
  rw [rank, rank] at h
  split_ifs at h <;> omega

/-- The searches of the table in a state. -/
theorem exists_generateSid_iff {t : SidTable} :
    (∃ id, t.generateSid draw = some id) ↔ t.nPDINFO.toNat = 0x7FFF ∨ ∃ z, t.Free z := by
  constructor
  · rintro ⟨id, hid⟩
    by_contra hnot
    rw [not_or, not_exists] at hnot
    rw [generateSid_eq_none hnot.1 hnot.2] at hid
    cases hid
  · intro h
    by_cases hfree : ∃ x, t.Free x ∧ (t.nPDINFO.toNat = 0x7FFF → start draw ≤ x)
    · obtain ⟨x, hx, hpdinfo⟩ := hfree
      obtain ⟨id, hid, -⟩ := generateSid_of_free hx hpdinfo
      exact ⟨id, hid⟩
    · have hpdinfo : t.nPDINFO.toNat = 0x7FFF := by
        rcases h with h | ⟨z, hz⟩
        · exact h
        · by_contra hne
          exact hfree ⟨z, hz, fun heq => absurd heq hne⟩
      obtain ⟨id, hid, -⟩ := @generateSid_of_pdinfo t draw hpdinfo
        fun z hz => Nat.lt_of_not_le fun hle => hfree ⟨z, hz, fun _ => hle⟩
      exact ⟨id, hid⟩

theorem generateSid_free_iff {t : SidTable} :
    (∃ id, t.generateSid draw = some id ∧ t.Free id.toNat) ↔
      ∃ x, t.Free x ∧ (t.nPDINFO.toNat = 0x7FFF → start draw ≤ x) := by
  constructor
  · rintro ⟨id, hid, hfree⟩
    by_contra hnot
    by_cases hpdinfo : t.nPDINFO.toNat = 0x7FFF
    · obtain ⟨id', hid', hrange⟩ := @generateSid_of_pdinfo t draw hpdinfo
        fun z hz => Nat.lt_of_not_le fun hle => hnot ⟨z, hz, fun _ => hle⟩
      cases hid.symm.trans hid'
      exact hrange ⟨hfree.pos, hfree.le⟩
    · exact hnot ⟨id.toNat, hfree, fun heq => absurd heq hpdinfo⟩
  · rintro ⟨x, hx, hpdinfo⟩
    obtain ⟨id, hid, hfree, -⟩ := generateSid_of_free hx hpdinfo
    exact ⟨id, hid, hfree⟩

/-- **One user.**  The id that the user gets is a new one. -/
theorem new_iff (hid : s.table.generateSid a.1 = some nSID)
    (hexports : s.table.exports a.2 = true) : s.New before nSID.toNat ↔ s.DrawsNew before a := by
  rw [DrawsNew, if_pos hexports]
  constructor
  · intro hnew
    by_cases hfree : ∃ x, s.table.Free x ∧ (s.table.nPDINFO.toNat = 0x7FFF → start a.1 ≤ x)
    · obtain ⟨x, hx, hpdinfo⟩ := hfree
      obtain ⟨id, hid', hfreeId, hmin, hstart⟩ := generateSid_of_free hx hpdinfo
      cases hid.symm.trans hid'
      refine ⟨nSID.toNat, hfreeId, hnew, fun z hz hold => ?_, hstart⟩
      refine lt_of_le_of_ne (hmin z hz) fun heq => hold ?_
      rwa [← rank_inj hfreeId hz heq]
    · -- an id that is not free is none that was free before
      have hpdinfo : s.table.nPDINFO.toNat = 0x7FFF := by
        rcases exists_generateSid_iff.mp ⟨nSID, hid⟩ with h | ⟨z, hz⟩
        · exact h
        · by_contra hne
          exact hfree ⟨z, hz, fun heq => absurd heq hne⟩
      obtain ⟨id, hid', hrange⟩ := @generateSid_of_pdinfo s.table a.1 hpdinfo
        fun z hz => Nat.lt_of_not_le fun hle => hfree ⟨z, hz, fun _ => hle⟩
      cases hid.symm.trans hid'
      exact absurd ⟨hnew.1.pos, hnew.1.le⟩ hrange
  · rintro ⟨y, hy, hnew, hbefore, hpdinfo⟩
    obtain ⟨id, hid', hfreeId, hmin, -⟩ := generateSid_of_free hy hpdinfo
    cases hid.symm.trans hid'
    by_contra hold
    exact absurd (hmin y hy) (Nat.not_le.mpr (hbefore _ hfreeId hold))

theorem allNew_cons {table : SidTable} {userId : UserId} (h : s.AllNew before) :
    (⟨table, (nSID, userId) :: s.given⟩ : SidExport).AllNew before ↔ s.New before nSID.toNat := by
  constructor
  · intro hall
    refine ⟨hall.free _ List.mem_cons_self, fun g hg heq => ?_⟩
    refine (List.nodup_cons.mp hall.nodup).1 (List.mem_map.mpr ⟨g, hg, UInt16.toNat_inj.mp heq⟩)
  · intro hnew
    constructor
    · refine List.nodup_cons.mpr ⟨fun hmem => ?_, h.nodup⟩
      obtain ⟨g, hg, heq⟩ := List.mem_map.mp hmem
      exact hnew.2 g hg (congrArg UInt16.toNat heq)
    · intro g hg
      rcases List.mem_cons.mp hg with rfl | hg
      · exact hnew.1
      · exact h.free g hg

theorem AllNew.of_cons {table : SidTable} {g : UInt16 × UserId}
    (h : (⟨table, g :: s.given⟩ : SidExport).AllNew before) : s.AllNew before :=
  ⟨(List.nodup_cons.mp h.nodup).2, fun g' hg' => h.free g' (List.mem_cons_of_mem _ hg')⟩

/-- **One step** of an export. -/
theorem allNew_step_iff (hall : s.AllNew before) (h : step type s a = some s') :
    s'.AllNew before ↔ s.DrawsNew before a := by
  obtain ⟨nSID, hid, ⟨hexports, rfl⟩ | ⟨hexports, rfl⟩⟩ := step_cases h
  · rw [allNew_cons hall, new_iff hid hexports]
  · rw [DrawsNew, if_neg (by rw [hexports]; decide)]
    exact ⟨fun _ => exists_generateSid_iff.mp ⟨nSID, hid⟩, fun _ => hall⟩

theorem not_drawsNew (h : step type s a = none) : ¬ s.DrawsNew before a := by
  have hnone : ¬ ∃ id, s.table.generateSid a.1 = some id := by
    rw [step_eq_none_iff.mp h]
    rintro ⟨id, hid⟩
    cases hid
  rw [exists_generateSid_iff] at hnone
  rw [DrawsNew]
  split_ifs
  · rintro ⟨y, hy, -⟩
    exact hnone (.inr ⟨y, hy⟩)
  · exact hnone

end SidExport

open SidExport SidTable in
/-- **Main result.**  An id that is drawn is a free one exactly when the search comes to a free id
before it comes to 0x7FFF as the owner's; and all ids of an export are new exactly when every draw
comes to a new id first. -/
theorem generateSid_exportUsers_iff (t : SidTable) (draw : UInt16) (type : ContactType)
    (users : List (UInt16 × UserId)) :
    ((∃ id, t.generateSid draw = some id ∧ t.Free id.toNat) ↔
      ∃ x, t.Free x ∧ (t.nPDINFO.toNat = 0x7FFF → start draw ≤ x)) ∧
    (t.ExportsNew type users ↔
      Steps.Each (SidExport.step type) (DrawsNew t) ⟨t, []⟩ users) := by
  refine ⟨generateSid_free_iff, ?_⟩
  have hstart : (⟨t, []⟩ : SidExport).AllNew t := ⟨List.nodup_nil, fun g hg => by cases hg⟩
  refine Steps.foldlM_iff_each (fun s a _ hnone => not_drawsNew hnone)
    (fun s a s' hall hs => allNew_step_iff hall hs) (fun s a s' hs hall => ?_)
    hstart users
  obtain ⟨nSID, -, ⟨-, rfl⟩ | ⟨-, rfl⟩⟩ := step_cases hs
  · exact hall.of_cons
  · exact hall

/-- The owner's privacy item has the last id, and it is drawn: all others are free, and the id that
is returned is above the limit. -/
theorem not_generateSid_free :
    let t : SidTable := ⟨.owner icqPpid ['1'], 0x7FFF, .empty, .empty, []⟩
    (∃ x, t.Free x) ∧ ¬ ∃ id, t.generateSid 0x7FFF = some id ∧ t.Free id.toNat := by
  refine ⟨⟨1, by decide, by decide, by decide, rfl, rfl⟩, ?_⟩
  rintro ⟨id, hid, hfree⟩
  obtain rfl : 0x8000 = id := Option.some.inj hid
  exact absurd hfree.le (by decide)

end Licq
