import Licq.ContactList.UserId
import Licq.Data.SortedMap
import Licq.Data.Steps

/-!
# ContactList/UserManager — users and their owners

`UserManager` keeps the owners and the users in two maps.  `Owned` says that every user belongs to
an owner that is there.  `owned_step` says of each call exactly when it keeps this: adding a user
does not look for its owner, and removing an owner leaves its users, unlike `unloadProtocol`.
`staysOwned_iff` says it of a run.
-/

namespace Licq

open Option SortedMap

/-! ## The two maps -/

/-- What the user manager looks at in an `Owner`. -/
structure Owner where
  /-- `CanMultipleOwners` is among the capabilities of its protocol. -/
  canMultipleOwners : Bool
  status : ℕ
  deriving DecidableEq

/-- What the user manager looks at in a `User`. -/
structure User where
  notInList : Bool
  deriving DecidableEq

/-- What the plugin manager has to say while a call runs. -/
structure PluginManager where
  /-- The protocols that have a plugin. -/
  hasPlugin : ℕ → Bool
  /-- An instance of the protocol for this owner starts while there is already one. -/
  hasInstance : UserId → Bool
  canMultipleOwners : ℕ → Bool

structure UserManager where
  myConfiguredOwners : SortedMap UserId Unit
  myOwners : SortedMap UserId Owner
  myUsers : SortedMap UserId User
  deriving DecidableEq

def offlineStatus : ℕ := 0

namespace UserManager

instance (userId : UserId) : Decidable userId.IsOwner := inferInstanceAs (Decidable (_ = _))

/-- `createUser`; an assertion can fail. -/
def createUser (plugins : PluginManager) (userId : UserId) (temporary : Bool) : Option User :=
  if userId.IsOwner then none
  else if plugins.hasPlugin userId.protocolId then some ⟨temporary⟩
  else none

/-- `createOwner`; an assertion can fail. -/
def createOwner (plugins : PluginManager) (ownerId : UserId) : Option Owner :=
  if ownerId.IsOwner ∧ plugins.hasPlugin ownerId.protocolId ∧ ¬ plugins.hasInstance ownerId then
    some ⟨plugins.canMultipleOwners ownerId.protocolId, offlineStatus⟩
  else none

/-- The owner object and its place in the map. -/
def insertOwner (m : UserManager) (plugins : PluginManager) (ownerId : UserId) :
    Option UserManager :=
  (createOwner plugins ownerId).map fun o => { m with myOwners := m.myOwners.insert ownerId o }

/-- The user object and its place in the map. -/
def insertUser (m : UserManager) (plugins : PluginManager) (userId : UserId) (temporary : Bool) :
    Option UserManager :=
  (createUser plugins userId temporary).map fun u => { m with myUsers := m.myUsers.insert userId u }

/-- `UserManager::addOwner`. -/
def addOwner (m : UserManager) (plugins : PluginManager) (userId : UserId) : Option UserManager :=
  if ¬ userId.IsOwner then some m
  -- Make sure owner isn't already in configuration
  else if (m.myConfiguredOwners.find? userId).isSome then some m
  -- We already have another owner for this protocol, and multiple owners isn't supported
  else if m.myOwners.entries.any
      fun i => i.1.protocolId == userId.protocolId && !i.2.canMultipleOwners then some m
  else
    (m.insertOwner plugins userId).map fun m =>
      { m with myConfiguredOwners := m.myConfiguredOwners.insert userId () }

/-- `UserManager::removeOwner`, with whether it did. -/
def removeOwner (m : UserManager) (userId : UserId) : UserManager × Bool :=
  match m.myOwners.find? userId with
  | none => (m, false)
  | some o =>
    -- Don't allow removing an owner that is online
    if o.status ≠ offlineStatus then (m, false)
    else ({ m with
      myOwners := m.myOwners.erase userId
      myConfiguredOwners := m.myConfiguredOwners.erase userId }, true)

/-- `UserManager::loadUserList`, with the accounts that the file lists for the owner. -/
def loadUserList (plugins : PluginManager) (ownerId : UserId) :
    List (List Char) → UserManager → Option UserManager
  | [], m => some m
  | accountId :: accountIds, m =>
    if accountId.isEmpty ∨ accountId = ownerId.accountId then
      loadUserList plugins ownerId accountIds m
    else do
      let m ← m.insertUser plugins (.user ownerId accountId) false
      loadUserList plugins ownerId accountIds m

/-- `UserManager::loadProtocol`, over the configured owners that are left. -/
def loadOwners (plugins : PluginManager) (protocolId : ℕ) (usersConf : UserId → List (List Char)) :
    List (Σ _ : UserId, Unit) → UserManager → Option UserManager
  | [], m => some m
  | ⟨ownerId, _⟩ :: owners, m =>
    if ownerId.protocolId ≠ protocolId then loadOwners plugins protocolId usersConf owners m
    else do
      let m ← m.insertOwner plugins ownerId
      let m ← loadUserList plugins ownerId (usersConf ownerId) m
      -- This protocol only supports one owner per protocol, don't load any more
      if ¬ plugins.canMultipleOwners ownerId.protocolId then some m
      else loadOwners plugins protocolId usersConf owners m

/-- `UserManager::loadProtocol`. -/
def loadProtocol (m : UserManager) (plugins : PluginManager) (protocolId : ℕ)
    (usersConf : UserId → List (List Char)) : Option UserManager :=
  loadOwners plugins protocolId usersConf m.myConfiguredOwners.entries m

/-- `UserManager::unloadProtocol`. -/
def unloadProtocol (m : UserManager) (protocolId : ℕ) : UserManager :=
  { m with
    myUsers := m.myUsers.filter fun userId _ => userId.protocolId != protocolId
    myOwners := m.myOwners.filter fun ownerId _ => ownerId.protocolId != protocolId }

/-- `UserManager::addUser`, with whether it did. -/
def addUser (m : UserManager) (plugins : PluginManager) (uid : UserId) (permanent : Bool) :
    Option (UserManager × Bool) :=
  if uid.protocolId = 0 then some (m, false)
  else if uid.IsOwner then some (m, false)
  else
    match m.myUsers.find? uid with
    | some user =>
      -- If user already is in list only continue if it should be made permanent
      if ¬ user.notInList ∨ ¬ permanent then some (m, false)
      else some ({ m with myUsers := m.myUsers.insert uid { user with notInList := false } }, true)
    | none => (m.insertUser plugins uid (!permanent)).map fun m => (m, true)

/-- `UserManager::removeUser`, with the signal for the protocol that it sends if the owner is there
and online: the maps are left to `removeLocalUser`, which the protocol calls. -/
def removeUser (m : UserManager) (userId : UserId) : UserManager × Option UserId :=
  match m.myOwners.find? userId.ownerId with
  | some owner => if owner.status.testBit 0 then (m, some userId) else (m, none)
  | none => (m, none)

/-- `UserManager::removeLocalUser`. -/
def removeLocalUser (m : UserManager) (userId : UserId) : UserManager :=
  { m with myUsers := m.myUsers.erase userId }

/-- `UserManager::fetchUser` adds a temporary user, if allowed by the caller. -/
def fetchUser (m : UserManager) (plugins : PluginManager) (userId : UserId) (addUser : Bool) :
    Option UserManager :=
  if userId.protocolId = 0 then some m
  else if userId.IsOwner then some m
  else if (m.myUsers.find? userId).isNone ∧ addUser then m.insertUser plugins userId true
  else some m

/-- The protocol changes the status of an owner. -/
def setOwnerStatus (m : UserManager) (ownerId : UserId) (status : ℕ) : UserManager :=
  { m with myOwners := m.myOwners.modify ownerId fun o => { o with status } }

/-! ## Runs -/

inductive Call where
  | addOwner (userId : UserId)
  | removeOwner (userId : UserId)
  | loadProtocol (protocolId : ℕ) (usersConf : UserId → List (List Char))
  | unloadProtocol (protocolId : ℕ)
  | addUser (userId : UserId) (permanent : Bool)
  | removeUser (userId : UserId)
  | removeLocalUser (userId : UserId)
  | fetchUser (userId : UserId) (addUser : Bool)
  | setOwnerStatus (ownerId : UserId) (status : ℕ)

/-- One call; there is no next state where an assertion fails. -/
def step (m : UserManager) : PluginManager × Call → Option UserManager
  | (plugins, .addOwner userId) => m.addOwner plugins userId
  | (_, .removeOwner userId) => some (m.removeOwner userId).1
  | (plugins, .loadProtocol protocolId usersConf) => m.loadProtocol plugins protocolId usersConf
  | (_, .unloadProtocol protocolId) => some (m.unloadProtocol protocolId)
  | (plugins, .addUser userId permanent) => (m.addUser plugins userId permanent).map Prod.fst
  | (_, .removeUser userId) => some (m.removeUser userId).1
  | (_, .removeLocalUser userId) => some (m.removeLocalUser userId)
  | (plugins, .fetchUser userId addUser) => m.fetchUser plugins userId addUser
  | (_, .setOwnerStatus ownerId status) => some (m.setOwnerStatus ownerId status)

/-- Every user belongs to an owner that is there. -/
def Owned (m : UserManager) : Prop :=
  ∀ userId, (m.myUsers.find? userId).isSome → (m.myOwners.find? userId.ownerId).isSome

/-- The call puts a new user in the map. -/
def Creates (m : UserManager) (plugins : PluginManager) (userId : UserId) : Prop :=
  userId.protocolId ≠ 0 ∧ ¬ userId.IsOwner ∧ plugins.hasPlugin userId.protocolId ∧
    m.myUsers.find? userId = none

/-- A new user belongs to an owner that is there, and an owner that is removed has no users. -/
def CallOk (m : UserManager) : PluginManager × Call → Prop
  | (plugins, .addUser userId _) =>
    m.Creates plugins userId → (m.myOwners.find? userId.ownerId).isSome
  | (plugins, .fetchUser userId addUser) =>
    addUser → m.Creates plugins userId → (m.myOwners.find? userId.ownerId).isSome
  | (_, .removeOwner ownerId) =>
    (m.myOwners.find? ownerId).any (·.status == offlineStatus) →
      ∀ userId, userId.ownerId = ownerId → m.myUsers.find? userId = none
  | _ => True

/-! ## One call -/

variable {m m' : UserManager} {plugins : PluginManager} {userId : UserId}

theorem owned_insert (h : m.Owned) (userId : UserId) (u : User) :
    Owned { m with myUsers := m.myUsers.insert userId u } ↔
      (m.myOwners.find? userId.ownerId).isSome := by
  constructor
  · intro howned
    exact howned userId ((isSome_find?_insert _ _ _ _).mpr (.inl rfl))
  · intro howner userId' hsome
    obtain rfl | hsome := (isSome_find?_insert _ _ _ _).mp hsome
    · exact howner
    · exact h userId' hsome

theorem createUser_isSome {temporary : Bool} :
    (createUser plugins userId temporary).isSome ↔
      ¬ userId.IsOwner ∧ plugins.hasPlugin userId.protocolId := by
  rw [createUser]
  split_ifs with howner hplugin <;> simp [*]

/-- Putting a new user object in the map needs its owner. -/
theorem owned_insertUser
    {temporary : Bool} (h : m.Owned) (hm : m.insertUser plugins userId temporary = some m') :
    m'.myOwners = m.myOwners ∧ (m'.Owned ↔ (m.myOwners.find? userId.ownerId).isSome) := by
  obtain ⟨u, -, rfl⟩ := map_eq_some_iff.mp hm
  exact ⟨rfl, owned_insert h userId u⟩

theorem owned_insertOwner {ownerId : UserId}
    (h : m.Owned) (hm : m.insertOwner plugins ownerId = some m') :
    ownerId.IsOwner ∧ (m'.myOwners.find? ownerId).isSome ∧ m'.Owned := by
  obtain ⟨o, ho, rfl⟩ := map_eq_some_iff.mp hm
  rw [createOwner] at ho
  split_ifs at ho with hok
  refine ⟨hok.1, (isSome_find?_insert _ _ _ _).mpr (.inl rfl), fun userId hsome => ?_⟩
  exact (isSome_find?_insert _ _ _ _).mpr (.inr (h userId hsome))

/-- The users of a list belong to the owner whose list it is. -/
theorem owned_loadUserList {ownerId : UserId} (howner : ownerId.IsOwner)
    (accountIds : List (List Char)) (h : m.Owned)
    (hsome : (m.myOwners.find? ownerId).isSome)
    (hm : loadUserList plugins ownerId accountIds m = some m') : m'.Owned := by
  induction accountIds generalizing m with
  | nil =>
    obtain rfl : m = m' := some.inj hm
    exact h
  | cons accountId accountIds ih =>
    rw [loadUserList] at hm
    split_ifs at hm with hskip
    · exact ih h hsome hm
    · obtain ⟨m₁, hm₁, hm⟩ := bind_eq_some_iff.mp hm
      obtain ⟨howners, howned⟩ := owned_insertUser h hm₁
      rw [UserId.ownerId_user howner] at howned
      exact ih (howned.mpr hsome) (howners ▸ hsome) hm

theorem owned_loadOwners {protocolId : ℕ}
    {usersConf : UserId → List (List Char)} (owners : List (Σ _ : UserId, Unit))
    (h : m.Owned)
    (hm : loadOwners plugins protocolId usersConf owners m = some m') : m'.Owned := by
  induction owners generalizing m with
  | nil =>
    obtain rfl : m = m' := some.inj hm
    exact h
  | cons owner owners ih =>
    obtain ⟨ownerId, _⟩ := owner
    rw [loadOwners] at hm
    split at hm
    · exact ih h hm
    · obtain ⟨m₁, hm₁, hm⟩ := bind_eq_some_iff.mp hm
      obtain ⟨m₂, hm₂, hm⟩ := bind_eq_some_iff.mp hm
      obtain ⟨howner, hsome, h₁⟩ := owned_insertOwner h hm₁
      have h₂ : m₂.Owned := owned_loadUserList howner _ h₁ hsome hm₂
      split at hm
      · obtain rfl : m₂ = m' := some.inj hm
        exact h₂
      · exact ih h₂ hm

theorem owned_addOwner (h : m.Owned) (hm : m.addOwner plugins userId = some m') : m'.Owned := by
  rw [addOwner] at hm
  split_ifs at hm
  · cases hm
    exact h
  · cases hm
    exact h
  · obtain ⟨m₁, hm₁, rfl⟩ := map_eq_some_iff.mp hm
    exact (owned_insertOwner h hm₁).2.2
  · cases hm
    exact h

/-- Removing an owner leaves its users. -/
theorem owned_removeOwner (h : m.Owned) (ownerId : UserId) :
    (m.removeOwner ownerId).1.Owned ↔
      ((m.myOwners.find? ownerId).any (·.status == offlineStatus) →
        ∀ userId, userId.ownerId = ownerId → m.myUsers.find? userId = none) := by
  rw [removeOwner]
  cases ho : m.myOwners.find? ownerId with
  | none => simp [h]
  | some o =>
    by_cases hoff : o.status = offlineStatus
    · simp only [hoff, ne_eq, not_true_eq_false, if_false, any_some, beq_self_eq_true,
        forall_const]
      constructor
      · rintro howned userId rfl
        by_contra hne
        have herased := howned userId (isSome_iff_ne_none.mpr hne)
        exact ((isSome_find?_erase _ _ _).mp herased).1 rfl
      · intro hnone userId hsome
        refine (isSome_find?_erase _ _ _).mpr ⟨fun heq => ?_, h userId hsome⟩
        rw [hnone userId heq] at hsome
        cases hsome
    · simp [hoff, h]

theorem owned_unloadProtocol (h : m.Owned) (protocolId : ℕ) :
    (m.unloadProtocol protocolId).Owned := by
  intro userId hsome
  obtain ⟨u, hu⟩ := isSome_iff_exists.mp hsome
  rw [unloadProtocol, find?_filter, filter_eq_some_iff] at hu
  obtain ⟨o, ho⟩ := isSome_iff_exists.mp (h userId (isSome_iff_exists.mpr ⟨u, hu.1⟩))
  rw [unloadProtocol, find?_filter, ho]
  exact isSome_iff_exists.mpr ⟨o, filter_eq_some_iff.mpr ⟨rfl, hu.2⟩⟩

theorem owned_addUser {uid : UserId} {permanent : Bool}
    {r : UserManager × Bool} (h : m.Owned) (hr : m.addUser plugins uid permanent = some r) :
    r.1.Owned ↔ (m.Creates plugins uid → (m.myOwners.find? uid.ownerId).isSome) := by
  rw [addUser] at hr
  rw [Creates]
  split_ifs at hr with hvalid howner
  · cases hr
    simp [h, hvalid]
  · cases hr
    simp [h, howner]
  · cases hfind : m.myUsers.find? uid with
    | some user =>
      rw [hfind] at hr
      have hsome : (m.myOwners.find? uid.ownerId).isSome := h uid (by rw [hfind]; rfl)
      simp only at hr
      split at hr
      · cases hr
        simp [h]
      · cases hr
        simp [owned_insert h, hsome]
    | none =>
      rw [hfind] at hr
      obtain ⟨m₁, hm₁, rfl⟩ := map_eq_some_iff.mp hr
      obtain ⟨u, hu, -⟩ := map_eq_some_iff.mp hm₁
      have hplugin := (createUser_isSome.mp (by rw [hu]; rfl)).2
      simp [(owned_insertUser h hm₁).2, hvalid, howner, hplugin]

theorem owned_fetchUser
    {addUser : Bool} (h : m.Owned) (hm : m.fetchUser plugins userId addUser = some m') :
    m'.Owned ↔
      (addUser → m.Creates plugins userId → (m.myOwners.find? userId.ownerId).isSome) := by
  rw [fetchUser] at hm
  rw [Creates]
  split_ifs at hm with hvalid howner hadd
  · cases hm
    simp [h, hvalid]
  · cases hm
    simp [h, howner]
  · obtain ⟨u, hu, -⟩ := map_eq_some_iff.mp hm
    have hplugin := (createUser_isSome.mp (by rw [hu]; rfl)).2
    simp [(owned_insertUser h hm).2, hvalid, howner, hplugin, hadd.2,
      isNone_iff_eq_none.mp hadd.1]
  · cases hm
    simp only [h, true_iff]
    rintro rfl ⟨-, -, -, hnone⟩
    exact absurd ⟨by rw [hnone]; rfl, rfl⟩ hadd

/-! ## Every run -/

/-- A call that an assertion ends does not put a new user in the map. -/
theorem callOk_of_step_eq_none {call : PluginManager × Call}
    (hstep : m.step call = none) : m.CallOk call := by
  obtain ⟨plugins, call⟩ := call
  cases call with
  | removeOwner userId => cases hstep
  | addUser uid permanent =>
    rintro ⟨hvalid, howner, hplugin, hnone⟩
    rw [step, map_eq_none_iff, addUser, if_neg hvalid, if_neg howner, hnone] at hstep
    simp only [map_eq_none_iff, insertUser, createUser, howner, hplugin, if_false, if_true,
      reduceCtorEq] at hstep
  | fetchUser userId addUser =>
    rintro hadd ⟨hvalid, howner, hplugin, hnone⟩
    rw [step, fetchUser, if_neg hvalid, if_neg howner,
      if_pos ⟨isNone_iff_eq_none.mpr hnone, hadd⟩] at hstep
    simp only [insertUser, map_eq_none_iff, createUser, howner, hplugin, if_false, if_true,
      reduceCtorEq] at hstep
  | _ => trivial

/-- **One call** keeps every user with its owner exactly when it adds no user without an owner and
removes no owner that has users. -/
theorem owned_step {call : PluginManager × Call} (h : m.Owned)
    (hstep : m.step call = some m') : m'.Owned ↔ m.CallOk call := by
  obtain ⟨plugins, call⟩ := call
  cases call with
  | addOwner userId => exact iff_of_true (owned_addOwner h hstep) trivial
  | removeOwner userId =>
    cases hstep
    exact owned_removeOwner h userId
  | loadProtocol protocolId usersConf =>
    exact iff_of_true (owned_loadOwners m.myConfiguredOwners.entries h hstep) trivial
  | unloadProtocol protocolId =>
    cases hstep
    exact iff_of_true (owned_unloadProtocol h protocolId) trivial
  | addUser userId permanent =>
    obtain ⟨r, hr, rfl⟩ := map_eq_some_iff.mp hstep
    exact owned_addUser h hr
  | removeUser userId =>
    cases hstep
    refine iff_of_true ?_ trivial
    rw [removeUser]
    split
    · split
      · exact h
      · exact h
    · exact h
  | removeLocalUser userId =>
    cases hstep
    exact iff_of_true (fun u hu => h u ((isSome_find?_erase _ _ _).mp hu).2) trivial
  | fetchUser userId addUser => exact owned_fetchUser h hstep
  | setOwnerStatus ownerId status =>
    cases hstep
    refine iff_of_true (fun u hu => ?_) trivial
    rw [setOwnerStatus, isSome_find?_modify]
    exact h u hu

/-- The owners that the configuration lists, before any protocol is loaded. -/
def load (configured : SortedMap UserId Unit) : UserManager :=
  ⟨configured, SortedMap.empty, SortedMap.empty⟩

/-- **Users and their owners.**  In every state of a run every user belongs to an owner that is
there, exactly when no call of the run adds a user whose owner is not there or removes an owner that
still has users. -/
theorem staysOwned_iff (configured : SortedMap UserId Unit) (calls : List (PluginManager × Call)) :
    Steps.Stays step Owned (load configured) calls ↔
      Steps.Each step CallOk (load configured) calls :=
  Steps.stays_iff_each (fun _ _ _ hstep => callOk_of_step_eq_none hstep)
    (fun _ _ _ h hstep => owned_step h hstep) (fun _ hu => absurd hu (by simp [load])) calls

/-- An owner, a user on its list, and the owner is removed. -/
theorem not_staysOwned_removeOwner :
    ¬ Steps.Stays step Owned (load SortedMap.empty)
      [(⟨fun _ => true, fun _ => false, fun _ => false⟩, .addOwner (.owner icqPpid ['1'])),
        (⟨fun _ => true, fun _ => false, fun _ => false⟩,
          .addUser (.user (.owner icqPpid ['1']) ['2']) true),
        (⟨fun _ => true, fun _ => false, fun _ => false⟩, .removeOwner (.owner icqPpid ['1']))] := by
  rintro ⟨-, h⟩
  obtain ⟨-, h⟩ := h _ rfl
  obtain ⟨-, h⟩ := h _ rfl
  have howned : (_ : UserManager).Owned := h _ rfl
  have hsome := howned (.user (.owner icqPpid ['1']) ['2']) (by decide +kernel)
  revert hsome
  decide +kernel

end UserManager

end Licq
