import Licq.ContactList.UserId
import Licq.Data.SortedMap
import Licq.Data.Steps

/-!
# Plugin/Instances — owners and the instances of their protocols

The user manager keeps the owners, the plugin manager an instance of a protocol for each of them.  An
owner that is removed leaves its instance, which has been told to shut down, in the map until its exit
is reaped.  `sound_iff` says which calls an assertion ends, or leave an owner without its instance.
-/

namespace Licq.Instances

open List Option SortedMap

/-! ## State -/

/-- `ProtocolPlugin`: an object for each time that the library is loaded. -/
structure Plugin where
  serial : ℕ
  protocolId : ℕ
  canMultipleOwners : Bool
  deriving DecidableEq

/-- `ProtocolPluginInstance` -/
structure Instance where
  id : ℕ
  ownerId : UserId
  plugin : Plugin
  /-- `shutdown` has been called. -/
  down : Bool
  /-- The plugin has returned from its `run`. -/
  exited : Bool
  deriving DecidableEq

def Instance.shutdown (inst : Instance) : Instance := { inst with down := true }

/-- `Licq::Owner` -/
structure Owner where
  canMultipleOwners : Bool
  isOnline : Bool
  /-- The instance that has been created for it. -/
  created : Option ℕ
  deriving DecidableEq

structure State where
  myConfiguredOwners : SortedMap UserId Unit
  myOwners : SortedMap UserId Owner
  myProtocolPlugins : List Plugin
  myProtocolInstances : SortedMap UserId Instance
  myNextPluginId : ℕ
  myExitList : List ℕ
  /-- An assertion has failed. -/
  failed : Bool

namespace State

/-- `IsProtocolPlugin` -/
def plugin? (s : State) (protocolId : ℕ) : Option Plugin :=
  s.myProtocolPlugins.find? (·.protocolId = protocolId)

/-! ## Creating an owner -/

/-- `PluginManager::createProtocolOwner` as `UserManager::createOwner` calls it, with the result of
creating and initializing the instance; none where an assertion fails. -/
def createOwner (s : State) (id : UserId) (created : Bool) : Option (State × Owner) :=
  if id.accountId ≠ id.ownerAccountId then none
  else
    match s.plugin? id.protocolId with
    | none => none
    | some plugin =>
      let t := { s with myNextPluginId := s.myNextPluginId + 1 }
      -- Protocol hasn't subclassed the owner class, create from Licq::Owner instead
      if ¬ created then some (t, ⟨plugin.canMultipleOwners, false, none⟩)
      else if (s.myProtocolInstances.find? id).isSome then none
      else
        let inst : Instance := ⟨s.myNextPluginId, id, plugin, false, false⟩
        some ({ t with myProtocolInstances := s.myProtocolInstances.insert id inst },
          ⟨plugin.canMultipleOwners, false, some s.myNextPluginId⟩)

/-- The owner object and its place in the map. -/
def insertOwner (s : State) (id : UserId) (created : Bool) : Option (State × Owner) :=
  (s.createOwner id created).map fun (s, o) => ({ s with myOwners := s.myOwners.insert id o }, o)

def fail (s : State) : State := { s with failed := true }

/-- The guards of `UserManager::addOwner`. -/
def Adds (s : State) (userId : UserId) : Prop :=
  userId.accountId = userId.ownerAccountId ∧ s.myConfiguredOwners.find? userId = none ∧
    ∀ i ∈ s.myOwners.entries, i.1.protocolId = userId.protocolId → i.2.canMultipleOwners = true

instance (s : State) (userId : UserId) : Decidable (s.Adds userId) := by
  unfold Adds
  infer_instance

/-- `UserManager::addOwner` -/
def addOwner (s : State) (userId : UserId) (created : Bool) : State :=
  if s.Adds userId then
    match s.insertOwner userId created with
    | none => s.fail
    | some (s, _) => { s with myConfiguredOwners := s.myConfiguredOwners.insert userId () }
  else s

/-- The loop of `UserManager::loadProtocol`, over the configured owners that are left. -/
def loadOwners (protocolId : ℕ) (created : UserId → Bool) : List (Σ _ : UserId, Unit) → State → State
  | [], s => s
  | ⟨ownerId, _⟩ :: owners, s =>
    if ownerId.protocolId ≠ protocolId then loadOwners protocolId created owners s
    else
      match s.insertOwner ownerId (created ownerId) with
      | none => s.fail
      | some (s, o) =>
        -- This protocol only supports one owner per protocol, don't load any more
        if ¬ o.canMultipleOwners then s else loadOwners protocolId created owners s

/-- `UserManager::loadProtocol` -/
def loadProtocol (s : State) (protocolId : ℕ) (created : UserId → Bool) : State :=
  loadOwners protocolId created s.myConfiguredOwners.entries s

/-- `PluginManager::loadProtocolPlugin`, of a library that is a plugin for the protocol. -/
def loadProtocolPlugin (s : State) (plugin : Plugin) : State :=
  if (s.plugin? plugin.protocolId).isSome then s
  else { s with myProtocolPlugins := s.myProtocolPlugins ++ [plugin] }

/-! ## Removing -/

/-- `UserManager::removeOwner` -/
def removeOwner (s : State) (userId : UserId) : State :=
  match s.myOwners.find? userId with
  | none => s
  | some o =>
    -- Don't allow removing an owner that is online
    if o.isOnline then s
    else { s with
      myOwners := s.myOwners.erase userId
      myConfiguredOwners := s.myConfiguredOwners.erase userId
      myProtocolInstances := s.myProtocolInstances.modify userId Instance.shutdown }

/-- `UserManager::unloadProtocol` -/
def unloadProtocol (s : State) (protocolId : ℕ) : State :=
  { s with myOwners := s.myOwners.filter fun ownerId _ => ownerId.protocolId ≠ protocolId }

/-- `PluginManager::unloadProtocolPlugin` -/
def unloadProtocolPlugin (s : State) (plugin : Plugin) : State :=
  if plugin ∈ s.myProtocolPlugins ∧
      ∀ i ∈ s.myOwners.entries, i.1.protocolId = plugin.protocolId → i.2.isOnline = false then
    let s := unloadProtocol { s with myProtocolPlugins := s.myProtocolPlugins.filter (· ≠ plugin) }
      plugin.protocolId
    -- Shutdown all instances
    { s with myProtocolInstances := s.myProtocolInstances.mapVals fun _ inst =>
        if inst.plugin = plugin then inst.shutdown else inst }
  else s

/-! ## Exits -/

/-- The plugin returns from its `run`, and `pluginHasExited` is called; none for an instance that is
not running. -/
def exit (s : State) (ownerId : UserId) : Option State :=
  match s.myProtocolInstances.find? ownerId with
  | none => none
  | some inst =>
    if inst.exited then none
    else some { s with
      myProtocolInstances := s.myProtocolInstances.insert ownerId { inst with exited := true }
      myExitList := s.myExitList ++ [inst.id] }

/-- `PluginManager::reapPlugin`, of a protocol; none while the list is empty. -/
def reapPlugin (s : State) : Option State :=
  match s.myExitList with
  | [] => none
  | exitId :: exits =>
    let s := { s with myExitList := exits }
    match s.myProtocolInstances.entries.find? (·.2.id = exitId) with
    | none => some s
    | some ⟨ownerId, inst⟩ =>
      let s := { s with myProtocolInstances := s.myProtocolInstances.erase ownerId }
      -- See if there is any more instances of this protocol
      if s.myProtocolInstances.entries.any (·.2.plugin.protocolId = inst.plugin.protocolId) then some s
      else if inst.plugin ∈ s.myProtocolPlugins then some s
      else some (s.unloadProtocol inst.plugin.protocolId)

/-! ## Runs -/

inductive Action
  | loadProtocolPlugin (plugin : Plugin)
  | loadProtocol (protocolId : ℕ) (created : UserId → Bool)
  | unloadProtocolPlugin (plugin : Plugin)
  | addOwner (userId : UserId) (created : Bool)
  | removeOwner (userId : UserId)
  /-- The owner goes online or offline. -/
  | statusChanged (userId : UserId) (isOnline : Bool)
  | exit (ownerId : UserId)
  | reapPlugin

/-- One call; none where it is not possible, and after an assertion has failed. -/
def step (s : State) (a : Action) : Option State :=
  if s.failed then none
  else match a with
  | .loadProtocolPlugin plugin => some (s.loadProtocolPlugin plugin)
  | .loadProtocol protocolId created => some (s.loadProtocol protocolId created)
  | .unloadProtocolPlugin plugin => some (s.unloadProtocolPlugin plugin)
  | .addOwner userId created => some (s.addOwner userId created)
  | .removeOwner userId => some (s.removeOwner userId)
  | .statusChanged userId isOnline =>
    some { s with myOwners := s.myOwners.modify userId fun o => { o with isOnline := isOnline } }
  | .exit ownerId => s.exit ownerId
  | .reapPlugin => s.reapPlugin

/-- The configured owners, before any protocol is loaded. -/
def load (configured : SortedMap UserId Unit) : State :=
  ⟨configured, SortedMap.empty, [], SortedMap.empty, 1, [], false⟩

/-! ## The property -/

/-- No assertion has failed, each instance is filed under its own owner id, and every owner has the
instance there that has been created for it, which has not been told to shut down and is running. -/
structure Sound (s : State) : Prop where
  failed : s.failed = false
  keyed : ∀ id inst, s.myProtocolInstances.find? id = some inst → inst.ownerId = id
  live : ∀ id o, s.myOwners.find? id = some o → ∃ inst, s.myProtocolInstances.find? id = some inst ∧
    o.created = some inst.id ∧ inst.down = false ∧ inst.exited = false

/-- An owner with this id gets an instance: its protocol is loaded, there is no instance for it, and
creating and initializing one succeeds. -/
def CanCreate (s : State) (id : UserId) (created : Bool) : Prop :=
  id.accountId = id.ownerAccountId ∧ (s.plugin? id.protocolId).isSome ∧
    s.myProtocolInstances.find? id = none ∧ created = true

/-- The owners that are loaded with a protocol, of those that are configured. -/
def ownersOf (s : State) (protocolId : ℕ) (owners : List (Σ _ : UserId, Unit)) : List UserId :=
  let ids := (owners.filter (·.1.protocolId = protocolId)).map Sigma.fst
  if (s.plugin? protocolId).any (·.canMultipleOwners) then ids else ids.take 1

/-- Every owner that is to be created gets an instance, and no instance exits that has not been told
to shut down. -/
def ActionOk (s : State) : Action → Prop
  | .addOwner userId created => s.Adds userId → s.CanCreate userId created
  | .loadProtocol protocolId created =>
    ∀ id ∈ s.ownersOf protocolId s.myConfiguredOwners.entries, s.CanCreate id (created id)
  | .exit ownerId => ∀ inst, s.myProtocolInstances.find? ownerId = some inst →
    inst.exited = false → inst.down = true
  | .loadProtocolPlugin _ | .unloadProtocolPlugin _ | .removeOwner _ | .statusChanged .. | .reapPlugin =>
    True

/-- What holds beside it: an instance that has not been told to shut down is that of an owner and of
a plugin that is loaded, and the ids of instances are distinct. -/
structure Inv (s : State) : Prop where
  protocol : ∀ id inst, s.myProtocolInstances.find? id = some inst →
    inst.plugin.protocolId = id.protocolId
  up : ∀ id inst, s.myProtocolInstances.find? id = some inst → inst.down = false →
    (s.myOwners.find? id).isSome ∧ inst.plugin ∈ s.myProtocolPlugins
  plugins : ∀ p ∈ s.myProtocolPlugins, ∀ q ∈ s.myProtocolPlugins, p.protocolId = q.protocolId → p = q
  fresh : ∀ id inst, s.myProtocolInstances.find? id = some inst → inst.id < s.myNextPluginId
  exits : ∀ i ∈ s.myExitList, i < s.myNextPluginId
  distinct : ∀ id inst id' inst', s.myProtocolInstances.find? id = some inst →
    s.myProtocolInstances.find? id' = some inst' → inst.id = inst'.id → id = id'
  exited : ∀ id inst, s.myProtocolInstances.find? id = some inst → inst.id ∈ s.myExitList →
    inst.exited = true

theorem sound_load (configured : SortedMap UserId Unit) : (load configured).Sound where
  failed := rfl
  keyed _ _ h := by cases h
  live _ _ h := by cases h

theorem inv_load (configured : SortedMap UserId Unit) : (load configured).Inv where
  protocol _ _ h := by cases h
  up _ _ h := by cases h
  plugins _ h := absurd h not_mem_nil
  fresh _ _ h := by cases h
  exits _ h := absurd h not_mem_nil
  distinct _ _ _ _ h := by cases h
  exited _ _ h := by cases h

/-! ## Creating -/

/-- A new instance of the plugin, and its owner. -/
def withOwner (s : State) (id : UserId) (plugin : Plugin) : State :=
  { s with
    myNextPluginId := s.myNextPluginId + 1
    myProtocolInstances :=
      s.myProtocolInstances.insert id ⟨s.myNextPluginId, id, plugin, false, false⟩
    myOwners :=
      s.myOwners.insert id ⟨plugin.canMultipleOwners, false, some s.myNextPluginId⟩ }

/-- An owner without an instance. -/
def withoutInstance (s : State) (id : UserId) (plugin : Plugin) : State :=
  { s with
    myNextPluginId := s.myNextPluginId + 1
    myOwners := s.myOwners.insert id ⟨plugin.canMultipleOwners, false, none⟩ }

variable {s : State}

variable {id ownerId : UserId} {created : Bool} {o : Owner} {protocolId : ℕ} {s' : State}

/-- **An owner that can be created** comes with its instance. -/
theorem insertOwner_of_canCreate {plugin : Plugin}
    (h : s.CanCreate id created) (hp : s.plugin? id.protocolId = some plugin) :
    s.insertOwner id created = some (s.withOwner id plugin,
      ⟨plugin.canMultipleOwners, false, some s.myNextPluginId⟩) := by
  obtain ⟨howner, -, hnone, rfl⟩ := h
  rw [insertOwner, createOwner, if_neg (not_not.mpr howner), hp]
  simp only [not_true_eq_false, if_false, hnone, isSome_none, Bool.false_eq_true,
    map_some]
  rfl

/-- **One that cannot** ends in an assertion or comes without. -/
theorem insertOwner_of_not_canCreate (h : ¬ s.CanCreate id created) :
    s.insertOwner id created = none ∨ ∃ plugin, s.plugin? id.protocolId = some plugin ∧
      s.insertOwner id created =
        some (s.withoutInstance id plugin, ⟨plugin.canMultipleOwners, false, none⟩) := by
  rw [insertOwner, createOwner]
  by_cases howner : id.accountId = id.ownerAccountId
  · rw [if_neg (not_not.mpr howner)]
    cases hp : s.plugin? id.protocolId with
    | none => exact .inl rfl
    | some plugin =>
      cases created with
      | false => exact .inr ⟨plugin, rfl, rfl⟩
      | true =>
        cases hfind : s.myProtocolInstances.find? id with
        | none => exact absurd ⟨howner, by rw [hp]; rfl, hfind, rfl⟩ h
        | some inst => exact .inl rfl
  · rw [if_pos howner]
    exact .inl rfl

/-- Creating an owner changes the one place in the map. -/
theorem insertOwner_myOwners {t : State}
    (h : s.insertOwner id created = some (t, o)) : t.myOwners = s.myOwners.insert id o := by
  by_cases hcan : s.CanCreate id created
  · obtain ⟨plugin, hp⟩ := isSome_iff_exists.mp hcan.2.1
    rw [insertOwner_of_canCreate hcan hp] at h
    cases h
    rfl
  · rcases insertOwner_of_not_canCreate hcan with hnone | ⟨plugin, -, hsome⟩
    · rw [hnone] at h
      cases h
    · rw [hsome] at h
      cases h
      rfl

theorem not_sound_fail : ¬ s.fail.Sound := fun h => by cases h.failed

theorem not_sound_of_created (h : s.myOwners.find? id = some o)
    (hnone : o.created = none) : ¬ s.Sound := fun hs => by
  obtain ⟨inst, -, hcreated, -⟩ := hs.live id o h
  rw [hnone] at hcreated
  cases hcreated

section WithOwner

variable {id : UserId} {plugin : Plugin}

theorem find?_withOwner {id' : UserId} {inst : Instance}
    (h : (s.withOwner id plugin).myProtocolInstances.find? id' = some inst) :
    id' = id ∧ inst = ⟨s.myNextPluginId, id, plugin, false, false⟩ ∨
      id' ≠ id ∧ s.myProtocolInstances.find? id' = some inst := by
  by_cases hid : id' = id
  · subst hid
    rw [withOwner, find?_insert_self, some.injEq] at h
    exact .inl ⟨rfl, h.symm⟩
  · rw [withOwner, find?_insert_of_ne _ _ hid] at h
    exact .inr ⟨hid, h⟩

theorem sound_withOwner (h : s.Sound) : (s.withOwner id plugin).Sound where
  failed := h.failed
  keyed id' inst hfind := by
    rcases find?_withOwner hfind with ⟨rfl, rfl⟩ | ⟨-, hfind⟩
    · rfl
    · exact h.keyed id' inst hfind
  live id' o ho := by
    by_cases hid : id' = id
    · subst hid
      rw [withOwner, find?_insert_self, some.injEq] at ho
      subst ho
      exact ⟨_, find?_insert_self _ _ _, rfl, rfl, rfl⟩
    · rw [withOwner, find?_insert_of_ne _ _ hid] at ho
      obtain ⟨inst, hinst, hlive⟩ := h.live id' o ho
      refine ⟨inst, ?_, hlive⟩
      rw [withOwner, find?_insert_of_ne _ _ hid]
      exact hinst

theorem inv_withOwner (h : s.Inv) (hp : s.plugin? id.protocolId = some plugin) :
    (s.withOwner id plugin).Inv where
  protocol id' inst hfind := by
    rcases find?_withOwner hfind with ⟨rfl, rfl⟩ | ⟨-, hfind⟩
    · simpa using find?_some hp
    · exact h.protocol id' inst hfind
  up id' inst hfind hdown := by
    rcases find?_withOwner hfind with ⟨rfl, rfl⟩ | ⟨-, hfind⟩
    · exact ⟨(isSome_find?_insert _ _ _ _).mpr (.inl rfl), mem_of_find?_eq_some hp⟩
    · obtain ⟨hsome, hmem⟩ := h.up id' inst hfind hdown
      exact ⟨(isSome_find?_insert _ _ _ _).mpr (.inr hsome), hmem⟩
  plugins := h.plugins
  fresh id' inst hfind := by
    rcases find?_withOwner hfind with ⟨rfl, rfl⟩ | ⟨-, hfind⟩
    · exact Nat.lt_succ_self _
    · exact Nat.lt_succ_of_lt (h.fresh id' inst hfind)
  exits i hi := Nat.lt_succ_of_lt (h.exits i hi)
  distinct a i b j ha hb hij := by
    rcases find?_withOwner ha with ⟨rfl, rfl⟩ | ⟨-, ha'⟩ <;>
      rcases find?_withOwner hb with ⟨rfl, rfl⟩ | ⟨-, hb'⟩
    · rfl
    · exact absurd hij.symm (Nat.ne_of_lt (h.fresh b j hb'))
    · exact absurd hij (Nat.ne_of_lt (h.fresh a i ha'))
    · exact h.distinct a i b j ha' hb' hij
  exited id' inst hfind hmem := by
    rcases find?_withOwner hfind with ⟨rfl, rfl⟩ | ⟨-, hfind⟩
    · exact absurd (h.exits _ hmem) (Nat.lt_irrefl _)
    · exact h.exited id' inst hfind hmem

theorem canCreate_withOwner {id' : UserId} (hne : id' ≠ id) (created : Bool) :
    (s.withOwner id plugin).CanCreate id' created ↔ s.CanCreate id' created := by
  rw [CanCreate, CanCreate, withOwner, find?_insert_of_ne _ _ hne]
  rfl

end WithOwner

/-- **Adding an owner.** -/
theorem sound_addOwner (h : s.Sound) (userId : UserId) (created : Bool) :
    (s.addOwner userId created).Sound ↔ (s.Adds userId → s.CanCreate userId created) := by
  rw [addOwner]
  by_cases hadds : s.Adds userId
  · rw [if_pos hadds]
    by_cases hcan : s.CanCreate userId created
    · obtain ⟨plugin, hp⟩ := isSome_iff_exists.mp hcan.2.1
      have hsound : (s.withOwner userId plugin).Sound := sound_withOwner h
      rw [insertOwner_of_canCreate hcan hp]
      exact iff_of_true ⟨hsound.failed, hsound.keyed, hsound.live⟩ fun _ => hcan
    · refine iff_of_false (fun hsound => ?_) fun hall => hcan (hall hadds)
      rcases insertOwner_of_not_canCreate hcan with hnone | ⟨plugin, -, hsome⟩
      · rw [hnone] at hsound
        exact not_sound_fail hsound
      · rw [hsome] at hsound
        exact not_sound_of_created (find?_insert_self _ userId _) rfl hsound
  · rw [if_neg hadds]
    exact iff_of_true h fun hall => absurd hall hadds

theorem inv_addOwner (hi : s.Inv) {userId : UserId}
    (hok : s.Adds userId → s.CanCreate userId created) : (s.addOwner userId created).Inv := by
  rw [addOwner]
  by_cases hadds : s.Adds userId
  · obtain ⟨plugin, hp⟩ := isSome_iff_exists.mp (hok hadds).2.1
    have hinv := inv_withOwner hi hp
    rw [if_pos hadds, insertOwner_of_canCreate (hok hadds) hp]
    exact ⟨hinv.protocol, hinv.up, hinv.plugins, hinv.fresh, hinv.exits, hinv.distinct, hinv.exited⟩
  · rw [if_neg hadds]
    exact hi

/-! ## Loading -/

/-- An owner without an instance stays so while others are loaded. -/
theorem not_sound_loadOwners {created : UserId → Bool}
    (owners : List (Σ _ : UserId, Unit))
    (h : s.myOwners.find? id = some o) (hnone : o.created = none) (hid : id ∉ owners.map Sigma.fst) :
    ¬ (loadOwners protocolId created owners s).Sound := by
  induction owners generalizing s with
  | nil => exact not_sound_of_created h hnone
  | cons e owners ih =>
    obtain ⟨ownerId, u⟩ := e
    rw [map_cons, mem_cons, not_or] at hid
    rw [loadOwners]
    by_cases hp : ownerId.protocolId ≠ protocolId
    · rw [if_pos hp]
      exact ih h hid.2
    · rw [if_neg hp]
      cases hinsert : s.insertOwner ownerId (created ownerId) with
      | none => exact not_sound_fail
      | some r =>
        obtain ⟨t, o'⟩ := r
        have ht : t.myOwners.find? id = some o := by
          rw [insertOwner_myOwners hinsert, find?_insert_of_ne _ _ hid.1]
          exact h
        by_cases hmulti : ¬ o'.canMultipleOwners
        · simp only [if_pos hmulti]
          exact not_sound_of_created ht hnone
        · simp only [if_neg hmulti]
          exact ih ht hid.2

theorem ownersOf_of_ne {e : Σ _ : UserId, Unit} (h : e.1.protocolId ≠ protocolId)
    (owners : List (Σ _ : UserId, Unit)) :
    s.ownersOf protocolId (e :: owners) = s.ownersOf protocolId owners := by
  rw [ownersOf, ownersOf, filter_cons_of_neg (by simpa using h)]

/-- The first owner is loaded, and the others if the protocol can have several. -/
theorem ownersOf_cons {e : Σ _ : UserId, Unit} (h : e.1.protocolId = protocolId)
    (owners : List (Σ _ : UserId, Unit)) :
    s.ownersOf protocolId (e :: owners) =
      if (s.plugin? protocolId).any (·.canMultipleOwners) then e.1 :: s.ownersOf protocolId owners
      else [e.1] := by
  rw [ownersOf, ownersOf, filter_cons_of_pos (by simpa using h), map_cons]
  split_ifs <;> rfl

theorem mem_keys_of_mem_ownersOf {owners : List (Σ _ : UserId, Unit)}
    (h : id ∈ s.ownersOf protocolId owners) : id ∈ owners.map Sigma.fst := by
  have hmem : id ∈ (owners.filter (·.1.protocolId = protocolId)).map Sigma.fst := by
    rw [ownersOf] at h
    split_ifs at h
    · exact h
    · exact mem_of_mem_take h
  obtain ⟨e, he, rfl⟩ := mem_map.mp hmem
  exact mem_map_of_mem (mem_filter.mp he).1

/-- **Loading owners that each get an instance.** -/
theorem sound_loadOwners {created : UserId → Bool}
    (owners : List (Σ _ : UserId, Unit)) (hnodup : owners.NodupKeys) (h : s.Sound) (hi : s.Inv)
    (hcan : ∀ id ∈ s.ownersOf protocolId owners, s.CanCreate id (created id)) :
    (loadOwners protocolId created owners s).Sound ∧
      (loadOwners protocolId created owners s).Inv := by
  induction owners generalizing s with
  | nil => exact ⟨h, hi⟩
  | cons e owners ih =>
    obtain ⟨ownerId, u⟩ := e
    rw [nodupKeys_cons] at hnodup
    rw [loadOwners]
    by_cases hp : ownerId.protocolId = protocolId
    · rw [ownersOf_cons hp] at hcan
      have hfirst : s.CanCreate ownerId (created ownerId) := by
        refine hcan ownerId ?_
        split_ifs <;> exact mem_cons_self
      obtain ⟨plugin, hplugin⟩ := isSome_iff_exists.mp hfirst.2.1
      have hsound : (s.withOwner ownerId plugin).Sound := sound_withOwner h
      have hinv := inv_withOwner hi hplugin
      rw [if_neg (not_not.mpr hp), insertOwner_of_canCreate hfirst hplugin]
      simp only
      split_ifs with hmulti
      · rw [← hp, hplugin, any_some, if_pos hmulti] at hcan
        refine ih hnodup.2 hsound hinv fun id hid => ?_
        have hne : id ≠ ownerId := fun heq => hnodup.1 (heq ▸ mem_keys_of_mem_ownersOf hid)
        exact (canCreate_withOwner hne _).mpr (hcan id (mem_cons_of_mem ownerId (hp ▸ hid)))
      · exact ⟨hsound, hinv⟩
    · rw [ownersOf_of_ne hp] at hcan
      rw [if_pos hp]
      exact ih hnodup.2 h hi hcan

/-- **Loading goes well** only if each owner gets an instance. -/
theorem canCreate_of_loadOwners {created : UserId → Bool}
    (owners : List (Σ _ : UserId, Unit)) (hnodup : owners.NodupKeys)
    (h : (loadOwners protocolId created owners s).Sound) :
    ∀ id ∈ s.ownersOf protocolId owners, s.CanCreate id (created id) := by
  induction owners generalizing s with
  | nil =>
    intro id hid
    exact absurd (mem_keys_of_mem_ownersOf hid) not_mem_nil
  | cons e owners ih =>
    obtain ⟨ownerId, u⟩ := e
    rw [nodupKeys_cons] at hnodup
    rw [loadOwners] at h
    by_cases hp : ownerId.protocolId = protocolId
    · rw [if_neg (not_not.mpr hp)] at h
      have hfirst : s.CanCreate ownerId (created ownerId) := by
        by_contra hnot
        rcases insertOwner_of_not_canCreate hnot with hnone | ⟨plugin, -, hsome⟩
        · rw [hnone] at h
          exact not_sound_fail h
        · rw [hsome] at h
          simp only at h
          have howner : (s.withoutInstance ownerId plugin).myOwners.find? ownerId = some _ :=
            find?_insert_self _ _ _
          split_ifs at h
          · exact not_sound_loadOwners owners howner rfl hnodup.1 h
          · exact not_sound_of_created howner rfl h
      obtain ⟨plugin, hplugin⟩ := isSome_iff_exists.mp hfirst.2.1
      rw [insertOwner_of_canCreate hfirst hplugin] at h
      simp only at h
      rw [ownersOf_cons hp, ← hp, hplugin, any_some]
      split_ifs at h with hmulti
      · rw [if_pos hmulti]
        intro id hid
        rcases mem_cons.mp hid with rfl | hid
        · exact hfirst
        · have hne : id ≠ ownerId := fun heq => hnodup.1 (heq ▸ mem_keys_of_mem_ownersOf hid)
          exact (canCreate_withOwner hne _).mp (ih hnodup.2 h id (hp ▸ hid))
      · rw [if_neg hmulti]
        intro id hid
        rw [mem_singleton.mp hid]
        exact hfirst
    · rw [if_pos hp] at h
      rw [ownersOf_of_ne hp]
      exact ih hnodup.2 h

/-! ## Shutting down -/

section Shutdown

variable {f : UserId → Instance → Instance} (hf : ∀ id inst, f id inst = inst ∨ f id inst = inst.shutdown)
include hf

/-- An instance that has been told to shut down keeps all else. -/
theorem find?_mapVals {id : UserId} {inst : Instance}
    (h : (s.myProtocolInstances.mapVals f).find? id = some inst) :
    ∃ inst₀, s.myProtocolInstances.find? id = some inst₀ ∧ inst = f id inst₀ ∧
      inst.id = inst₀.id ∧ inst.ownerId = inst₀.ownerId ∧ inst.plugin = inst₀.plugin ∧
      inst.exited = inst₀.exited := by
  rw [SortedMap.find?_mapVals, map_eq_some_iff] at h
  obtain ⟨inst₀, hfind, rfl⟩ := h
  refine ⟨inst₀, hfind, rfl, ?_⟩
  rcases hf id inst₀ with heq | heq
  · rw [heq]
    exact ⟨rfl, rfl, rfl, rfl⟩
  · rw [heq]
    exact ⟨rfl, rfl, rfl, rfl⟩

/-- **Shutting down the instances of owners that are gone** keeps the others live. -/
theorem sound_mapVals (h : s.Sound) {owners : SortedMap UserId Owner} (configured : SortedMap UserId Unit)
    (plugins : List Plugin)
    (howners : ∀ id o, owners.find? id = some o →
      s.myOwners.find? id = some o ∧ ∀ inst, s.myProtocolInstances.find? id = some inst →
        f id inst = inst) :
    Sound { s with
      myConfiguredOwners := configured
      myOwners := owners
      myProtocolPlugins := plugins
      myProtocolInstances := s.myProtocolInstances.mapVals f } where
  failed := h.failed
  keyed id inst hfind := by
    obtain ⟨inst₀, hfind, -, -, howner, -, -⟩ := find?_mapVals hf hfind
    exact howner.trans (h.keyed id inst₀ hfind)
  live id o ho := by
    obtain ⟨ho, hsame⟩ := howners id o ho
    obtain ⟨inst, hfind, hlive⟩ := h.live id o ho
    refine ⟨inst, ?_, hlive⟩
    rw [SortedMap.find?_mapVals, hfind, map_some, hsame inst hfind]

theorem inv_mapVals (hi : s.Inv) (owners : SortedMap UserId Owner) (configured : SortedMap UserId Unit)
    {plugins : List Plugin} (hplugins : ∀ p ∈ plugins, p ∈ s.myProtocolPlugins)
    (hup : ∀ id inst, s.myProtocolInstances.find? id = some inst → (f id inst).down = false →
      inst.down = false → (owners.find? id).isSome ∧ inst.plugin ∈ plugins) :
    Inv { s with
      myConfiguredOwners := configured
      myOwners := owners
      myProtocolPlugins := plugins
      myProtocolInstances := s.myProtocolInstances.mapVals f } where
  protocol id inst hfind := by
    obtain ⟨inst₀, hfind, -, -, -, hplugin, -⟩ := find?_mapVals hf hfind
    rw [hplugin]
    exact hi.protocol id inst₀ hfind
  up id inst hfind hdown := by
    obtain ⟨inst₀, hfind₀, rfl, -, -, hplugin, -⟩ := find?_mapVals hf hfind
    have hdown₀ : inst₀.down = false := by
      rcases hf id inst₀ with heq | heq
      · rwa [heq] at hdown
      · rw [heq] at hdown
        cases hdown
    rw [hplugin]
    exact hup id inst₀ hfind₀ hdown hdown₀
  plugins p hp q hq hpq := hi.plugins p (hplugins p hp) q (hplugins q hq) hpq
  fresh id inst hfind := by
    obtain ⟨inst₀, hfind, -, hid, -⟩ := find?_mapVals hf hfind
    rw [hid]
    exact hi.fresh id inst₀ hfind
  exits := hi.exits
  distinct a i b j ha hb hij := by
    obtain ⟨i₀, ha, -, hia, -⟩ := find?_mapVals hf ha
    obtain ⟨j₀, hb, -, hjb, -⟩ := find?_mapVals hf hb
    exact hi.distinct a i₀ b j₀ ha hb (by rw [← hia, ← hjb, hij])
  exited id inst hfind hmem := by
    obtain ⟨inst₀, hfind, -, hid, -, -, hexited⟩ := find?_mapVals hf hfind
    rw [hexited]
    exact hi.exited id inst₀ hfind (hid ▸ hmem)

end Shutdown

theorem ite_shutdown {p : Prop} {_ : Decidable p} (inst : Instance) :
    (if p then inst.shutdown else inst) = inst ∨ (if p then inst.shutdown else inst) = inst.shutdown := by
  split_ifs
  · exact .inr rfl
  · exact .inl rfl

/-- **Removing an owner** tells its instance to shut down. -/
theorem sound_removeOwner (h : s.Sound) (hi : s.Inv) (userId : UserId) :
    (s.removeOwner userId).Sound ∧ (s.removeOwner userId).Inv := by
  rw [removeOwner]
  cases s.myOwners.find? userId with
  | none => exact ⟨h, hi⟩
  | some o =>
    by_cases honline : o.isOnline
    · simp only [if_pos honline]
      exact ⟨h, hi⟩
    · simp only [if_neg honline]
      refine ⟨sound_mapVals (fun _ _ => ite_shutdown _) h _ _ ?_,
        inv_mapVals (fun _ _ => ite_shutdown _) hi _ _ (fun _ hp => hp) ?_⟩
      · intro id o ho
        have hne : id ≠ userId := by
          rintro rfl
          rw [find?_erase_self] at ho
          cases ho
        rw [find?_erase_of_ne _ hne] at ho
        exact ⟨ho, fun _ _ => if_neg hne⟩
      · intro id inst hfind hdown hdown₀
        have hne : id ≠ userId := by
          rintro rfl
          rw [if_pos rfl] at hdown
          cases hdown
        obtain ⟨hsome, hmem⟩ := hi.up id inst hfind hdown₀
        rw [find?_erase_of_ne _ hne]
        exact ⟨hsome, hmem⟩

/-- **Unloading a protocol** removes its owners and tells the instances of the plugin to shut down. -/
theorem sound_unloadProtocolPlugin (h : s.Sound) (hi : s.Inv) (plugin : Plugin) :
    (s.unloadProtocolPlugin plugin).Sound ∧ (s.unloadProtocolPlugin plugin).Inv := by
  rw [unloadProtocolPlugin]
  split_ifs with hloaded
  · simp only [unloadProtocol]
    refine ⟨sound_mapVals (fun _ _ => ite_shutdown _) h _ _ ?_,
      inv_mapVals (fun _ _ => ite_shutdown _) hi _ _ (fun _ hp => (mem_filter.mp hp).1) ?_⟩
    · intro id o ho
      rw [SortedMap.find?_filter, filter_eq_some_iff] at ho
      refine ⟨ho.1, fun inst hfind => if_neg fun heq => ?_⟩
      have hprotocol := hi.protocol id inst hfind
      rw [heq] at hprotocol
      exact absurd hprotocol.symm (by simpa using ho.2)
    · intro id inst hfind hdown hdown₀
      have hne : inst.plugin ≠ plugin := by
        intro heq
        rw [if_pos heq] at hdown
        cases hdown
      obtain ⟨hsome, hmem⟩ := hi.up id inst hfind hdown₀
      have hprotocol : id.protocolId ≠ plugin.protocolId := fun heq =>
        hne (hi.plugins _ hmem _ hloaded.1 ((hi.protocol id inst hfind).trans heq))
      obtain ⟨o, ho⟩ := isSome_iff_exists.mp hsome
      rw [SortedMap.find?_filter, ho]
      exact ⟨by simp [hprotocol], mem_filter.mpr ⟨hmem, by simpa using hne⟩⟩
  · exact ⟨h, hi⟩

/-! ## Exits -/

/-- An instance that exits stays in the map. -/
theorem find?_exit {id : UserId} {inst i : Instance}
    (hfind : s.myProtocolInstances.find? ownerId = some inst)
    (h : (s.myProtocolInstances.insert ownerId { inst with exited := true }).find? id = some i) :
    ∃ i₀, s.myProtocolInstances.find? id = some i₀ ∧ i.id = i₀.id ∧ i.ownerId = i₀.ownerId ∧
      i.plugin = i₀.plugin ∧ i.down = i₀.down ∧ (i₀.exited = true → i.exited = true) ∧
      (id = ownerId → i.exited = true) := by
  by_cases hid : id = ownerId
  · subst hid
    rw [find?_insert_self, some.injEq] at h
    subst h
    exact ⟨inst, hfind, rfl, rfl, rfl, rfl, fun _ => rfl, fun _ => rfl⟩
  · rw [find?_insert_of_ne _ _ hid] at h
    exact ⟨i, h, rfl, rfl, rfl, rfl, fun hexited => hexited, fun heq => absurd heq hid⟩

/-- **An instance exits**: its owner is left without it, unless it has been told to shut down. -/
theorem sound_exit (h : s.Sound) (hi : s.Inv)
    (hs : s.exit ownerId = some s') : (s'.Sound ↔ s.ActionOk (.exit ownerId)) ∧ s'.Inv := by
  rw [exit] at hs
  cases hfind : s.myProtocolInstances.find? ownerId with
  | none =>
    rw [hfind] at hs
    cases hs
  | some inst =>
    rw [hfind] at hs
    obtain ⟨hexited, hs⟩ := ite_none_left_eq_some.mp hs
    cases hs
    have hok : s.ActionOk (.exit ownerId) ↔ inst.down = true := by
      refine ⟨fun hok => hok inst hfind (by simpa using hexited), fun hdown i hi' _ => ?_⟩
      rw [hfind, some.injEq] at hi'
      rw [← hi', hdown]
    refine ⟨?_, ?_⟩
    · rw [hok]
      constructor
      · intro hsound
        by_contra hdown
        obtain ⟨o, ho⟩ := isSome_iff_exists.mp
          (hi.up ownerId inst hfind (by simpa using hdown)).1
        obtain ⟨i, hlive, -, -, hrunning⟩ := hsound.live ownerId o ho
        obtain ⟨-, -, -, -, -, -, -, hexit⟩ := find?_exit hfind hlive
        rw [hexit rfl] at hrunning
        cases hrunning
      · intro hdown
        refine ⟨h.failed, fun id i hfind' => ?_, fun id o ho => ?_⟩
        · obtain ⟨i₀, hfind₀, -, howner, -⟩ := find?_exit hfind hfind'
          exact howner.trans (h.keyed id i₀ hfind₀)
        · obtain ⟨i, hfind', hcreated, hup, hrunning⟩ := h.live id o ho
          have hne : id ≠ ownerId := by
            rintro rfl
            rw [hfind, some.injEq] at hfind'
            rw [← hfind', hdown] at hup
            cases hup
          exact ⟨i, (find?_insert_of_ne _ _ hne).trans hfind', hcreated, hup, hrunning⟩
    · refine ⟨fun id i hfind' => ?_, fun id i hfind' hdown => ?_, hi.plugins, fun id i hfind' => ?_,
        fun i hmem => ?_, fun a i b j ha hb hij => ?_, fun id i hfind' hmem => ?_⟩
      · obtain ⟨i₀, hfind₀, -, -, hplugin, -⟩ := find?_exit hfind hfind'
        rw [hplugin]
        exact hi.protocol id i₀ hfind₀
      · obtain ⟨i₀, hfind₀, -, -, hplugin, hdown₀, -⟩ := find?_exit hfind hfind'
        rw [hplugin]
        exact hi.up id i₀ hfind₀ (hdown₀ ▸ hdown)
      · obtain ⟨i₀, hfind₀, hid, -⟩ := find?_exit hfind hfind'
        rw [hid]
        exact hi.fresh id i₀ hfind₀
      · rcases mem_append.mp hmem with hmem | hmem
        · exact hi.exits i hmem
        · rw [mem_singleton.mp hmem]
          exact hi.fresh ownerId inst hfind
      · obtain ⟨i₀, ha₀, hia, -⟩ := find?_exit hfind ha
        obtain ⟨j₀, hb₀, hjb, -⟩ := find?_exit hfind hb
        exact hi.distinct a i₀ b j₀ ha₀ hb₀ (by rw [← hia, ← hjb, hij])
      · obtain ⟨i₀, hfind₀, hid, -, -, -, hkept, hexit⟩ := find?_exit hfind hfind'
        rcases mem_append.mp hmem with hmem | hmem
        · exact hkept (hi.exited id i₀ hfind₀ (hid ▸ hmem))
        · refine hexit (hi.distinct id i₀ ownerId inst hfind₀ hfind ?_)
          rw [← hid, mem_singleton.mp hmem]

/-- An instance that has exited leaves the map. -/
theorem sound_eraseInstance (h : s.Sound) (hi : s.Inv) {inst : Instance}
    (hfind : s.myProtocolInstances.find? ownerId = some inst) (hexited : inst.exited = true)
    {exits : List ℕ} (hexits : ∀ i ∈ exits, i ∈ s.myExitList) :
    Sound { s with
      myExitList := exits, myProtocolInstances := s.myProtocolInstances.erase ownerId } ∧
    Inv { s with
      myExitList := exits, myProtocolInstances := s.myProtocolInstances.erase ownerId } := by
  have herase {id : UserId} {i : Instance}
      (hf : (s.myProtocolInstances.erase ownerId).find? id = some i) :
      s.myProtocolInstances.find? id = some i := by
    have hne : id ≠ ownerId := by
      rintro rfl
      rw [find?_erase_self] at hf
      cases hf
    rwa [find?_erase_of_ne _ hne] at hf
  refine ⟨⟨h.failed, fun id i hf => h.keyed id i (herase hf), fun id o ho => ?_⟩,
    ⟨fun id i hf => hi.protocol id i (herase hf), fun id i hf => hi.up id i (herase hf), hi.plugins,
      fun id i hf => hi.fresh id i (herase hf), fun i hmem => hi.exits i (hexits i hmem),
      fun a i b j ha hb => hi.distinct a i b j (herase ha) (herase hb),
      fun id i hf hmem => hi.exited id i (herase hf) (hexits _ hmem)⟩⟩
  obtain ⟨i, hf, hcreated, hup, hrunning⟩ := h.live id o ho
  have hne : id ≠ ownerId := by
    rintro rfl
    rw [hfind, some.injEq] at hf
    rw [← hf, hexited] at hrunning
    cases hrunning
  exact ⟨i, (find?_erase_of_ne _ hne).trans hf, hcreated, hup, hrunning⟩

/-- Unloading a protocol that has no instance left. -/
theorem sound_unloadProtocol (h : s.Sound) (hi : s.Inv)
    (hnone : ∀ id inst, s.myProtocolInstances.find? id = some inst → inst.plugin.protocolId ≠ protocolId) :
    (s.unloadProtocol protocolId).Sound ∧ (s.unloadProtocol protocolId).Inv := by
  refine ⟨⟨h.failed, h.keyed, fun id o ho => ?_⟩,
    ⟨hi.protocol, fun id inst hfind hdown => ?_, hi.plugins, hi.fresh, hi.exits, hi.distinct,
      hi.exited⟩⟩
  · rw [unloadProtocol, SortedMap.find?_filter, filter_eq_some_iff] at ho
    exact h.live id o ho.1
  · obtain ⟨hsome, hmem⟩ := hi.up id inst hfind hdown
    have hprotocol : id.protocolId ≠ protocolId := fun heq =>
      hnone id inst hfind ((hi.protocol id inst hfind).trans heq)
    obtain ⟨o, ho⟩ := isSome_iff_exists.mp hsome
    rw [unloadProtocol, SortedMap.find?_filter, ho]
    exact ⟨by simp [hprotocol], hmem⟩

/-- **Reaping** takes an instance that has exited out of the map. -/
theorem sound_reapPlugin (h : s.Sound) (hi : s.Inv) (hs : s.reapPlugin = some s') :
    s'.Sound ∧ s'.Inv := by
  rw [reapPlugin] at hs
  cases hlist : s.myExitList with
  | nil =>
    rw [hlist] at hs
    cases hs
  | cons exitId exits =>
    have hexits : ∀ i ∈ exits, i ∈ s.myExitList := fun i hmem => by
      rw [hlist]
      exact mem_cons_of_mem exitId hmem
    rw [hlist] at hs
    simp only at hs
    cases hfind : s.myProtocolInstances.entries.find? (·.2.id = exitId) with
    | none =>
      rw [hfind] at hs
      cases hs
      exact ⟨⟨h.failed, h.keyed, h.live⟩, ⟨hi.protocol, hi.up, hi.plugins, hi.fresh,
        fun i hmem => hi.exits i (hexits i hmem), hi.distinct,
        fun id i hf hmem => hi.exited id i hf (hexits _ hmem)⟩⟩
    | some e =>
      obtain ⟨ownerId, inst⟩ := e
      rw [hfind] at hs
      have hid : inst.id = exitId := by simpa using find?_some hfind
      have hinst : s.myProtocolInstances.find? ownerId = some inst :=
        mem_entries_iff.mp (mem_of_find?_eq_some hfind)
      have hexited := hi.exited ownerId inst hinst (by rw [hid, hlist]; exact mem_cons_self)
      obtain ⟨hsound, hinv⟩ := sound_eraseInstance h hi hinst hexited hexits
      simp only at hs
      split_ifs at hs with hmore hloaded
      · cases hs
        exact ⟨hsound, hinv⟩
      · cases hs
        exact ⟨hsound, hinv⟩
      · cases hs
        refine sound_unloadProtocol hsound hinv fun id i hf heq => hmore ?_
        exact any_eq_true.mpr ⟨⟨id, i⟩, mem_entries_iff.mpr hf, by simpa using heq⟩

/-! ## Every run -/

theorem sound_loadProtocolPlugin (h : s.Sound) (hi : s.Inv) (plugin : Plugin) :
    (s.loadProtocolPlugin plugin).Sound ∧ (s.loadProtocolPlugin plugin).Inv := by
  rw [loadProtocolPlugin]
  split_ifs with hloaded
  · exact ⟨h, hi⟩
  · have hnew : ∀ p ∈ s.myProtocolPlugins, p.protocolId ≠ plugin.protocolId := by
      simpa [plugin?] using hloaded
    refine ⟨⟨h.failed, h.keyed, h.live⟩, ⟨hi.protocol, fun id inst hfind hdown => ?_,
      fun p hp q hq hpq => ?_, hi.fresh, hi.exits, hi.distinct, hi.exited⟩⟩
    · obtain ⟨hsome, hmem⟩ := hi.up id inst hfind hdown
      exact ⟨hsome, mem_append_left _ hmem⟩
    · rcases mem_append.mp hp with hp | hp <;> rcases mem_append.mp hq with hq | hq
      · exact hi.plugins p hp q hq hpq
      · rw [mem_singleton.mp hq] at hpq
        exact absurd hpq (hnew p hp)
      · rw [mem_singleton.mp hp] at hpq
        exact absurd hpq.symm (hnew q hq)
      · rw [mem_singleton.mp hp, mem_singleton.mp hq]

theorem sound_statusChanged (h : s.Sound) (hi : s.Inv) (userId : UserId) (isOnline : Bool) :
    Sound { s with myOwners := s.myOwners.modify userId fun o => { o with isOnline := isOnline } } ∧
    Inv { s with myOwners := s.myOwners.modify userId fun o => { o with isOnline := isOnline } } := by
  refine ⟨⟨h.failed, h.keyed, fun id o ho => ?_⟩, ⟨hi.protocol, fun id inst hfind hdown => ?_,
    hi.plugins, hi.fresh, hi.exits, hi.distinct, hi.exited⟩⟩
  · by_cases hid : id = userId
    · subst hid
      rw [find?_modify_self, map_eq_some_iff] at ho
      obtain ⟨o, ho, rfl⟩ := ho
      exact h.live id o ho
    · rw [find?_modify_of_ne _ _ hid] at ho
      exact h.live id o ho
  · rw [isSome_find?_modify]
    exact hi.up id inst hfind hdown

/-- **One call** keeps every owner with its live instance exactly when it is one of those that go
well. -/
theorem sound_step {a : Action} (h : s.Sound) (hi : s.Inv) (hs : s.step a = some s') :
    (s'.Sound ↔ s.ActionOk a) ∧ (s'.Sound → s'.Inv) := by
  have hkeeps {t : State} (ht : t.Sound ∧ t.Inv) : (t.Sound ↔ True) ∧ (t.Sound → t.Inv) :=
    ⟨iff_of_true ht.1 trivial, fun _ => ht.2⟩
  have hfailed : ¬ s.failed = true := by
    rw [h.failed]
    decide
  rw [step.eq_def, if_neg hfailed] at hs
  cases a with
  | loadProtocolPlugin plugin =>
    cases hs
    exact hkeeps (sound_loadProtocolPlugin h hi plugin)
  | loadProtocol protocolId created =>
    cases hs
    have hnodup := s.myConfiguredOwners.nodupKeys
    have hloads (hok : s.ActionOk (.loadProtocol protocolId created)) :
        (s.loadProtocol protocolId created).Sound ∧ (s.loadProtocol protocolId created).Inv :=
      sound_loadOwners s.myConfiguredOwners.entries hnodup h hi hok
    have hcan (hsound : (s.loadProtocol protocolId created).Sound) :
        s.ActionOk (.loadProtocol protocolId created) :=
      canCreate_of_loadOwners s.myConfiguredOwners.entries hnodup hsound
    exact ⟨⟨hcan, fun hok => (hloads hok).1⟩, fun hsound => (hloads (hcan hsound)).2⟩
  | unloadProtocolPlugin plugin =>
    cases hs
    exact hkeeps (sound_unloadProtocolPlugin h hi plugin)
  | addOwner userId created =>
    cases hs
    have hadd := sound_addOwner h userId created
    exact ⟨hadd, fun hsound => inv_addOwner hi (hadd.mp hsound)⟩
  | removeOwner userId =>
    cases hs
    exact hkeeps (sound_removeOwner h hi userId)
  | statusChanged userId isOnline =>
    cases hs
    exact hkeeps (sound_statusChanged h hi userId isOnline)
  | exit ownerId =>
    obtain ⟨hsound, hinv⟩ := sound_exit h hi hs
    exact ⟨hsound, fun _ => hinv⟩
  | reapPlugin => exact hkeeps (sound_reapPlugin h hi hs)

/-- A call that is not possible is one that goes well. -/
theorem actionOk_of_step_eq_none {a : Action} (h : s.Sound) (hs : s.step a = none) : s.ActionOk a := by
  have hfailed : ¬ s.failed = true := by
    rw [h.failed]
    decide
  rw [step.eq_def, if_neg hfailed] at hs
  cases a with
  | exit ownerId =>
    intro inst hfind hrunning
    simp only [exit, hfind, hrunning, Bool.false_eq_true, if_false, reduceCtorEq] at hs
  | reapPlugin => trivial
  | _ => cases hs

/-- **Owners and their instances.**  In every state of a run no assertion has failed and every owner
has its live instance, exactly when every owner that the calls of the run create gets one and no
instance exits that has not been told to shut down. -/
theorem sound_iff (configured : SortedMap UserId Unit) (as : List Action) :
    Steps.Stays step Sound (load configured) as ↔ Steps.Each step ActionOk (load configured) as :=
  Steps.stays_iff_each_of_inv (P := Sound) (I := Inv)
    (fun _ _ h _ hs => actionOk_of_step_eq_none h hs)
    (fun _ _ _ h hi hs => (sound_step h hi hs).1) (fun _ _ _ h hi hs => (sound_step h hi hs).2)
    (sound_load configured) (inv_load configured) as

/-- **An owner that is added again** after it has been removed, before its old instance is reaped: the
assertion that it has none fails. -/
theorem not_sound_addOwner_again : ¬ ∀ as : List Action,
    Steps.Stays step Sound (load SortedMap.empty) as := by
  intro h
  have hend := (h [.loadProtocolPlugin ⟨0, icqPpid, false⟩, .addOwner (.owner icqPpid ['1']) true,
    .removeOwner (.owner icqPpid ['1']), .addOwner (.owner icqPpid ['1']) true]).foldlM rfl
  exact absurd hend.failed (by decide +kernel)

end State

end Licq.Instances
