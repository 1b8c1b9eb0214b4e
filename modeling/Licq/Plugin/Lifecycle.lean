import Licq.Data.Steps
import Mathlib.Data.List.Nodup
import Mathlib.Data.List.Perm.Basic

/-!
# Plugin/Lifecycle — who tells that a protocol is removed

Plugins are loaded and unloaded from any thread; the main thread reaps the instances that have exited.
Who pushes `SignalRemoveProtocol` is decided twice: the unloading thread looks at the weak references to
the instances, the reaping thread at the lists of instances and plugins, each outside the critical
section in which the plugin is taken from the list.  `stays_sound` says between which steps nothing
may come for each unload to be told of once.
-/

namespace Licq.Lifecycle

/-! ## State -/

/-- `ProtocolPlugin`: an object for each time that the library is loaded. -/
structure Plugin where
  serial : ℕ
  protocolId : ℕ
  deriving DecidableEq

/-- `ProtocolPluginInstance` -/
structure Instance where
  id : ℕ
  plugin : Plugin
  deriving DecidableEq

/-- `PluginSignal`, with what it says nothing about: the plugin that is removed, and the instances of
its protocol that are left in `myProtocolInstances`. -/
inductive Signal
  | newProtocol (protocolId : ℕ)
  | removeProtocol (plugin : Plugin) (left : List Instance)
  deriving DecidableEq

/-- Where a call of `loadProtocolPlugin` is. -/
inductive Load
  /-- No plugin for the protocol was in the list. -/
  | checked (plugin : Plugin)
  | listed (plugin : Plugin)
  deriving DecidableEq

/-- Where a call of `unloadProtocolPlugin` is. -/
inductive Unload
  | erased (plugin : Plugin)
  /-- No instance was left. -/
  | pushing (plugin : Plugin)
  /-- The instances that were left are shut down. -/
  | stopping (plugin : Plugin) (instances : List Instance)
  deriving DecidableEq

/-- Where the main thread is in `reapPlugin`. -/
inductive Reap
  | idle
  | popped (exitId : ℕ)
  | taken (inst : Instance)
  /-- `isPluginUnloaded` -/
  | flagged (inst : Instance)
  | leaving (inst : Instance)
  deriving DecidableEq

/-- The lists of the manager, the calls that are under way and the signals that have been pushed;
`held` are the instances that other threads hold a pointer to, `unloaded` the plugins that have been
taken from the list. -/
structure State where
  myProtocolPlugins : List Plugin
  myProtocolInstances : List Instance
  myNextPluginId : ℕ
  nextSerial : ℕ
  myExitList : List ℕ
  loads : List Load
  unloads : List Unload
  reap : Reap
  held : List Instance
  signals : List Signal
  unloaded : List Plugin
  deriving DecidableEq

def Unload.plugin : Unload → Plugin
  | .erased plugin => plugin
  | .pushing plugin => plugin
  | .stopping plugin _ => plugin

def Unload.instances : Unload → List Instance
  | .stopping _ instances => instances
  | _ => []

def Reap.instances : Reap → List Instance
  | .taken inst => [inst]
  | .flagged inst => [inst]
  | .leaving inst => [inst]
  | _ => []

namespace State

def init : State := ⟨[], [], 1, 0, [], [], [], .idle, [], [], []⟩

/-- The instances that are pointed to: a weak reference to another one has expired. -/
def referenced (s : State) : List Instance :=
  s.myProtocolInstances ++ s.reap.instances ++ s.held ++ s.unloads.flatMap Unload.instances

/-! ## Loading -/

/-- Check if we already got a plugin for this protocol. -/
def check (s : State) (protocolId : ℕ) : State :=
  if ∃ p ∈ s.myProtocolPlugins, p.protocolId = protocolId then s
  else { s with
    nextSerial := s.nextSerial + 1
    loads := s.loads ++ [.checked ⟨s.nextSerial, protocolId⟩] }

def list (s : State) (p : Plugin) : Option State :=
  if .checked p ∈ s.loads then
    some { s with
      myProtocolPlugins := s.myProtocolPlugins ++ [p]
      loads := s.loads.erase (.checked p) ++ [.listed p] }
  else none

/-- Let the plugins know about the new protocol plugin. -/
def announce (s : State) (p : Plugin) : Option State :=
  if .listed p ∈ s.loads then
    some { s with
      loads := s.loads.erase (.listed p)
      signals := s.signals ++ [.newProtocol p.protocolId] }
  else none

/-! ## Unloading -/

/-- Remove the plugin from the list; `allowed` is what `allowUnloadProtocol` answers. -/
def erase (s : State) (p : Plugin) (allowed : Bool) : State :=
  if p ∈ s.myProtocolPlugins ∧ allowed then
    { s with
      myProtocolPlugins := s.myProtocolPlugins.erase p
      unloads := s.unloads ++ [.erased p]
      unloaded := s.unloaded ++ [p] }
  else s

/-- `ProtocolPlugin::instances` -/
def instances (s : State) (p : Plugin) : List Instance := s.referenced.filter (·.plugin = p)

/-- The signal is sent here if there wasn't any running instance left. -/
def look (s : State) (p : Plugin) : Option State :=
  if .erased p ∈ s.unloads then
    let instances := s.instances p
    some { s with unloads := s.unloads.erase (.erased p) ++
      [if instances = [] then .pushing p else .stopping p instances] }
  else none

def signalRemoved (s : State) (p : Plugin) : List Signal :=
  s.signals ++
    [.removeProtocol p (s.myProtocolInstances.filter (·.plugin.protocolId = p.protocolId))]

def push (s : State) (p : Plugin) : Option State :=
  if .pushing p ∈ s.unloads then
    some { s with
      unloads := s.unloads.erase (.pushing p)
      signals := s.signalRemoved p }
  else none

/-- The instances have been told to shut down, and the call returns. -/
def stop (s : State) (u : Unload) : Option State :=
  match u with
  | .stopping _ _ => if u ∈ s.unloads then some { s with unloads := s.unloads.erase u } else none
  | _ => none

/-! ## Instances -/

/-- `createProtocolOwner`, which asserts that the plugin is in the list. -/
def start (s : State) (p : Plugin) : Option State :=
  if p ∈ s.myProtocolPlugins then
    some { s with
      myNextPluginId := s.myNextPluginId + 1
      myProtocolInstances := s.myProtocolInstances ++ [⟨s.myNextPluginId, p⟩] }
  else none

/-- `pluginHasExited` -/
def exit (s : State) (inst : Instance) : Option State :=
  if inst ∈ s.myProtocolInstances ∧ inst.id ∉ s.myExitList ∧ s.reap ≠ .popped inst.id then
    some { s with myExitList := s.myExitList ++ [inst.id] }
  else none

/-- Another thread gets a pointer to the instance. -/
def hold (s : State) (inst : Instance) : Option State :=
  if inst ∈ s.referenced then some { s with held := s.held ++ [inst] } else none

def release (s : State) (inst : Instance) : Option State :=
  if inst ∈ s.held then some { s with held := s.held.erase inst } else none

/-! ## Reaping -/

def pop (s : State) : Option State :=
  match s.reap, s.myExitList with
  | .idle, exitId :: exits => some { s with myExitList := exits, reap := .popped exitId }
  | _, _ => none

/-- The first critical section of `reapProtocolInstance`. -/
def take (s : State) : Option State :=
  match s.reap with
  | .popped exitId =>
    match s.myProtocolInstances.find? (·.id = exitId) with
    | none => some { s with reap := .idle }
    | some inst =>
      some { s with
        myProtocolInstances := s.myProtocolInstances.erase inst
        reap := .taken inst }
  | _ => none

/-- The second one: see if there is any more instances of this protocol, and if the plugin has been
removed from the list. -/
def lookUp (s : State) : Option State :=
  match s.reap with
  | .taken inst =>
    if (∃ i ∈ s.myProtocolInstances, i.plugin.protocolId = inst.plugin.protocolId) ∨
        inst.plugin ∈ s.myProtocolPlugins then
      some { s with reap := .leaving inst }
    else some { s with reap := .flagged inst }
  | _ => none

def signal (s : State) : Option State :=
  match s.reap with
  | .flagged inst => some { s with reap := .leaving inst, signals := s.signalRemoved inst.plugin }
  | _ => none

/-- `reapPlugin` returns, and the instance is let go. -/
def leave (s : State) : Option State :=
  match s.reap with
  | .leaving _ => some { s with reap := .idle }
  | _ => none

end State

/-! ## Runs -/

inductive Action
  | check (protocolId : ℕ)
  | list (p : Plugin)
  | announce (p : Plugin)
  | erase (p : Plugin) (allowed : Bool)
  | look (p : Plugin)
  | push (p : Plugin)
  | stop (u : Unload)
  | start (p : Plugin)
  | exit (inst : Instance)
  | hold (inst : Instance)
  | release (inst : Instance)
  | pop
  | take
  | lookUp
  | signal
  | leave

/-- One step of some thread; none where it cannot be taken. -/
def step (s : State) : Action → Option State
  | .check protocolId => some (s.check protocolId)
  | .list p => s.list p
  | .announce p => s.announce p
  | .erase p allowed => some (s.erase p allowed)
  | .look p => s.look p
  | .push p => s.push p
  | .stop u => s.stop u
  | .start p => s.start p
  | .exit inst => s.exit inst
  | .hold inst => s.hold inst
  | .release inst => s.release inst
  | .pop => s.pop
  | .take => s.take
  | .lookUp => s.lookUp
  | .signal => s.signal
  | .leave => s.leave

/-! ## The property -/

def Signal.removed : Signal → Option Plugin
  | .removeProtocol p _ => some p
  | .newProtocol _ => none

namespace State

/-- How often the removal of the plugin has been signalled. -/
def removals (s : State) (p : Plugin) : ℕ := (s.signals.filterMap Signal.removed).count p

/-- The reaping thread has still to look at an instance of the plugin, or to push the signal. -/
def Pending (s : State) (p : Plugin) : Prop :=
  (∃ i ∈ s.myProtocolInstances, i.plugin = p) ∨
    ∃ i, (s.reap = .taken i ∨ s.reap = .flagged i) ∧ i.plugin = p

/-- The call that unloads the plugin has still to look at its instances, or to push the signal. -/
def Unloading (s : State) (p : Plugin) : Prop := .erased p ∈ s.unloads ∨ .pushing p ∈ s.unloads

/-- At most one plugin is loaded for a protocol, and each unload is signalled once, when no instance
of the protocol is left. -/
structure Sound (s : State) : Prop where
  protocols : (s.myProtocolPlugins.map Plugin.protocolId).Nodup
  once : ∀ p ∈ s.unloaded, s.removals p ≤ 1
  sent : ∀ p ∈ s.unloaded, ¬ s.Unloading p → ¬ s.Pending p → s.removals p = 1
  left : ∀ p left, .removeProtocol p left ∈ s.signals → p ∈ s.unloaded ∧ left = []

/-- A plugin for the protocol has been unloaded, and nobody has signalled it yet. -/
def Outstanding (s : State) (protocolId : ℕ) : Prop :=
  ∃ p ∈ s.unloaded, p.protocolId = protocolId ∧ s.removals p = 0

end State

/-- **The condition on a step.**  No plugin for the protocol has been listed since the check.  A plugin
is unloaded and its instances are created when the removal of an earlier plugin for the protocol has
been signalled.  When the unloading thread finds no instance, the reaping thread has not signalled the
removal before; when it finds one, the reaping thread has still to look at one, or has signalled. -/
def ActionOk (s : State) : Action → Prop
  | .list p => ∀ q ∈ s.myProtocolPlugins, q.protocolId ≠ p.protocolId
  | .erase p allowed => p ∈ s.myProtocolPlugins ∧ allowed → ¬ s.Outstanding p.protocolId
  | .start p => ¬ s.Outstanding p.protocolId
  | .look p => (s.instances p = [] → s.removals p = 0) ∧
      (s.instances p ≠ [] → s.Pending p ∨ s.removals p = 1)
  | _ => True

/-- The plugin, while it is not in the list. -/
def Load.created : Load → Option Plugin
  | .checked p => some p
  | .listed _ => none

instance (s : State) (p : Plugin) : Decidable (s.Pending p) :=
  decidable_of_iff ((∃ i ∈ s.myProtocolInstances, i.plugin = p) ∨
      ∃ i ∈ s.reap.instances, (s.reap = .taken i ∨ s.reap = .flagged i) ∧ i.plugin = p) <| by
    refine or_congr_right ⟨fun ⟨i, _, hi⟩ => ⟨i, hi⟩, fun ⟨i, hreap, hi⟩ => ⟨i, ?_, hreap, hi⟩⟩
    rcases hreap with hreap | hreap
    · simp [hreap, Reap.instances]
    · simp [hreap, Reap.instances]

instance (s : State) (p : Plugin) : Decidable (s.Unloading p) := by
  unfold State.Unloading
  infer_instance

instance (s : State) (protocolId : ℕ) : Decidable (s.Outstanding protocolId) := by
  unfold State.Outstanding
  infer_instance

instance (s : State) (a : Action) : Decidable (ActionOk s a) := by
  cases a <;> simp only [ActionOk] <;> infer_instance

namespace State

/-! ## What holds in a run -/

/-- The plugins that have been created. -/
def known (s : State) : List Plugin :=
  s.myProtocolPlugins ++ s.unloaded ++ s.loads.filterMap Load.created

/-- What holds beside the property.  A plugin is in one place; an instance is of a plugin that is
loaded or unloaded; while an unload has not been signalled, the instances of its protocol are its own.
Its removal has been signalled, or the reaping thread will do it, once the unloading thread has looked;
before, neither need be, but not both are. -/
structure Inv (s : State) : Prop where
  fresh : ∀ p ∈ s.known, p.serial < s.nextSerial
  known : s.known.Nodup
  protocols : (s.myProtocolPlugins.map Plugin.protocolId).Nodup
  plugins : ∀ i ∈ s.referenced, i.plugin ∈ s.myProtocolPlugins ∨ i.plugin ∈ s.unloaded
  calls : (s.unloads.map Unload.plugin).Nodup
  called : ∀ u ∈ s.unloads, u.plugin ∈ s.unloaded
  own : ∀ p ∈ s.unloaded, s.removals p = 0 → ∀ i ∈ s.myProtocolInstances,
    i.plugin.protocolId = p.protocolId → i.plugin = p
  flagged : ∀ i, s.reap = .flagged i → i.plugin ∈ s.unloaded ∧
    ∀ j ∈ s.myProtocolInstances, j.plugin.protocolId ≠ i.plugin.protocolId
  early : ∀ p, .erased p ∈ s.unloads → s.removals p = 0 ∨ s.removals p = 1 ∧ ¬ s.Pending p
  pushing : ∀ p, .pushing p ∈ s.unloads → s.removals p = 0 ∧ ∀ i ∈ s.referenced, i.plugin ≠ p
  late : ∀ p ∈ s.unloaded, ¬ s.Unloading p →
    s.removals p = 0 ∧ s.Pending p ∨ s.removals p = 1 ∧ ¬ s.Pending p
  signalled : ∀ p left, .removeProtocol p left ∈ s.signals → p ∈ s.unloaded ∧ left = []

variable {s s' : State}

theorem inv_init : init.Inv where
  fresh _ h := absurd h List.not_mem_nil
  known := List.nodup_nil
  protocols := List.nodup_nil
  plugins _ h := absurd h List.not_mem_nil
  calls := List.nodup_nil
  called _ h := absurd h List.not_mem_nil
  own _ h := absurd h List.not_mem_nil
  flagged _ h := by cases h
  early _ h := absurd h List.not_mem_nil
  pushing _ h := absurd h List.not_mem_nil
  late _ h := absurd h List.not_mem_nil
  signalled _ _ h := absurd h List.not_mem_nil

/-- **The invariant is enough.** -/
theorem Inv.sound (h : s.Inv) : s.Sound where
  protocols := h.protocols
  once p hp := by
    by_cases hu : s.Unloading p
    · rcases hu with hu | hu
      · have := h.early p hu
        omega
      · have := (h.pushing p hu).1
        omega
    · have := h.late p hp hu
      omega
  sent p hp hu hpend := by
    rcases h.late p hp hu with h0 | h1
    · exact absurd h0.2 hpend
    · exact h1.1
  left := h.signalled

/-- A pending plugin has an instance that is pointed to. -/
theorem Pending.exists_referenced {p : Plugin} (h : s.Pending p) :
    ∃ i ∈ s.referenced, i.plugin = p := by
  rcases h with ⟨i, hi, rfl⟩ | ⟨i, hreap, rfl⟩
  · exact ⟨i, by simp [referenced, hi], rfl⟩
  · refine ⟨i, ?_, rfl⟩
    rcases hreap with hreap | hreap
    · simp [referenced, hreap, Reap.instances]
    · simp [referenced, hreap, Reap.instances]

namespace Inv

variable {p : Plugin} {i : Instance}

/-- A plugin is not loaded and unloaded. -/
theorem notMem_unloaded (h : s.Inv) (hp : p ∈ s.myProtocolPlugins) : p ∉ s.unloaded := by
  have hknown := h.known
  rw [State.known, List.append_assoc] at hknown
  exact fun hmem => (List.nodup_append.mp hknown).2.2 p hp p (List.mem_append_left _ hmem) rfl

/-- What has not been unloaded has not been signalled. -/
theorem removals_eq_zero (h : s.Inv) (hp : p ∉ s.unloaded) : s.removals p = 0 := by
  refine List.count_eq_zero.mpr fun hmem => ?_
  obtain ⟨sig, hsig, hremoved⟩ := List.mem_filterMap.mp hmem
  cases sig with
  | newProtocol protocolId => cases hremoved
  | removeProtocol q left =>
    obtain rfl := Option.some.inj hremoved
    exact hp (h.signalled q left hsig).1

/-- What is pending has not been signalled. -/
theorem removals_of_pending (h : s.Inv) (hp : p ∈ s.unloaded) (hpend : s.Pending p) :
    s.removals p = 0 := by
  by_cases hu : s.Unloading p
  · rcases hu with hu | hu
    · exact (h.early p hu).resolve_right fun h1 => h1.2 hpend
    · exact (h.pushing p hu).1
  · exact ((h.late p hp hu).resolve_right fun h1 => h1.2 hpend).1

theorem unload_unique (h : s.Inv) {u v : Unload} (hu : u ∈ s.unloads) (hv : v ∈ s.unloads)
    (huv : u.plugin = v.plugin) : u = v :=
  List.inj_on_of_nodup_map h.calls hu hv huv

/-! ## The steps of the instances -/

/-- A step that neither lists nor unloads a plugin, and leaves open what is open. -/
theorem frame (h : s.Inv) {is held : List Instance} {exits : List ℕ} {n : ℕ} {r : Reap}
    (hs : s' = { s with
      myProtocolInstances := is, myNextPluginId := n, myExitList := exits, reap := r, held := held })
    (hmap : is ⊆ s.myProtocolInstances) (href : s'.referenced ⊆ s.referenced)
    (hpend : ∀ p ∈ s.unloaded, s'.Pending p ↔ s.Pending p)
    (hflag : ∀ i, r = .flagged i → i.plugin ∈ s.unloaded ∧
      ∀ j ∈ is, j.plugin.protocolId ≠ i.plugin.protocolId) : s'.Inv := by
  subst hs
  exact
    { fresh := h.fresh
      known := h.known
      protocols := h.protocols
      plugins := fun i hi => h.plugins i (href hi)
      calls := h.calls
      called := h.called
      own := fun p hp h0 i hi => h.own p hp h0 i (hmap hi)
      flagged := hflag
      early := fun p hp => by
        rw [hpend p (h.called _ hp)]
        exact h.early p hp
      pushing := fun p hp => ⟨(h.pushing p hp).1, fun i hi => (h.pushing p hp).2 i (href hi)⟩
      late := fun p hp hu => by
        rw [hpend p hp]
        exact h.late p hp hu
      signalled := h.signalled }

theorem exit (h : s.Inv) (hstep : s.exit i = some s') : s'.Inv := by
  rw [State.exit] at hstep
  split_ifs at hstep
  cases hstep
  exact h.frame rfl (List.Subset.refl _) (List.Subset.refl _) (fun _ _ => Iff.rfl) h.flagged

theorem hold (h : s.Inv) (hstep : s.hold i = some s') : s'.Inv := by
  rw [State.hold] at hstep
  split_ifs at hstep with hi
  cases hstep
  refine h.frame rfl (List.Subset.refl _) (fun j hj => ?_) (fun _ _ => Iff.rfl) h.flagged
  simp only [referenced, List.mem_append, List.mem_singleton] at hi hj ⊢
  rcases hj with (hj | hj | rfl) | hj
  · exact .inl (.inl hj)
  · exact .inl (.inr hj)
  · exact hi
  · exact .inr hj

theorem release (h : s.Inv) (hstep : s.release i = some s') : s'.Inv := by
  rw [State.release] at hstep
  split_ifs at hstep
  cases hstep
  refine h.frame rfl (List.Subset.refl _) (fun j hj => ?_) (fun _ _ => Iff.rfl) h.flagged
  simp only [referenced, List.mem_append] at hj ⊢
  exact hj.imp_left (Or.imp_right List.mem_of_mem_erase)

theorem pop (h : s.Inv) (hstep : s.pop = some s') : s'.Inv := by
  rw [State.pop] at hstep
  cases hr : s.reap <;> cases he : s.myExitList <;> simp only [hr, he] at hstep <;> cases hstep
  refine h.frame rfl (List.Subset.refl _) (fun j hj => ?_) (fun p _ => ?_) nofun
  · simp only [referenced, hr, Reap.instances] at hj ⊢
    exact hj
  · simp [Pending, hr]

theorem take (h : s.Inv) (hstep : s.take = some s') : s'.Inv := by
  rw [State.take] at hstep
  cases hr : s.reap <;> simp only [hr] at hstep <;> try cases hstep
  rename_i exitId
  cases hfind : s.myProtocolInstances.find? (·.id = exitId) with
  | none =>
    rw [hfind] at hstep
    cases hstep
    refine h.frame rfl (List.Subset.refl _) (fun j hj => ?_) (fun p _ => ?_) nofun
    · simp only [referenced, hr, Reap.instances] at hj ⊢
      exact hj
    · simp [Pending, hr]
  | some i =>
    rw [hfind] at hstep
    cases hstep
    have hi : i ∈ s.myProtocolInstances := List.mem_of_find?_eq_some hfind
    have hsub : s.myProtocolInstances.erase i ⊆ s.myProtocolInstances := List.erase_subset
    refine h.frame rfl hsub (fun j hj => ?_) (fun p _ => ?_) nofun
    · simp only [referenced, Reap.instances, List.mem_append, List.mem_singleton] at hj ⊢
      rcases hj with ((hj | rfl) | hj) | hj
      · exact .inl (.inl (.inl (hsub hj)))
      · exact .inl (.inl (.inl hi))
      · exact .inl (.inr hj)
      · exact .inr hj
    · -- The instance that is taken is still to be looked at.
      constructor
      · rintro (⟨j, hj, rfl⟩ | ⟨j, hj | hj, rfl⟩)
        · exact .inl ⟨j, hsub hj, rfl⟩
        · cases hj
          exact .inl ⟨i, hi, rfl⟩
        · cases hj
      · rintro (⟨j, hj, rfl⟩ | ⟨j, hj | hj, rfl⟩)
        · by_cases hji : j = i
          · exact .inr ⟨i, .inl rfl, by rw [hji]⟩
          · exact .inl ⟨j, (List.mem_erase_of_ne hji).mpr hj, rfl⟩
        · rw [hr] at hj
          cases hj
        · rw [hr] at hj
          cases hj

theorem leave (h : s.Inv) (hstep : s.leave = some s') : s'.Inv := by
  rw [State.leave] at hstep
  cases hr : s.reap <;> simp only [hr] at hstep <;> cases hstep
  refine h.frame rfl (List.Subset.refl _) (fun j hj => ?_) (fun p _ => ?_) nofun
  · simp only [referenced, hr, Reap.instances, List.mem_append, List.not_mem_nil, or_false] at hj ⊢
    exact hj.imp_left (Or.imp_left .inl)
  · simp [Pending, hr]

/-- **A new instance** is of a loaded plugin, whose protocol nobody has still to signal. -/
theorem start (h : s.Inv) (hok : ¬ s.Outstanding p.protocolId)
    (hstep : s.start p = some s') : s'.Inv := by
  rw [State.start] at hstep
  split_ifs at hstep with hp
  cases hstep
  have hnot := h.notMem_unloaded hp
  have hpend (q : Plugin) (hq : q ∈ s.unloaded) : State.Pending { s with
      myNextPluginId := s.myNextPluginId + 1
      myProtocolInstances := s.myProtocolInstances ++ [⟨s.myNextPluginId, p⟩] } q ↔ s.Pending q := by
    have hne : p ≠ q := fun he => hnot (he ▸ hq)
    simp only [Pending, List.mem_append, List.mem_singleton, or_and_right, exists_or,
      exists_eq_left, hne, or_false]
  exact
    { fresh := h.fresh
      known := h.known
      protocols := h.protocols
      plugins := fun i hi => by
        simp only [referenced, List.mem_append, List.mem_singleton] at hi
        have hold := h.plugins i
        simp only [referenced, List.mem_append] at hold
        rcases hi with (((hi | rfl) | hi) | hi) | hi
        · exact hold (.inl (.inl (.inl hi)))
        · exact .inl hp
        · exact hold (.inl (.inl (.inr hi)))
        · exact hold (.inl (.inr hi))
        · exact hold (.inr hi)
      calls := h.calls
      called := h.called
      own := fun q hq h0 i hi hprot => by
        rcases List.mem_append.mp hi with hi | hi
        · exact h.own q hq h0 i hi hprot
        · obtain rfl := List.mem_singleton.mp hi
          exact absurd ⟨q, hq, hprot.symm, h0⟩ hok
      flagged := fun i hi => by
        obtain ⟨hun, hnone⟩ := h.flagged i hi
        refine ⟨hun, fun j hj => ?_⟩
        rcases List.mem_append.mp hj with hj | hj
        · exact hnone j hj
        · obtain rfl := List.mem_singleton.mp hj
          intro hprot
          have h0 := h.removals_of_pending hun (.inr ⟨i, .inr hi, rfl⟩)
          exact hok ⟨i.plugin, hun, hprot.symm, h0⟩
      early := fun q hq => by
        rw [hpend q (h.called _ hq)]
        exact h.early q hq
      pushing := fun q hq => by
        refine ⟨(h.pushing q hq).1, fun i hi => ?_⟩
        simp only [referenced, List.mem_append, List.mem_singleton] at hi
        have hold := (h.pushing q hq).2 i
        simp only [referenced, List.mem_append] at hold
        rcases hi with (((hi | rfl) | hi) | hi) | hi
        · exact hold (.inl (.inl (.inl hi)))
        · rintro rfl
          exact hnot (h.called _ hq)
        · exact hold (.inl (.inl (.inr hi)))
        · exact hold (.inl (.inr hi))
        · exact hold (.inr hi)
      late := fun q hq hu => by
        rw [hpend q hq]
        exact h.late q hq hu
      signalled := h.signalled }

/-! ## The decision of the reaping thread -/

/-- **The second look** takes the last instance for it that nobody else will. -/
theorem lookUp (h : s.Inv) (hstep : s.lookUp = some s') : s'.Inv := by
  rw [State.lookUp] at hstep
  cases hr : s.reap <;> simp only [hr] at hstep <;> try cases hstep
  rename_i i
  have href : i ∈ s.referenced := by simp [referenced, hr, Reap.instances]
  have htaken : s.Pending i.plugin := .inr ⟨i, .inl hr, rfl⟩
  split_ifs at hstep with hmore
  · cases hstep
    refine h.frame rfl (List.Subset.refl _) (fun j hj => ?_) (fun q hq => ?_) nofun
    · simp only [referenced, hr, Reap.instances] at hj ⊢
      exact hj
    · constructor
      · rintro (⟨j, hj, rfl⟩ | ⟨j, hj | hj, rfl⟩)
        · exact .inl ⟨j, hj, rfl⟩
        · cases hj
        · cases hj
      · rintro (⟨j, hj, rfl⟩ | ⟨j, hj | hj, rfl⟩)
        · exact .inl ⟨j, hj, rfl⟩
        · -- Another instance of the protocol is one of this plugin.
          rw [hr] at hj
          cases hj
          rcases hmore with ⟨k, hk, hprot⟩ | hlist
          · exact .inl ⟨k, hk, h.own _ hq (h.removals_of_pending hq htaken) k hk hprot⟩
          · exact absurd hq (h.notMem_unloaded hlist)
        · rw [hr] at hj
          cases hj
  · cases hstep
    rw [not_or] at hmore
    refine h.frame rfl (List.Subset.refl _) (fun j hj => ?_) (fun q _ => ?_) fun j hj => ?_
    · simp only [referenced, hr, Reap.instances] at hj ⊢
      exact hj
    · simp [Pending, hr]
    · cases hj
      exact ⟨(h.plugins i href).resolve_left hmore.2, fun k hk hprot => hmore.1 ⟨k, hk, hprot⟩⟩

/-! ## Loading and unloading -/

theorem check (h : s.Inv) (protocolId : ℕ) : (s.check protocolId).Inv := by
  rw [State.check]
  split_ifs
  · exact h
  have hknown : State.known { s with
      nextSerial := s.nextSerial + 1
      loads := s.loads ++ [.checked ⟨s.nextSerial, protocolId⟩] } =
      s.known ++ [⟨s.nextSerial, protocolId⟩] := by
    simp only [State.known, List.filterMap_append, List.append_assoc]
    rfl
  exact
    { fresh := fun p hp => by
        rw [hknown, List.mem_append, List.mem_singleton] at hp
        rcases hp with hp | rfl
        · exact Nat.lt_succ_of_lt (h.fresh p hp)
        · exact Nat.lt_succ_self _
      known := by
        rw [hknown]
        refine List.nodup_append.mpr ⟨h.known, List.nodup_singleton _, ?_⟩
        rintro p hp q hq rfl
        obtain rfl := List.mem_singleton.mp hq
        exact absurd (h.fresh _ hp) (Nat.lt_irrefl _)
      protocols := h.protocols
      plugins := h.plugins
      calls := h.calls
      called := h.called
      own := h.own
      flagged := h.flagged
      early := h.early
      pushing := h.pushing
      late := h.late
      signalled := h.signalled }

theorem perm_created {loads : List Load} (h : .checked p ∈ loads) :
    (loads.filterMap Load.created).Perm
      (p :: (loads.erase (.checked p)).filterMap Load.created) :=
  (List.perm_cons_erase h).filterMap _

theorem list (h : s.Inv) (hok : ∀ q ∈ s.myProtocolPlugins, q.protocolId ≠ p.protocolId)
    (hstep : s.list p = some s') : s'.Inv := by
  rw [State.list] at hstep
  split_ifs at hstep with hp
  cases hstep
  have hknown : (State.known { s with
      myProtocolPlugins := s.myProtocolPlugins ++ [p]
      loads := s.loads.erase (.checked p) ++ [.listed p] }).Perm s.known := by
    have hlisted : [Load.listed p].filterMap Load.created = [] := rfl
    simp only [State.known, List.filterMap_append, hlisted, List.append_nil, List.append_assoc]
    refine List.Perm.append_left _ ?_
    refine List.Perm.trans ?_ (List.Perm.append_left _ (perm_created hp).symm)
    rw [List.singleton_append]
    exact List.perm_middle.symm
  exact
    { fresh := fun q hq => h.fresh q (hknown.mem_iff.mp hq)
      known := hknown.nodup_iff.mpr h.known
      protocols := by
        rw [List.map_append, List.map_singleton]
        refine List.nodup_append.mpr ⟨h.protocols, List.nodup_singleton _, ?_⟩
        rintro _ hq _ hid rfl
        obtain ⟨q, hq, heq⟩ := List.mem_map.mp hq
        exact hok q hq (heq.trans (List.mem_singleton.mp hid))
      plugins := fun i hi => (h.plugins i hi).imp_left (List.mem_append_left _)
      calls := h.calls
      called := h.called
      own := h.own
      flagged := h.flagged
      early := h.early
      pushing := h.pushing
      late := h.late
      signalled := h.signalled }

theorem announce (h : s.Inv) (hstep : s.announce p = some s') : s'.Inv := by
  rw [State.announce] at hstep
  split_ifs at hstep with hp
  cases hstep
  have hloads : ((s.loads.erase (.listed p)).filterMap Load.created).Perm
      (s.loads.filterMap Load.created) :=
    ((List.perm_cons_erase hp).filterMap Load.created).symm
  have hknown : (State.known { s with
      loads := s.loads.erase (.listed p)
      signals := s.signals ++ [.newProtocol p.protocolId] }).Perm s.known :=
    List.Perm.append_left _ hloads
  have hrem (q : Plugin) : State.removals { s with
      loads := s.loads.erase (.listed p)
      signals := s.signals ++ [.newProtocol p.protocolId] } q = s.removals q := by
    have hnone : [Signal.newProtocol p.protocolId].filterMap Signal.removed = [] := rfl
    simp only [removals, List.filterMap_append, hnone, List.append_nil]
  exact
    { fresh := fun q hq => h.fresh q (hknown.mem_iff.mp hq)
      known := hknown.nodup_iff.mpr h.known
      protocols := h.protocols
      plugins := h.plugins
      calls := h.calls
      called := h.called
      own := fun q hq h0 => h.own q hq (hrem q ▸ h0)
      flagged := h.flagged
      early := fun q hq => by
        rw [hrem]
        exact h.early q hq
      pushing := fun q hq => by
        rw [hrem]
        exact h.pushing q hq
      late := fun q hq hu => by
        rw [hrem]
        exact h.late q hq hu
      signalled := fun q left hsig => by
        rcases List.mem_append.mp hsig with hsig | hsig
        · exact h.signalled q left hsig
        · cases List.mem_singleton.mp hsig }

/-- **Taking a plugin from the list**: the instances of its protocol are its own. -/
theorem erase (h : s.Inv) {allowed : Bool}
    (hok : p ∈ s.myProtocolPlugins ∧ allowed → ¬ s.Outstanding p.protocolId) :
    (s.erase p allowed).Inv := by
  rw [State.erase]
  split_ifs with hp
  swap
  · exact h
  have hnot := h.notMem_unloaded hp.1
  have hold := hok hp
  have hlist : ∀ q ∈ s.myProtocolPlugins, q.protocolId = p.protocolId → q = p := fun q hq he =>
    List.inj_on_of_nodup_map h.protocols hq hp.1 he
  have hknown : (State.known { s with
      myProtocolPlugins := s.myProtocolPlugins.erase p
      unloads := s.unloads ++ [.erased p]
      unloaded := s.unloaded ++ [p] }).Perm s.known := by
    refine List.Perm.append_right _ ?_
    have hmove : (s.myProtocolPlugins.erase p ++ (s.unloaded ++ [p])).Perm
        (p :: s.myProtocolPlugins.erase p ++ s.unloaded) := by
      rw [← List.append_assoc]
      exact List.perm_append_singleton p _
    exact hmove.trans ((List.perm_cons_erase hp.1).symm.append_right _)
  have hcall {u : Unload} (hu : u ∈ s.unloads) : u.plugin ≠ p := fun he =>
    hnot (he ▸ h.called u hu)
  exact
    { fresh := fun q hq => h.fresh q (hknown.mem_iff.mp hq)
      known := hknown.nodup_iff.mpr h.known
      protocols := h.protocols.sublist ((List.erase_sublist).map _)
      plugins := fun i hi => by
        simp only [referenced, List.flatMap_append, List.flatMap_singleton, Unload.instances,
          List.append_nil] at hi
        by_cases he : i.plugin = p
        · exact .inr (List.mem_append_right _ (List.mem_singleton.mpr he))
        · exact (h.plugins i hi).imp (List.mem_erase_of_ne he).mpr (List.mem_append_left _)
      calls := by
        rw [List.map_append, List.map_singleton]
        refine List.nodup_append.mpr ⟨h.calls, List.nodup_singleton _, ?_⟩
        rintro _ hq _ hid rfl
        obtain ⟨u, hu, heq⟩ := List.mem_map.mp hq
        exact hcall hu (heq.trans (List.mem_singleton.mp hid))
      called := fun u hu => by
        rcases List.mem_append.mp hu with hu | hu
        · exact List.mem_append_left _ (h.called u hu)
        · obtain rfl := List.mem_singleton.mp hu
          exact List.mem_append_right _ (List.mem_singleton_self _)
      own := fun q hq h0 i hi hprot => by
        rcases List.mem_append.mp hq with hq | hq
        · exact h.own q hq h0 i hi hprot
        · obtain rfl := List.mem_singleton.mp hq
          rcases h.plugins i (by simp [referenced, hi]) with hmem | hmem
          · exact hlist _ hmem hprot
          · have hpend : s.Pending i.plugin := .inl ⟨i, hi, rfl⟩
            exact absurd ⟨_, hmem, hprot, h.removals_of_pending hmem hpend⟩ hold
      flagged := fun i hi => ⟨List.mem_append_left _ (h.flagged i hi).1, (h.flagged i hi).2⟩
      early := fun q hq => by
        rcases List.mem_append.mp hq with hq | hq
        · exact h.early q hq
        · cases List.mem_singleton.mp hq
          exact .inl (h.removals_eq_zero hnot)
      pushing := fun q hq => by
        rcases List.mem_append.mp hq with hq | hq
        · refine ⟨(h.pushing q hq).1, fun i hi => (h.pushing q hq).2 i ?_⟩
          simp only [referenced, List.flatMap_append, List.flatMap_singleton, Unload.instances,
            List.append_nil] at hi
          exact hi
        · cases List.mem_singleton.mp hq
      late := fun q hq hu => by
        rw [Unloading, not_or] at hu
        rcases List.mem_append.mp hq with hq | hq
        · refine h.late q hq (not_or.mpr ⟨fun hm => hu.1 (List.mem_append_left _ hm), fun hm =>
            hu.2 (List.mem_append_left _ hm)⟩)
        · obtain rfl := List.mem_singleton.mp hq
          exact absurd (List.mem_append_right _ (List.mem_singleton_self _)) hu.1
      signalled := fun q left hsig => ⟨List.mem_append_left _ (h.signalled q left hsig).1,
        (h.signalled q left hsig).2⟩ }

/-! ## The decision of the unloading thread -/

/-- **The look at the weak references** leaves the signal to one of the two threads. -/
theorem look (h : s.Inv) (hok : (s.instances p = [] → s.removals p = 0) ∧
    (s.instances p ≠ [] → s.Pending p ∨ s.removals p = 1)) (hstep : s.look p = some s') :
    s'.Inv := by
  rw [State.look] at hstep
  split_ifs at hstep with hp
  cases hstep
  set u : Unload := if s.instances p = [] then .pushing p else .stopping p (s.instances p) with hu
  have hplugin : u.plugin = p := by
    rw [hu]
    split_ifs <;> rfl
  have hinst : u.instances = s.instances p := by
    rw [hu]
    split_ifs with hnil
    · exact hnil.symm
    · rfl
  have hcalls : (s.unloads.map Unload.plugin).Perm
      (p :: (s.unloads.erase (.erased p)).map Unload.plugin) :=
    (List.perm_cons_erase hp).map Unload.plugin
  have hnot : p ∉ (s.unloads.erase (.erased p)).map Unload.plugin :=
    (List.nodup_cons.mp (hcalls.nodup_iff.mp h.calls)).1
  have hsub : State.referenced { s with unloads := s.unloads.erase (.erased p) ++ [u] } ⊆
      s.referenced := by
    intro i hi
    simp only [referenced, List.flatMap_append, List.flatMap_singleton, hinst, List.mem_append,
      List.mem_flatMap] at hi
    rcases hi with hi | ⟨v, hv, hi⟩ | hi
    · simp only [referenced, List.mem_append]
      exact .inl hi
    · simp only [referenced, List.mem_append, List.mem_flatMap]
      exact .inr ⟨v, List.mem_of_mem_erase hv, hi⟩
    · exact (List.mem_filter.mp hi).1
  have hmem {v : Unload} (hv : v ∈ s.unloads.erase (.erased p) ++ [u]) :
      v ∈ s.unloads ∧ v.plugin ≠ p ∨ v = u := by
    rcases List.mem_append.mp hv with hv | hv
    · exact .inl ⟨List.mem_of_mem_erase hv, fun he => hnot (List.mem_map.mpr ⟨v, hv, he⟩)⟩
    · exact .inr (List.mem_singleton.mp hv)
  exact
    { fresh := h.fresh
      known := h.known
      protocols := h.protocols
      plugins := fun i hi => h.plugins i (hsub hi)
      calls := by
        rw [List.map_append, List.map_singleton, hplugin]
        exact (List.perm_append_singleton p _).nodup_iff.mpr (hcalls.nodup_iff.mp h.calls)
      called := fun v hv => by
        rcases hmem hv with ⟨hv, -⟩ | rfl
        · exact h.called v hv
        · rw [hplugin]
          exact h.called _ hp
      own := h.own
      flagged := h.flagged
      early := fun q hq => by
        rcases hmem hq with ⟨hq, -⟩ | heq
        · exact h.early q hq
        · rw [hu] at heq
          split_ifs at heq
      pushing := fun q hq => by
        rcases hmem hq with ⟨hq, -⟩ | heq
        · exact ⟨(h.pushing q hq).1, fun i hi => (h.pushing q hq).2 i (hsub hi)⟩
        · have hqp : q = p := (congrArg Unload.plugin heq).trans hplugin
          subst hqp
          have hnil : s.instances q = [] := by
            rw [hu] at heq
            split_ifs at heq with hnil
            exact hnil
          refine ⟨hok.1 hnil, fun i hi he => ?_⟩
          have himem : i ∈ s.instances q := List.mem_filter.mpr ⟨hsub hi, by simpa using he⟩
          rw [hnil] at himem
          exact absurd himem List.not_mem_nil
      late := fun q hq hun => by
        rw [Unloading, not_or] at hun
        by_cases hqp : q = p
        · subst hqp
          have hne : s.instances q ≠ [] := fun hnil =>
            hun.2 (List.mem_append_right _ (List.mem_singleton.mpr (by rw [hu, if_pos hnil])))
          rcases h.early q hp with h0 | h1
          · exact .inl ⟨h0, (hok.2 hne).resolve_right (by omega)⟩
          · exact .inr h1
        · refine h.late q hq (not_or.mpr ⟨fun hm => hun.1 ?_, fun hm => hun.2 ?_⟩)
          · refine List.mem_append_left _ ((List.mem_erase_of_ne ?_).mpr hm)
            exact fun he => hqp (congrArg Unload.plugin he)
          · exact List.mem_append_left _ ((List.mem_erase_of_ne (by simp)).mpr hm)
      signalled := h.signalled }

theorem stop (h : s.Inv) {u : Unload} (hstep : s.stop u = some s') : s'.Inv := by
  cases u with
  | erased p => cases hstep
  | pushing p => cases hstep
  | stopping p is =>
    rw [State.stop] at hstep
    split_ifs at hstep with hmem
    cases hstep
    have hsub : State.referenced { s with unloads := s.unloads.erase (.stopping p is) } ⊆
        s.referenced := by
      intro i hi
      simp only [referenced, List.mem_append, List.mem_flatMap] at hi ⊢
      exact hi.imp_right fun ⟨v, hv, hi⟩ => ⟨v, List.mem_of_mem_erase hv, hi⟩
    exact
      { fresh := h.fresh
        known := h.known
        protocols := h.protocols
        plugins := fun i hi => h.plugins i (hsub hi)
        calls := h.calls.sublist (List.erase_sublist.map _)
        called := fun v hv => h.called v (List.mem_of_mem_erase hv)
        own := h.own
        flagged := h.flagged
        early := fun q hq => h.early q (List.mem_of_mem_erase hq)
        pushing := fun q hq => ⟨(h.pushing q (List.mem_of_mem_erase hq)).1, fun i hi =>
          (h.pushing q (List.mem_of_mem_erase hq)).2 i (hsub hi)⟩
        late := fun q hq hu => h.late q hq fun hun => hu (hun.imp
          (List.mem_erase_of_ne (by simp)).mpr (List.mem_erase_of_ne (by simp)).mpr)
        signalled := h.signalled }

/-! ## The signal -/

theorem removals_signalRemoved (p q : Plugin) :
    ((s.signalRemoved p).filterMap Signal.removed).count q =
      s.removals q + if p = q then 1 else 0 := by
  have hone (left : List Instance) :
      [Signal.removeProtocol p left].filterMap Signal.removed = [p] := rfl
  rw [signalRemoved, List.filterMap_append, List.count_append, hone, List.count_singleton']
  simp only [removals]

/-- **The signal is pushed** for a plugin that has been unloaded and not been signalled, when no
instance of its protocol is left and neither thread has still to decide. -/
theorem signalled_push (h : s.Inv) (hp : p ∈ s.unloaded) (h0 : s.removals p = 0)
    (hmap : ∀ i ∈ s.myProtocolInstances, i.plugin.protocolId ≠ p.protocolId)
    (hs : s'.signals = s.signalRemoved p) (hun : s'.unloaded = s.unloaded) :
    (s'.removals p = 1 ∧ ∀ q, q ≠ p → s'.removals q = s.removals q) ∧
      ∀ q left, .removeProtocol q left ∈ s'.signals → q ∈ s'.unloaded ∧ left = [] := by
  have hcount (q : Plugin) : s'.removals q = s.removals q + if p = q then 1 else 0 := by
    rw [removals, hs, removals_signalRemoved]
  refine ⟨⟨?_, fun q hq => ?_⟩, fun q left hsig => ?_⟩
  · rw [hcount, h0, if_pos rfl]
  · rw [hcount, if_neg (Ne.symm hq), Nat.add_zero]
  · rw [hs, signalRemoved] at hsig
    rw [hun]
    rcases List.mem_append.mp hsig with hsig | hsig
    · exact h.signalled q left hsig
    · obtain ⟨rfl, rfl⟩ := Signal.removeProtocol.inj (List.mem_singleton.mp hsig)
      exact ⟨hp, List.filter_eq_nil_iff.mpr fun i hi => by simpa using hmap i hi⟩

theorem push (h : s.Inv) (hstep : s.push p = some s') : s'.Inv := by
  rw [State.push] at hstep
  split_ifs at hstep with hp
  have hun : p ∈ s.unloaded := h.called _ hp
  obtain ⟨h0, hnone⟩ := h.pushing p hp
  have hmap : ∀ i ∈ s.myProtocolInstances, i.plugin.protocolId ≠ p.protocolId := fun i hi hprot =>
    hnone i (by simp [referenced, hi]) (h.own p hun h0 i hi hprot)
  have hpend : ¬ s.Pending p := fun hpend => by
    obtain ⟨i, hi, he⟩ := hpend.exists_referenced
    exact hnone i hi he
  have hother {u : Unload} (hu : u ∈ s.unloads.erase (.pushing p)) : u.plugin ≠ p := by
    intro he
    obtain rfl := h.unload_unique (List.mem_of_mem_erase hu) hp he
    have hnodup : s.unloads.Nodup := List.Nodup.of_map _ h.calls
    exact (List.Nodup.mem_erase_iff hnodup).mp hu |>.1 rfl
  cases hstep
  have hpush := h.signalled_push hun h0 hmap (rfl : State.signals { s with
    unloads := s.unloads.erase (.pushing p), signals := s.signalRemoved p } = _) rfl
  obtain ⟨⟨hone, hsame⟩, hsig⟩ := hpush
  have hsub : State.referenced { s with
      unloads := s.unloads.erase (.pushing p)
      signals := s.signalRemoved p } ⊆ s.referenced := by
    intro i hi
    simp only [referenced, List.mem_append, List.mem_flatMap] at hi ⊢
    exact hi.imp_right fun ⟨v, hv, hi⟩ => ⟨v, List.mem_of_mem_erase hv, hi⟩
  exact
    { fresh := h.fresh
      known := h.known
      protocols := h.protocols
      plugins := fun i hi => h.plugins i (hsub hi)
      calls := h.calls.sublist (List.erase_sublist.map _)
      called := fun v hv => h.called v (List.mem_of_mem_erase hv)
      own := fun q hq hzero => by
        have hqp : q ≠ p := by
          rintro rfl
          rw [hone] at hzero
          cases hzero
        exact h.own q hq (hsame q hqp ▸ hzero)
      flagged := h.flagged
      early := fun q hq => by
        rw [hsame q (hother hq)]
        exact h.early q (List.mem_of_mem_erase hq)
      pushing := fun q hq => by
        rw [hsame q (hother hq)]
        exact ⟨(h.pushing q (List.mem_of_mem_erase hq)).1, fun i hi =>
          (h.pushing q (List.mem_of_mem_erase hq)).2 i (hsub hi)⟩
      late := fun q hq hu => by
        by_cases hqp : q = p
        · subst hqp
          exact .inr ⟨hone, hpend⟩
        · rw [hsame q hqp]
          refine h.late q hq fun hun' => hu ?_
          refine hun'.imp (List.mem_erase_of_ne (by simp)).mpr (List.mem_erase_of_ne ?_).mpr
          exact fun he => hqp (Unload.pushing.inj he)
      signalled := hsig }

theorem signal (h : s.Inv) (hstep : s.signal = some s') : s'.Inv := by
  rw [State.signal] at hstep
  cases hr : s.reap <;> simp only [hr] at hstep <;> try cases hstep
  rename_i i
  obtain ⟨hun, hmap⟩ := h.flagged i hr
  have h0 := h.removals_of_pending hun (.inr ⟨i, .inr hr, rfl⟩)
  have href : i ∈ s.referenced := by simp [referenced, hr, Reap.instances]
  have hpush := h.signalled_push hun h0 hmap (rfl : State.signals { s with
    reap := .leaving i, signals := s.signalRemoved i.plugin } = _) rfl
  obtain ⟨⟨hone, hsame⟩, hsig⟩ := hpush
  have hpend : ¬ State.Pending { s with
      reap := .leaving i, signals := s.signalRemoved i.plugin } i.plugin := by
    rintro (⟨j, hj, he⟩ | ⟨j, hj | hj, -⟩)
    · exact hmap j hj (by rw [he])
    · cases hj
    · cases hj
  have hother (q : Plugin) (hq : q ≠ i.plugin) : State.Pending { s with
      reap := .leaving i, signals := s.signalRemoved i.plugin } q ↔ s.Pending q := by
    simp [Pending, hr, Ne.symm hq]
  have hsub : State.referenced { s with
      reap := .leaving i, signals := s.signalRemoved i.plugin } = s.referenced := by
    simp only [referenced, hr, Reap.instances]
  exact
    { fresh := h.fresh
      known := h.known
      protocols := h.protocols
      plugins := fun j hj => h.plugins j (hsub ▸ hj)
      calls := h.calls
      called := h.called
      own := fun q hq hzero => by
        have hqp : q ≠ i.plugin := by
          rintro rfl
          rw [hone] at hzero
          cases hzero
        exact h.own q hq (hsame q hqp ▸ hzero)
      flagged := fun j hj => by cases hj
      early := fun q hq => by
        by_cases hqp : q = i.plugin
        · subst hqp
          exact .inr ⟨hone, hpend⟩
        · rw [hsame q hqp, hother q hqp]
          exact h.early q hq
      pushing := fun q hq => by
        have hqp : q ≠ i.plugin := fun he => (h.pushing q hq).2 i href he.symm
        rw [hsame q hqp]
        exact ⟨(h.pushing q hq).1, fun j hj => (h.pushing q hq).2 j (hsub ▸ hj)⟩
      late := fun q hq hu => by
        by_cases hqp : q = i.plugin
        · subst hqp
          exact .inr ⟨hone, hpend⟩
        · rw [hsame q hqp, hother q hqp]
          exact h.late q hq hu
      signalled := hsig }

/-- **One step** that meets the condition keeps the invariant. -/
theorem step (h : s.Inv) {a : Action} (hok : ActionOk s a) (hstep : Lifecycle.step s a = some s') :
    s'.Inv := by
  cases a with
  | check protocolId =>
    cases hstep
    exact h.check protocolId
  | list p => exact h.list hok hstep
  | announce p => exact h.announce hstep
  | erase p allowed =>
    cases hstep
    exact h.erase hok
  | look p => exact h.look hok hstep
  | push p => exact h.push hstep
  | stop u => exact h.stop hstep
  | start p => exact h.start hok hstep
  | exit i => exact h.exit hstep
  | hold i => exact h.hold hstep
  | release i => exact h.release hstep
  | pop => exact h.pop hstep
  | take => exact h.take hstep
  | lookUp => exact h.lookUp hstep
  | signal => exact h.signal hstep
  | leave => exact h.leave hstep

end Inv

end State

/-! ## The main result -/

/-- **Every run whose steps meet the condition** has one plugin for a protocol at most, and signals each
removal once, when no instance is left. -/
theorem stays_sound {as : List Action} (h : Steps.Each step ActionOk State.init as) :
    Steps.Stays step State.Sound State.init as :=
  (Steps.stays_of_each (P := State.Inv) (fun _ _ _ hi hok hs => hi.step hok hs) State.inv_init h).mono
    fun _ => State.Inv.sound

/-- A protocol with one instance is loaded, unloaded, and reaped. -/
def unloadRun : List Action :=
  let p : Plugin := ⟨0, 1⟩
  [.check 1, .list p, .announce p, .start p, .erase p true, .look p, .exit ⟨1, p⟩,
    .stop (.stopping p [⟨1, p⟩]), .pop, .take, .lookUp, .signal, .leave]

theorem stays_sound_unloadRun : Steps.Stays step State.Sound State.init unloadRun :=
  stays_sound (by decide)

/-- The plugin is unloaded after the reaping thread has looked for it, and before it has let the
instance go. -/
def lostRun : List Action :=
  let p : Plugin := ⟨0, 1⟩
  [.check 1, .list p, .announce p, .start p, .exit ⟨1, p⟩, .pop, .take, .lookUp, .erase p true,
    .look p, .leave, .stop (.stopping p [⟨1, p⟩])]

/-- Nobody tells of that removal. -/
theorem not_stays_sound : ¬ ∀ as, Steps.Stays step State.Sound State.init as := by
  intro h
  have hend : ∃ t, lostRun.foldlM step State.init = some t ∧ ⟨0, 1⟩ ∈ t.unloaded ∧
      ¬ t.Unloading ⟨0, 1⟩ ∧ ¬ t.Pending ⟨0, 1⟩ ∧ t.removals ⟨0, 1⟩ = 0 :=
    ⟨_, rfl, by decide⟩
  obtain ⟨t, hrun, hmem, hcall, hpend, h0⟩ := hend
  have hone := ((h lostRun).foldlM hrun).sent _ hmem hcall hpend
  omega

end Licq.Lifecycle
