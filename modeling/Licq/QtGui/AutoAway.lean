import Licq.ContactList.UserConf
import Licq.Data.Steps

/-!
# QtGui/AutoAway — away by itself

`LicqGui::autoAway` looks every ten seconds for how long nothing has been touched, sets an owner
away, not available or offline after some time, and gives the status back when the user returns.
`changeStatus` keeps some flags of the old status, and a status that has changed in any other way is
taken for a choice of the user.

The **main result** `status_eq_chosen` says when a user who returns finds the status last chosen.
-/

namespace Licq.AutoAway

open UserConf List

/-! ## The source -/

/-- The times in minutes; 0 is never. -/
structure General where
  autoAwayTime : ℕ
  autoNaTime : ℕ
  autoOfflineTime : ℕ

structure SAutoAwayInfo where
  isAutoAway : Bool
  preAutoAwayStatus : ℕ
  setAutoAwayStatus : ℕ

/-- A time that is set has passed. -/
def Passed (idleTime minutes : ℕ) : Prop := 0 < minutes ∧ minutes * 60000 < idleTime

instance (idleTime minutes : ℕ) : Decidable (Passed idleTime minutes) :=
  inferInstanceAs (Decidable (_ ∧ _))

variable (generalConfig : General) (protocolStatuses : ℕ)

/-- The wanted status, and whether it is to return from auto away. -/
def wanted (idleTime : ℕ) (info : SAutoAwayInfo) : Option (ℕ × Bool) :=
  if Passed idleTime generalConfig.autoOfflineTime then some (OfflineStatus, false)
  else if Passed idleTime generalConfig.autoNaTime then
    some (OnlineStatus ||| NotAvailableStatus, false)
  else if Passed idleTime generalConfig.autoAwayTime then some (OnlineStatus ||| AwayStatus, false)
  -- The user is active
  else if info.isAutoAway then some (info.preAutoAwayStatus, true)
  else none

/-- Protocols that doesn't support NA -/
def supported (wantedStatus : ℕ) : ℕ :=
  if ¬ has protocolStatuses NotAvailableStatus ∧ has wantedStatus NotAvailableStatus then
    OnlineStatus ||| AwayStatus
  else wantedStatus

/-- `LicqGui::autoAway` for one owner, with the status that it changes to. -/
def autoAway (idleTime status : ℕ) (info : SAutoAwayInfo) : SAutoAwayInfo × Option ℕ :=
  -- Check no one changed the status behind our back
  if info.isAutoAway ∧ info.setAutoAwayStatus ≠ status then
    ({ info with isAutoAway := false }, none)
  -- If we are offline, and it isn't auto offline, we shouldn't do anything
  else if status = OfflineStatus ∧ ¬ info.isAutoAway then (info, none)
  else
    match wanted generalConfig idleTime info with
    | none => (info, none)
    | some (wantedStatus, returnFromAutoAway) =>
      let wantedStatus := supported protocolStatuses wantedStatus
      -- Never change from NA to away unless we are returning from auto away
      if has status NotAvailableStatus ∧ has wantedStatus AwayStatus ∧ ¬ returnFromAutoAway then
        (info, none)
      else if status = wantedStatus then (info, none)
      else
        let info :=
          -- If we're not auto away, save current status
          if ¬ info.isAutoAway then { info with isAutoAway := true, preAutoAwayStatus := status }
          else if returnFromAutoAway then { info with isAutoAway := false }
          else info
        ({ info with setAutoAwayStatus := wantedStatus }, some wantedStatus)

/-- `LicqGui::changeStatus` as it is called here; `invisibleStatus` is what the status menu has. -/
def changeStatus (invisibleStatus : Bool) (status oldStatus : ℕ) : ℕ :=
  if status = InvisibleStatus then oldStatus ^^^ (oldStatus &&& InvisibleStatus)
  else if status ≠ OfflineStatus then
    -- Normal status change, keep flags
    let status := status ||| OnlineStatus
    let status := if has oldStatus InvisibleStatus then status ||| InvisibleStatus else status
    let status := if has oldStatus IdleStatus then status ||| IdleStatus else status
    -- When going online, keep oldinvisible flag from status menu
    if oldStatus = OfflineStatus ∧ invisibleStatus then status ||| InvisibleStatus else status
  else status

/-! ## Runs -/

/-- An owner, with the status that was last chosen by hand. -/
structure State where
  status : ℕ
  chosen : ℕ
  info : SAutoAwayInfo

/-- The timer expires, or the user chooses a status. -/
inductive Action
  | timeout (idleTime : ℕ) (invisibleStatus : Bool)
  | choose (status : ℕ)

def step (s : State) : Action → State
  | .timeout idleTime invisibleStatus =>
    let (info, newStatus) := autoAway generalConfig protocolStatuses idleTime s.status s.info
    ⟨(newStatus.map fun status => changeStatus invisibleStatus status s.status).getD s.status,
      s.chosen, info⟩
  | .choose status => ⟨status, status, s.info⟩

def run : State → List Action → State := foldl (step generalConfig protocolStatuses)

/-- Nothing that is set has passed. -/
def Active (idleTime : ℕ) : Prop :=
  ¬ Passed idleTime generalConfig.autoOfflineTime ∧ ¬ Passed idleTime generalConfig.autoNaTime ∧
    ¬ Passed idleTime generalConfig.autoAwayTime

instance (idleTime : ℕ) : Decidable (Active generalConfig idleTime) :=
  inferInstanceAs (Decidable (_ ∧ _))

/-- Neither of the flags that `changeStatus` keeps. -/
def Unflagged (status : ℕ) : Prop :=
  has status InvisibleStatus = false ∧ has status IdleStatus = false

instance (status : ℕ) : Decidable (Unflagged status) := inferInstanceAs (Decidable (_ ∧ _))

/-- A status that can be given back. -/
def Plain (status : ℕ) : Prop :=
  Unflagged status ∧ (status = OfflineStatus ∨ status ||| OnlineStatus = status) ∧
    (has status NotAvailableStatus = true → has protocolStatuses NotAvailableStatus = true)

instance (status : ℕ) : Decidable (Plain protocolStatuses status) :=
  inferInstanceAs (Decidable (_ ∧ _ ∧ (_ → _)))

/-- **The condition on a step.**  A chosen status has no flag that is kept, and is not the one that
auto-away has set; the status menu does not ask for invisible where the owner is offline. -/
def ActionOk (s : State) : Action → Prop
  | .timeout _ invisibleStatus => s.status = OfflineStatus → invisibleStatus = false
  | .choose status => Plain protocolStatuses status ∧
    (s.info.isAutoAway = true → s.info.setAutoAwayStatus ≠ status)

instance (s : State) : (a : Action) → Decidable (ActionOk protocolStatuses s a)
  | .timeout _ _ => inferInstanceAs (Decidable (_ → _))
  | .choose _ => inferInstanceAs (Decidable (_ ∧ _))

def RunOk : State → List Action → Prop :=
  Steps.Each (fun s a => some (step generalConfig protocolStatuses s a)) (ActionOk protocolStatuses)

instance (s : State) (actions : List Action) :
    Decidable (RunOk generalConfig protocolStatuses s actions) :=
  inferInstanceAs (Decidable (Steps.Each _ _ _ _))

/-- What holds in a run: the status is the chosen one unless auto-away has set it, and then the
chosen one is saved. -/
structure Inv (s : State) : Prop where
  plain : Plain protocolStatuses s.chosen
  unflagged : Unflagged s.status
  same : s.info.isAutoAway = true → s.info.setAutoAwayStatus ≠ s.status → s.status = s.chosen
  free : s.info.isAutoAway = false → s.status = s.chosen
  saved : s.info.isAutoAway = true → s.info.setAutoAwayStatus = s.status →
    s.info.preAutoAwayStatus = s.chosen

variable {generalConfig protocolStatuses} {s : State} {status idleTime : ℕ} {invisibleStatus : Bool}

theorem changeStatus_eq {oldStatus : ℕ} (hold : Unflagged oldStatus) (h : Unflagged status)
    (honline : status = OfflineStatus ∨ status ||| OnlineStatus = status)
    (hmenu : oldStatus = OfflineStatus → invisibleStatus = false) :
    changeStatus invisibleStatus status oldStatus = status := by
  have hne : status ≠ InvisibleStatus := by
    rintro rfl
    exact absurd h.1 (by decide)
  have hnone : ¬ (oldStatus = OfflineStatus ∧ invisibleStatus = true) := fun hboth => by
    rw [hmenu hboth.1] at hboth
    exact absurd hboth.2 (by decide)
  rw [changeStatus, if_neg hne]
  simp only [hold.1, hold.2, Bool.false_eq_true, if_false, if_neg hnone]
  split_ifs with hoff
  · exact honline.resolve_left hoff
  · rfl

variable (generalConfig protocolStatuses s idleTime) in
/-- A wanted status that is set as it is, and is the chosen one where the user is back. -/
structure Settable (status : ℕ) (back : Bool) : Prop where
  unflagged : Unflagged status
  online : status = OfflineStatus ∨ status ||| OnlineStatus = status
  chosen : back = true → status = s.chosen
  active : Active generalConfig idleTime → back = true

theorem settable_of_wanted {back : Bool} (h : Inv protocolStatuses s)
    (hset : s.info.isAutoAway = true → s.info.setAutoAwayStatus = s.status)
    (hwanted : wanted generalConfig idleTime s.info = some (status, back)) :
    Settable generalConfig s idleTime status back := by
  rw [wanted] at hwanted
  split_ifs at hwanted with hoff hna haway hauto
  · cases hwanted
    exact ⟨by decide, .inl rfl, nofun, fun hactive => absurd hoff hactive.1⟩
  · cases hwanted
    exact ⟨by decide, .inr (by decide), nofun, fun hactive => absurd hna hactive.2.1⟩
  · cases hwanted
    exact ⟨by decide, .inr (by decide), nofun, fun hactive => absurd haway hactive.2.2⟩
  · cases hwanted
    rw [h.saved hauto (hset hauto)]
    exact ⟨h.plain.1, h.plain.2.1, fun _ => rfl, fun _ => rfl⟩

theorem Settable.supported {back : Bool} (h : Settable generalConfig s idleTime status back)
    (hplain : Plain protocolStatuses s.chosen) :
    Settable generalConfig s idleTime (supported protocolStatuses status) back := by
  rw [AutoAway.supported]
  split_ifs with hna
  · refine ⟨by decide, .inr (by decide), fun hback => ?_, h.active⟩
    -- a status that is given back is one that the protocol supports
    rw [h.chosen hback] at hna
    exact absurd (hplain.2.2 hna.2) hna.1
  · exact h

/-- What is remembered of a change. -/
theorem inv_change {info : SAutoAwayInfo} {back : Bool} (h : Inv protocolStatuses s)
    (hset : s.info.isAutoAway = true → s.info.setAutoAwayStatus = s.status)
    (hsettable : Settable generalConfig s idleTime status back)
    (hinfo : info = if ¬ s.info.isAutoAway then
        { s.info with isAutoAway := true, preAutoAwayStatus := s.status }
      else if back then { s.info with isAutoAway := false } else s.info) :
    Inv protocolStatuses ⟨status, s.chosen, { info with setAutoAwayStatus := status }⟩ := by
  have hset' := hsettable.unflagged
  cases hauto : s.info.isAutoAway with
  | false =>
    rw [hauto, if_pos Bool.false_ne_true] at hinfo
    subst hinfo
    exact ⟨h.plain, hset', fun _ hne => absurd rfl hne, nofun, fun _ _ => h.free hauto⟩
  | true =>
    rw [hauto, if_neg (not_not.mpr rfl)] at hinfo
    cases back with
    | false =>
      rw [if_neg Bool.false_ne_true] at hinfo
      subst hinfo
      refine ⟨h.plain, hset', fun _ hne => absurd rfl hne, fun hfalse => ?_, fun _ _ => ?_⟩
      · cases hauto.symm.trans hfalse
      · exact h.saved hauto (hset hauto)
    | true =>
      subst hinfo
      exact ⟨h.plain, hset', fun _ hne => absurd rfl hne, fun _ => hsettable.chosen rfl, nofun⟩

/-- **The timer expires.** -/
theorem Inv.timeout (h : Inv protocolStatuses s)
    (hmenu : s.status = OfflineStatus → invisibleStatus = false) :
    let t := step generalConfig protocolStatuses s (.timeout idleTime invisibleStatus)
    Inv protocolStatuses t ∧ (Active generalConfig idleTime → t.status = s.chosen) := by
  intro t
  by_cases hbehind : s.info.isAutoAway = true ∧ s.info.setAutoAwayStatus ≠ s.status
  · have ht : t = ⟨s.status, s.chosen, { s.info with isAutoAway := false }⟩ := by
      simp only [t, step, autoAway, if_pos hbehind, Option.map_none, Option.getD_none]
    rw [ht]
    have hsame := h.same hbehind.1 hbehind.2
    exact ⟨⟨h.plain, h.unflagged, nofun, fun _ => hsame, nofun⟩, fun _ => hsame⟩
  have hset : s.info.isAutoAway = true → s.info.setAutoAwayStatus = s.status :=
    fun hauto => not_not.mp fun hne => hbehind ⟨hauto, hne⟩
  simp only [t, step, autoAway, if_neg hbehind]
  by_cases hoff : s.status = OfflineStatus ∧ ¬ s.info.isAutoAway = true
  · rw [if_pos hoff]
    exact ⟨h, fun _ => h.free (Bool.not_eq_true _ ▸ hoff.2)⟩
  rw [if_neg hoff]
  cases hwanted : wanted generalConfig idleTime s.info with
  | none =>
    refine ⟨h, fun _ => h.free ?_⟩
    rw [wanted] at hwanted
    split_ifs at hwanted with _ _ _ hauto
    exact Bool.not_eq_true _ ▸ hauto
  | some found =>
    obtain ⟨status, back⟩ := found
    have hsettable := (settable_of_wanted h hset hwanted).supported h.plain
    dsimp only
    generalize supported protocolStatuses status = wantedStatus at *
    by_cases haway : has s.status NotAvailableStatus ∧ has wantedStatus AwayStatus ∧ ¬ back = true
    · rw [if_pos haway]
      exact ⟨h, fun hidle => absurd (hsettable.active hidle) haway.2.2⟩
    rw [if_neg haway]
    by_cases hequal : s.status = wantedStatus
    · rw [if_pos hequal]
      exact ⟨h, fun hidle => hequal.trans (hsettable.chosen (hsettable.active hidle))⟩
    · rw [if_neg hequal]
      simp only [Option.map_some, Option.getD_some]
      rw [changeStatus_eq h.unflagged hsettable.unflagged hsettable.online hmenu]
      exact ⟨inv_change h hset hsettable rfl,
        fun hidle => hsettable.chosen (hsettable.active hidle)⟩

theorem inv_choose (hok : ActionOk protocolStatuses s (.choose status)) :
    Inv protocolStatuses (step generalConfig protocolStatuses s (.choose status)) :=
  ⟨hok.1, hok.1.1, fun _ _ => rfl, fun _ => rfl, fun hauto heq => absurd heq (hok.2 hauto)⟩

/-- **A run keeps the invariant.** -/
theorem Inv.run (h : Inv protocolStatuses s) (actions : List Action)
    (hok : RunOk generalConfig protocolStatuses s actions) :
    Inv protocolStatuses (run generalConfig protocolStatuses s actions) := by
  induction actions generalizing s with
  | nil => exact h
  | cons a actions ih =>
    rw [RunOk, Steps.each_cons rfl] at hok
    refine ih ?_ hok.2
    cases a with
    | timeout idleTime invisibleStatus => exact (h.timeout hok.1).1
    | choose status => exact inv_choose hok.1

/-- **Main result.**  After any run of timeouts and choices that meets the condition, a timeout that
finds the user active leaves the owner with the status that was last chosen by hand. -/
theorem status_eq_chosen (hplain : Plain protocolStatuses s.chosen) (hsame : s.status = s.chosen)
    (hfree : s.info.isAutoAway = false) {actions : List Action}
    (hok : RunOk generalConfig protocolStatuses s actions)
    (hactive : Active generalConfig idleTime) :
    let t := run generalConfig protocolStatuses s actions
    (t.status = OfflineStatus → invisibleStatus = false) →
      (step generalConfig protocolStatuses t (.timeout idleTime invisibleStatus)).status
        = t.chosen := by
  intro t hmenu
  have hinv : Inv protocolStatuses s := by
    refine ⟨hplain, hsame ▸ hplain.1, fun hauto => ?_, fun _ => hsame, fun hauto => ?_⟩
    all_goals cases hfree.symm.trans hauto
  exact ((hinv.run actions hok).timeout hmenu).2 hactive

/-- Away after five minutes, back, and not available after ten. -/
theorem status_eq_chosen_run :
    let t := run ⟨5, 10, 0⟩ (AwayStatus ||| NotAvailableStatus)
      ⟨OnlineStatus, OnlineStatus, false, 0, 0⟩ [.timeout 300001 false, .timeout 10 false,
        .choose (OnlineStatus ||| OccupiedStatus), .timeout 10 false, .timeout 600001 false]
    t.status = OnlineStatus ||| NotAvailableStatus ∧
      (step ⟨5, 10, 0⟩ (AwayStatus ||| NotAvailableStatus) t (.timeout 20 false)).status
        = t.chosen :=
  ⟨by decide, status_eq_chosen (by decide) rfl rfl (by decide) (by decide) (by decide)⟩

end Licq.AutoAway
