import Licq.Data.Steps
import Mathlib.Data.List.Basic

/-!
# Plugin/Start — signals to a plugin that is starting

`startPlugin` returns when the plugin's thread has left the state in which it waits for its start;
`pushSignal` asks another flag, which that thread sets afterwards.  `delivered_iff` says between which
steps of the two threads a signal is lost.
-/

namespace Licq.PluginStart

/-! ## The two threads -/

/-- `PluginThread::Data::ThreadState`, from the end of initialization on. -/
inductive ThreadState
  | waiting
  | startPlugin
  | running
  deriving DecidableEq

/-- Where the thread is that starts the plugin. -/
inductive Starter
  | before
  /-- In the loop of `startPlugin`, holding `myProtocolPluginsMutex`. -/
  | waiting
  | returned
  deriving DecidableEq

/-- Where the plugin's own thread is. -/
inductive Own
  /-- In the loop of `pluginThreadEntry`. -/
  | waiting
  /-- In `startThreadEntry`, before `myIsRunning` is set. -/
  | starting
  /-- In the `run` of the plugin. -/
  | run
  | exited
  deriving DecidableEq

/-- What is written to the pipe of the plugin. -/
inductive Notification
  | signal
  | shutdown
  deriving DecidableEq

/-- A signal that is pushed, and whether this is after the start has returned and before a shutdown
is requested. -/
structure Push (σ : Type*) where
  signal : σ
  due : Bool
  deriving DecidableEq

structure State (σ : Type*) where
  myState : ThreadState
  starter : Starter
  own : Own
  myIsRunning : Bool
  /-- The call of `pushSignal` that holds `myProtocolPluginsMutex`, and what `isRunning` has given. -/
  pushing : Option (Push σ × Bool)
  mySignals : List (Push σ)
  pipe : List Notification
  /-- What `popSignal` has given so far. -/
  popped : List (Push σ)
  /-- The calls of `shutdown` that have not cleared `myIsRunning` yet. -/
  clearing : ℕ
  shutdownRequested : Bool
  /-- The signals pushed after the start has returned and before a shutdown is requested. -/
  due : List σ
  deriving DecidableEq

/-- A plugin that has been created and initialized. -/
def initial (σ : Type*) : State σ :=
  ⟨.waiting, .before, .waiting, false, none, [], [], [], 0, false, []⟩

/-- The steps of the threads; `pushSignal` and `shutdown` have two each. -/
inductive Action (σ : Type*)
  | startPlugin
  /-- The plugin's thread finds that it is to start. -/
  | takeStart
  /-- The starting thread finds that the plugin's thread has started. -/
  | startReturns
  /-- `myIsRunning = true` -/
  | startThreadEntry
  | isRunning (signal : σ)
  | pushSignal
  /-- The plugin reads its pipe. -/
  | rawFileEvent
  /-- The plugin returns from its `run`. -/
  | exit
  | shutdown
  /-- `myIsRunning = false` -/
  | clearRunning
  deriving DecidableEq

variable {σ : Type*}

/-- A signal pushed now is one that must not be lost. -/
def State.IsDue (s : State σ) : Bool := s.starter = .returned && !s.shutdownRequested

/-- One step; none where the thread has to wait. -/
def step (s : State σ) : Action σ → Option (State σ)
  | .startPlugin =>
    if s.starter = .before ∧ s.pushing = none then
      some { s with starter := .waiting, myState := .startPlugin }
    else none
  | .takeStart =>
    if s.own = .waiting ∧ s.myState = .startPlugin then
      some { s with own := .starting, myState := .running }
    else none
  | .startReturns =>
    if s.starter = .waiting ∧ s.myState ≠ .startPlugin then some { s with starter := .returned }
    else none
  | .startThreadEntry =>
    if s.own = .starting then some { s with own := .run, myIsRunning := true } else none
  | .isRunning signal =>
    if s.pushing = none ∧ s.starter ≠ .waiting then
      some { s with
        pushing := some (⟨signal, s.IsDue⟩, s.myIsRunning)
        due := if s.IsDue then s.due ++ [signal] else s.due }
    else none
  | .pushSignal =>
    match s.pushing with
    | some (push, true) =>
      some { s with
        pushing := none, mySignals := s.mySignals ++ [push], pipe := s.pipe ++ [.signal] }
    | some (_, false) => some { s with pushing := none }
    | none => none
  | .rawFileEvent =>
    if s.own = .run then
      match s.pipe with
      | .signal :: pipe =>
        some { s with
          pipe := pipe, popped := s.popped ++ s.mySignals.take 1, mySignals := s.mySignals.tail }
      | .shutdown :: pipe => some { s with pipe := pipe, own := .exited }
      | [] => none
    else none
  | .exit => if s.own = .run then some { s with own := .exited } else none
  | .shutdown =>
    some { s with
      pipe := s.pipe ++ [.shutdown], shutdownRequested := true, clearing := s.clearing + 1 }
  | .clearRunning =>
    if 0 < s.clearing then some { s with myIsRunning := false, clearing := s.clearing - 1 } else none

/-! ## Delivery -/

/-- The signal that is being pushed, when it will be queued. -/
def State.underway (s : State σ) : List (Push σ) :=
  match s.pushing with
  | some (push, true) => [push]
  | _ => []

/-- The signals that must not be lost have been queued once each and in order, the one that is being
pushed apart, which will be. -/
def Delivered (s : State σ) : Prop :=
  ((s.popped ++ s.mySignals ++ s.underway).filter Push.due).map Push.signal = s.due

/-- A signal that must not be lost is pushed, once no other push holds the mutex, when the plugin's
own thread has set `myIsRunning`. -/
def InTime (s : State σ) (a : Action σ) : Prop :=
  ∀ signal, a = .isRunning signal → s.pushing = none → s.IsDue = true → s.myIsRunning = true

instance (s : State σ) (a : Action σ) : Decidable (InTime s a) :=
  match a with
  | .isRunning signal =>
    decidable_of_iff (s.pushing.isNone = true → s.IsDue = true → s.myIsRunning = true)
      ⟨fun h _ _ hnone => h (Option.isNone_iff_eq_none.mpr hnone),
        fun h hnone => h signal rfl (Option.isNone_iff_eq_none.mp hnone)⟩
  | .startPlugin | .takeStart | .startReturns | .startThreadEntry | .pushSignal | .rawFileEvent
  | .exit | .shutdown | .clearRunning => isTrue nofun

theorem delivered_initial : Delivered (initial σ) := rfl

/-- **A push is delivered** when the plugin is running or the signal may be lost. -/
theorem delivered_isRunning {s s' : State σ} {signal : σ} (h : Delivered s)
    (hs : step s (.isRunning signal) = some s') :
    Delivered s' ↔ InTime s (.isRunning signal) := by
  rw [step] at hs
  by_cases hfree : s.pushing = none ∧ s.starter ≠ .waiting
  · rw [if_pos hfree] at hs
    cases hs
    have hunderway : s.underway = [] := by rw [State.underway, hfree.1]
    have hintime : InTime s (.isRunning signal) ↔ (s.IsDue = true → s.myIsRunning = true) :=
      ⟨fun hall => hall signal rfl hfree.1, fun hall _ _ _ => hall⟩
    rw [Delivered, hunderway, List.append_nil] at h
    rw [hintime, Delivered, ← h]
    cases hdue : s.IsDue <;> cases hrun : s.myIsRunning <;> simp [State.underway]
  · rw [if_neg hfree] at hs
    cases hs

/-- No other step pushes a signal or drops one that is queued. -/
theorem queued_of_step {s s' : State σ} {a : Action σ} (ha : ∀ signal, a ≠ .isRunning signal)
    (hs : step s a = some s') :
    s'.popped ++ s'.mySignals ++ s'.underway = s.popped ++ s.mySignals ++ s.underway ∧
      s'.due = s.due := by
  cases a with
  | isRunning signal => exact absurd rfl (ha signal)
  | pushSignal =>
    rw [step] at hs
    match hpushing : s.pushing with
    | none =>
      rw [hpushing] at hs
      cases hs
    | some (push, true) =>
      rw [hpushing] at hs
      cases hs
      have hunderway : s.underway = [push] := by rw [State.underway, hpushing]
      rw [hunderway]
      refine ⟨?_, rfl⟩
      show s.popped ++ (s.mySignals ++ [push]) ++ [] = _
      rw [List.append_nil, List.append_assoc]
    | some (push, false) =>
      rw [hpushing] at hs
      cases hs
      have hunderway : s.underway = [] := by rw [State.underway, hpushing]
      rw [hunderway]
      exact ⟨rfl, rfl⟩
  | rawFileEvent =>
    rw [step] at hs
    by_cases hrun : s.own = .run
    · rw [if_pos hrun] at hs
      match hpipe : s.pipe with
      | [] =>
        rw [hpipe] at hs
        cases hs
      | .signal :: pipe =>
        rw [hpipe] at hs
        cases hs
        refine ⟨?_, rfl⟩
        show s.popped ++ s.mySignals.take 1 ++ s.mySignals.tail ++ s.underway = _
        rw [List.append_assoc s.popped, ← List.drop_one, List.take_append_drop]
      | .shutdown :: pipe =>
        rw [hpipe] at hs
        cases hs
        exact ⟨rfl, rfl⟩
    · rw [if_neg hrun] at hs
      cases hs
  | shutdown =>
    cases hs
    exact ⟨rfl, rfl⟩
  | startPlugin | takeStart | startReturns | startThreadEntry | exit | clearRunning =>
    rw [step] at hs
    obtain ⟨-, hs⟩ := Option.ite_none_right_eq_some.mp hs
    cases hs
    exact ⟨rfl, rfl⟩

/-- **One step** keeps the delivery exactly when no signal is pushed too early. -/
theorem delivered_step {s s' : State σ} {a : Action σ} (h : Delivered s)
    (hs : step s a = some s') : Delivered s' ↔ InTime s a := by
  by_cases ha : ∃ signal, a = .isRunning signal
  · obtain ⟨signal, rfl⟩ := ha
    exact delivered_isRunning h hs
  · have hintime : InTime s a := fun signal heq => absurd ⟨signal, heq⟩ ha
    obtain ⟨hqueued, hdue⟩ := queued_of_step (fun signal heq => ha ⟨signal, heq⟩) hs
    refine ⟨fun _ => hintime, fun _ => ?_⟩
    rw [Delivered, hqueued, hdue]
    exact h

/-- A push that has to wait is not lost. -/
theorem inTime_of_step_none {s : State σ} {a : Action σ} (hs : step s a = none) : InTime s a := by
  rintro signal rfl hnone hdue
  have hreturned : s.starter = .returned := by
    rw [State.IsDue, Bool.and_eq_true, decide_eq_true_eq] at hdue
    exact hdue.1
  have hfree : s.pushing = none ∧ s.starter ≠ .waiting := ⟨hnone, by rw [hreturned]; decide⟩
  rw [step, if_pos hfree] at hs
  cases hs

/-- **No signal is lost** in a run exactly when each signal that is pushed after the start has
returned and before a shutdown is requested is pushed when the plugin's own thread has set
`myIsRunning`. -/
theorem delivered_iff (as : List (Action σ)) :
    Steps.Stays step Delivered (initial σ) as ↔ Steps.Each step InTime (initial σ) as :=
  Steps.stays_iff_each (fun _ _ _ => inTime_of_step_none) (fun _ _ _ => delivered_step)
    delivered_initial as

/-- **A signal that is pushed between the two flags** is lost: the start has returned, `myIsRunning` is
not set yet. -/
theorem not_delivered_early : ¬ ∀ as : List (Action ℕ),
    Steps.Stays step Delivered (initial ℕ) as := by
  intro h
  have hend := (h [.startPlugin, .takeStart, .startReturns, .isRunning 1, .pushSignal]).foldlM rfl
  rw [Delivered] at hend
  exact absurd hend (by decide)

end Licq.PluginStart
