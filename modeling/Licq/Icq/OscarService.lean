import Licq.Data.Steps

/-!
# Icq/OscarService — the handshake with a service

One thread runs `COscarService::Initialize` and another one receives the answers of the server; each
answer makes it call `ChangeStatus`.  `WaitForStatus` waits for the condition before it has looked at
the status, so that an answer that came before is not seen: nothing signals any more.

The **main result** `handshake_succeeds_iff` is that this is all that goes wrong: in any order of
the steps of the two threads the handshake succeeds exactly when every answer comes while the
initialising thread is in the wait for it.
-/

namespace Licq

/-! ## Threads -/

/-- `EOscarServiceStatus` -/
inductive OscarServiceStatus
  | uninitialized | serviceReqSent | serviceReqAcked | connected | srvReadyRecv | srvVerRecv
  | srvRateRecv | ready
  deriving DecidableEq, Repr

/-- What `Initialize` does.  A packet that the server answers comes with the status that the answer
is received with. -/
inductive InitStep
  | changeStatus (s : OscarServiceStatus)
  | icqRequestService
  | connectTo
  | sendPacket (answer : Option OscarServiceStatus)
  | waitForStatus (s : OscarServiceStatus)
  deriving DecidableEq, Repr

/-- `COscarService::Initialize`: the cookie, the versions of the families, the rate limits and their
acknowledgement. -/
def initializeSteps : List InitStep :=
  [.changeStatus .serviceReqSent, .icqRequestService, .waitForStatus .serviceReqAcked,
    .changeStatus .connected, .connectTo,
    .sendPacket (some .srvReadyRecv), .waitForStatus .srvReadyRecv,
    .sendPacket (some .srvVerRecv), .waitForStatus .srvVerRecv,
    .sendPacket (some .srvRateRecv), .waitForStatus .srvRateRecv,
    .sendPacket none, .sendPacket none, .changeStatus .ready]

/-- The initialising thread runs, or it is in `pthread_cond_timedwait`, or that has returned 0. -/
inductive WaitPhase
  | running | asleep | woken
  deriving DecidableEq, Repr

structure OscarService where
  myStatus : OscarServiceStatus
  /-- What the initialising thread has still to do. -/
  todo : List InitStep
  phase : WaitPhase
  /-- The answer that the server owes. -/
  owed : Option OscarServiceStatus
  /-- What `Initialize` returned. -/
  result : Option Bool
  deriving DecidableEq, Repr

/-- The steps: of the initialising thread, which may fail to connect or to send; of the receiving
thread; and a wait that ends after 120 seconds, or for no reason. -/
inductive ServiceStep
  | run | fail | answer | timeout | spurious
  deriving DecidableEq, Repr

namespace OscarService

/-- The service as `Initialize` finds it. -/
def start : OscarService := ⟨.uninitialized, initializeSteps, .running, none, none⟩

/-- The end of an attempt that failed. -/
def giveUp (s : OscarService) : OscarService :=
  { s with myStatus := .uninitialized, phase := .running, result := some false }

/-- The next step of the initialising thread. -/
def run (s : OscarService) : Option OscarService :=
  match s.phase, s.todo with
  | .running, [] => some { s with result := some true }
  | .running, .changeStatus status :: todo => some { s with myStatus := status, todo }
  | .running, .icqRequestService :: todo => some { s with owed := some .serviceReqAcked, todo }
  | .running, .connectTo :: todo => some { s with todo }
  | .running, .sendPacket none :: todo => some { s with todo }
  | .running, .sendPacket (some answer) :: todo => some { s with owed := some answer, todo }
  | .running, .waitForStatus _ :: _ => some { s with phase := .asleep }
  | .woken, .waitForStatus status :: todo =>
    if s.myStatus = status then some { s with phase := .running, todo } else some s.giveUp
  | _, _ => none

/-- `connectTo` or `SendPacket` fails. -/
def fail (s : OscarService) : Option OscarService :=
  match s.phase, s.todo with
  | .running, .connectTo :: _ => some s.giveUp
  | .running, .sendPacket _ :: _ => some s.giveUp
  | _, _ => none

/-- `ChangeStatus` by the receiving thread, which wakes the other one where it is asleep. -/
def answer (s : OscarService) : Option OscarService :=
  match s.owed with
  | some status => some { s with
      myStatus := status, owed := none,
      phase := if s.phase = .asleep then .woken else s.phase }
  | none => none

def step (s : OscarService) (l : ServiceStep) : Option OscarService :=
  if s.result ≠ none then none
  else match l with
    | .run => s.run
    | .fail => s.fail
    | .answer => s.answer
    | .timeout => if s.phase = .asleep then some s.giveUp else none
    | .spurious => if s.phase = .asleep then some { s with phase := .woken } else none

/-- What is taken for granted: the packets can be sent, every answer arrives within the time that
the other thread waits for it, and nothing wakes it but a signal. -/
def Regular (s : OscarService) (l : ServiceStep) : Prop :=
  l ≠ .fail ∧ l ≠ .spurious ∧ (l = .timeout → s.owed = none)

instance (s : OscarService) (l : ServiceStep) : Decidable (s.Regular l) :=
  inferInstanceAs (Decidable (_ ∧ _ ∧ (_ → _)))

/-- An answer comes while the initialising thread waits. -/
def InWait (s : OscarService) (l : ServiceStep) : Prop := l = .answer → s.phase = .asleep

instance (s : OscarService) (l : ServiceStep) : Decidable (s.InWait l) :=
  inferInstanceAs (Decidable (_ → _))

/-! ## Requests and waits -/

/-- Every request is followed by the wait for its answer, and nothing between them changes the
status; `asked` is the answer to a request before. -/
def Paired (asked : Option OscarServiceStatus) : List InitStep → Prop
  | [] => asked = none
  | .changeStatus _ :: todo => asked = none ∧ Paired none todo
  | .icqRequestService :: todo => asked = none ∧ Paired (some .serviceReqAcked) todo
  | .connectTo :: todo => Paired asked todo
  | .sendPacket none :: todo => Paired asked todo
  | .sendPacket (some answer) :: todo => asked = none ∧ Paired (some answer) todo
  | .waitForStatus status :: todo => asked = some status ∧ Paired none todo

theorem paired_initializeSteps : Paired none initializeSteps := by
  simp [Paired, initializeSteps]

/-- Where the attempt stands while it is not over; `early` says that an answer came before the wait
for it. -/
inductive Stands (early : Bool) : OscarService → Prop
  /-- The answer to the last request is owed, if its wait is not over. -/
  | inTime {s : OscarService} : early = false → s.phase = .running → Paired s.owed s.todo →
      Stands early s
  /-- The answer is owed and waited for. -/
  | waiting {s : OscarService} {status : OscarServiceStatus} {todo : List InitStep} :
      early = false → s.phase = .asleep → s.todo = .waitForStatus status :: todo →
      s.owed = some status → Paired none todo → Stands early s
  /-- The answer was seen to arrive. -/
  | seen {s : OscarService} {status : OscarServiceStatus} {todo : List InitStep} :
      early = false → s.phase = .woken → s.todo = .waitForStatus status :: todo →
      s.owed = none → s.myStatus = status → Paired none todo → Stands early s
  /-- The answer came too early, and will be waited for. -/
  | missed {s : OscarService} {status : OscarServiceStatus} : early = true → s.phase ≠ .woken →
      s.owed = none → Paired (some status) s.todo → Stands early s

/-- The attempt stands so, or it is over and has succeeded if no answer came too early. -/
def Inv (early : Bool) (s : OscarService) : Prop :=
  (s.result = none ∧ Stands early s) ∨ s.result = some !early

theorem inv_start : Inv false start := Or.inl ⟨rfl, .inTime rfl rfl paired_initializeSteps⟩

/-! ## Steps -/

section Steps

variable {early : Bool} {s t : OscarService}

theorem Stands.run (h : Stands early s) (hresult : s.result = none) (hstep : s.run = some t) :
    Inv early t := by
  cases h with
  | inTime hearly hphase hpaired =>
    unfold OscarService.run at hstep
    rw [hphase] at hstep
    cases htodo : s.todo with
    | nil =>
      rw [htodo] at hstep
      cases hstep
      exact Or.inr (by rw [hearly]; rfl)
    | cons i todo =>
      rw [htodo] at hstep hpaired
      refine Or.inl ?_
      cases i with
      | changeStatus status =>
        cases hstep
        exact ⟨hresult, .inTime hearly rfl (hpaired.1 ▸ hpaired.2)⟩
      | icqRequestService =>
        cases hstep
        exact ⟨hresult, .inTime hearly rfl hpaired.2⟩
      | connectTo =>
        cases hstep
        exact ⟨hresult, .inTime hearly rfl hpaired⟩
      | sendPacket answer =>
        cases answer with
        | none =>
          cases hstep
          exact ⟨hresult, .inTime hearly rfl hpaired⟩
        | some status =>
          cases hstep
          exact ⟨hresult, .inTime hearly rfl hpaired.2⟩
      | waitForStatus status =>
        cases hstep
        exact ⟨hresult, .waiting hearly rfl rfl hpaired.1 hpaired.2⟩
  | waiting hearly hphase htodo howed hpaired =>
    unfold OscarService.run at hstep
    rw [hphase] at hstep
    cases hstep
  | seen hearly hphase htodo howed hstatus hpaired =>
    unfold OscarService.run at hstep
    rw [hphase, htodo] at hstep
    dsimp only at hstep
    rw [if_pos hstatus] at hstep
    cases hstep
    exact Or.inl ⟨hresult, .inTime hearly rfl (howed ▸ hpaired)⟩
  | missed hearly hphase howed hpaired =>
    unfold OscarService.run at hstep
    cases hp : s.phase with
    | woken => exact absurd hp hphase
    | asleep =>
      rw [hp] at hstep
      cases hstep
    | running =>
      rw [hp] at hstep
      refine Or.inl ?_
      cases htodo : s.todo with
      | nil =>
        rw [htodo] at hpaired
        cases hpaired
      | cons i todo =>
        rw [htodo] at hstep hpaired
        cases i with
        | changeStatus status => cases hpaired.1
        | icqRequestService => cases hpaired.1
        | connectTo =>
          cases hstep
          exact ⟨hresult, .missed hearly nofun howed hpaired⟩
        | sendPacket answer =>
          cases answer with
          | none =>
            cases hstep
            exact ⟨hresult, .missed hearly nofun howed hpaired⟩
          | some status => cases hpaired.1
        | waitForStatus status =>
          cases hstep
          exact ⟨hresult, .missed hearly nofun howed hpaired⟩

/-- An answer is seen by a thread that is asleep, and is missed by one that is not. -/
theorem Stands.answer (h : Stands early s) (hresult : s.result = none)
    (hstep : s.answer = some t) : Inv (early || decide (s.phase ≠ .asleep)) t := by
  refine Or.inl ?_
  unfold OscarService.answer at hstep
  cases h with
  | inTime hearly hphase hpaired =>
    cases howed : s.owed with
    | none =>
      rw [howed] at hstep
      cases hstep
    | some status =>
      rw [howed, hphase] at hstep
      cases hstep
      exact ⟨hresult, .missed (by simp [hphase]) nofun rfl (howed ▸ hpaired)⟩
  | waiting hearly hphase htodo howed hpaired =>
    rw [howed, hphase] at hstep
    cases hstep
    exact ⟨hresult, .seen (by simp [hearly, hphase]) rfl htodo rfl rfl hpaired⟩
  | seen hearly hphase htodo howed hstatus hpaired =>
    rw [howed] at hstep
    cases hstep
  | missed hearly hphase howed hpaired =>
    rw [howed] at hstep
    cases hstep

/-- Only the wait for an answer that was missed lasts until its time is over. -/
theorem Stands.timeout (h : Stands early s) (howed : s.owed = none) (hasleep : s.phase = .asleep) :
    Inv early s.giveUp := by
  refine Or.inr ?_
  cases h with
  | inTime hearly hphase hpaired => cases hasleep.symm.trans hphase
  | waiting hearly hphase htodo howed' hpaired => cases howed.symm.trans howed'
  | seen hearly hphase htodo howed hstatus hpaired => cases hasleep.symm.trans hphase
  | missed hearly hphase howed hpaired =>
    rw [hearly]
    rfl

/-- **One step** of either thread. -/
theorem Inv.step {l : ServiceStep} (h : Inv early s) (hregular : s.Regular l)
    (hstep : s.step l = some t) : Inv (early || decide (¬ s.InWait l)) t := by
  rcases h with ⟨hresult, hstands⟩ | hresult
  · unfold OscarService.step at hstep
    rw [hresult] at hstep
    obtain ⟨hfail, hspurious, htimeout⟩ := hregular
    have hsame : ∀ l ≠ .answer, (early || decide (¬ s.InWait l)) = early := fun l hl => by
      simp [InWait, hl]
    cases l with
    | run =>
      rw [hsame .run (by decide)]
      exact hstands.run hresult hstep
    | fail => exact absurd rfl hfail
    | answer =>
      have hearly : decide (¬ s.InWait .answer) = decide (s.phase ≠ .asleep) := by simp [InWait]
      rw [hearly]
      exact hstands.answer hresult hstep
    | timeout =>
      obtain ⟨hasleep, ht⟩ := Option.ite_none_right_eq_some.mp hstep
      cases ht
      rw [hsame .timeout (by decide)]
      exact hstands.timeout (htimeout rfl) hasleep
    | spurious => exact absurd rfl hspurious
  · unfold OscarService.step at hstep
    rw [hresult] at hstep
    cases hstep

/-- **A run**: where no answer came too early nothing was missed. -/
theorem Inv.run {steps : List ServiceStep} (h : Inv early s)
    (hregular : Steps.Each OscarService.step Regular s steps)
    (hrun : steps.foldlM OscarService.step s = some t) :
    ∃ e, Inv e t ∧ (e = false ↔ early = false ∧ Steps.Each OscarService.step InWait s steps) := by
  induction steps generalizing early s with
  | nil =>
    cases hrun
    exact ⟨early, h, by simp [Steps.Each]⟩
  | cons l steps ih =>
    obtain ⟨u, hu, hrest⟩ := Option.bind_eq_some_iff.mp hrun
    obtain ⟨hl, hregular⟩ := (Steps.each_cons hu).mp hregular
    obtain ⟨e, he, hiff⟩ := ih (h.step hl hu) hregular hrest
    refine ⟨e, he, hiff.trans ?_⟩
    rw [Steps.each_cons hu, Bool.or_eq_false_iff, decide_eq_false_iff_not, Decidable.not_not, and_assoc]

/-- An attempt that is not over goes on: with a step of the initialising thread, or with the answer
that it waits for. -/
theorem Stands.goes_on (h : Stands false s) (hresult : s.result = none) :
    (s.step .run).isSome ∨ (s.step .answer).isSome := by
  unfold OscarService.step
  rw [hresult]
  cases h with
  | inTime hearly hphase hpaired =>
    refine Or.inl ?_
    change s.run.isSome
    unfold OscarService.run
    rw [hphase]
    match s.todo with
    | [] => rfl
    | .changeStatus _ :: _ => rfl
    | .icqRequestService :: _ => rfl
    | .connectTo :: _ => rfl
    | .sendPacket none :: _ => rfl
    | .sendPacket (some _) :: _ => rfl
    | .waitForStatus _ :: _ => rfl
  | waiting hearly hphase htodo howed hpaired =>
    refine Or.inr ?_
    change s.answer.isSome
    unfold OscarService.answer
    rw [howed]
    rfl
  | seen hearly hphase htodo howed hstatus hpaired =>
    refine Or.inl ?_
    change s.run.isSome
    unfold OscarService.run
    rw [hphase, htodo]
    dsimp only
    rw [if_pos hstatus]
    rfl
  | missed hearly hphase howed hpaired => cases hearly

end Steps

end OscarService

open OscarService in
/-- **The handshake.**  In every run of the two threads in which packets can be sent, every answer
arrives within the wait time and nothing else wakes the waiting thread: an attempt that is over has
succeeded exactly if every answer came while it was waited for; and if all of them did so far, an
attempt that is not over goes on. -/
theorem handshake_succeeds_iff {s : OscarService} {steps : List ServiceStep}
    (hrun : steps.foldlM step start = some s) (hregular : Steps.Each step Regular start steps) :
    (∀ b, s.result = some b → (b = true ↔ Steps.Each step InWait start steps)) ∧
      (Steps.Each step InWait start steps → s.result = none →
        (s.step .run).isSome ∨ (s.step .answer).isSome) := by
  obtain ⟨e, hinv, he⟩ := inv_start.run hregular hrun
  rw [and_iff_right rfl] at he
  refine ⟨fun b hb => ?_, fun hall hresult => ?_⟩
  · rcases hinv with ⟨hnone, -⟩ | hsome
    · cases hnone.symm.trans hb
    · cases hb.symm.trans hsome
      rw [← he, Bool.not_eq_true']
  · obtain rfl := he.mpr hall
    rcases hinv with ⟨-, hstands⟩ | hsome
    · exact hstands.goes_on hresult
    · cases hresult.symm.trans hsome

/-- A handshake with every answer in its wait. -/
def answeredInWait : List ServiceStep :=
  [.run, .run, .run, .answer, .run, .run, .run, .run, .run, .answer, .run, .run, .run, .answer,
    .run, .run, .run, .answer, .run, .run, .run, .run, .run]

open OscarService in
theorem handshake_succeeds_iff_inWait : ∃ s, answeredInWait.foldlM step start = some s ∧
    s.result = some true ∧ Steps.Each step InWait start answeredInWait :=
  ⟨_, rfl, rfl, ((handshake_succeeds_iff rfl (by decide)).1 true rfl).mp rfl⟩

open OscarService in
/-- The redirect to the service arrives before the thread has begun to wait for it. -/
theorem handshake_fails_early : ¬ ∀ (steps : List ServiceStep) (s : OscarService),
    steps.foldlM step start = some s → Steps.Each step Regular start steps →
    s.result ≠ some false := by
  intro h
  exact h [.run, .run, .answer, .run, .timeout] _ rfl (by decide) rfl

end Licq
