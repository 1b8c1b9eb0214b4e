import Licq.Data.Steps
import Licq.Icq.Events.Counts

/-!
# Icq/Events/Disposal — every event is disposed of once

The operations of the event store keep the counts of all events in order.  The **main result**
`storeRun_sound`: where an answer comes for an event that has been sent and is not waited for
elsewhere, the queue of the service is not cleared while events in it are running, and a logoff
finds nothing but running events, no event is lost and none is disposed of twice.
-/

namespace Licq

open List Option EventStore

namespace EventStore

variable {s t : EventStore}

/-! ## Sending -/

theorem Fit.sendEvent (h : s.Fit) (e : IcqEvent) : (s.sendEvent e).Fit := by
  refine h.arrive rfl rfl (fun q hq => ?_) ?_ Counts.fits_noAck
    fun hdirect => Bool.noConfusion hdirect
  · simp [EventStore.sendEvent, hq]
  · simp [EventStore.sendEvent, h.free s.next (Nat.le_refl _)]

/-- An event that is waited for is sent. -/
theorem Fit.sendExpectEvent_started (h : s.Fit) (e : IcqEvent) (bExtendedEvent : Bool) :
    (s.sendExpectEvent e bExtendedEvent true).Fit ∧
      (s.sendExpectEvent e bExtendedEvent true).counts s.next
        = ⟨1, 1, bExtendedEvent.toNat, 0, 0, 0⟩ := by
  have hnew : (s.sendExpectEvent e bExtendedEvent true).counts s.next
      = ⟨1, 1, bExtendedEvent.toNat, 0, 0, 0⟩ := by
    cases bExtendedEvent <;>
      simp [sendExpectEvent, h.free s.next (Nat.le_refl _)]
  refine ⟨h.arrive (e := { e with flagDirect := false, m_bCancelled := false })
    (c := ⟨1, 1, bExtendedEvent.toNat, 0, 0, 0⟩) ?_ ?_ (fun q hq => ?_) hnew
    (Counts.fits_running _ (Bool.toNat_le _) (Nat.le_refl _))
    (fun hdirect => Bool.noConfusion hdirect), hnew⟩
  · cases bExtendedEvent <;> rfl
  · cases bExtendedEvent <;> rfl
  · cases bExtendedEvent <;> simp [sendExpectEvent, hq]

theorem Fit.sendExpectEvent (h : s.Fit) {e : IcqEvent} {bExtendedEvent started : Bool}
    (hok : started = false → ({ e with flagDirect := false }.disposal .error).Ends) :
    (s.sendExpectEvent e bExtendedEvent started).Fit := by
  obtain ⟨hsent, hcounts⟩ := h.sendExpectEvent_started e bExtendedEvent
  cases started with
  | true => exact hsent
  | false =>
    generalize hu : s.sendExpectEvent e bExtendedEvent true = u at hsent hcounts
    have hnext : u.next = s.next + 1 := by
      rw [← hu]
      cases bExtendedEvent <;> rfl
    have hlt : s.next < u.next := by omega
    have hevent : u.events s.next = { e with flagDirect := false, m_bCancelled := false } := by
      rw [← hu]
      cases bExtendedEvent <;> exact alloc_events_next s _
    have hends : ((((u.unlist s.next).replaceCancelled s.next).events s.next).disposal
        .error).Ends := by
      have hkept : ((u.unlist s.next).replaceCancelled s.next).events s.next = u.events s.next :=
        alloc_events_of_lt _ _ hlt
      rw [hkept, hevent]
      exact hok rfl
    -- The event has been sent, and is taken back.
    have ht : s.sendExpectEvent e bExtendedEvent false
        = if bExtendedEvent then
            (((u.unlist s.next).replaceCancelled s.next).dispose s.next).doneExtendedEvent s.next
          else ((u.unlist s.next).replaceCancelled s.next).dispose s.next := by
      rw [← processDoneEvent_of_ends _ _ hends, ← hu]
      cases bExtendedEvent <;> rfl
    rw [ht]
    refine hsent.replaced (r := s.next) ?_ ?_ (fun q hq hqnew => ?_) hlt ?_ ?_
    · cases bExtendedEvent <;> rfl
    · cases bExtendedEvent <;> rfl
    · cases bExtendedEvent <;> simp [hq, hqnew]
    · cases bExtendedEvent <;> simp [hcounts, Nat.ne_of_lt hlt]
    · cases bExtendedEvent <;> simp [hsent.free u.next (Nat.le_refl _), Nat.ne_of_gt hlt]

theorem Fit.sendExpectEventClient (h : s.Fit) (e : IcqEvent) (started : Bool) :
    (s.sendExpectEventClient e started).Fit := by
  let new : IcqEvent :=
    { e with icqChannel := none, flagDirect := true, m_NoAck := false, m_bCancelled := false }
  cases started with
  | true =>
    refine h.arrive (e := new) (c := ⟨0, 1, 0, 0, 1, 0⟩) rfl rfl (fun q hq => ?_) ?_
      (Counts.fits_running _ (Nat.zero_le _) (Nat.le_refl _)) fun _ => ⟨rfl, rfl⟩
    · simp [EventStore.sendExpectEventClient, hq]
    · simp [EventStore.sendExpectEventClient, h.free s.next (Nat.le_refl _)]
  | false =>
    have ht : s.sendExpectEventClient e false
        = (((s.alloc new).pushEvent s.next).unlist s.next).dispose s.next := by
      refine processDoneEvent_of_ends _ _ ?_
      have hevent : (((s.alloc new).pushEvent s.next).unlist s.next).events s.next = new :=
        alloc_events_next s new
      exact hevent ▸ trivial
    rw [ht]
    refine h.arrive (e := new) (c := ⟨0, 0, 0, 0, 0, 1⟩) rfl rfl (fun q hq => ?_) ?_
      (Counts.fits_disposed _ _) fun _ => ⟨rfl, rfl⟩
    · simp [hq]
    · simp [h.free s.next (Nat.le_refl _)]

theorem Fit.sendService (h : s.Fit) (e : IcqEvent) (Request : Bool) :
    (s.sendService e Request).Fit := by
  refine h.arrive (e := { e with
    icqChannel := none, flagDirect := false, m_NoAck := !Request, m_bCancelled := false })
    (c := ⟨0, Request.toNat, 0, 1, 0, 0⟩) ?_ ?_ (fun q hq => ?_) ?_ ?_
    fun hdirect => Bool.noConfusion hdirect
  · cases Request <;> rfl
  · cases Request <;> rfl
  · cases Request <;> simp [EventStore.sendService, hq]
  · cases Request <;> simp [EventStore.sendService, h.free s.next (Nat.le_refl _)]
  · cases Request with
    | false => exact Counts.fits_service
    | true => exact Counts.fits_request

/-! ## Threads -/

variable {r : ℕ} {rest : List ℕ} {nSD : ℤ}

theorem Fit.take (h : s.Fit) (hr : r ∈ s.m_lxSendQueue_Server) : (s.take r).Fit := by
  have hpos : 0 < (s.counts r).send := count_pos_iff.mpr hr
  have hlt := h.lt_of_pos (r := r) (by omega)
  obtain ⟨honce, hgone, hholders, hservice, hrequest, hrunning, hextended, hkept, hcancelled⟩ :=
    (h.fits r hlt).counts
  rw [EventStore.take]
  by_cases hc : (s.events r).m_bCancelled = true
  · rw [if_pos (show ((s.eraseSend r).events r).m_bCancelled = true from hc)]
    rw [hc] at hcancelled
    have hzero := hcancelled rfl
    refine h.ended hlt rfl rfl (fun q hq => by simp [hq]) ?_
    ext <;> simp <;> omega
  · rw [if_neg (show ¬((s.eraseSend r).events r).m_bCancelled = true from hc)]
    have hflag : (s.events r).m_bCancelled.toNat = 0 := by
      rw [Bool.not_eq_true _ |>.mp hc]
      rfl
    refine h.move rfl rfl (fun q hq => by simp [hq]) hlt ?_ (by simp)
    generalize (s.events r).m_NoAck.toNat = n at hkept ⊢
    generalize (s.events r).m_bCancelled.toNat = c at hkept hcancelled hflag ⊢
    constructor <;> simp <;> omega

/-- The socket, the numbers and the packet of an event may change. -/
theorem Fit.setEvent (h : s.Fit) {e : IcqEvent} (hnoAck : e.m_NoAck = (s.events r).m_NoAck)
    (hcancelled : e.m_bCancelled = (s.events r).m_bCancelled)
    (hdirect : e.flagDirect = (s.events r).flagDirect) : (s.setEvent r e).Fit where
  fits := by
    intro q hq
    have hflags : ((s.setEvent r e).events q).m_NoAck = (s.events q).m_NoAck ∧
        ((s.setEvent r e).events q).m_bCancelled = (s.events q).m_bCancelled ∧
        ((s.setEvent r e).events q).flagDirect = (s.events q).flagDirect := by
      by_cases hqr : q = r
      · simp only [EventStore.setEvent, hqr, Function.update_self]
        exact ⟨hnoAck, hcancelled, hdirect⟩
      · simp only [EventStore.setEvent, Function.update_of_ne hqr, and_self]
    exact (h.fits q hq).congr rfl hflags.1 hflags.2.1 hflags.2.2
  free := h.free

theorem Fit.connected (h : s.Fit) (r : ℕ) (socket : ℤ) : (s.connected r socket).Fit :=
  h.setEvent rfl rfl rfl

/-- The event of a thread that ends is disposed of, from whichever lists. -/
theorem Fit.threadEnds (h : s.Fit) (hr : r ∈ s.threads) :
    ((((s.endThread r).unlist r).doneExtendedEvent r).dispose r).Fit := by
  have hpos : 0 < (s.counts r).threads := count_pos_iff.mpr hr
  have hlt := h.lt_of_pos (r := r) (by omega)
  obtain ⟨honce, hgone, hholders, hservice, hrequest, hrunning, hextended, hkept, hcancelled⟩ :=
    (h.fits r hlt).counts
  refine h.ended hlt rfl rfl (fun q hq => by simp [hq]) ?_
  ext <;> simp <;> omega

/-- What is in no list is disposed of. -/
theorem Fit.threadDeletes (h : s.Fit) (hr : r ∈ s.threads)
    (hrunning : r ∉ s.m_lxRunningEvents) : ((s.endThread r).dispose r).Fit := by
  have hpos : 0 < (s.counts r).threads := count_pos_iff.mpr hr
  have hnone : (s.counts r).running = 0 := count_eq_zero.mpr hrunning
  have hlt := h.lt_of_pos (r := r) (by omega)
  obtain ⟨honce, hgone, hholders, hservice, hrequest, hrunning, hextended, hkept, hcancelled⟩ :=
    (h.fits r hlt).counts
  refine h.ended hlt rfl rfl (fun q hq => by simp [hq]) ?_
  ext <;> simp <;> omega

/-- What a thread sends that is not waited for needs no acknowledgement. -/
theorem Fit.noAck_of_thread (h : s.Fit) (hr : r ∈ s.threads)
    (hrunning : r ∉ s.m_lxRunningEvents) : (s.events r).m_NoAck = true := by
  have hpos : 0 < (s.counts r).threads := count_pos_iff.mpr hr
  have hnone : (s.counts r).running = 0 := count_eq_zero.mpr hrunning
  have hlt := h.lt_of_pos (r := r) (by omega)
  obtain ⟨honce, hgone, hholders, hservice, hrequest, hrunning, hextended, hkept, hcancelled⟩ :=
    (h.fits r hlt).counts
  have hflag : (s.events r).m_NoAck.toNat = 1 := by omega
  exact Bool.toNat_eq_one.mp hflag

/-- The thread has nothing to do any more with an event that is waited for. -/
theorem Fit.threadLeaves (h : s.Fit) (hr : r ∈ s.threads)
    (hnoAck : (s.events r).m_NoAck = true → r ∈ s.m_lxRunningEvents) : (s.endThread r).Fit := by
  have hpos : 0 < (s.counts r).threads := count_pos_iff.mpr hr
  have hlt := h.lt_of_pos (r := r) (by omega)
  obtain ⟨honce, hgone, hholders, hservice, hrequest, hrunning, hextended, hkept, hcancelled⟩ :=
    (h.fits r hlt).counts
  have hone : (s.events r).m_NoAck.toNat = 1 → 0 < (s.counts r).running := by
    intro hflag
    refine count_pos_iff.mpr (hnoAck ?_)
    cases hb : (s.events r).m_NoAck with
    | true => rfl
    | false =>
      rw [hb] at hflag
      exact absurd hflag (by decide)
  refine h.move rfl rfl (fun q hq => by simp [hq]) hlt ?_ (by simp)
  generalize (s.events r).m_NoAck.toNat = n at hkept hone ⊢
  generalize (s.events r).m_bCancelled.toNat = c at hkept hcancelled ⊢
  constructor <;> simp <;> omega

/-- What the end of a thread has to meet: the event ends in `ProcessDoneEvent`. -/
def ThreadOk (s : EventStore) (r : ℕ) (sent : Bool) : Prop :=
  r ∈ s.m_lxRunningEvents →
    if sent then (s.events r).m_NoAck = true → ((s.events r).disposal .acked).Ends
    else ((s.events r).disposal .error).Ends

theorem Fit.threadDone (h : s.Fit) {sent : Bool} (hr : r ∈ s.threads)
    (hok : s.ThreadOk r sent) : (s.threadDone r sent).Fit := by
  have hlt : r < s.next := h.lt_of_pos (r := r) (by
    have hpos : 0 < (s.counts r).threads := count_pos_iff.mpr hr
    omega)
  have hrunning : r ∈ (s.endThread r).m_lxRunningEvents ↔ r ∈ s.m_lxRunningEvents := Iff.rfl
  have hextended : ∀ res, ((s.events r).disposal res).Ends →
      (((s.endThread r).unlist r).doneExtendedEvent r).processDoneEvent r res
        = (((s.endThread r).unlist r).doneExtendedEvent r).dispose r :=
    fun res hends => processDoneEvent_of_ends _ _ hends
  rw [EventStore.threadDone, events_endThread]
  simp only [hrunning, EventStore.finish]
  by_cases hrun : r ∈ s.m_lxRunningEvents
  · have hok := hok hrun
    have hends := h.threadEnds hr
    rw [if_pos hrun, if_pos hrun, if_pos hrun]
    cases sent with
    | true =>
      by_cases hnoAck : (s.events r).m_NoAck = true
      · have hindirect : ¬(s.events r).flagDirect = true := by
          intro hdirect
          rw [((h.fits r hlt).direct hdirect).1] at hnoAck
          cases hnoAck
        rw [if_neg hindirect, if_pos rfl, if_pos hnoAck, hextended _ (hok hnoAck)]
        exact hends
      · have hleaves := h.threadLeaves hr fun _ => hrun
        rw [if_pos rfl, if_pos rfl, if_neg hnoAck, ite_self]
        exact hleaves
    | false =>
      rw [if_neg Bool.false_ne_true, if_neg Bool.false_ne_true, hextended _ hok]
      by_cases hdirect : (s.events r).flagDirect = true
      · have hsame : (((s.endThread r).unlist r).doneExtendedEvent r).dispose r
            = ((s.endThread r).unlist r).processDoneEvent r .error := by
          have hnone : r ∉ s.m_lxExtendedEvents :=
            count_eq_zero.mp ((h.fits r hlt).direct hdirect).2
          rw [processDoneEvent_of_ends ((s.endThread r).unlist r) r hok, doneExtendedEvent,
            erase_of_not_mem (show r ∉ ((s.endThread r).unlist r).m_lxExtendedEvents from hnone)]
        rw [if_pos hdirect, ← hsame]
        exact hends
      · rw [if_neg hdirect]
        exact hends
  · have hdeletes := h.threadDeletes hr hrun
    rw [if_neg hrun, if_neg hrun, if_neg hrun]
    cases sent with
    | true =>
      have hnoAck := h.noAck_of_thread hr hrun
      have hindirect : ¬(s.events r).flagDirect = true := by
        intro hdirect
        rw [((h.fits r hlt).direct hdirect).1] at hnoAck
        cases hnoAck
      rw [if_neg hindirect, if_pos rfl, if_pos hnoAck]
      exact hdeletes
    | false =>
      rw [if_neg Bool.false_ne_true, if_neg Bool.false_ne_true, ite_self]
      exact hdeletes

/-! ## The service -/

/-- The next event of the service is not there any more. -/
theorem Fit.shifted (h : s.Fit) (hqueue : s.mySendQueue = r :: rest) :
    r < s.next ∧ (s.events r).m_bCancelled = false ∧ s.shiftService.counts r
      = ⟨0, (s.counts r).running, 0, 0, 0, 0⟩ ∧
      ((s.events r).m_NoAck = false → (s.counts r).running = 1) ∧
      ((s.events r).m_NoAck = true → (s.counts r).running = 0) := by
  have hpos : 0 < (s.counts r).service := by
    rw [counts, hqueue, count_cons_self]
    exact Nat.succ_pos _
  have hlt := h.lt_of_pos (r := r) (by omega)
  obtain ⟨honce, hgone, hholders, hservice, hrequest, hrunning, hextended, hkept, hcancelled⟩ :=
    (h.fits r hlt).counts
  refine ⟨hlt, ?_, ?_, fun hnoAck => ?_, fun hnoAck => ?_⟩
  · cases hc : (s.events r).m_bCancelled with
    | false => rfl
    | true =>
      rw [hc] at hcancelled
      have := hcancelled rfl
      omega
  · rw [counts_shiftService s r r hqueue]
    ext <;> simp <;> omega
  · rw [hnoAck, Bool.toNat_false] at hkept
    omega
  · rw [hnoAck, Bool.toNat_true] at hrequest
    omega

/-- The event of the service is disposed of. -/
theorem Fit.shiftEnds (h : s.Fit) (hqueue : s.mySendQueue = r :: rest) :
    ((s.shiftService.unlist r).dispose r).Fit := by
  obtain ⟨hlt, -, hcounts, -⟩ := h.shifted hqueue
  obtain ⟨-, -, -, -, -, hrunning, -⟩ := (h.fits r hlt).counts
  refine h.ended hlt rfl rfl (fun q hq => by simp [counts_shiftService s r q hqueue, hq]) ?_
  simp [hcounts, hrunning]

theorem Fit.shiftDeletes (h : s.Fit) (hqueue : s.mySendQueue = r :: rest)
    (hrunning : r ∉ s.m_lxRunningEvents) : (s.shiftService.dispose r).Fit := by
  obtain ⟨hlt, -, hcounts, -⟩ := h.shifted hqueue
  have hnone : (s.counts r).running = 0 := count_eq_zero.mpr hrunning
  refine h.ended hlt rfl rfl (fun q hq => by simp [counts_shiftService s r q hqueue, hq]) ?_
  simp [hcounts, hnone]

/-- The event of the service goes on being waited for. -/
theorem Fit.shiftLeaves (h : s.Fit) (hqueue : s.mySendQueue = r :: rest)
    (hnoAck : (s.events r).m_NoAck = false) : s.shiftService.Fit := by
  obtain ⟨hlt, hcancelled, hcounts, hrunning, -⟩ := h.shifted hqueue
  refine h.move rfl rfl (fun q hq => by simp [counts_shiftService s r q hqueue, hq]) hlt ?_
    (by rw [hcounts]; exact Nat.zero_le _)
  rw [hcounts, hrunning hnoAck, hcancelled]
  exact Counts.fits_running _ (Nat.zero_le _) (Nat.zero_le _)

theorem Fit.shiftFinish (h : s.Fit) (hqueue : s.mySendQueue = r :: rest)
    (hends : r ∈ s.m_lxRunningEvents → ((s.events r).disposal .error).Ends) :
    (s.shiftService.finish r .error).Fit := by
  rw [finish]
  split
  · rename_i hrunning
    rw [processDoneEvent_of_ends (s.shiftService.unlist r) r (hends hrunning)]
    exact h.shiftEnds hqueue
  · rename_i hrunning
    exact h.shiftDeletes hqueue hrunning

/-- What the next event of the service has to meet: where it is not sent, it ends in
`ProcessDoneEvent`, and if the packet is the cause it is one that is waited for. -/
def ServiceOk (s : EventStore) (outcome : ServiceOutcome) : Prop :=
  ∀ r rest, s.mySendQueue = r :: rest →
    match outcome with
    | .failed => r ∈ s.m_lxRunningEvents → ((s.events r).disposal .error).Ends
    | .sent .. => True
    | .notSent => (s.events r).m_NoAck = false ∧ ((s.events r).disposal .error).Ends

theorem Fit.serviceNext (h : s.Fit) {outcome : ServiceOutcome} (hok : s.ServiceOk outcome) :
    (s.serviceNext outcome).Fit := by
  rw [EventStore.serviceNext]
  split
  · exact h
  · rename_i r rest hqueue
    have hok := hok r rest hqueue
    have hlive : ¬((s.shiftService.events r).m_bCancelled = true) := by
      rw [events_shiftService, (h.shifted hqueue).2.1]
      exact Bool.false_ne_true
    rw [if_neg hlive]
    cases outcome with
    | failed => exact h.shiftFinish hqueue hok
    | sent m_nSequence m_nSubSequence m_nSNAC =>
      dsimp only
      split
      · rename_i hnoAck
        have hrunning : r ∉ s.m_lxRunningEvents :=
          count_eq_zero.mp ((h.shifted hqueue).2.2.2.2 hnoAck)
        exact (h.shiftDeletes hqueue hrunning).setEvent rfl rfl rfl
      · rename_i hnoAck
        exact (h.shiftLeaves hqueue (Bool.not_eq_true _ |>.mp hnoAck)).setEvent rfl rfl rfl
    | notSent =>
      dsimp only
      rw [if_neg (show ¬(s.shiftService.events r).m_NoAck = true by
        rw [events_shiftService, hok.1]; exact Bool.false_ne_true)]
      exact h.shiftFinish hqueue fun _ => hok.2

/-! ## Answers -/

theorem doneExtendedEvent_of_notMem (h : r ∉ s.m_lxExtendedEvents) : s.doneExtendedEvent r = s := by
  rw [doneExtendedEvent, erase_of_not_mem h]

/-- An event that nobody else has is disposed of. -/
theorem Fit.runningEnds (h : s.Fit) (hr : r ∈ s.m_lxRunningEvents)
    (hsend : r ∉ s.m_lxSendQueue_Server) (hservice : r ∉ s.mySendQueue) :
    (((s.unlist r).doneExtendedEvent r).dispose r).Fit := by
  have hpos : 0 < (s.counts r).running := count_pos_iff.mpr hr
  have hsendZero : (s.counts r).send = 0 := count_eq_zero.mpr hsend
  have hserviceZero : (s.counts r).service = 0 := count_eq_zero.mpr hservice
  have hlt := h.lt_of_pos (r := r) (by omega)
  obtain ⟨honce, hgone, hholders, hservice, hrequest, hrunning, hextended, hkept, hcancelled⟩ :=
    (h.fits r hlt).counts
  refine h.ended hlt rfl rfl (fun q hq => by simp [hq]) ?_
  ext <;> simp <;> omega

/-- What is in the running list alone is disposed of. -/
theorem Fit.runningDeletes (h : s.Fit) (hr : r ∈ s.m_lxRunningEvents)
    (hsend : r ∉ s.m_lxSendQueue_Server) (hservice : r ∉ s.mySendQueue)
    (hextended : r ∉ s.m_lxExtendedEvents) : ((s.unlist r).dispose r).Fit := by
  have hends := h.runningEnds hr hsend hservice
  rwa [doneExtendedEvent_of_notMem (s := s.unlist r) hextended] at hends

/-- What an answer has to meet: the event that it is for has been sent, its answer has one part, and
something is done with it. -/
def AnswerOk (s : EventStore) (key : EventKey) (m_eResult : ResultType) (after : AnswerEnd) : Prop :=
  ∀ r, s.running? key = some r →
    r ∉ s.m_lxSendQueue_Server ∧ r ∉ s.mySendQueue ∧ r ∉ s.m_lxExtendedEvents ∧
      match after with
      | .process => ((s.events r).disposal m_eResult).Ends
      | .delete => True
      | .nothing => False

theorem Fit.answer (h : s.Fit) {key : EventKey} {m_eResult : ResultType} {after : AnswerEnd}
    (hok : s.AnswerOk key m_eResult after) : (s.answer key m_eResult after).Fit := by
  rw [EventStore.answer]
  split
  · exact h
  · rename_i r hfound
    obtain ⟨hsend, hservice, hextended, hafter⟩ := hok r hfound
    have hr : r ∈ s.m_lxRunningEvents := mem_of_find?_eq_some hfound
    have hdeleted := h.runningDeletes hr hsend hservice hextended
    cases after with
    | process => exact processDoneEvent_of_ends (s.unlist r) r hafter ▸ hdeleted
    | delete => exact hdeleted
    | nothing => exact hafter.elim

/-- A copy of an event goes to the plugins. -/
theorem Fit.pushCopy (h : s.Fit) (r : ℕ) : (s.pushCopy r).Fit := by
  refine h.arrive (e := { s.events r with icqChannel := none, m_NoAck := false })
    (c := ⟨0, 0, 0, 0, 0, 1⟩) rfl rfl (fun q hq => ?_) ?_ (Counts.fits_disposed _ _)
    fun _ => ⟨rfl, rfl⟩
  · simp [EventStore.pushCopy, hq]
  · simp [EventStore.pushCopy, h.free s.next (Nat.le_refl _)]

/-- An event leaves the extended list and comes back. -/
theorem Fit.extendedAgain (h : s.Fit) (hr : r ∈ s.m_lxExtendedEvents) :
    ((s.doneExtendedEvent r).pushExtendedEvent r).Fit := by
  have hpos : 0 < (s.counts r).extended := count_pos_iff.mpr hr
  have hlt := h.lt_of_pos (r := r) (by omega)
  have hsame : ((s.doneExtendedEvent r).pushExtendedEvent r).counts r = s.counts r := by
    ext <;> simp
    omega
  refine h.move rfl rfl (fun q hq => by simp [hq]) hlt ?_ (Nat.le_of_eq (by rw [hsame]))
  rw [hsame]
  exact (h.fits r hlt).counts

/-- What an answer in parts has to meet: a part is for an event that is there or is left alone; with
the last one the event ends in `ProcessDoneEvent`. -/
def ExtendedOk (s : EventStore) (nSubSequence : UInt16) (reply : ExtendedAnswer) : Prop :=
  match reply with
  | .infoPart | .searchPart => True
  | .infoLast m_eResult => ∀ r, s.extended? nSubSequence = some r →
    r ∉ s.m_lxSendQueue_Server ∧ ((s.events r).disposal m_eResult).Ends
  | .searchLast | .rights => s.extended? nSubSequence = none
  | .searchNone => False

theorem Fit.extendedAnswer (h : s.Fit) {nSubSequence : UInt16} {reply : ExtendedAnswer}
    (hok : s.ExtendedOk nSubSequence reply) : (s.extendedAnswer nSubSequence reply).Fit := by
  unfold EventStore.extendedAnswer
  cases hfound : s.extended? nSubSequence with
  | none =>
    cases reply with
    | searchNone => exact hok.elim
    | infoPart => exact h
    | infoLast m_eResult => exact h
    | searchPart => exact h
    | searchLast => exact h
    | rights => exact h
  | some r =>
    have hr : r ∈ s.m_lxExtendedEvents := mem_of_find?_eq_some hfound
    cases reply with
    | infoPart => exact h.extendedAgain hr
    | searchPart =>
      exact (h.pushCopy r).extendedAgain hr
    | infoLast m_eResult =>
      obtain ⟨hsend, hends⟩ := hok r hfound
      have hpos : 0 < (s.counts r).extended := count_pos_iff.mpr hr
      have hfits := (h.fits r (h.lt_of_pos (r := r) (by omega))).counts
      have hrunning : 0 < (s.counts r).running := Nat.lt_of_lt_of_le hpos hfits.extended
      have hservice : (s.counts r).service = 0 := by
        have := hfits.service
        omega
      have hended := h.runningEnds (count_pos_iff.mp hrunning) hsend
        (count_eq_zero.mp hservice)
      have hdone : ((s.doneExtendedEvent r).unlist r).processDoneEvent r m_eResult
          = ((s.unlist r).doneExtendedEvent r).dispose r :=
        processDoneEvent_of_ends ((s.doneExtendedEvent r).unlist r) r hends
      exact show (((s.doneExtendedEvent r).unlist r).processDoneEvent r m_eResult).Fit from
        hdone ▸ hended
    | searchLast => exact absurd (hfound.symm.trans hok) (some_ne_none r)
    | searchNone => exact hok.elim
    | rights => exact absurd (hfound.symm.trans hok) (some_ne_none r)

/-! ## Cancellation -/

/-- A round of `FailEvents` has to find an event that has been sent, and one that is in the extended
list not to be disposed of. -/
def FailOk (s : EventStore) (r : ℕ) (reset : Bool) : Prop :=
  r ∉ s.m_lxSendQueue_Server ∧ r ∉ s.mySendQueue ∧
    (reset = false → r ∉ s.m_lxExtendedEvents ∧ ((s.events r).disposal .error).Ends)

theorem Fit.failEvent (h : s.Fit) {reset : Bool} (hr : r ∈ s.m_lxRunningEvents)
    (hok : s.FailOk r reset) : (s.failEvent r reset).Fit := by
  obtain ⟨hsend, hservice, hdone⟩ := hok
  cases reset with
  | false =>
    obtain ⟨hextended, hends⟩ := hdone rfl
    have ht : s.failEvent r false = (s.unlist r).dispose r :=
      processDoneEvent_of_ends (s.unlist r) r hends
    rw [ht]
    exact h.runningDeletes hr hsend hservice hextended
  | true =>
    have hpos : 0 < (s.counts r).running := count_pos_iff.mpr hr
    have hsendZero : (s.counts r).send = 0 := count_eq_zero.mpr hsend
    have hserviceZero : (s.counts r).service = 0 := count_eq_zero.mpr hservice
    have hlt := h.lt_of_pos (r := r) (by omega)
    obtain ⟨honce, hgone, hholders, hservice, hrequest, hrunning, hextended, hkept, hcancelled⟩ :=
      (h.fits r hlt).counts
    have hflag : (s.events r).m_bCancelled = false := by
      cases hc : (s.events r).m_bCancelled with
      | false => rfl
      | true =>
        rw [hc] at hcancelled
        have := hcancelled rfl
        omega
    have hcounts : (((s.unlist r).pushEvent r).startThread r).counts r
        = ⟨0, 1, (s.counts r).extended, 0, 1, 0⟩ := by
      ext <;> simp <;> omega
    have hagain : (((s.unlist r).pushEvent r).startThread r).Fit := by
      refine h.move rfl rfl (fun q hq => by simp [hq]) hlt ?_ (Nat.le_of_eq (by rw [hcounts]))
      rw [hcounts, hflag]
      exact Counts.fits_running _ (by omega) (Nat.le_refl _)
    exact hagain.connected r (-1)

/-- `CancelEvent` has to find the same event in every list, and it has to end in
`ProcessDoneEvent`. -/
def CancelOk (s : EventStore) (t : ℕ) : Prop :=
  match s.byId? t s.m_lxRunningEvents with
  | some r => r ∉ s.mySendQueue ∧ ((s.events r).disposal .cancelled).Ends ∧
    (∀ q, s.byId? t s.m_lxSendQueue_Server = some q → q = r) ∧
    ∀ q, s.byId? t s.m_lxExtendedEvents = some q → q = r
  | none => ∀ r, s.byId? t s.m_lxSendQueue_Server = some r →
    ((s.events r).disposal .cancelled).Ends

/-- `CancelEvent` looks for an event that is in none of the lists. -/
theorem byId?_eq_none_of {t : ℕ} {queue : List ℕ} (h : s.byId? t queue = none)
    (hr : (s.events r).m_nEventId = t % 2 ^ 16) : r ∉ queue := by
  intro hmem
  have := find?_eq_none.mp h r hmem
  simp [hr] at this

/-- An event that is running and in the send queue is disposed of, and a cancelled copy takes its
place. -/
theorem Fit.runningReplaced (h : s.Fit) (hr : r ∈ s.m_lxRunningEvents)
    (hsend : r ∈ s.m_lxSendQueue_Server) :
    ((((s.replaceCancelled r).unlist r).doneExtendedEvent r).dispose r).Fit := by
  have hpos : 0 < (s.counts r).running := count_pos_iff.mpr hr
  have hsendPos : 0 < (s.counts r).send := count_pos_iff.mpr hsend
  have hlt := h.lt_of_pos (r := r) (by omega)
  obtain ⟨honce, hgone, hholders, hservice, hrequest, hrunning, hextended, hkept, hcancelled⟩ :=
    (h.fits r hlt).counts
  have hne : r ≠ s.next := Nat.ne_of_lt hlt
  refine h.replaced (r := r) rfl rfl (fun q hq hqnew => by simp [hq, hqnew]) hlt ?_ ?_
  · ext <;> simp [hne] <;> omega
  · simp [h.free s.next (Nat.le_refl _), hne.symm]

/-- An event of the send queue alone is disposed of in the same way. -/
theorem Fit.sendReplaced (h : s.Fit) (hsend : r ∈ s.m_lxSendQueue_Server)
    (hr : r ∉ s.m_lxRunningEvents) : ((s.replaceCancelled r).dispose r).Fit := by
  have hzero : (s.counts r).running = 0 := count_eq_zero.mpr hr
  have hsendPos : 0 < (s.counts r).send := count_pos_iff.mpr hsend
  have hlt := h.lt_of_pos (r := r) (by omega)
  obtain ⟨honce, hgone, hholders, hservice, hrequest, hrunning, hextended, hkept, hcancelled⟩ :=
    (h.fits r hlt).counts
  have hne : r ≠ s.next := Nat.ne_of_lt hlt
  refine h.replaced (r := r) rfl rfl (fun q hq hqnew => by simp [hq, hqnew]) hlt ?_ ?_
  · ext <;> simp [hne] <;> omega
  · simp [h.free s.next (Nat.le_refl _), hne.symm]

theorem Fit.cancelEvent (h : s.Fit) {t : ℕ} (hok : s.CancelOk t) : (s.cancelEvent t).Fit := by
  rw [CancelOk] at hok
  cases hrun : s.byId? t s.m_lxRunningEvents with
  | some r =>
    rw [hrun] at hok
    obtain ⟨hservice, hends, hsrv, hext⟩ := hok
    have hid : (s.events r).m_nEventId = t % 2 ^ 16 := by
      simpa using find?_some hrun
    have hr : r ∈ s.m_lxRunningEvents := mem_of_find?_eq_some hrun
    have hlt : r < s.next := h.lt_of_pos (r := r) (by
      have hpos : 0 < (s.counts r).running := count_pos_iff.mpr hr
      omega)
    have hends' : ((((s.replaceCancelled r).unlist r).doneExtendedEvent r).events r).disposal
        .cancelled = (s.events r).disposal .cancelled :=
      congrArg (IcqEvent.disposal · _) (alloc_events_of_lt s _ hlt)
    -- It is in none of the lists afterwards, also where it was not found in one.
    have hunextended : s.byId? t s.m_lxExtendedEvents = none →
        ((s.replaceCancelled r).unlist r).doneExtendedEvent r = (s.replaceCancelled r).unlist r ∧
        (s.unlist r).doneExtendedEvent r = s.unlist r := fun hfound =>
      have hnot := byId?_eq_none_of hfound hid
      ⟨doneExtendedEvent_of_notMem hnot, doneExtendedEvent_of_notMem hnot⟩
    have hcancelled : s.cancelEvent t = if s.byId? t s.m_lxSendQueue_Server = none
        then ((s.unlist r).doneExtendedEvent r).processDoneEvent r .cancelled
        else (((s.replaceCancelled r).unlist r).doneExtendedEvent r).processDoneEvent r
          .cancelled := by
      cases hsendq : s.byId? t s.m_lxSendQueue_Server with
      | none =>
        cases hextq : s.byId? t s.m_lxExtendedEvents with
        | none => simp only [EventStore.cancelEvent, hrun, hsendq, hextq, some_or, if_true,
            (hunextended hextq).2]
        | some q => simp only [EventStore.cancelEvent, hrun, hsendq, hextq, some_or, if_true,
            hext q hextq]
      | some p =>
        cases hextq : s.byId? t s.m_lxExtendedEvents with
        | none => simp only [EventStore.cancelEvent, hrun, hsendq, hextq, some_or,
            hsrv p hsendq, (hunextended hextq).1, if_neg (some_ne_none _)]
        | some q => simp only [EventStore.cancelEvent, hrun, hsendq, hextq, some_or,
            hsrv p hsendq, hext q hextq, if_neg (some_ne_none _)]
    rw [hcancelled]
    split
    · rename_i hnone
      rw [processDoneEvent_of_ends ((s.unlist r).doneExtendedEvent r) r hends]
      exact h.runningEnds hr (byId?_eq_none_of hnone hid) hservice
    · rename_i hsome
      obtain ⟨p, hp⟩ := ne_none_iff_exists'.mp hsome
      rw [processDoneEvent_of_ends _ _ (hends' ▸ hends)]
      exact h.runningReplaced hr (hsrv p hp ▸ mem_of_find?_eq_some hp)
  | none =>
    rw [hrun] at hok
    have hextq : s.byId? t s.m_lxExtendedEvents = none := by
      rw [byId?, find?_eq_none]
      intro q hq hid
      have hpos : 0 < (s.counts q).extended := count_pos_iff.mpr hq
      have hfits := (h.fits q (h.lt_of_pos (r := q) (by omega))).counts
      have hrunning : 0 < (s.counts q).running := Nat.lt_of_lt_of_le hpos hfits.extended
      exact byId?_eq_none_of hrun (by simpa using hid) (count_pos_iff.mp hrunning)
    cases hsendq : s.byId? t s.m_lxSendQueue_Server with
    | none => simpa only [EventStore.cancelEvent, hrun, hextq, hsendq, Option.or_self] using h
    | some r =>
      have hid : (s.events r).m_nEventId = t % 2 ^ 16 := by
        simpa using find?_some hsendq
      have hr := mem_of_find?_eq_some hsendq
      have hlt : r < s.next := h.lt_of_pos (r := r) (by
        have hpos : 0 < (s.counts r).send := count_pos_iff.mpr hr
        omega)
      have hsame : ((s.replaceCancelled r).events r) = s.events r := alloc_events_of_lt s _ hlt
      have ht : s.cancelEvent t = (s.replaceCancelled r).dispose r := by
        simp only [EventStore.cancelEvent, hrun, hextq, hsendq, none_or]
        exact processDoneEvent_of_ends _ _ (hsame ▸ hok r hsendq)
      rw [ht]
      exact h.sendReplaced hr (byId?_eq_none_of hrun hid)

/-- `ClearQueue` has to find one event at most, and one that is not waited for. -/
def ClearOk (s : EventStore) : Prop :=
  match s.mySendQueue with
  | [] => True
  | [r] => r ∉ s.m_lxRunningEvents
  | _ :: _ :: _ => False

theorem Fit.clearQueue (h : s.Fit) (hok : s.ClearOk) : s.clearQueue.Fit := by
  unfold EventStore.clearQueue
  rw [ClearOk] at hok
  split
  · exact h
  · rename_i r hqueue
    rw [hqueue] at hok
    exact h.shiftDeletes hqueue hok
  · rename_i r rest hmore hqueue
    rw [hqueue] at hok
    cases rest with
    | nil => exact absurd rfl hmore
    | cons q rest => exact hok.elim

/-! ## Logoff -/

theorem Fit.count_le_one (h : s.Fit) (r : ℕ) :
    (s.counts r).send ≤ 1 ∧ (s.counts r).running ≤ 1 ∧ (s.counts r).extended ≤ 1 := by
  by_cases hr : r < s.next
  · have hfits := (h.fits r hr).counts
    have hholders := hfits.holders
    have hrunning := hfits.running
    have hextended := hfits.extended
    omega
  · rw [h.free r (Nat.le_of_not_lt hr)]
    exact ⟨Nat.zero_le _, Nat.zero_le _, Nat.zero_le _⟩

/-- What has changed when cancelled copies have taken the places of some events in the send queue. -/
structure Replaced (s : EventStore) (queue : List ℕ) (t : EventStore) : Prop where
  next : s.next ≤ t.next
  events : ∀ q < s.next, t.events q = s.events q
  send : ∀ q < s.next, (t.counts q).send = (s.counts q).send - queue.count q
  running : t.m_lxRunningEvents = s.m_lxRunningEvents
  extended : t.m_lxExtendedEvents = s.m_lxExtendedEvents
  service : t.mySendQueue = s.mySendQueue
  fault : t.fault = s.fault

/-- The copy of an event that is waited for. -/
theorem Fit.replaceCancelled (h : s.Fit) (hsend : r ∈ s.m_lxSendQueue_Server)
    (hr : r ∈ s.m_lxRunningEvents) : (s.replaceCancelled r).Fit := by
  have hpos : 0 < (s.counts r).running := count_pos_iff.mpr hr
  have hsendPos : 0 < (s.counts r).send := count_pos_iff.mpr hsend
  have hlt := h.lt_of_pos (r := r) (by omega)
  have hne : r ≠ s.next := Nat.ne_of_lt hlt
  obtain ⟨honce, hgone, hholders, hservice, hrequest, hrunning, hextended, hkept, hcancelled⟩ :=
    (h.fits r hlt).counts
  refine h.replaces (r := r) rfl rfl (fun q hq hqnew => by simp [hq, hqnew]) hlt ?_ (by simp) ?_
  · generalize (s.events r).m_NoAck.toNat = n at hkept hrequest ⊢
    generalize (s.events r).m_bCancelled.toNat = c at hkept hcancelled ⊢
    constructor <;> simp [hne] <;> omega
  · simp [h.free s.next (Nat.le_refl _), hne.symm]

/-- The copies of all events of the send queue, by induction on the queue. -/
theorem Fit.replaceAll {queue : List ℕ} (h : s.Fit) (hnodup : queue.Nodup)
    (hqueue : ∀ r ∈ queue, r ∈ s.m_lxSendQueue_Server ∧ r ∈ s.m_lxRunningEvents) :
    (queue.foldl EventStore.replaceCancelled s).Fit ∧
      Replaced s queue (queue.foldl EventStore.replaceCancelled s) := by
  induction queue generalizing s with
  | nil => exact ⟨h, Nat.le_refl _, fun _ _ => rfl, fun _ _ => rfl, rfl, rfl, rfl, rfl⟩
  | cons r queue ih =>
    obtain ⟨hsend, hr⟩ := hqueue r mem_cons_self
    obtain ⟨hnotMem, hnodup⟩ := nodup_cons.mp hnodup
    have hrest : ∀ q ∈ queue, q ∈ (s.replaceCancelled r).m_lxSendQueue_Server ∧
        q ∈ (s.replaceCancelled r).m_lxRunningEvents := by
      intro q hq
      obtain ⟨hqsend, hqrun⟩ := hqueue q (mem_cons_of_mem _ hq)
      have hne : q ≠ r := fun heq => hnotMem (heq ▸ hq)
      exact ⟨mem_append_left _ ((mem_erase_of_ne hne).mpr hqsend), hqrun⟩
    obtain ⟨hfit, ht⟩ := ih (h.replaceCancelled hsend hr) hnodup hrest
    refine ⟨hfit, Nat.le_of_succ_le ht.next, fun q hq => ?_, fun q hq => ?_, ht.running,
      ht.extended, ht.service, ht.fault⟩
    · exact (ht.events q (Nat.lt_succ_of_lt hq)).trans (alloc_events_of_lt s _ hq)
    · have hcounts := ht.send q (Nat.lt_succ_of_lt hq)
      rw [counts_replaceCancelled, if_neg (Nat.ne_of_lt hq)] at hcounts
      rw [foldl_cons, hcounts, count_cons]
      by_cases hqr : q = r
      · simp only [hqr, if_true, beq_self_eq_true]
        omega
      · simp only [if_neg hqr, beq_iff_eq, if_neg (Ne.symm hqr)]
        omega

/-- The events of the connection are cancelled, by induction on the list of them. -/
theorem Fit.cancelAll {running : List ℕ} (h : s.Fit) (hnodup : running.Nodup)
    (hrunning : ∀ r ∈ running, r ∈ s.m_lxRunningEvents ∧ r ∉ s.m_lxSendQueue_Server ∧
      r ∉ s.mySendQueue ∧ ((s.events r).disposal .cancelled).Ends) :
    (running.foldl cancelRunning s).Fit ∧
      (∀ q, ((running.foldl cancelRunning s).counts q).extended
        = (s.counts q).extended - running.count q) ∧
      (running.foldl cancelRunning s).fault = s.fault := by
  induction running generalizing s with
  | nil => exact ⟨h, fun _ => rfl, rfl⟩
  | cons r running ih =>
    obtain ⟨hr, hsend, hservice, hends⟩ := hrunning r mem_cons_self
    obtain ⟨hnotMem, hnodup⟩ := nodup_cons.mp hnodup
    have ht : s.cancelRunning r = ((s.unlist r).doneExtendedEvent r).dispose r :=
      processDoneEvent_of_ends ((s.unlist r).doneExtendedEvent r) r hends
    have hrest : ∀ q ∈ running, q ∈ (s.cancelRunning r).m_lxRunningEvents ∧
        q ∉ (s.cancelRunning r).m_lxSendQueue_Server ∧ q ∉ (s.cancelRunning r).mySendQueue ∧
        (((s.cancelRunning r).events q).disposal .cancelled).Ends := by
      intro q hq
      obtain ⟨hqrun, hqsend, hqservice, hqends⟩ := hrunning q (mem_cons_of_mem _ hq)
      have hne : q ≠ r := fun heq => hnotMem (heq ▸ hq)
      rw [ht]
      exact ⟨(mem_erase_of_ne hne).mpr hqrun, hqsend, hqservice, hqends⟩
    obtain ⟨hfit, hextended, hfault⟩ := ih (ht ▸ h.runningEnds hr hsend hservice) hnodup hrest
    refine ⟨hfit, fun q => ?_, by rw [foldl_cons, hfault, ht]; rfl⟩
    rw [foldl_cons, hextended q, ht, count_cons]
    by_cases hqr : q = r
    · simp only [hqr, counts_dispose, counts_doneExtendedEvent, counts_unlist, if_true,
        beq_self_eq_true]
      omega
    · simp only [hqr, counts_dispose, counts_doneExtendedEvent, counts_unlist, if_false,
        beq_iff_eq, if_neg (Ne.symm hqr)]
      omega

/-- A logoff has to find events in the send queue that are waited for, in the extended list events
of the connection, and all those of the connection are to end in `ProcessDoneEvent`. -/
structure LogoffOk (s : EventStore) (nSD : ℤ) (bartConnected : Bool) : Prop where
  service : bartConnected = true → s.ClearOk
  send : ∀ r ∈ s.m_lxSendQueue_Server, r ∈ s.m_lxRunningEvents
  extended : ∀ r ∈ s.m_lxExtendedEvents, s.OfConnection nSD r
  running : ∀ r ∈ s.m_lxRunningEvents, s.OfConnection nSD r →
    r ∉ s.mySendQueue ∧ ((s.events r).disposal .cancelled).Ends

/-- What the queue of the service is cleared of stands there alone. -/
theorem clearQueue_eq (hok : s.ClearOk) :
    s.clearQueue = s ∨ ∃ r, s.clearQueue = s.shiftService.dispose r := by
  rw [ClearOk] at hok
  unfold clearQueue
  split
  · exact .inl rfl
  · rename_i r hqueue
    exact .inr ⟨r, rfl⟩
  · rename_i r rest hmore hqueue
    rw [hqueue] at hok
    cases rest with
    | nil => exact absurd rfl hmore
    | cons q rest => exact hok.elim

/-- A logoff after the queue of the service has been cleared. -/
theorem LogoffOk.cleared (hok : s.LogoffOk nSD true) :
    s.clearQueue.LogoffOk nSD false ∧ s.clearQueue.fault = s.fault := by
  obtain heq | ⟨q, heq⟩ := clearQueue_eq (hok.service rfl)
  · rw [heq]
    exact ⟨⟨fun h => Bool.noConfusion h, hok.send, hok.extended, hok.running⟩, rfl⟩
  · rw [heq]
    refine ⟨⟨fun h => Bool.noConfusion h, hok.send, hok.extended, fun r hr hof => ?_⟩, rfl⟩
    obtain ⟨hservice, hends⟩ := hok.running r hr hof
    exact ⟨fun hmem => hservice (mem_of_mem_tail hmem), hends⟩

/-- A logoff without the service. -/
theorem Fit.logoff (h : s.Fit) (hok : s.LogoffOk nSD false)
    (cancelledEvent : Option IcqEvent) : (s.postLogoff nSD false cancelledEvent).Fit ∧
      (s.postLogoff nSD false cancelledEvent).fault = s.fault := by
  have hsendNodup : s.m_lxSendQueue_Server.Nodup :=
    nodup_iff_count_le_one.mpr fun r => (h.count_le_one r).1
  have hrunningNodup : s.m_lxRunningEvents.Nodup :=
    nodup_iff_count_le_one.mpr fun r => (h.count_le_one r).2.1
  obtain ⟨hfit, ht⟩ := h.replaceAll hsendNodup fun r hr => ⟨hr, hok.send r hr⟩
  generalize hu : s.m_lxSendQueue_Server.foldl EventStore.replaceCancelled s = u at hfit ht
  have hlt : ∀ r ∈ s.m_lxRunningEvents, r < s.next := fun r hr => h.lt_of_pos (r := r) (by
    have hpos : 0 < (s.counts r).running := count_pos_iff.mpr hr
    omega)
  have hof : ∀ r ∈ s.m_lxRunningEvents, (u.OfConnection nSD r ↔ s.OfConnection nSD r) := by
    intro r hr
    rw [OfConnection, OfConnection, ht.events r (hlt r hr)]
  -- The running events of the connection are in the send queue no more.
  have hcancelled : ∀ r ∈ u.m_lxRunningEvents.filter (u.OfConnection nSD ·),
      r ∈ u.m_lxRunningEvents ∧ r ∉ u.m_lxSendQueue_Server ∧ r ∉ u.mySendQueue ∧
        ((u.events r).disposal .cancelled).Ends := by
    intro r hr
    obtain ⟨hrun, hconnection⟩ := mem_filter.mp hr
    rw [ht.running] at hrun
    have hconnection := (hof r hrun).mp (of_decide_eq_true hconnection)
    obtain ⟨hservice, hends⟩ := hok.running r hrun hconnection
    have hsend : (u.counts r).send = 0 := by
      rw [ht.send r (hlt r hrun), counts, Nat.sub_self]
    refine ⟨ht.running ▸ hrun, count_eq_zero.mp hsend, ht.service ▸ hservice, ?_⟩
    rw [ht.events r (hlt r hrun)]
    exact hends
  obtain ⟨hfit, hextended, hfault⟩ := hfit.cancelAll
    (List.Nodup.filter _ (ht.running ▸ hrunningNodup)) hcancelled
  generalize hv : (u.m_lxRunningEvents.filter (u.OfConnection nSD ·)).foldl cancelRunning u = v
    at hfit hextended hfault
  have hempty : v.m_lxExtendedEvents = [] := by
    refine eq_nil_iff_forall_not_mem.mpr fun r hr => ?_
    have hpos : 0 < (v.counts r).extended := count_pos_iff.mpr hr
    have hsame : (u.counts r).extended = (s.counts r).extended :=
      congrArg (List.count r) ht.extended
    have hle := (h.count_le_one r).2.2
    have hmem : r ∈ s.m_lxExtendedEvents := count_pos_iff.mp (by
      have := hextended r
      rw [hsame] at this
      exact show 0 < (s.counts r).extended by omega)
    have hfits := (h.fits r (h.lt_of_pos (r := r) (by
      have : 0 < (s.counts r).extended := count_pos_iff.mpr hmem
      omega))).counts
    have hrun : r ∈ s.m_lxRunningEvents := count_pos_iff.mp
      (Nat.lt_of_lt_of_le (count_pos_iff.mpr hmem) hfits.extended)
    have hin : r ∈ u.m_lxRunningEvents.filter (u.OfConnection nSD ·) :=
      mem_filter.mpr ⟨ht.running ▸ hrun,
        decide_eq_true ((hof r hrun).mpr (hok.extended r hmem))⟩
    have hcount := count_pos_iff.mpr hin
    have := hextended r
    omega
  cases cancelledEvent with
  | none =>
    have hend : s.postLogoff nSD false none = v := by
      simp only [EventStore.postLogoff, Bool.false_eq_true, if_false, hu, hv, hempty, if_true]
    rw [hend, ← ht.fault, ← hfault]
    exact ⟨hfit, rfl⟩
  | some e =>
    have hend : s.postLogoff nSD false (some e) = (v.alloc { e with
        icqChannel := none, m_NoAck := false, m_bCancelled := true }).pushSend v.next := by
      simp only [EventStore.postLogoff, Bool.false_eq_true, if_false, hu, hv, hempty, if_true]
    rw [hend, ← ht.fault, ← hfault]
    refine ⟨hfit.arrive (e := { e with
      icqChannel := none, m_NoAck := false, m_bCancelled := true }) rfl rfl (fun q hq => ?_) ?_
      (Counts.fits_copy _) fun _ => ⟨rfl, rfl⟩, rfl⟩
    · simp [hq]
    · simp [hfit.free v.next (Nat.le_refl _)]

theorem Fit.postLogoff (h : s.Fit) {bartConnected : Bool}
    (hok : s.LogoffOk nSD bartConnected) (cancelledEvent : Option IcqEvent) :
    (s.postLogoff nSD bartConnected cancelledEvent).Fit ∧
      (s.postLogoff nSD bartConnected cancelledEvent).fault = s.fault := by
  cases bartConnected with
  | false => exact h.logoff hok cancelledEvent
  | true =>
    obtain ⟨hcleared, hfault⟩ := hok.cleared
    rw [← hfault]
    exact (h.clearQueue (hok.service rfl)).logoff hcleared cancelledEvent

/-! ## Runs -/

theorem fault_processDoneEvent (s : EventStore) (r : ℕ) (m_eResult : ResultType) :
    (s.processDoneEvent r m_eResult).fault = s.fault := by
  rw [processDoneEvent]
  split <;> rfl

theorem fault_finish (s : EventStore) (r : ℕ) (m_eResult : ResultType) :
    (s.finish r m_eResult).fault = s.fault := by
  rw [finish]
  split
  · exact fault_processDoneEvent (s.unlist r) r m_eResult
  · rfl

theorem fault_sendExpectEvent (s : EventStore) (e : IcqEvent) (bExtendedEvent started : Bool) :
    (s.sendExpectEvent e bExtendedEvent started).fault = s.fault := by
  cases started with
  | true => cases bExtendedEvent <;> rfl
  | false =>
    cases bExtendedEvent
    · exact fault_processDoneEvent (((((s.alloc _).pushEvent _).pushSend _).unlist _).replaceCancelled
        _) _ .error
    · exact fault_processDoneEvent ((((((s.alloc _).pushExtendedEvent _).pushEvent _).pushSend
        _).unlist _).replaceCancelled _) _ .error

theorem fault_threadDone (s : EventStore) (r : ℕ) (sent : Bool) :
    (s.threadDone r sent).fault = s.fault := by
  have hdone : ∀ res, ((((s.endThread r).unlist r).doneExtendedEvent r).processDoneEvent r
      res).fault = s.fault := fun res => fault_processDoneEvent _ r res
  have hfinish : ((s.endThread r).finish r .error).fault = s.fault :=
    fault_finish (s.endThread r) r .error
  rw [threadDone]
  split
  · split
    · rfl
    · exact hfinish
  · split
    · split
      · split
        · exact hdone .acked
        · rfl
      · rfl
    · split
      · exact hdone .error
      · rfl

theorem fault_serviceNext (s : EventStore) (outcome : ServiceOutcome) :
    (s.serviceNext outcome).fault = s.fault := by
  unfold serviceNext
  split
  · rfl
  · rename_i r rest hqueue
    have hfinish : (s.shiftService.finish r .error).fault = s.fault :=
      fault_finish s.shiftService r .error
    dsimp only
    split
    · rfl
    · cases outcome with
      | failed => exact hfinish
      | sent m_nSequence m_nSubSequence m_nSNAC =>
        dsimp only
        split <;> rfl
      | notSent =>
        dsimp only
        split <;> exact hfinish

theorem fault_answer (s : EventStore) (key : EventKey) (m_eResult : ResultType)
    (after : AnswerEnd) : (s.answer key m_eResult after).fault = s.fault := by
  rw [answer]
  split
  · rfl
  · rename_i r hfound
    cases after with
    | process => exact fault_processDoneEvent (s.unlist r) r m_eResult
    | delete => rfl
    | nothing => rfl

theorem fault_extendedAnswer {nSubSequence : UInt16} {reply : ExtendedAnswer}
    (hok : s.ExtendedOk nSubSequence reply) :
    (s.extendedAnswer nSubSequence reply).fault = s.fault := by
  unfold extendedAnswer
  cases reply with
  | searchNone => exact hok.elim
  | infoPart => split <;> rfl
  | searchPart => split <;> rfl
  | searchLast => split <;> rfl
  | infoLast m_eResult =>
    split
    · rfl
    · rename_i r hfound
      exact fault_processDoneEvent ((s.doneExtendedEvent r).unlist r) r m_eResult
  | rights =>
    split
    · rfl
    · rename_i r hfound
      exact fault_processDoneEvent (s.doneExtendedEvent r) r .success

theorem fault_cancelEvent (s : EventStore) (t : ℕ) : (s.cancelEvent t).fault = s.fault := by
  unfold cancelEvent
  dsimp only
  split <;> split <;> split <;> split <;>
    first
    | rfl
    | exact (fault_processDoneEvent _ _ _).trans rfl

theorem fault_failEvent (s : EventStore) (r : ℕ) (reset : Bool) :
    (s.failEvent r reset).fault = s.fault := by
  cases reset with
  | true => rfl
  | false => exact fault_processDoneEvent (s.unlist r) r .error

theorem fault_take (s : EventStore) (r : ℕ) : (s.take r).fault = s.fault := by
  rw [take]
  split <;> rfl

/-- The condition on a step, in the state before it. -/
def Action.Ok (s : EventStore) : Action → Prop
  | .sendExpectEvent e _ started =>
    started = false → ({ e with flagDirect := false }.disposal .error).Ends
  | .threadDone r sent => s.ThreadOk r sent
  | .serviceNext outcome => s.ServiceOk outcome
  | .answer key m_eResult after => s.AnswerOk key m_eResult after
  | .extendedAnswer nSubSequence reply => s.ExtendedOk nSubSequence reply
  | .cancelEvent t => s.CancelOk t
  | .failEvent r reset => s.FailOk r reset
  | .clearQueue => s.ClearOk
  | .postLogoff nSD bartConnected _ => s.LogoffOk nSD bartConnected
  | .sendEvent _ | .sendExpectEventClient .. | .sendService .. | .take _ | .connected .. => True

/-- What a step keeps. -/
def Inv (s : EventStore) : Prop := s.Fit ∧ s.fault = false

theorem Inv.step (h : s.Inv) {a : Action} (hok : a.Ok s) (hstep : s.step a = some t) : t.Inv := by
  obtain ⟨hfit, hfault⟩ := h
  cases a with
  | sendEvent e =>
    cases hstep
    exact ⟨hfit.sendEvent e, hfault⟩
  | sendExpectEvent e bExtendedEvent started =>
    cases hstep
    exact ⟨hfit.sendExpectEvent hok, (fault_sendExpectEvent s e _ _).trans hfault⟩
  | sendExpectEventClient e started =>
    cases hstep
    refine ⟨hfit.sendExpectEventClient e started, ?_⟩
    cases started with
    | true => exact hfault
    | false => exact (fault_processDoneEvent (((s.alloc _).pushEvent _).unlist _) _ _).trans hfault
  | sendService e Request =>
    cases hstep
    refine ⟨hfit.sendService e Request, ?_⟩
    cases Request <;> exact hfault
  | take r =>
    rw [EventStore.step] at hstep
    split at hstep
    · rename_i hr
      cases hstep
      exact ⟨hfit.take hr, (fault_take s r).trans hfault⟩
    · cases hstep
  | connected r socket =>
    rw [EventStore.step] at hstep
    split at hstep
    · cases hstep
      exact ⟨hfit.connected r socket, hfault⟩
    · cases hstep
  | threadDone r sent =>
    rw [EventStore.step] at hstep
    split at hstep
    · rename_i hr
      cases hstep
      exact ⟨hfit.threadDone hr hok, (fault_threadDone s r sent).trans hfault⟩
    · cases hstep
  | serviceNext outcome =>
    cases hstep
    exact ⟨hfit.serviceNext hok, (fault_serviceNext s outcome).trans hfault⟩
  | answer key m_eResult after =>
    cases hstep
    exact ⟨hfit.answer hok, (fault_answer s key m_eResult after).trans hfault⟩
  | extendedAnswer nSubSequence reply =>
    cases hstep
    exact ⟨hfit.extendedAnswer hok, (fault_extendedAnswer hok).trans hfault⟩
  | cancelEvent n =>
    cases hstep
    exact ⟨hfit.cancelEvent hok, (fault_cancelEvent s n).trans hfault⟩
  | failEvent r reset =>
    rw [EventStore.step] at hstep
    split at hstep
    · rename_i hr
      cases hstep
      exact ⟨hfit.failEvent hr hok, (fault_failEvent s r reset).trans hfault⟩
    · cases hstep
  | clearQueue =>
    cases hstep
    refine ⟨hfit.clearQueue hok, ?_⟩
    obtain heq | ⟨r, heq⟩ := clearQueue_eq hok
    · rw [heq, hfault]
    · rw [heq]
      exact hfault
  | postLogoff nSD bartConnected cancelledEvent =>
    cases hstep
    obtain ⟨hlogoff, hsame⟩ := hfit.postLogoff hok cancelledEvent
    exact ⟨hlogoff, hsame.trans hfault⟩

theorem inv_init : init.Inv :=
  ⟨⟨fun _ hr => absurd hr (Nat.not_lt_zero _), fun _ _ => rfl⟩, rfl⟩

end EventStore

/-- **Every event is disposed of once.**  In every run whose steps meet the condition no event is
lost, none is disposed of twice and none that has been disposed of stands in a list, in every state
that the run comes to, whatever the order of the steps. -/
theorem storeRun_sound {as : List EventStore.Action}
    (hok : Steps.Each EventStore.step (fun s a => a.Ok s) .init as) :
    Steps.Stays EventStore.step EventStore.Sound .init as :=
  (Steps.stays_of_each (P := EventStore.Inv) (fun _ _ _ h hok hstep => h.step hok hstep)
    EventStore.inv_init hok).mono fun _ h => h.1.sound h.2

/-! ## Two runs -/

/-- A request for information on a user, which has two parts. -/
def metaEvent : IcqEvent where
  m_nEventId := 1
  m_nSequence := 100
  m_nSubSequence := 3
  m_nSocketDesc := 5
  m_nSNAC := metaSnac
  icqChannel := some 0x02
  flagDirect := false
  m_NoAck := false
  m_bCancelled := false

/-- A request for an icon, which has no packet yet. -/
def iconEvent : IcqEvent := { metaEvent with m_nEventId := 2, m_nSequence := 0, m_nSubSequence := 0 }

/-- The information comes in two parts, and the service is asked for an icon in between. -/
theorem storeRun_sound_info :
    Steps.Stays EventStore.step EventStore.Sound .init
      [.sendExpectEvent metaEvent true true, .take 0, .threadDone 0 true,
        .sendService iconEvent true, .extendedAnswer 3 .infoPart,
        .extendedAnswer 3 (.infoLast .success), .serviceNext (.sent 7 8 0x00100006),
        .answer (.subSequence 8) .success .process] := by
  refine storeRun_sound ((Steps.each_cons rfl).mpr ⟨fun h => Bool.noConfusion h,
    (Steps.each_cons rfl).mpr ⟨trivial, (Steps.each_cons rfl).mpr ⟨fun _ h => Bool.noConfusion h,
    (Steps.each_cons rfl).mpr ⟨trivial, (Steps.each_cons rfl).mpr ⟨trivial,
    (Steps.each_cons rfl).mpr ⟨?_, (Steps.each_cons rfl).mpr ⟨fun _ _ _ => trivial,
    (Steps.each_cons rfl).mpr ⟨?_, trivial⟩⟩⟩⟩⟩⟩⟩⟩)
  · intro r hr
    obtain rfl : 0 = r := Option.some.inj hr
    exact ⟨by decide, trivial⟩
  · intro r hr
    obtain rfl : 1 = r := Option.some.inj hr
    exact ⟨by decide, by decide, by decide, trivial⟩

/-- The queue of the service is cleared while the request for an icon is running. -/
theorem not_sound_cleared :
    ¬Steps.Stays EventStore.step EventStore.Sound .init
      [.sendService iconEvent true, .clearQueue] := by
  intro h
  have hend := ((h.2 _ rfl).2 _ rfl).disposed 0 (by decide)
  exact hend.2.1 (by decide)

end Licq
