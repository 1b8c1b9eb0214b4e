import Mathlib.Data.List.Nodup
import Licq.Icq.Events.Store

/-!
# Icq/Events/Counts — how often an event stands in the lists

For each event on its own it is counted how often it stands in each list.  A step changes the counts
of few events, and `Fits` says which counts may be.
-/

namespace Licq

open List

namespace EventStore

/-! ## Counts -/

/-- How often an event stands in each list. -/
@[ext]
structure Counts where
  send : ℕ
  running : ℕ
  extended : ℕ
  service : ℕ
  threads : ℕ
  disposed : ℕ

def counts (s : EventStore) (r : ℕ) : Counts where
  send := s.m_lxSendQueue_Server.count r
  running := s.m_lxRunningEvents.count r
  extended := s.m_lxExtendedEvents.count r
  service := s.mySendQueue.count r
  threads := s.threads.count r
  disposed := s.disposed.count r

/-- The counts of an event that is there: it has been disposed of and is in no list; or it has not,
stands in every list at most once, in the extended list only while it runs, with one of the send
queue, the service and the threads, and there is someone to dispose of it.  The service has no event
of the extended list, and waits for those alone that need an acknowledgement.  The flags of the event
are numbers here. -/
structure Counts.Fits (c : Counts) (noAck cancelled : ℕ) : Prop where
  once : c.disposed ≤ 1
  gone : c.disposed = 1 → c.send = 0 ∧ c.running = 0 ∧ c.service = 0 ∧ c.threads = 0
  holders : c.send + c.service + c.threads ≤ 1
  service : c.service + c.extended ≤ 1
  request : c.service = 1 → c.running = 1 → noAck = 0
  running : c.running ≤ 1
  extended : c.extended ≤ c.running
  kept : c.disposed = 0 → c.running = 1 ∨
    noAck = 1 ∧ c.send + c.service + c.threads = 1 ∨ cancelled = 1 ∧ c.send = 1
  cancelled : cancelled = 1 → c.running = 0 ∧ c.service = 0 ∧ c.threads = 0

/-- The counts of an event fit its flags; an event for another user is waited for, and its answer
has one part. -/
structure FitsAt (s : EventStore) (r : ℕ) : Prop where
  counts : (s.counts r).Fits (s.events r).m_NoAck.toNat (s.events r).m_bCancelled.toNat
  direct : (s.events r).flagDirect = true →
    (s.events r).m_NoAck = false ∧ (s.counts r).extended = 0

/-- Every event that is there fits, and nothing stands where no event is. -/
structure Fit (s : EventStore) : Prop where
  fits : ∀ r < s.next, s.FitsAt r
  free : ∀ r, s.next ≤ r → s.counts r = ⟨0, 0, 0, 0, 0, 0⟩

/-- **What is to hold.**  The extended list is part of the running list; what has been disposed of
is in no list, and has been disposed of once; everything else is in a list or in a thread. -/
structure Sound (s : EventStore) : Prop where
  extended : s.m_lxExtendedEvents ⊆ s.m_lxRunningEvents
  disposed : ∀ r ∈ s.disposed, r ∉ s.m_lxSendQueue_Server ∧ r ∉ s.m_lxRunningEvents ∧
    r ∉ s.m_lxExtendedEvents ∧ r ∉ s.mySendQueue ∧ r ∉ s.threads
  once : s.disposed.Nodup
  kept : ∀ r < s.next, r ∈ s.disposed ∨ r ∈ s.m_lxSendQueue_Server ∨ r ∈ s.m_lxRunningEvents ∨
    r ∈ s.mySendQueue ∨ r ∈ s.threads
  noFault : s.fault = false

theorem Fit.sound {s : EventStore} (h : s.Fit) (hfault : s.fault = false) : s.Sound := by
  have hlt : ∀ r, s.counts r ≠ ⟨0, 0, 0, 0, 0, 0⟩ → r < s.next := by
    intro r hne
    by_contra hge
    exact hne (h.free r (Nat.le_of_not_lt hge))
  have hmem : ∀ r (l : List ℕ), r ∈ l → 0 < l.count r := fun r l => count_pos_iff.mpr
  have hnotMem : ∀ r (l : List ℕ), l.count r = 0 → r ∉ l := fun r l => count_eq_zero.mp
  refine ⟨fun r hr => ?_, fun r hr => ?_, ?_, fun r hr => ?_, hfault⟩
  · have hpos : 0 < (s.counts r).extended := hmem r _ hr
    have hfits := h.fits r (hlt r fun heq => by rw [heq] at hpos; exact absurd hpos (by decide))
    exact count_pos_iff.mp (Nat.lt_of_lt_of_le hpos hfits.counts.extended)
  · have hpos : 0 < (s.counts r).disposed := hmem r _ hr
    have hfits := h.fits r (hlt r fun heq => by rw [heq] at hpos; exact absurd hpos (by decide))
    obtain ⟨hsend, hrunning, hservice, hthreads⟩ := hfits.counts.gone (by have := hfits.counts.once; omega)
    have hextended := Nat.le_zero.mp (Nat.le_trans hfits.counts.extended (Nat.le_of_eq hrunning))
    exact ⟨hnotMem r _ hsend, hnotMem r _ hrunning, hnotMem r _ hextended, hnotMem r _ hservice,
      hnotMem r _ hthreads⟩
  · rw [nodup_iff_count_le_one]
    intro r
    by_cases hr : r < s.next
    · exact (h.fits r hr).counts.once
    · have hzero : s.disposed.count r = 0 :=
        congrArg Counts.disposed (h.free r (Nat.le_of_not_lt hr))
      omega
  · have hfits := h.fits r hr
    by_cases hdisposed : (s.counts r).disposed = 0
    · have hpos : 0 < (s.counts r).send ∨ 0 < (s.counts r).running ∨ 0 < (s.counts r).service ∨
          0 < (s.counts r).threads := by
        have hkept := hfits.counts.kept hdisposed
        omega
      exact .inr (hpos.imp count_pos_iff.mp (Or.imp count_pos_iff.mp
        (Or.imp count_pos_iff.mp count_pos_iff.mp)))
    · exact .inl (count_pos_iff.mp (Nat.pos_of_ne_zero hdisposed))

/-! ## What moves do to the counts -/

section Moves

variable (s : EventStore) (r q : ℕ)

@[simp] theorem counts_alloc (e : IcqEvent) : (s.alloc e).counts q = s.counts q := rfl

theorem count_singleton_ite : List.count q [r] = if q = r then 1 else 0 := by
  by_cases h : q = r
  · rw [if_pos h, h, count_singleton_self]
  · rw [if_neg h, count_eq_zero.mpr (by simpa using h)]

theorem count_erase_ite (l : List ℕ) : (l.erase r).count q = l.count q - if q = r then 1 else 0 := by
  by_cases h : q = r
  · rw [if_pos h, h, count_erase_self]
  · rw [if_neg h, count_erase_of_ne h, Nat.sub_zero]

@[simp] theorem counts_dispose : (s.dispose r).counts q
    = { s.counts q with disposed := (s.counts q).disposed + if q = r then 1 else 0 } := by
  simp only [counts, dispose, count_append, count_singleton_ite]

@[simp] theorem counts_pushSend : (s.pushSend r).counts q
    = { s.counts q with send := (s.counts q).send + if q = r then 1 else 0 } := by
  simp only [counts, pushSend, count_append, count_singleton_ite]

@[simp] theorem counts_eraseSend : (s.eraseSend r).counts q
    = { s.counts q with send := (s.counts q).send - if q = r then 1 else 0 } := by
  simp only [counts, eraseSend, count_erase_ite]

@[simp] theorem counts_pushEvent : (s.pushEvent r).counts q
    = { s.counts q with running := (s.counts q).running + if q = r then 1 else 0 } := by
  simp only [counts, pushEvent, count_append, count_singleton_ite]

@[simp] theorem counts_pushExtendedEvent : (s.pushExtendedEvent r).counts q
    = { s.counts q with extended := (s.counts q).extended + if q = r then 1 else 0 } := by
  simp only [counts, pushExtendedEvent, count_append, count_singleton_ite]

@[simp] theorem counts_doneExtendedEvent : (s.doneExtendedEvent r).counts q
    = { s.counts q with extended := (s.counts q).extended - if q = r then 1 else 0 } := by
  simp only [counts, doneExtendedEvent, count_erase_ite]

@[simp] theorem counts_pushService : (s.pushService r).counts q
    = { s.counts q with service := (s.counts q).service + if q = r then 1 else 0 } := by
  simp only [counts, pushService, count_append, count_singleton_ite]

@[simp] theorem counts_startThread : (s.startThread r).counts q
    = { s.counts q with threads := (s.counts q).threads + if q = r then 1 else 0 } := by
  simp only [counts, startThread, count_append, count_singleton_ite]

@[simp] theorem counts_endThread : (s.endThread r).counts q
    = { s.counts q with threads := (s.counts q).threads - if q = r then 1 else 0 } := by
  simp only [counts, endThread, count_erase_ite]

@[simp] theorem counts_unlist : (s.unlist r).counts q
    = { s.counts q with
      running := (s.counts q).running - if q = r then 1 else 0
      threads := (s.counts q).threads - if q = r then 1 else 0 } := by
  simp only [counts, unlist, count_erase_ite]

@[simp] theorem counts_replaceCancelled : (s.replaceCancelled r).counts q
    = { s.counts q with
      send := (s.counts q).send - (if q = r then 1 else 0) + if q = s.next then 1 else 0 } := by
  simp only [replaceCancelled, counts_pushSend, counts_eraseSend, counts_alloc]

@[simp] theorem counts_setEvent (e : IcqEvent) : (s.setEvent r e).counts q = s.counts q := rfl

@[simp] theorem counts_connected (socket : ℤ) : (s.connected r socket).counts q = s.counts q := rfl

theorem counts_shiftService {rest : List ℕ} (h : s.mySendQueue = r :: rest) :
    s.shiftService.counts q
      = { s.counts q with service := (s.counts q).service - if q = r then 1 else 0 } := by
  simp only [counts, shiftService, h, tail_cons, count_cons, beq_iff_eq,
    eq_comm (a := r), Nat.add_sub_cancel]

@[simp] theorem next_unlist : (s.unlist r).next = s.next := rfl

@[simp] theorem events_endThread : (s.endThread r).events = s.events := rfl

@[simp] theorem events_shiftService : s.shiftService.events = s.events := rfl

/-- An event that ends is disposed of. -/
theorem processDoneEvent_of_ends {res : ResultType} (h : ((s.events r).disposal res).Ends) :
    s.processDoneEvent r res = s.dispose r := by
  rw [processDoneEvent]
  cases hd : (s.events r).disposal res with
  | pushed => rfl
  | deleted => rfl
  | extended => exact absurd h (by rw [hd]; exact not_false)
  | kept => exact absurd h (by rw [hd]; exact not_false)

end Moves

/-! ## From the counts to the store -/

variable {s t : EventStore}

theorem Fit.lt_next (h : s.Fit) {r : ℕ} (hr : s.counts r ≠ ⟨0, 0, 0, 0, 0, 0⟩) : r < s.next :=
  Nat.lt_of_not_le fun hge => hr (h.free r hge)

theorem Fit.lt_of_pos (h : s.Fit) {r : ℕ} (hpos : 0 < (s.counts r).send + (s.counts r).running +
    (s.counts r).extended + (s.counts r).service + (s.counts r).threads) : r < s.next :=
  h.lt_next fun hzero => by
    rw [hzero] at hpos
    exact absurd hpos (by decide)

theorem FitsAt.congr {r : ℕ} (h : s.FitsAt r) (hcounts : t.counts r = s.counts r)
    (hnoAck : (t.events r).m_NoAck = (s.events r).m_NoAck)
    (hcancelled : (t.events r).m_bCancelled = (s.events r).m_bCancelled)
    (hdirect : (t.events r).flagDirect = (s.events r).flagDirect) : t.FitsAt r where
  counts := by
    rw [hcounts, hnoAck, hcancelled]
    exact h.counts
  direct := by
    rw [hnoAck, hdirect, hcounts]
    exact h.direct

/-- A step that changes the counts of one event. -/
theorem Fit.move (h : s.Fit) {r : ℕ} (hnext : t.next = s.next) (hevents : t.events = s.events)
    (hother : ∀ q, q ≠ r → t.counts q = s.counts q) (hr : r < s.next)
    (hfits : (t.counts r).Fits (s.events r).m_NoAck.toNat (s.events r).m_bCancelled.toNat)
    (hextended : (t.counts r).extended ≤ (s.counts r).extended) : t.Fit where
  fits := by
    intro q hq
    rw [hnext] at hq
    by_cases hqr : q = r
    · rw [hqr]
      refine ⟨by rwa [hevents], fun hdirect => ?_⟩
      rw [hevents] at hdirect ⊢
      obtain ⟨hnoAck, hzero⟩ := (h.fits r hr).direct hdirect
      exact ⟨hnoAck, by omega⟩
    · exact (h.fits q hq).congr (hother q hqr) (by rw [hevents]) (by rw [hevents])
        (by rw [hevents])
  free := by
    intro q hq
    rw [hnext] at hq
    rw [hother q (by omega), h.free q hq]

/-- A step that brings an event. -/
theorem Fit.bring (h : s.Fit) (hnext : t.next = s.next + 1) (hold : ∀ q < s.next, t.FitsAt q)
    (hnew : t.FitsAt s.next) (hother : ∀ q, s.next < q → t.counts q = s.counts q) : t.Fit where
  fits := by
    intro q hq
    rw [hnext] at hq
    by_cases hqnew : q = s.next
    · rwa [hqnew]
    · exact hold q (by omega)
  free := by
    intro q hq
    rw [hnext] at hq
    rw [hother q (by omega), h.free q (by omega)]

theorem alloc_events_of_lt (s : EventStore) (e : IcqEvent) {q : ℕ} (hq : q < s.next) :
    (s.alloc e).events q = s.events q :=
  Function.update_of_ne (Nat.ne_of_lt hq) _ _

theorem alloc_events_next (s : EventStore) (e : IcqEvent) : (s.alloc e).events s.next = e :=
  Function.update_self _ _ _

/-- A new event with its counts. -/
theorem Fit.arrive (h : s.Fit) {e : IcqEvent} {c : Counts} (hnext : t.next = s.next + 1)
    (hevents : t.events = (s.alloc e).events)
    (hother : ∀ q, q ≠ s.next → t.counts q = s.counts q) (hnew : t.counts s.next = c)
    (hfits : c.Fits e.m_NoAck.toNat e.m_bCancelled.toNat)
    (hdirect : e.flagDirect = true → e.m_NoAck = false ∧ c.extended = 0) : t.Fit := by
  refine h.bring hnext (fun q hq => ?_) ?_ fun q hq => hother q (Nat.ne_of_gt hq)
  · have hold : t.events q = s.events q := by rw [hevents, alloc_events_of_lt s e hq]
    exact (h.fits q hq).congr (hother q (Nat.ne_of_lt hq)) (by rw [hold]) (by rw [hold])
      (by rw [hold])
  · refine ⟨?_, ?_⟩
    · rwa [hnew, hevents, alloc_events_next]
    · rwa [hnew, hevents, alloc_events_next]

/-- The counts of events: those that come into a list, those that have been disposed of, and the
cancelled copies. -/
theorem Counts.fits_noAck : (⟨1, 0, 0, 0, 0, 0⟩ : Counts).Fits 1 0 := by
  constructor <;> simp

theorem Counts.fits_running {send extended threads : ℕ} (n : ℕ) (hextended : extended ≤ 1)
    (hholders : send + threads ≤ 1) :
    (⟨send, 1, extended, 0, threads, 0⟩ : Counts).Fits n 0 := by
  constructor <;> simp <;> omega

theorem Counts.fits_request : (⟨0, 1, 0, 1, 0, 0⟩ : Counts).Fits 0 0 := by
  constructor <;> simp

theorem Counts.fits_service : (⟨0, 0, 0, 1, 0, 0⟩ : Counts).Fits 1 0 := by
  constructor <;> simp

theorem Counts.fits_disposed (n c : ℕ) : (⟨0, 0, 0, 0, 0, 1⟩ : Counts).Fits n c := by
  constructor <;> simp

theorem Counts.fits_copy (n : ℕ) : (⟨1, 0, 0, 0, 0, 0⟩ : Counts).Fits n 1 := by
  constructor <;> simp

/-- A cancelled copy takes the place of an event in the send queue. -/
theorem Fit.replaces (h : s.Fit) {r : ℕ} (hnext : t.next = s.next + 1)
    (hevents : t.events = (s.replaceCancelled r).events)
    (hother : ∀ q, q ≠ r → q ≠ s.next → t.counts q = s.counts q) (hr : r < s.next)
    (hold : (t.counts r).Fits (s.events r).m_NoAck.toNat (s.events r).m_bCancelled.toNat)
    (hextended : (t.counts r).extended ≤ (s.counts r).extended)
    (hnew : t.counts s.next = ⟨1, 0, 0, 0, 0, 0⟩) : t.Fit := by
  refine h.bring hnext (fun q hq => ?_) ?_ fun q hq => hother q (by omega) (Nat.ne_of_gt hq)
  · have hkept : t.events q = s.events q := by
      rw [hevents]
      exact alloc_events_of_lt s _ hq
    by_cases hqr : q = r
    · rw [hqr] at hkept ⊢
      refine ⟨hkept ▸ hold, fun hdirect => ?_⟩
      rw [hkept] at hdirect ⊢
      obtain ⟨hnoAck, hzero⟩ := (h.fits r hr).direct hdirect
      exact ⟨hnoAck, by omega⟩
    · exact (h.fits q hq).congr (hother q hqr (Nat.ne_of_lt hq)) (by rw [hkept]) (by rw [hkept])
        (by rw [hkept])
  · have hcopy : t.events s.next = { s.events r with
        icqChannel := none, m_NoAck := false, m_bCancelled := true } := by
      rw [hevents]
      exact alloc_events_next s _
    exact ⟨by rw [hnew, hcopy]; exact Counts.fits_copy _, fun _ => by simp [hcopy, hnew]⟩

/-- An event is disposed of, and its copy stays in the send queue. -/
theorem Fit.replaced (h : s.Fit) {r : ℕ} (hnext : t.next = s.next + 1)
    (hevents : t.events = (s.replaceCancelled r).events)
    (hother : ∀ q, q ≠ r → q ≠ s.next → t.counts q = s.counts q) (hr : r < s.next)
    (hold : t.counts r = ⟨0, 0, 0, 0, 0, 1⟩) (hnew : t.counts s.next = ⟨1, 0, 0, 0, 0, 0⟩) :
    t.Fit :=
  h.replaces hnext hevents hother hr (hold ▸ Counts.fits_disposed _ _)
    (by rw [hold]; exact Nat.zero_le _) hnew

/-- The counts are those of an event that has been disposed of. -/
theorem Fit.ended (h : s.Fit) {r : ℕ} (hr : r < s.next) (hnext : t.next = s.next)
    (hevents : t.events = s.events) (hother : ∀ q, q ≠ r → t.counts q = s.counts q)
    (hcounts : t.counts r = ⟨0, 0, 0, 0, 0, 1⟩) : t.Fit :=
  h.move hnext hevents hother hr (hcounts ▸ Counts.fits_disposed _ _)
    (by rw [hcounts]; exact Nat.zero_le _)

end EventStore

end Licq
