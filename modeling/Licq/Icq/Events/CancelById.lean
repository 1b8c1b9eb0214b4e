import Licq.Icq.Events.Disposal

/-!
# Icq/Events/CancelById — which events a cancellation reaches

`CancelEvent` looks for an id in the send queue, the running list and the extended list, takes the
first event that has it out of each, and reports one of the events it found.  Event ids are
`unsigned long`, but they are compared as `unsigned short`.

The **main result** `cancels_iff` says when just the events with the id are cancelled.
-/

namespace Licq

open List

namespace EventStore

variable {s : EventStore} {t : ℕ}

/-! ## What cancelling means -/

/-- The event at a place has the id. -/
def HasId (s : EventStore) (t r : ℕ) : Prop := (s.events r).m_nEventId = t

instance (s : EventStore) (t r : ℕ) : Decidable (s.HasId t r) :=
  inferInstanceAs (Decidable (_ = _))

/-- The event is in one of the lists that a cancellation looks through. -/
def Listed (s : EventStore) (r : ℕ) : Prop :=
  r ∈ s.m_lxSendQueue_Server ∨ r ∈ s.m_lxRunningEvents ∨ r ∈ s.m_lxExtendedEvents

/-- The lists hold places that are in use. -/
def Placed (s : EventStore) : Prop := ∀ r, s.Listed r → r < s.next

/-- The event that `CancelEvent` hands on as cancelled. -/
def cancelled? (s : EventStore) (t : ℕ) : Option ℕ :=
  ((s.byId? t s.m_lxRunningEvents).or (s.byId? t s.m_lxExtendedEvents)).or
    (s.byId? t s.m_lxSendQueue_Server)

/-- A placeholder of an event: a new event with the same number that is not going to be sent. -/
structure Placeholder (s : EventStore) (events : ℕ → IcqEvent) (r p : ℕ) : Prop where
  fresh : s.next ≤ p
  sequence : (events p).m_nSequence = (s.events r).m_nSequence
  cancelled : (events p).m_bCancelled = true

/-- Just the events with the id are cancelled. -/
structure Cancels (s s' : EventStore) (t : ℕ) : Prop where
  reported : ∀ r, s.cancelled? t = some r ↔ s.Listed r ∧ s.HasId t r
  running : s'.m_lxRunningEvents = s.m_lxRunningEvents.filter (¬ s.HasId t ·)
  extended : s'.m_lxExtendedEvents = s.m_lxExtendedEvents.filter (¬ s.HasId t ·)
  send : ∃ placeholders,
    s'.m_lxSendQueue_Server = s.m_lxSendQueue_Server.filter (¬ s.HasId t ·) ++ placeholders ∧
      List.Forall₂ (s.Placeholder s'.events) (s.m_lxSendQueue_Server.filter (s.HasId t ·)) placeholders
  /-- The events are what they were, and what has another id is sent or disposed of as before. -/
  events : ∀ r < s.next, s'.events r = s.events r
  others : ∀ r, ¬ s.HasId t r →
    (r ∈ s'.threads ↔ r ∈ s.threads) ∧ (r ∈ s'.disposed ↔ r ∈ s.disposed)

/-! ## Taking an event out of a list -/

/-- What a list is after the first event with a property has been taken out. -/
def without (p : ℕ → Bool) (l : List ℕ) : List ℕ := (l.find? p).elim l l.erase

/-- **Taking the first one out takes all out** if and only if there is no second one. -/
theorem without_eq_filter_iff (p : ℕ → Bool) (l : List ℕ) :
    without p l = l.filter (!p ·) ↔ l.countP p ≤ 1 := by
  induction l with
  | nil => exact iff_of_true rfl (Nat.zero_le 1)
  | cons a l ih =>
    cases ha : p a with
    | true =>
      have hfirst : without p (a :: l) = l := by simp [without, ha]
      have hnone : l.countP p + 1 ≤ 1 ↔ l.countP p = 0 := by omega
      rw [hfirst, filter_cons_of_neg (by simp [ha]), countP_cons_of_pos ha, hnone,
        countP_eq_zero, eq_comm, filter_eq_self]
      simp
    | false =>
      have hrest : without p (a :: l) = a :: without p l := by
        rw [without, without, find?_cons_of_neg (by simp [ha])]
        cases hfind : l.find? p with
        | none => rfl
        | some r =>
          have hne : r ≠ a := by
            rintro rfl
            exact absurd (find?_some hfind) (by simp [ha])
          exact erase_cons_tail (by simpa using hne.symm)
      rw [hrest, filter_cons_of_pos (by simp [ha]), countP_cons_of_neg (by simp [ha]),
        cons_inj_right, ih]

theorem countP_without (p : ℕ → Bool) (l : List ℕ) : (without p l).countP p = l.countP p - 1 := by
  rw [without]
  cases hfind : l.find? p with
  | none =>
    have hzero : l.countP p = 0 := countP_eq_zero.mpr (find?_eq_none.mp hfind)
    rw [Option.elim_none, hzero]
  | some r =>
    rw [Option.elim_some, countP_erase,
      if_pos ⟨mem_of_find?_eq_some hfind, find?_some hfind⟩]

variable {r : ℕ} {s' : EventStore}

theorem mem_of_mem_without {p : ℕ → Bool} {l : List ℕ} (h : r ∈ without p l) : r ∈ l := by
  rw [without] at h
  cases hfind : l.find? p with
  | none =>
    rw [hfind] at h
    exact h
  | some q =>
    rw [hfind] at h
    exact mem_of_mem_erase h

/-! ## What the code does -/

/-- What `Equals` compares an id with. -/
def Equals (s : EventStore) (t r : ℕ) : Bool := (s.events r).m_nEventId = t % 2 ^ 16

/-- What `CancelEvent` changes. -/
structure CancelEffect (s s' : EventStore) (t : ℕ) : Prop where
  running : s'.m_lxRunningEvents = without (s.Equals t) s.m_lxRunningEvents
  extended : s'.m_lxExtendedEvents = without (s.Equals t) s.m_lxExtendedEvents
  send : s'.m_lxSendQueue_Server = without (s.Equals t) s.m_lxSendQueue_Server ++
    (s.byId? t s.m_lxSendQueue_Server).elim [] fun _ => [s.next]
  placeholder : ∀ r, s.byId? t s.m_lxSendQueue_Server = some r → s.Placeholder s'.events r s.next
  events : ∀ r < s.next, s'.events r = s.events r
  threads : s'.threads = (s.byId? t s.m_lxRunningEvents).elim s.threads s.threads.erase
  disposed : s'.disposed = s.disposed ∨
    ∃ r, s.cancelled? t = some r ∧ s'.disposed = s.disposed ++ [r]

/-- A cancelled event never waits for more answers. -/
theorem processDoneEvent_cancelled (s : EventStore) (r : ℕ) :
    s.processDoneEvent r .cancelled = s ∨
      s.processDoneEvent r .cancelled = { s with disposed := s.disposed ++ [r] } := by
  rw [processDoneEvent]
  cases hdisposal : (s.events r).disposal .cancelled with
  | pushed => exact .inr rfl
  | deleted => exact .inr rfl
  | kept => exact .inl rfl
  | extended =>
    rw [IcqEvent.disposal] at hdisposal
    split at hdisposal <;> split_ifs at hdisposal

/-- `CancelEvent` before it hands on an event: what it found is taken out of the lists. -/
def takenOut (s : EventStore) (t : ℕ) : EventStore :=
  let s₁ := (s.byId? t s.m_lxSendQueue_Server).elim s s.replaceCancelled
  let s₂ := (s.byId? t s.m_lxRunningEvents).elim s₁ s₁.unlist
  (s.byId? t s.m_lxExtendedEvents).elim s₂ s₂.doneExtendedEvent

theorem cancelEvent_eq (s : EventStore) (t : ℕ) :
    s.cancelEvent t = (s.cancelled? t).elim (s.takenOut t)
      fun r => (s.takenOut t).processDoneEvent r .cancelled := by
  rw [cancelEvent, cancelled?, takenOut]
  cases s.byId? t s.m_lxSendQueue_Server <;> cases s.byId? t s.m_lxRunningEvents <;>
    cases s.byId? t s.m_lxExtendedEvents <;> rfl

/-- A copy that is not going to be sent comes into the queue, at a new place. -/
theorem replaceCancelled_placeholder (s : EventStore) (r : ℕ) :
    s.Placeholder (s.replaceCancelled r).events r s.next := by
  refine ⟨Nat.le_refl _, ?_, ?_⟩ <;> simp only [replaceCancelled, pushSend, eraseSend, alloc,
    Function.update_self]

theorem takenOut_effect (s : EventStore) (t : ℕ) :
    s.CancelEffect (s.takenOut t) t ∧ (s.takenOut t).disposed = s.disposed := by
  have hsend : without (s.Equals t) s.m_lxSendQueue_Server =
    (s.byId? t s.m_lxSendQueue_Server).elim _ s.m_lxSendQueue_Server.erase := rfl
  have hrunning : without (s.Equals t) s.m_lxRunningEvents =
    (s.byId? t s.m_lxRunningEvents).elim _ s.m_lxRunningEvents.erase := rfl
  have hextended : without (s.Equals t) s.m_lxExtendedEvents =
    (s.byId? t s.m_lxExtendedEvents).elim _ s.m_lxExtendedEvents.erase := rfl
  have hevents : (s.takenOut t).events = (s.byId? t s.m_lxSendQueue_Server).elim s.events
      fun r => (s.replaceCancelled r).events := by
    rw [takenOut]
    cases s.byId? t s.m_lxSendQueue_Server <;> cases s.byId? t s.m_lxRunningEvents <;>
      cases s.byId? t s.m_lxExtendedEvents <;> rfl
  refine ⟨⟨?_, ?_, ?_, fun r hr => ?_, fun r hr => ?_, ?_, .inl ?_⟩, ?_⟩
  case refine_1 =>
    rw [hrunning, takenOut]
    cases s.byId? t s.m_lxSendQueue_Server <;> cases s.byId? t s.m_lxRunningEvents <;>
      cases s.byId? t s.m_lxExtendedEvents <;> rfl
  case refine_2 =>
    rw [hextended, takenOut]
    cases s.byId? t s.m_lxSendQueue_Server <;> cases s.byId? t s.m_lxRunningEvents <;>
      cases s.byId? t s.m_lxExtendedEvents <;> rfl
  case refine_3 =>
    rw [hsend, takenOut]
    cases s.byId? t s.m_lxSendQueue_Server <;> cases s.byId? t s.m_lxRunningEvents <;>
      cases s.byId? t s.m_lxExtendedEvents <;> simp [replaceCancelled, pushSend, eraseSend, alloc,
        unlist, doneExtendedEvent]
  case refine_4 =>
    rw [hevents, hr]
    exact s.replaceCancelled_placeholder r
  case refine_5 =>
    rw [hevents]
    cases s.byId? t s.m_lxSendQueue_Server with
    | none => rfl
    | some q => exact Function.update_of_ne (Nat.ne_of_lt hr) ..
  all_goals
    rw [takenOut]
    cases s.byId? t s.m_lxSendQueue_Server <;> cases s.byId? t s.m_lxRunningEvents <;>
      cases s.byId? t s.m_lxExtendedEvents <;> rfl

theorem cancelEvent_effect (s : EventStore) (t : ℕ) : s.CancelEffect (s.cancelEvent t) t := by
  obtain ⟨h, hdisposed⟩ := s.takenOut_effect t
  rw [cancelEvent_eq]
  cases hcancelled : s.cancelled? t with
  | none => exact h
  | some r =>
    obtain hdone | hdone := processDoneEvent_cancelled (s.takenOut t) r
    · rw [Option.elim_some, hdone]
      exact h
    · rw [Option.elim_some, hdone]
      exact { h with disposed := .inr ⟨r, hcancelled, congrArg (· ++ [r]) hdisposed⟩ }

/-! ## The event that is found -/

theorem equals_iff : s.Equals t r = true ↔ s.HasId (t % 2 ^ 16) r := decide_eq_true_iff

theorem cancelled?_some (h : s.cancelled? t = some r) : s.Listed r ∧ s.HasId (t % 2 ^ 16) r := by
  rw [cancelled?, Option.or_eq_some_iff, Option.or_eq_some_iff] at h
  obtain (hrun | ⟨-, hext⟩) | ⟨-, hsend⟩ := h
  · exact ⟨.inr (.inl (mem_of_find?_eq_some hrun)), equals_iff.mp (find?_some hrun)⟩
  · exact ⟨.inr (.inr (mem_of_find?_eq_some hext)), equals_iff.mp (find?_some hext)⟩
  · exact ⟨.inl (mem_of_find?_eq_some hsend), equals_iff.mp (find?_some hsend)⟩

theorem cancelled?_none (h : s.cancelled? t = none) (hr : s.Listed r) :
    ¬ s.HasId (t % 2 ^ 16) r := by
  intro hid
  rw [cancelled?, Option.or_eq_none_iff, Option.or_eq_none_iff] at h
  obtain hmem | hmem | hmem := hr
  · exact byId?_eq_none_of h.2 hid hmem
  · exact byId?_eq_none_of h.1.1 hid hmem
  · exact byId?_eq_none_of h.1.2 hid hmem

/-! ## When it is the right one -/

/-- One event with the id is listed at most, and at most once in each list. -/
structure Alone (s : EventStore) (t : ℕ) : Prop where
  same : ∀ r q, s.Listed r → s.HasId t r → s.Listed q → s.HasId t q → r = q
  send : s.m_lxSendQueue_Server.countP (s.HasId t ·) ≤ 1
  running : s.m_lxRunningEvents.countP (s.HasId t ·) ≤ 1
  extended : s.m_lxExtendedEvents.countP (s.HasId t ·) ≤ 1

theorem filter_not_hasId (s : EventStore) (t : ℕ) (l : List ℕ) :
    l.filter (¬ s.HasId t ·) = l.filter fun r => !decide (s.HasId t r) :=
  filter_congr fun _ _ => decide_not

/-- Everything that has another id than the event found is handled as before. -/
theorem CancelEffect.others (e : s.CancelEffect s' t)
    (hr : ¬ s.HasId (t % 2 ^ 16) r) :
    (r ∈ s'.threads ↔ r ∈ s.threads) ∧ (r ∈ s'.disposed ↔ r ∈ s.disposed) := by
  constructor
  · rw [e.threads]
    cases hrun : s.byId? t s.m_lxRunningEvents with
    | none => rfl
    | some q =>
      have hne : r ≠ q := by
        rintro rfl
        exact hr (equals_iff.mp (find?_some hrun))
      exact mem_erase_of_ne hne
  · obtain hdisposed | ⟨q, hq, hdisposed⟩ := e.disposed
    · rw [hdisposed]
    · have hne : r ≠ q := by
        rintro rfl
        exact hr (cancelled?_some hq).2
      rw [hdisposed, mem_append, mem_singleton, or_iff_left hne]

/-- What `Equals` an id that fits has this id. -/
theorem equals_eq (s : EventStore) (ht : t % 2 ^ 16 = t) :
    s.Equals t = fun r => decide (s.HasId t r) := by
  funext r
  rw [Equals, ht]
  rfl

/-- An id that fits is found where it stands alone. -/
theorem Alone.cancels (h : s.Alone t) (ht : t % 2 ^ 16 = t)
    (e : s.CancelEffect s' t) : s.Cancels s' t := by
  have hequals := s.equals_eq ht
  refine ⟨fun r => ⟨fun hr => ht ▸ cancelled?_some hr, fun hr => ?_⟩, ?_, ?_, ?_, e.events,
    fun r hr => e.others (ht.symm ▸ hr)⟩
  · cases hfound : s.cancelled? t with
    | none => exact absurd (ht.symm ▸ hr.2) (cancelled?_none hfound hr.1)
    | some q =>
      obtain ⟨hlisted, hid⟩ := cancelled?_some hfound
      rw [h.same q r hlisted (ht ▸ hid) hr.1 hr.2]
  · rw [e.running, filter_not_hasId, hequals]
    exact (without_eq_filter_iff _ _).mpr h.running
  · rw [e.extended, filter_not_hasId, hequals]
    exact (without_eq_filter_iff _ _).mpr h.extended
  · refine ⟨(s.byId? t s.m_lxSendQueue_Server).elim [] fun _ => [s.next], ?_, ?_⟩
    · rw [e.send, filter_not_hasId, hequals]
      exact congrArg (· ++ _) ((without_eq_filter_iff _ _).mpr h.send)
    · cases hfind : s.byId? t s.m_lxSendQueue_Server with
      | none =>
        rw [filter_eq_nil_iff.mpr]
        · exact .nil
        · intro r hr hid
          exact byId?_eq_none_of hfind (ht.symm ▸ of_decide_eq_true hid) hr
      | some r =>
        have hr : r ∈ s.m_lxSendQueue_Server.filter (s.HasId t ·) := by
          refine mem_filter.mpr ⟨mem_of_find?_eq_some hfind, ?_⟩
          rw [← congrFun hequals r]
          exact find?_some hfind
        have hlength : (s.m_lxSendQueue_Server.filter (s.HasId t ·)).length = 1 := by
          have hpos := length_pos_of_mem hr
          have hle := h.send
          rw [countP_eq_length_filter] at hle
          omega
        obtain ⟨q, hq⟩ := length_eq_one_iff.mp hlength
        rw [hq] at hr ⊢
        rw [← mem_singleton.mp hr]
        exact .cons (e.placeholder r hfind) .nil

theorem fresh_of_placeholders {events : ℕ → IcqEvent} {queue placeholders : List ℕ}
    (h : List.Forall₂ (s.Placeholder events) queue placeholders) {p : ℕ} (hp : p ∈ placeholders) :
    s.next ≤ p := by
  induction h with
  | nil => exact absurd hp not_mem_nil
  | cons hfirst _ ih =>
    obtain rfl | hp := mem_cons.mp hp
    · exact hfirst.fresh
    · exact ih hp

/-- An id that fits stands alone where just the events with it are cancelled. -/
theorem Cancels.alone (c : s.Cancels s' t) (h : s.Placed) (ht : t % 2 ^ 16 = t)
    (e : s.CancelEffect s' t) : s.Alone t := by
  have hequals := s.equals_eq ht
  refine ⟨fun r q hr hid hq hid' => ?_, ?_, ?_, ?_⟩
  · have heq := ((c.reported r).mpr ⟨hr, hid⟩).symm.trans ((c.reported q).mpr ⟨hq, hid'⟩)
    exact Option.some.inj heq
  · obtain ⟨placeholders, hsend, hplaceholders⟩ := c.send
    have hgone : (without (s.Equals t) s.m_lxSendQueue_Server).countP (s.HasId t ·) = 0 := by
      refine countP_eq_zero.mpr fun r hr hid => ?_
      have hmem : r ∈ s'.m_lxSendQueue_Server := e.send ▸ mem_append_left _ hr
      rw [hsend, mem_append] at hmem
      obtain hkept | hplaceholder := hmem
      · exact of_decide_eq_true (mem_filter.mp hkept).2 (of_decide_eq_true hid)
      · exact absurd (h r (.inl (mem_of_mem_without hr)))
          (Nat.not_lt.mpr (fresh_of_placeholders hplaceholders hplaceholder))
    rw [hequals, countP_without] at hgone
    omega
  · have hrunning := c.running
    rw [e.running, filter_not_hasId, hequals] at hrunning
    exact (without_eq_filter_iff _ _).mp hrunning
  · have hextended := c.extended
    rw [e.extended, filter_not_hasId, hequals] at hextended
    exact (without_eq_filter_iff _ _).mp hextended

/-- Neither the id nor the one it is taken for is listed. -/
def Absent (s : EventStore) (t : ℕ) : Prop :=
  ∀ r, s.Listed r → ¬ s.HasId t r ∧ ¬ s.HasId (t % 2 ^ 16) r

/-- The events that the id stands for are those that are found. -/
def Reaches (s : EventStore) (t : ℕ) : Prop := if t < 2 ^ 16 then s.Alone t else s.Absent t

theorem hasId_apart (ht : t % 2 ^ 16 ≠ t) (h : s.HasId t r) : ¬ s.HasId (t % 2 ^ 16) r :=
  fun h' => ht (h'.symm.trans h)

theorem Cancels.absent (c : s.Cancels s' t) (ht : t % 2 ^ 16 ≠ t) : s.Absent t := by
  refine fun r hr => ⟨fun hid => ?_, fun hid => ?_⟩
  · exact hasId_apart ht hid (cancelled?_some ((c.reported r).mpr ⟨hr, hid⟩)).2
  · cases hfound : s.cancelled? t with
    | none => exact cancelled?_none hfound hr hid
    | some q => exact hasId_apart ht ((c.reported q).mp hfound).2 (cancelled?_some hfound).2

/-- Nothing is found in a list that has neither of the two ids. -/
theorem Absent.find (h : s.Absent t) {l : List ℕ} (hl : ∀ r ∈ l, s.Listed r) :
    s.byId? t l = none ∧ without (s.Equals t) l = l.filter (¬ s.HasId t ·) := by
  have hnone : l.find? (s.Equals t) = none :=
    find?_eq_none.mpr fun r hr hid => (h r (hl r hr)).2 (equals_iff.mp hid)
  refine ⟨hnone, ?_⟩
  rw [without, hnone, Option.elim_none, eq_comm, filter_eq_self]
  exact fun r hr => decide_eq_true (h r (hl r hr)).1

theorem Absent.cancels (h : s.Absent t) (e : s.CancelEffect s' t) : s.Cancels s' t := by
  obtain ⟨hsend, hsend'⟩ := h.find fun r hr => .inl hr
  obtain ⟨hrunning, hrunning'⟩ := h.find fun r hr => .inr (.inl hr)
  obtain ⟨-, hextended'⟩ := h.find fun r hr => .inr (.inr hr)
  have hnone : ∀ r, s.cancelled? t ≠ some r := fun r hr =>
    (h r (cancelled?_some hr).1).2 (cancelled?_some hr).2
  refine ⟨fun r => ⟨fun hr => absurd hr (hnone r), fun hr => absurd hr.2 (h r hr.1).1⟩,
    e.running.trans hrunning', e.extended.trans hextended', ⟨[], ?_, ?_⟩, e.events,
    fun r _ => ⟨?_, ?_⟩⟩
  · rw [e.send, hsend, hsend']
    rfl
  · rw [filter_eq_nil_iff.mpr fun r hr hid => (h r (.inl hr)).1 (of_decide_eq_true hid)]
    exact .nil
  · rw [e.threads, hrunning]
    rfl
  · obtain hdisposed | ⟨q, hq, -⟩ := e.disposed
    · rw [hdisposed]
    · exact absurd hq (hnone q)

/-- **Just the events with the id are cancelled** if and only if one event has it at most, and that
once in each list, or the id does not fit and no event has it or the one it is taken for. -/
theorem cancels_iff (h : s.Placed) (t : ℕ) : s.Cancels (s.cancelEvent t) t ↔ s.Reaches t := by
  have e := s.cancelEvent_effect t
  rw [Reaches]
  split_ifs with hlt
  · have ht : t % 2 ^ 16 = t := Nat.mod_eq_of_lt hlt
    exact ⟨fun c => c.alone h ht e, fun halone => halone.cancels ht e⟩
  · have ht : t % 2 ^ 16 ≠ t := by omega
    exact ⟨fun c => c.absent ht, fun habsent => habsent.cancels e⟩

/-- An event with this id, in the send queue and running. -/
def sentWithId (t : ℕ) : EventStore :=
  { init with
    events := fun _ => { init.events 0 with m_nEventId := t }
    next := 1
    m_lxSendQueue_Server := [0]
    m_lxRunningEvents := [0] }

theorem sentWithId_placed (t : ℕ) : (sentWithId t).Placed := by
  intro r hr
  simp only [Listed, sentWithId, init, mem_singleton, not_mem_nil, or_false, or_self] at hr
  rw [hr]
  exact Nat.zero_lt_one

theorem cancels_iff_sentWithId :
    (sentWithId 7).Cancels ((sentWithId 7).cancelEvent 7) 7 ↔ (sentWithId 7).Reaches 7 :=
  cancels_iff (sentWithId_placed 7) 7

/-- The event with the id `2 ^ 16` is not found. -/
theorem not_cancels_wide : ¬ ∀ (s : EventStore) (t : ℕ), s.Placed → s.Cancels (s.cancelEvent t) t := by
  intro h
  have hrunning := (h (sentWithId (2 ^ 16)) (2 ^ 16) (sentWithId_placed _)).running
  exact absurd hrunning (by decide)

end EventStore

end Licq
