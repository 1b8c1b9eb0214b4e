import Licq.Data.Steps
import Licq.Icq.Events.SendQueue

/-!
# Icq/Events/SendOrder — in which order packets are sent

`InOrder` holds in every run: the numbers that the threads take follow each other, and what goes to a
socket are these numbers in this order, without those of events that were cancelled or failed.
`NoGap` holds where no number is lost: no two events of the queue have the same number, and the next
number is never missing.  The **main result** is `sendRun_inOrder`.
-/

namespace Licq

open List

namespace SendState

/-! ## The order -/

/-- The event is taken after another. -/
def Follows (later earlier : QueuedEvent) : Prop :=
  later.newChannel = true ∨ later.m_nSequence = earlier.m_nSequence + 1

/-- An event with its number, by its serial. -/
def number (e : QueuedEvent) : ℕ × UInt16 := (e.serial, e.m_nSequence)

/-- The event of a packet that went to a socket, with the number. -/
def writtenNumber (w : Write) : Option (ℕ × UInt16) := w.event.map (·, w.m_nSequence)

/-- The events that were taken to be sent. -/
def live (taken : List QueuedEvent) : List (ℕ × UInt16) :=
  (taken.filter (!·.m_bCancelled)).map number

/-- **The order in which packets are sent.**  Each event that is taken has the number after the one
before, or opens a connection; to each socket go packets of such events, in this order; and no event
is sent twice. -/
structure InOrder (s : SendState) : Prop where
  taken : s.taken.IsChain Follows
  written : ∀ socket, ((s.written.filter (·.socket = socket)).filterMap writtenNumber).Sublist
    (live s.taken)
  once : (s.written.filterMap Write.event).Nodup

/-- What a step keeps: `nNext` comes after the number that was taken last, serials are not used
again, and the thread that sends has the last event. -/
structure Ordered (s : SendState) : Prop where
  taken : s.taken.IsChain Follows
  next : ∀ e ∈ s.taken.head?, s.nNext = e.m_nSequence + 1
  serials : ((s.m_lxSendQueue_Server ++ s.taken).map QueuedEvent.serial).Nodup
  fresh : ∀ e ∈ s.m_lxSendQueue_Server ++ s.taken, e.serial < s.nextSerial
  written : (s.written.filterMap writtenNumber).Sublist
    (live (if s.sending = none then s.taken else s.taken.tail))
  sending : ∀ e ∈ s.sending, e.m_bCancelled = false ∧ s.taken.head? = some e

theorem live_cons (e : QueuedEvent) (taken : List QueuedEvent) :
    live (e :: taken) = if e.m_bCancelled then live taken else number e :: live taken := by
  rw [live, filter_cons]
  cases e.m_bCancelled <;> rfl

theorem live_tail_sublist (taken : List QueuedEvent) : (live taken.tail).Sublist (live taken) :=
  ((tail_sublist taken).filter _).map _

theorem filterMap_event (written : List Write) :
    written.filterMap Write.event = (written.filterMap writtenNumber).map Prod.fst := by
  rw [map_filterMap]
  refine filterMap_congr fun w _ => ?_
  rw [writtenNumber]
  cases w.event <;> rfl

variable {s : SendState}

theorem Ordered.written_live (h : s.Ordered) :
    (s.written.filterMap writtenNumber).Sublist (live s.taken) := by
  have hwritten := h.written
  split at hwritten
  · exact hwritten
  · exact hwritten.trans (live_tail_sublist _)

theorem Ordered.inOrder (h : s.Ordered) : s.InOrder where
  taken := h.taken
  written := fun _ => ((filter_sublist).filterMap _).trans h.written_live
  once := by
    rw [filterMap_event]
    have hserials : (s.taken.map QueuedEvent.serial).Nodup :=
      ((sublist_append_right _ _).map _).nodup h.serials
    refine (h.written_live.map Prod.fst).nodup ?_
    rw [live, map_map]
    exact ((filter_sublist).map _).nodup hserials

variable {t : SendState} {e : QueuedEvent} {p : NumberedPacket}

/-- A step that brings events into the queue, with serials of their own. -/
theorem Ordered.queue (h : s.Ordered) (old new : List QueuedEvent)
    (hqueue : t.m_lxSendQueue_Server = old ++ new) (hold : old.Sublist s.m_lxSendQueue_Server)
    (hnodup : (new.map QueuedEvent.serial).Nodup)
    (hnew : ∀ e ∈ new, s.nextSerial ≤ e.serial ∧ e.serial < t.nextSerial)
    (hserial : s.nextSerial ≤ t.nextSerial) (htaken : t.taken = s.taken)
    (hnext : t.nNext = s.nNext) (hwritten : t.written.filterMap writtenNumber
      = s.written.filterMap writtenNumber) (hsending : t.sending = s.sending) : t.Ordered := by
  have hkept : (old ++ s.taken).Sublist (s.m_lxSendQueue_Server ++ s.taken) :=
    hold.append_right _
  have hfresh : ∀ e ∈ old ++ s.taken, e.serial < s.nextSerial := fun e he =>
    h.fresh e (hkept.subset he)
  refine ⟨htaken ▸ h.taken, ?_, ?_, ?_, ?_, ?_⟩
  · rw [htaken, hnext]
    exact h.next
  · have hperm : (old ++ new ++ s.taken).Perm (new ++ (old ++ s.taken)) := by
      rw [append_assoc]
      refine (perm_append_comm_assoc old new s.taken)
    rw [hqueue, htaken, (hperm.map _).nodup_iff, map_append, nodup_append]
    refine ⟨hnodup, (hkept.map _).nodup h.serials, fun n hn m hm => ?_⟩
    obtain ⟨e, he, rfl⟩ := mem_map.mp hn
    obtain ⟨e', he', rfl⟩ := mem_map.mp hm
    have := (hnew e he).1
    have := hfresh e' he'
    omega
  · intro e he
    rw [hqueue, htaken, append_assoc] at he
    obtain hmem | hmem := mem_append.mp he
    · exact Nat.lt_of_lt_of_le (hfresh e (mem_append_left _ hmem)) hserial
    · obtain hmem | hmem := mem_append.mp hmem
      · exact (hnew e hmem).2
      · exact Nat.lt_of_lt_of_le (hfresh e (mem_append_right _ hmem)) hserial
  · rw [hwritten, hsending, htaken]
    exact h.written
  · rw [hsending, htaken]
    exact h.sending

/-- A step that does not change the queue. -/
theorem Ordered.same (h : s.Ordered)
    (hqueue : t.m_lxSendQueue_Server = s.m_lxSendQueue_Server)
    (hserial : t.nextSerial = s.nextSerial) (htaken : t.taken = s.taken)
    (hnext : t.nNext = s.nNext) (hwritten : t.written.filterMap writtenNumber
      = s.written.filterMap writtenNumber) (hsending : t.sending = s.sending) : t.Ordered :=
  h.queue _ [] (hqueue.trans (append_nil _).symm) (List.Sublist.refl _) nodup_nil
    (nofun) (Nat.le_of_eq hserial.symm) htaken hnext hwritten
    hsending

theorem Ordered.pushed (h : s.Ordered) {old : List QueuedEvent}
    (hqueue : t.m_lxSendQueue_Server = old ++ [e]) (hold : old.Sublist s.m_lxSendQueue_Server)
    (he : e.serial = s.nextSerial) (hserial : t.nextSerial = s.nextSerial + 1)
    (htaken : t.taken = s.taken) (hnext : t.nNext = s.nNext)
    (hwritten : t.written = s.written) (hsending : t.sending = s.sending) : t.Ordered := by
  refine h.queue _ _ hqueue hold (nodup_singleton _) (fun q hq => ?_) (by omega) htaken hnext
    (by rw [hwritten]) hsending
  obtain rfl := mem_singleton.mp hq
  omega

theorem Ordered.cancelAll (h : s.Ordered) : s.cancelAll.Ordered := by
  have hserials : (s.cancelAll.m_lxSendQueue_Server.map QueuedEvent.serial)
      = (range s.m_lxSendQueue_Server.length).map (s.nextSerial + ·) := by
    rw [SendState.cancelAll]
    refine ext_getElem (by simp) fun i h₁ h₂ => ?_
    simp [cancelledCopy]
  refine h.queue (t := s.cancelAll) _ _ (nil_append _).symm (nil_sublist _) ?_
    (fun e he => ?_) (Nat.le_add_right _ _) rfl rfl rfl rfl
  · rw [hserials]
    exact nodup_range.map fun a b hab => Nat.add_left_cancel hab
  · have hmem := mem_map_of_mem (f := QueuedEvent.serial) he
    rw [hserials] at hmem
    obtain ⟨i, hi, heq⟩ := mem_map.mp hmem
    have := mem_range.mp hi
    rw [← heq]
    exact ⟨Nat.le_add_right _ _, Nat.add_lt_add_left this _⟩

theorem next?_eq_some (h : s.next? = some e) : e ∈ s.m_lxSendQueue_Server ∧ s.IsNext e :=
  ⟨mem_of_find?_eq_some h, by simpa using find?_some h⟩

theorem Ordered.take (h : s.Ordered) (hsending : s.sending = none)
    (he : s.next? = some e) : (s.take e).Ordered := by
  obtain ⟨hmem, hnext⟩ := next?_eq_some he
  have hperm : (s.m_lxSendQueue_Server.erase e ++ e :: s.taken).Perm
      (s.m_lxSendQueue_Server ++ s.taken) :=
    perm_middle.trans ((perm_cons_erase hmem).symm.append_right s.taken)
  have hwritten := h.written
  rw [hsending, if_pos rfl] at hwritten
  refine ⟨h.taken.cons fun q hq => ?_, fun q hq => ?_, ?_, fun q hq => h.fresh q (hperm.subset hq),
    ?_, fun q hq => ?_⟩
  · rw [Follows, ← h.next q hq]
    exact hnext
  · cases hq
    rfl
  · exact ((hperm.map _).nodup_iff).mpr h.serials
  · cases hc : e.m_bCancelled with
    | true =>
      simp only [SendState.take, hc, if_true, live_cons]
      exact hwritten
    | false => simpa only [SendState.take, hc, Bool.false_eq_true, if_false, reduceCtorEq,
        tail_cons] using hwritten
  · simp only [SendState.take, Option.mem_def] at hq
    split at hq
    · cases hq
    · rename_i hc
      cases hq
      exact ⟨Bool.not_eq_true _ |>.mp hc, rfl⟩

theorem Ordered.write (h : s.Ordered) (hsending : s.sending = some e)
    (socket : ℤ) : (s.write e socket).Ordered := by
  obtain ⟨hlive, hhead⟩ := h.sending e hsending
  have hwritten := h.written
  rw [hsending, if_neg (Option.some_ne_none e)] at hwritten
  refine ⟨h.taken, h.next, h.serials, h.fresh, ?_, fun q hq => absurd hq (Option.not_mem_none q)⟩
  have htaken : live s.taken = number e :: live s.taken.tail := by
    rw [eq_cons_of_mem_head? hhead, live_cons, hlive]
    rfl
  simp only [SendState.write, if_true, htaken]
  exact hwritten.cons_cons (number e)

theorem Ordered.fail (h : s.Ordered) : s.fail.Ordered :=
  ⟨h.taken, h.next, h.serials, h.fresh, h.written_live, fun q hq => absurd hq (Option.not_mem_none q)⟩

theorem Ordered.construct (h : s.Ordered) (c : Construction) : (s.construct c).Ordered := by
  cases c with
  | connectStart first =>
    rw [SendState.construct]
    split
    · exact h.same rfl rfl rfl rfl rfl rfl
    · exact h.same rfl rfl rfl rfl rfl rfl
  | registerFirst first => exact h.same rfl rfl rfl rfl rfl rfl
  | sendCookie first => exact h.same rfl rfl rfl rfl rfl rfl
  | other => exact h.same rfl rfl rfl rfl rfl rfl
  | unnumbered m_nSequence => exact h.same rfl rfl rfl rfl rfl rfl

theorem Ordered.step (h : s.Ordered) {a : Action} (hstep : s.step a = some t) : t.Ordered := by
  cases a with
  | construct c =>
    cases hstep
    exact h.construct c
  | discard p =>
    rw [SendState.step] at hstep
    split at hstep
    · cases hstep
      exact h.same rfl rfl rfl rfl rfl rfl
    · cases hstep
  | sendEvent p nSD =>
    rw [SendState.step] at hstep
    split at hstep
    · cases hstep
      exact h.pushed rfl (List.Sublist.refl _) rfl rfl rfl rfl rfl rfl
    · cases hstep
  | sendNow p nSD =>
    rw [SendState.step] at hstep
    split at hstep
    · cases hstep
      exact h.same rfl rfl rfl rfl rfl rfl
    · cases hstep
  | cancelEvent e =>
    rw [SendState.step] at hstep
    split at hstep
    · cases hstep
      exact h.pushed rfl erase_sublist rfl rfl rfl rfl rfl rfl
    · cases hstep
  | postLogoff nSD cancelledEvent =>
    cases cancelledEvent with
    | none =>
      cases hstep
      exact h.cancelAll
    | some p =>
      rw [SendState.step] at hstep
      split at hstep
      · cases hstep
        exact h.cancelAll.pushed rfl (List.Sublist.refl _) rfl rfl rfl rfl rfl rfl
      · cases hstep
  | take =>
    rw [SendState.step] at hstep
    split at hstep
    · rename_i e hsending he
      cases hstep
      exact h.take hsending he
    · cases hstep
  | write socket =>
    rw [SendState.step] at hstep
    split at hstep
    · rename_i e hsending
      split at hstep
      · cases hstep
        exact h.write hsending socket
      · cases hstep
    · cases hstep
  | fail =>
    rw [SendState.step] at hstep
    split at hstep
    · cases hstep
    · cases hstep
      exact h.fail

theorem ordered_init : init.Ordered :=
  ⟨.nil, fun _ he => absurd he (Option.not_mem_none _), nodup_nil,
    nofun, List.Sublist.refl _,
    fun _ he => absurd he (Option.not_mem_none _)⟩

/-! ## The numbers -/

/-- The `k` numbers from `n` on. -/
def interval (n : UInt16) (k : ℕ) : List UInt16 :=
  (List.range k).map fun i => n + UInt16.ofNat i

theorem interval_succ_last (n : UInt16) (k : ℕ) :
    interval n (k + 1) = interval n k ++ [n + UInt16.ofNat k] := by
  rw [interval, range_succ, map_append]
  rfl

theorem interval_succ (n : UInt16) (k : ℕ) : interval n (k + 1) = n :: interval (n + 1) k := by
  rw [interval, range_succ_eq_map, map_cons, map_map, interval]
  refine congrArg₂ List.cons (by grind) (map_congr_left fun i _ => ?_)
  simp only [Function.comp_apply, Nat.succ_eq_add_one, UInt16.ofNat_add]
  grind

/-- The numbers are all different, as long as there are no more than there are numbers. -/
theorem interval_nodup {n : UInt16} {k : ℕ} (hk : k ≤ 65536) : (interval n k).Nodup := by
  refine nodup_range.map_on fun a ha b hb hab => ?_
  have hofNat : UInt16.ofNat a = UInt16.ofNat b := by grind
  have htoNat := congrArg UInt16.toNat hofNat
  rw [mem_range] at ha hb
  simp only [UInt16.toNat_ofNat'] at htoNat
  omega

/-- The numbers that have been drawn and not been taken. -/
def outstanding (s : SendState) : List UInt16 :=
  s.m_lxSendQueue_Server.map QueuedEvent.m_nSequence ++ s.packets.map NumberedPacket.m_nSequence

/-- The number that is to be taken first. -/
def first (s : SendState) : UInt16 := s.s_nSequence - UInt16.ofNat s.outstanding.length

/-- The packet with a number opens a connection. -/
def Opens (s : SendState) (n : UInt16) : Prop :=
  (∃ e ∈ s.m_lxSendQueue_Server, e.newChannel = true ∧ e.m_nSequence = n) ∨
    ∃ p ∈ s.packets, p.newChannel = true ∧ p.m_nSequence = n

/-- What a step keeps where no number is lost: the numbers that have been drawn and not been taken
follow each other up to the counter, and the first of them is `nNext` or opens a connection. -/
structure Filled (s : SendState) : Prop where
  numbers : s.outstanding.Perm (interval s.first s.outstanding.length)
  bound : s.outstanding.length ≤ 65536
  next : s.nNext = s.first ∨ s.Opens s.first

/-- **Nothing is missing.**  No two events of the queue have the same number, and where there is an
event in the queue, the one that is next is there too, or its packet has been constructed and not
been queued. -/
structure NoGap (s : SendState) : Prop where
  distinct : (s.m_lxSendQueue_Server.map QueuedEvent.m_nSequence).Nodup
  next : s.m_lxSendQueue_Server ≠ [] → (∃ e ∈ s.m_lxSendQueue_Server, s.IsNext e) ∨
    ∃ p ∈ s.packets, p.newChannel = true ∨ p.m_nSequence = s.nNext

theorem Filled.nodup (h : s.Filled) : s.outstanding.Nodup :=
  h.numbers.nodup_iff.mpr (interval_nodup h.bound)

theorem Filled.first_mem (h : s.Filled) (hne : s.outstanding ≠ []) : s.first ∈ s.outstanding := by
  rw [h.numbers.mem_iff]
  obtain ⟨k, hk⟩ := Nat.exists_eq_succ_of_ne_zero (length_pos_iff.mpr hne).ne'
  rw [hk, interval_succ]
  exact mem_cons_self

theorem Filled.noGap (h : s.Filled) : s.NoGap where
  distinct := (sublist_append_left _ _).nodup h.nodup
  next := by
    intro hne
    obtain hnext | hopens := h.next
    · have hmem := h.first_mem (by
        rw [outstanding]
        exact append_ne_nil_of_left_ne_nil (by simpa using hne) _)
      rw [← hnext, outstanding, mem_append, mem_map, mem_map] at hmem
      exact hmem.imp (fun ⟨e, he, heq⟩ => ⟨e, he, .inr heq⟩) fun ⟨p, hp, heq⟩ => ⟨p, hp, .inr heq⟩
    · exact hopens.imp (fun ⟨e, he, hnew, _⟩ => ⟨e, he, .inl hnew⟩)
        fun ⟨p, hp, hnew, _⟩ => ⟨p, hp, .inl hnew⟩

/-- A step that moves numbers from one list to the other. -/
theorem Filled.move (h : s.Filled) (hnumbers : t.outstanding.Perm s.outstanding)
    (hsequence : t.s_nSequence = s.s_nSequence) (hnext : t.nNext = s.nNext)
    (hopens : s.Opens s.first → s.nNext ≠ s.first → t.Opens s.first) : t.Filled := by
  have hlength := hnumbers.length_eq
  have hfirst : t.first = s.first := by rw [first, first, hlength, hsequence]
  refine ⟨?_, hlength ▸ h.bound, ?_⟩
  · rw [hfirst, hlength]
    exact hnumbers.trans h.numbers
  · rw [hfirst, hnext]
    by_cases heq : s.nNext = s.first
    · exact .inl heq
    · exact .inr (hopens (h.next.resolve_left heq) heq)

theorem outstanding_initBuffer (s : SendState) (newChannel : Bool) :
    (s.initBuffer newChannel).outstanding = s.outstanding ++ [s.s_nSequence] := by
  simp only [outstanding, initBuffer, map_append, map_cons, map_nil,
    append_assoc]

/-- A number is drawn. -/
theorem Filled.initBuffer (h : s.Filled) (hbound : s.outstanding.length < 65536)
    (newChannel : Bool) : (s.initBuffer newChannel).Filled := by
  have hlength : (s.initBuffer newChannel).outstanding.length = s.outstanding.length + 1 := by
    rw [outstanding_initBuffer, length_append, length_singleton]
  have hfirst : (s.initBuffer newChannel).first = s.first := by
    rw [first, hlength, first, UInt16.ofNat_add]
    simp only [SendState.initBuffer]
    grind
  have hlast : s.first + UInt16.ofNat s.outstanding.length = s.s_nSequence := by
    rw [first]
    grind
  refine ⟨?_, by omega, ?_⟩
  · rw [hfirst, hlength, outstanding_initBuffer, interval_succ_last, hlast]
    exact h.numbers.append_right _
  · rw [hfirst]
    exact h.next.imp id (Or.imp id fun ⟨p, hp, hnew⟩ => ⟨p, mem_append_left _ hp, hnew⟩)

/-- A numbering is begun when no number is outstanding. -/
theorem filled_begin (hempty : s.outstanding = []) :
    (s.initBuffer true).Filled := by
  have hnumbers : (s.initBuffer true).outstanding = [s.s_nSequence] := by
    rw [outstanding_initBuffer, hempty]
    rfl
  have hfirst : (s.initBuffer true).first = s.s_nSequence := by
    rw [first, hnumbers]
    simp only [SendState.initBuffer, length_singleton]
    grind
  refine ⟨?_, by simp [hnumbers], .inr (.inr ⟨⟨s.s_nSequence, true⟩, ?_, rfl, hfirst.symm⟩)⟩
  · rw [hfirst, hnumbers, length_singleton, interval_succ]
    exact List.Perm.refl _
  · exact mem_append_right _ mem_cons_self

/-- What may be constructed: the packet gets a number, and a numbering is begun anew when no number
is outstanding. -/
def ConstructOk (s : SendState) : Construction → Prop
  | .connectStart _ =>
    if s.s_bRegistered then s.outstanding.length < 65536 else s.outstanding = []
  | .registerFirst _ | .sendCookie _ => s.outstanding = []
  | .other => s.outstanding.length < 65536
  | .unnumbered _ => False

theorem Filled.construct (h : s.Filled) {c : Construction} (hok : s.ConstructOk c) :
    (s.construct c).Filled := by
  cases c with
  | connectStart n =>
    rw [ConstructOk] at hok
    rw [SendState.construct]
    split
    · rename_i hregistered
      rw [if_pos hregistered] at hok
      exact h.initBuffer hok true
    · rename_i hregistered
      rw [if_neg hregistered] at hok
      exact filled_begin (s := (s.initSequence n).register) hok
  | registerFirst n => exact filled_begin (s := (s.initSequence n).register) hok
  | sendCookie n => exact filled_begin (s := s.initSequence n) hok
  | other => exact h.initBuffer hok false
  | unnumbered n => exact hok.elim

/-- A packet leaves the list, and an event with its number comes into the queue. -/
theorem perm_queue {queue : List UInt16} {packets : List NumberedPacket}
    (hp : p ∈ packets) :
    (queue ++ [p.m_nSequence] ++ (packets.erase p).map NumberedPacket.m_nSequence).Perm
      (queue ++ packets.map NumberedPacket.m_nSequence) := by
  rw [append_assoc]
  exact ((perm_cons_erase hp).map NumberedPacket.m_nSequence).symm.append_left queue

theorem Filled.sendEvent (h : s.Filled) (hp : p ∈ s.packets) (nSD : ℤ) :
    (s.sendEvent p nSD).Filled := by
  refine h.move ?_ rfl rfl fun hopens _ => ?_
  · simp only [outstanding, SendState.sendEvent, map_append, map_cons, map_nil]
    exact perm_queue hp
  · obtain ⟨e, he, hnew⟩ | ⟨q, hq, hnew, hfirst⟩ := hopens
    · exact .inl ⟨e, mem_append_left _ he, hnew⟩
    · by_cases hqp : q = p
      · exact .inl ⟨_, mem_append_right _ mem_cons_self, hqp ▸ hnew, hqp ▸ hfirst⟩
      · exact .inr ⟨q, (mem_erase_of_ne hqp).mpr hq, hnew, hfirst⟩

/-- The event is not the one that opens a connection and is to be taken first. -/
def MayCancel (s : SendState) (e : QueuedEvent) : Prop :=
  e.newChannel = true → e.m_nSequence = s.first → s.nNext = s.first

theorem Filled.cancelEvent (h : s.Filled) (he : e ∈ s.m_lxSendQueue_Server)
    (hok : s.MayCancel e) : (s.cancelEvent e).Filled := by
  refine h.move ?_ rfl rfl fun hopens hne => ?_
  · have hperm : (s.m_lxSendQueue_Server.erase e ++ [e]).Perm s.m_lxSendQueue_Server :=
      perm_append_comm.trans (perm_cons_erase he).symm
    simpa only [outstanding, SendState.cancelEvent, map_append, map_cons, map_nil,
      cancelledCopy] using (hperm.map QueuedEvent.m_nSequence).append_right
        (s.packets.map NumberedPacket.m_nSequence)
  · obtain ⟨q, hq, hnew, hfirst⟩ | hpacket := hopens
    · have hqe : q ≠ e := fun heq => hne (hok (heq ▸ hnew) (heq ▸ hfirst))
      exact .inl ⟨q, mem_append_left _ ((mem_erase_of_ne hqe).mpr hq), hnew, hfirst⟩
    · exact .inr hpacket

theorem Filled.cancelAll (h : s.Filled) (hok : ∀ e ∈ s.m_lxSendQueue_Server, s.MayCancel e) :
    s.cancelAll.Filled := by
  have hnumbers : s.cancelAll.m_lxSendQueue_Server.map QueuedEvent.m_nSequence
      = s.m_lxSendQueue_Server.map QueuedEvent.m_nSequence := by
    rw [SendState.cancelAll]
    refine ext_getElem (by simp) fun i h₁ h₂ => ?_
    simp [cancelledCopy]
  refine h.move ?_ rfl rfl fun hopens hne => ?_
  · rw [outstanding, hnumbers]
    exact List.Perm.refl _
  · obtain ⟨q, hq, hnew, hfirst⟩ | hpacket := hopens
    · exact absurd (hok q hq hnew hfirst) hne
    · exact .inr hpacket

theorem Filled.pushCancelled (h : s.Filled) (hp : p ∈ s.packets)
    (hchannel : p.newChannel = false) (nSD : ℤ) : (s.pushCancelled p nSD).Filled := by
  refine h.move ?_ rfl rfl fun hopens _ => ?_
  · simp only [outstanding, SendState.pushCancelled, map_append, map_cons, map_nil]
    exact perm_queue hp
  · obtain ⟨e, he, hnew⟩ | ⟨q, hq, hnew, hfirst⟩ := hopens
    · exact .inl ⟨e, mem_append_left _ he, hnew⟩
    · have hqp : q ≠ p := by
        rintro rfl
        rw [hchannel] at hnew
        cases hnew
      exact .inr ⟨q, (mem_erase_of_ne hqp).mpr hq, hnew, hfirst⟩

/-- What may be taken: where a packet is outstanding that opens a connection, the thread finds the
event with the first number. -/
def TakeOk (s : SendState) : Prop :=
  ∀ e, s.next? = some e → (∃ n ∈ s.outstanding, s.Opens n) → e.m_nSequence = s.first

theorem Filled.take (h : s.Filled) (he : s.next? = some e) (hok : s.TakeOk) :
    (s.take e).Filled := by
  obtain ⟨hmem, hisNext⟩ := next?_eq_some he
  have hin : e.m_nSequence ∈ s.outstanding :=
    mem_append_left _ (mem_map_of_mem hmem)
  have hefirst : e.m_nSequence = s.first := by
    obtain hnew | hnumber := hisNext
    · exact hok e he ⟨_, hin, .inl ⟨e, hmem, hnew, rfl⟩⟩
    · obtain hnext | hopens := h.next
      · rw [hnumber, hnext]
      · exact hok e he ⟨_, h.first_mem (ne_nil_of_mem hin), hopens⟩
  have hperm : s.outstanding.Perm (e.m_nSequence :: (s.take e).outstanding) :=
    ((perm_cons_erase hmem).map QueuedEvent.m_nSequence).append_right _
  have hlength := hperm.length_eq
  rw [length_cons] at hlength
  have hfirst : (s.take e).first = s.first + 1 := by
    rw [first, first, hlength, UInt16.ofNat_add]
    simp only [SendState.take]
    grind
  refine ⟨?_, by have := h.bound; omega, .inl ?_⟩
  · have hnumbers := hperm.symm.trans h.numbers
    rw [hlength, interval_succ, hefirst] at hnumbers
    rw [hfirst]
    exact hnumbers.cons_inv
  · rw [hfirst, ← hefirst]
    rfl

/-- The condition on a step: no number is lost, there are numbers left, and what opens a connection
is taken when its turn has come. -/
def Action.Ok (s : SendState) : Action → Prop
  | .construct c => s.ConstructOk c
  | .discard _ => False
  | .cancelEvent e => s.MayCancel e
  | .postLogoff .. => ∀ e ∈ s.m_lxSendQueue_Server, s.MayCancel e
  | .take => s.TakeOk
  | .sendEvent .. | .sendNow .. | .write _ | .fail => True

theorem Filled.step (h : s.Filled) {a : Action} (hok : a.Ok s)
    (hstep : s.step a = some t) : t.Filled := by
  cases a with
  | construct c =>
    cases hstep
    exact h.construct hok
  | discard p => exact hok.elim
  | sendEvent p nSD =>
    rw [SendState.step] at hstep
    split at hstep
    · rename_i hp
      cases hstep
      exact h.sendEvent hp nSD
    · cases hstep
  | sendNow p nSD =>
    rw [SendState.step] at hstep
    split at hstep
    · cases hstep
      exact ⟨h.numbers, h.bound, h.next⟩
    · cases hstep
  | cancelEvent e =>
    rw [SendState.step] at hstep
    split at hstep
    · rename_i he
      cases hstep
      exact h.cancelEvent he hok
    · cases hstep
  | postLogoff nSD cancelledEvent =>
    cases cancelledEvent with
    | none =>
      cases hstep
      exact h.cancelAll hok
    | some p =>
      rw [SendState.step] at hstep
      split at hstep
      · rename_i hp
        cases hstep
        exact (h.cancelAll hok).pushCancelled hp.1 hp.2 nSD
      · cases hstep
  | take =>
    rw [SendState.step] at hstep
    split at hstep
    · rename_i e hsending he
      cases hstep
      exact h.take he hok
    · cases hstep
  | write socket =>
    rw [SendState.step] at hstep
    split at hstep
    · split at hstep
      · cases hstep
        exact ⟨h.numbers, h.bound, h.next⟩
      · cases hstep
    · cases hstep
  | fail =>
    rw [SendState.step] at hstep
    split at hstep
    · cases hstep
    · cases hstep
      exact ⟨h.numbers, h.bound, h.next⟩

theorem filled_init : init.Filled :=
  ⟨List.Perm.refl _, Nat.zero_le _, .inl rfl⟩

end SendState

/-- **The order of sending, in every interleaving.**  What the threads take and send is in order in
every state of every run, and where all steps meet the condition no two events of the queue have the
same number and the next number is never missing. -/
theorem sendRun_inOrder (as : List SendState.Action) :
    Steps.Stays SendState.step SendState.InOrder .init as ∧
      (Steps.Each SendState.step (fun s a => a.Ok s) .init as →
        Steps.Stays SendState.step SendState.NoGap .init as) := by
  refine ⟨?_, fun hok => ?_⟩
  · exact (Steps.stays_of_each (P := SendState.Ordered) (fun _ _ _ h _ hstep => h.step hstep)
      SendState.ordered_init (Steps.each_of_forall (fun _ _ => trivial) _ as)).mono
      fun _ h => h.inOrder
  · exact (Steps.stays_of_each (P := SendState.Filled) (fun _ _ _ h hok hstep => h.step hok hstep)
      SendState.filled_init hok).mono fun _ h => h.noGap

/-! ## Two runs -/

/-- What would hold if no number were passed over and packets were queued as they are
constructed. -/
structure SendState.Gapless (s : SendState) : Prop where
  consecutive : ∀ socket, ((s.written.filter (·.socket = socket)).map Write.m_nSequence).IsChain
    fun later earlier => later = earlier + 1
  once : (s.written.filterMap Write.event).Nodup
  distinct : ((s.m_lxSendQueue_Server.filter (!·.m_bCancelled)).map
    QueuedEvent.m_nSequence).Nodup
  next : s.m_lxSendQueue_Server ≠ [] → ∃ e ∈ s.m_lxSendQueue_Server, s.IsNext e

/-- A logon from the number 100 on. -/
def logonSteps : List SendState.Action :=
  [.construct (.connectStart 100), .sendEvent ⟨100, true⟩ (-1), .take, .write 5]

/-- Two packets are sent, and the first is cancelled in the queue. -/
def cancelSteps : List SendState.Action :=
  logonSteps ++ [.construct .other, .construct .other, .sendEvent ⟨101, false⟩ 5,
    .sendEvent ⟨102, false⟩ 5, .cancelEvent ⟨1, 101, false, 5, false⟩, .take, .take, .write 5]

/-- Two packets are constructed, and the second is queued before the first. -/
def overtakeSteps : List SendState.Action :=
  logonSteps ++ [.construct .other, .construct .other, .sendEvent ⟨102, false⟩ 5]

/-- The number of an event that has been cancelled is passed over, and a packet that has not been
queued yet is missing in the queue. -/
theorem not_gapless :
    (¬Steps.Stays SendState.step SendState.Gapless .init cancelSteps) ∧
      ¬Steps.Stays SendState.step SendState.Gapless .init overtakeSteps := by
  refine ⟨fun h => ?_, fun h => ?_⟩
  · exact absurd ((h.foldlM rfl).consecutive 5) (by decide)
  · obtain ⟨e, he, hnext⟩ := (h.foldlM rfl).next (by decide)
    obtain rfl := List.mem_singleton.mp he
    exact absurd hnext (by decide)

/-- Nothing is missing where an event is cancelled. -/
theorem sendRun_inOrder_cancel :
    Steps.Stays SendState.step SendState.NoGap .init cancelSteps := by
  refine (sendRun_inOrder cancelSteps).2 ((Steps.each_cons rfl).mpr ⟨rfl,
    (Steps.each_cons rfl).mpr ⟨trivial, (Steps.each_cons rfl).mpr ⟨?_,
    (Steps.each_cons rfl).mpr ⟨trivial, (Steps.each_cons rfl).mpr ⟨?_,
    (Steps.each_cons rfl).mpr ⟨?_, (Steps.each_cons rfl).mpr ⟨trivial,
    (Steps.each_cons rfl).mpr ⟨trivial, (Steps.each_cons rfl).mpr ⟨?_,
    (Steps.each_cons rfl).mpr ⟨?_, (Steps.each_cons rfl).mpr ⟨?_,
    (Steps.each_cons rfl).mpr ⟨trivial, trivial⟩⟩⟩⟩⟩⟩⟩⟩⟩⟩⟩⟩)
  · exact fun e he _ => by
      cases he
      decide
  · exact (by decide : 0 < 65536)
  · exact (by decide : 1 < 65536)
  · exact fun hnew => Bool.noConfusion hnew
  · exact fun e he _ => by
      cases he
      decide
  · exact fun e he _ => by
      cases he
      decide

end Licq
