import Mathlib.Algebra.Order.BigOperators.Group.Finset
import Mathlib.Data.Fintype.BigOperators

/-!
# ContactList/Events — the new events of the users

Every user keeps a vector of new events, its file the number of them, and a static counter of
`User` the number of all of them.  `EventPush`, `EventPop`, `EventClear`, `EventClearId` and
`CancelEvent` of `user.cpp` change the three by hand.

What they are for is `Pending`, a queue for every user.  The **main result** `follows_iff` says for
a run of calls that it follows the queues, with both numbers right after every call, if and only if
no push makes it 65536 events, and events are only cancelled that already are: `CancelEvent` leaves
an event alone whose index is valid, and uses one that is not.
-/

namespace Licq

open List Nat Function Finset

/-! ## Events -/

/-- An event, with the fields that the queues use. -/
structure UserEvent where
  /-- an `int` -/
  id : ℤ
  /-- an `unsigned long` -/
  flags : ℕ
  deriving DecidableEq, Repr

namespace UserEvent

def flagCancelled : ℕ := 0x00080000

def isCancelled (e : UserEvent) : Bool := e.flags &&& flagCancelled != 0

def cancel (e : UserEvent) : UserEvent := { e with flags := e.flags ||| flagCancelled }

/-- Cancelling an event once more changes nothing. -/
theorem cancel_eq_self_iff (e : UserEvent) : e.cancel = e ↔ e.isCancelled = true := by
  have hand : e.flags &&& 2 ^ 19 ≠ 0 ↔ e.flags.testBit 19 = true := by
    constructor
    · intro hne
      obtain ⟨i, hi⟩ := exists_testBit_of_ne_zero hne
      rw [testBit_and, Bool.and_eq_true, testBit_two_pow, decide_eq_true_iff] at hi
      exact hi.2 ▸ hi.1
    · intro hbit hzero
      have h : (e.flags &&& 2 ^ 19).testBit 19 = true := by
        rw [testBit_and, hbit, testBit_two_pow_self]
        rfl
      rw [hzero, zero_testBit] at h
      cases h
  have hor : e.flags ||| 2 ^ 19 = e.flags ↔ e.flags.testBit 19 = true := by
    constructor
    · intro heq
      rw [← heq, testBit_or, testBit_two_pow_self, Bool.or_true]
    · intro hbit
      refine eq_of_testBit_eq fun i => ?_
      rw [testBit_or, testBit_two_pow]
      by_cases hi : 19 = i
      · rw [← hi, hbit]
        rfl
      · rw [decide_eq_false hi, Bool.or_false]
  have hflag : flagCancelled = 2 ^ 19 := rfl
  rw [isCancelled, bne_iff_ne, hflag, hand, ← hor]
  constructor
  · exact fun h => congrArg UserEvent.flags h
  · intro h
    rw [cancel, hflag, h]

end UserEvent

/-! ## The calls -/

variable {ι : Type*}

/-- A call on one of the users. -/
inductive EventCall (ι : Type*)
  | push (u : ι) (e : UserEvent)
  | pop (u : ι)
  | peekId (u : ι) (id : ℤ)
  | clear (u : ι) (index : UInt16)
  | clearId (u : ι) (id : ℤ)
  | cancel (u : ι) (index : UInt16)

/-- The vectors of new events, `s_nNumUserEvents` and the numbers in the users' files. -/
@[ext] structure Events (ι : Type*) where
  messages : ι → List UserEvent
  numUserEvents : UInt16
  saved : ι → UInt16

namespace Events

/-- No user has a new event. -/
def init : Events ι := ⟨fun _ => [], 0, fun _ => 0⟩

/-- `NewMessages` -/
def newMessages (s : Events ι) (u : ι) : UInt16 := UInt16.ofNat (s.messages u).length

/-- The loop that moves every event behind an index one place forward; its counter is an
`unsigned short`.  None where it goes on forever. -/
def moveDown : ℕ → UInt16 → List UserEvent → Option (List UserEvent)
  | 0, _, _ => none
  | fuel + 1, i, m =>
    if i.toNat < m.length - 1 then
      match m[i.toNat + 1]? with
      | some e => moveDown fuel (i + 1) (m.set i.toNat e)
      | none => none
    else some m

section Calls

variable [DecidableEq ι]

/-- The user's vector and both numbers, after an event has been added or removed. -/
def store (s : Events ι) (u : ι) (m : List UserEvent) (numUserEvents : UInt16) : Events ι where
  messages := Function.update s.messages u m
  numUserEvents := numUserEvents
  saved := Function.update s.saved u (UInt16.ofNat m.length)

def eventPush (s : Events ι) (u : ι) (e : UserEvent) : Events ι :=
  s.store u (s.messages u ++ [e]) (s.numUserEvents + 1)

def eventPop (s : Events ι) (u : ι) : Option (Events ι × Option UserEvent) :=
  match (s.messages u).head? with
  | none => some (s, none)
  | some e =>
    (moveDown ((s.messages u).length + 1) 0 (s.messages u)).map fun m =>
      (s.store u m.dropLast (s.numUserEvents - 1), some e)

def eventPeekId (s : Events ι) (u : ι) (id : ℤ) : Option UserEvent :=
  (s.messages u).find? (·.id == id)

def eventClear (s : Events ι) (u : ι) (index : UInt16) : Option (Events ι) :=
  if index.toNat ≥ (s.messages u).length then some s
  else (moveDown ((s.messages u).length + 1) index (s.messages u)).map fun m =>
    s.store u m.dropLast (s.numUserEvents - 1)

def eventClearId (s : Events ι) (u : ι) (id : ℤ) : Events ι :=
  match (s.messages u).findIdx? (·.id == id) with
  | some i => s.store u ((s.messages u).eraseIdx i) (s.numUserEvents - 1)
  | none => s

/-- None where the vector is accessed outside. -/
def cancelEvent (s : Events ι) (u : ι) (index : UInt16) : Option (Events ι) :=
  if index < s.newMessages u then some s
  else
    match (s.messages u)[index.toNat]? with
    | some e =>
      some { s with
        messages := Function.update s.messages u ((s.messages u).set index.toNat e.cancel) }
    | none => none

/-- A call, and the event that it returns. -/
def step (s : Events ι) : EventCall ι → Option (Events ι × Option UserEvent)
  | .push u e => some (s.eventPush u e, none)
  | .pop u => s.eventPop u
  | .peekId u id => some (s, s.eventPeekId u id)
  | .clear u index => (s.eventClear u index).map fun s => (s, none)
  | .clearId u id => some (s.eventClearId u id, none)
  | .cancel u index => (s.cancelEvent u index).map fun s => (s, none)

end Calls

end Events

/-! ## The queues -/

/-- The events of every user that have been pushed and not been popped or cleared, in order. -/
abbrev Pending (ι : Type*) := ι → List UserEvent

/-- What a call is for. -/
def Pending.step [DecidableEq ι] (q : Pending ι) : EventCall ι → Pending ι × Option UserEvent
  | .push u e => (Function.update q u (q u ++ [e]), none)
  | .pop u => (Function.update q u (q u).tail, (q u).head?)
  | .peekId u id => (q, (q u).find? (·.id == id))
  | .clear u index => (Function.update q u ((q u).eraseIdx index.toNat), none)
  | .clearId u id => (Function.update q u ((q u).eraseP (·.id == id)), none)
  | .cancel u index => (Function.update q u ((q u).modify index.toNat UserEvent.cancel), none)

/-- How many events are pending. -/
def Pending.total [Fintype ι] (q : Pending ι) : ℕ := ∑ u, (q u).length

/-- The vectors are the queues, and both numbers are right. -/
structure Events.Agrees [Fintype ι] (s : Events ι) (q : Pending ι) : Prop where
  messages : s.messages = q
  numUserEvents : s.numUserEvents.toNat = q.total
  saved : ∀ u, (s.saved u).toNat = (q u).length

section Runs

variable [DecidableEq ι] [Fintype ι]

/-- Call after call, the vectors are the queues, both numbers are right, and what is returned is
what the queues return. -/
def Events.Follows (s : Events ι) (q : Pending ι) : List (EventCall ι) → Prop
  | [] => s.Agrees q
  | call :: calls => s.Agrees q ∧
    ∃ s', s.step call = some (s', (q.step call).2) ∧ Events.Follows s' (q.step call).1 calls

/-- A push makes it fewer than 65536 events, and an event that is cancelled is there and is
cancelled already. -/
def Pending.CallOk (q : Pending ι) : EventCall ι → Prop
  | .push _ _ => q.total + 1 < 2 ^ 16
  | .cancel u index => ∃ e, (q u)[index.toNat]? = some e ∧ e.isCancelled = true
  | _ => True

def Pending.CallsOk (q : Pending ι) : List (EventCall ι) → Prop
  | [] => True
  | call :: calls => q.CallOk call ∧ Pending.CallsOk (q.step call).1 calls

/-! ## One call -/

/-- Moving the events behind an index forward and dropping the last one removes the one at the
index. -/
theorem Events.moveDown_eq {m : List UserEvent} {fuel : ℕ} {i : UInt16} (hm : m.length < 2 ^ 16)
    (hi : i.toNat < m.length) (hfuel : m.length - i.toNat < fuel) :
    ∃ m', moveDown fuel i m = some m' ∧ m'.dropLast = m.eraseIdx i.toNat := by
  induction fuel generalizing i m with
  | zero => exact absurd hfuel (Nat.not_lt_zero _)
  | succ fuel ih =>
    rw [moveDown]
    by_cases hlast : i.toNat < m.length - 1
    · have hnext : i.toNat + 1 < m.length := by omega
      have hi' : (i + 1).toNat = i.toNat + 1 := by
        rw [UInt16.toNat_add]
        exact mod_eq_of_lt (by
          change i.toNat + 1 < 2 ^ 16
          omega)
      rw [if_pos hlast, getElem?_eq_getElem hnext]
      have hset : (m.set i.toNat m[i.toNat + 1]).length = m.length := length_set
      obtain ⟨m', hmove, hdrop⟩ := @ih (m.set i.toNat m[i.toNat + 1]) (i + 1) (by omega) (by omega)
        (by omega)
      refine ⟨m', hmove, ?_⟩
      rw [hdrop, hi']
      refine ext_getElem? fun k => ?_
      rw [getElem?_eraseIdx, getElem?_eraseIdx, getElem?_set, getElem?_set]
      -- the event behind the index is now at the index, and is the one that goes next
      rcases Nat.lt_trichotomy k i.toNat with hk | rfl | hk
      · rw [if_pos (by omega), if_neg (by omega), if_pos hk]
      · rw [if_pos (by omega), if_pos rfl, if_pos hi, if_neg (Nat.lt_irrefl _),
          getElem?_eq_getElem hnext]
      · rw [if_neg (by omega), if_neg (by omega), if_neg (by omega)]
    · rw [if_neg hlast]
      refine ⟨m, rfl, ?_⟩
      have heq : i.toNat = m.length - 1 := by omega
      rw [heq, eraseIdx_length_sub_one]

omit [DecidableEq ι] in
theorem Pending.length_le_total (q : Pending ι) (u : ι) : (q u).length ≤ q.total :=
  single_le_sum (fun v _ => Nat.zero_le (q v).length) (mem_univ u)

/-- The number of all events, when those of one user change. -/
theorem Pending.total_update (q : Pending ι) (u : ι) (m : List UserEvent) :
    Pending.total (Function.update q u m) + (q u).length = q.total + m.length := by
  have hrest : ∑ v ∈ univ.erase u, (update q u m v).length =
      ∑ v ∈ univ.erase u, (q v).length :=
    sum_congr rfl fun v hv => by rw [update_of_ne (ne_of_mem_erase hv)]
  rw [total, total, ← add_sum_erase _ _ (mem_univ u),
    ← add_sum_erase _ (fun v => (q v).length) (mem_univ u), hrest,
    update_self]
  omega

namespace Events.Agrees

variable {s : Events ι} {q : Pending ι}

omit [DecidableEq ι] in
theorem total_lt (h : s.Agrees q) : q.total < 2 ^ 16 := by
  rw [← h.numUserEvents]
  exact s.numUserEvents.toNat_lt

omit [DecidableEq ι] in
theorem length_lt (h : s.Agrees q) (u : ι) : (q u).length < 2 ^ 16 :=
  (q.length_le_total u).trans_lt h.total_lt

omit [DecidableEq ι] in
theorem newMessages (h : s.Agrees q) (u : ι) : (s.newMessages u).toNat = (q u).length := by
  rw [Events.newMessages, h.messages]
  exact UInt16.toNat_ofNat_of_lt' (h.length_lt u)

/-- A vector is stored with the right number of all events. -/
theorem store (h : s.Agrees q) {u : ι} {m : List UserEvent} {n : UInt16}
    (hm : m.length < 2 ^ 16) (hn : n.toNat + (q u).length = q.total + m.length) :
    (s.store u m n).Agrees (Function.update q u m) where
  messages := by rw [Events.store, h.messages]
  numUserEvents := by
    have htotal := q.total_update u m
    change n.toNat = _
    omega
  saved := by
    intro v
    change (update s.saved u (UInt16.ofNat m.length) v).toNat =
      (update q u m v).length
    by_cases hv : v = u
    · rw [hv, update_self, update_self]
      exact UInt16.toNat_ofNat_of_lt' hm
    · rw [update_of_ne hv, update_of_ne hv]
      exact h.saved v

/-- A vector from which one event has been removed. -/
theorem store_erased (h : s.Agrees q) {u : ι} {m : List UserEvent}
    (hm : m.length + 1 = (q u).length) :
    (s.store u m (s.numUserEvents - 1)).Agrees (Function.update q u m) := by
  have hlt := h.length_lt u
  have hle := q.length_le_total u
  refine h.store (by omega) ?_
  have hpos : (1 : UInt16) ≤ s.numUserEvents := by
    rw [UInt16.le_iff_toNat_le, h.numUserEvents]
    change 1 ≤ _
    omega
  rw [UInt16.toNat_sub_of_le _ _ hpos, h.numUserEvents]
  change q.total - 1 + _ = _
  omega

end Events.Agrees

/-- A call that leaves the vectors as they are. -/
theorem Events.step_update_eq {s : Events ι} {q : Pending ι} (h : s.Agrees q) {u : ι}
    {m : List UserEvent} (hm : m = q u) : s.Agrees (Function.update q u m) := by
  rw [hm, update_eq_self]
  exact h

/-- **A push.** -/
theorem Events.eventPush_iff {s : Events ι} {q : Pending ι} (h : s.Agrees q) (u : ι)
    (e : UserEvent) :
    (s.eventPush u e).Agrees (Function.update q u (q u ++ [e])) ↔ q.total + 1 < 2 ^ 16 := by
  have hlen : (q u ++ [e]).length = (q u).length + 1 := length_append
  constructor
  · intro hpush
    have htotal := q.total_update u (q u ++ [e])
    have hlt := hpush.total_lt
    omega
  · intro hlt
    have hle := q.length_le_total u
    have hsum : (s.numUserEvents + 1).toNat = q.total + 1 := by
      rw [UInt16.toNat_add, h.numUserEvents]
      exact mod_eq_of_lt hlt
    rw [eventPush, h.messages]
    exact h.store (by omega) (by omega)

/-- Removing the event at an index. -/
theorem Events.exists_moveDown {s : Events ι} {q : Pending ι} (h : s.Agrees q) {u : ι}
    {index : UInt16} (hindex : index.toNat < (q u).length) :
    ∃ m, moveDown ((q u).length + 1) index (q u) = some m ∧
      (s.store u m.dropLast (s.numUserEvents - 1)).Agrees
        (Function.update q u ((q u).eraseIdx index.toNat)) := by
  obtain ⟨m, hmove, hdrop⟩ := @moveDown_eq (q u) ((q u).length + 1) index (h.length_lt u) hindex
    (by omega)
  refine ⟨m, hmove, ?_⟩
  rw [hdrop]
  refine h.store_erased ?_
  rw [length_eraseIdx_of_lt hindex]
  omega

theorem Events.exists_eventPop {s : Events ι} {q : Pending ι} (h : s.Agrees q) (u : ι) :
    ∃ s', s.eventPop u = some (s', (q u).head?) ∧ s'.Agrees (Function.update q u (q u).tail) := by
  rw [eventPop, h.messages]
  cases hq : q u with
  | nil => exact ⟨s, rfl, step_update_eq h hq.symm⟩
  | cons e m =>
    have hzero : (0 : UInt16).toNat < (q u).length := by
      rw [hq]
      exact succ_pos _
    obtain ⟨m', hmove, hagrees⟩ := exists_moveDown h hzero
    rw [hq] at hmove hagrees
    simp only [head?_cons, hmove]
    exact ⟨_, rfl, hagrees⟩

theorem Events.exists_eventClear {s : Events ι} {q : Pending ι} (h : s.Agrees q) (u : ι)
    (index : UInt16) : ∃ s', s.eventClear u index = some s' ∧
      s'.Agrees (Function.update q u ((q u).eraseIdx index.toNat)) := by
  rw [eventClear, h.messages]
  by_cases hindex : index.toNat < (q u).length
  · obtain ⟨m, hmove, hagrees⟩ := exists_moveDown h hindex
    rw [if_neg (by omega), hmove]
    exact ⟨_, rfl, hagrees⟩
  · rw [if_pos (by omega)]
    exact ⟨s, rfl, step_update_eq h (eraseIdx_of_length_le (by omega))⟩

theorem Events.eventClearId_agrees {s : Events ι} {q : Pending ι} (h : s.Agrees q) (u : ι)
    (id : ℤ) :
    (s.eventClearId u id).Agrees (Function.update q u ((q u).eraseP (·.id == id))) := by
  rw [eventClearId, h.messages]
  cases hfind : (q u).findIdx? (·.id == id) with
  | none =>
    refine step_update_eq h (eraseP_of_forall_not fun e he => ?_)
    rw [findIdx?_eq_none_iff.mp hfind e he]
    exact Bool.false_ne_true
  | some i =>
    obtain ⟨hi, -, -⟩ := findIdx?_eq_some_iff_getElem.mp hfind
    have herase : (q u).eraseP (·.id == id) = (q u).eraseIdx i := by
      rw [eraseP_eq_eraseIdx, hfind]
    rw [herase]
    refine h.store_erased ?_
    rw [length_eraseIdx_of_lt hi]
    omega

/-- **Cancelling an event.**  With a valid index nothing is done, with another one the vector is
accessed outside. -/
theorem Events.cancelEvent_eq {s : Events ι} {q : Pending ι} (h : s.Agrees q) (u : ι)
    (index : UInt16) :
    s.cancelEvent u index = if index.toNat < (q u).length then some s else none := by
  have hvalid : index < s.newMessages u ↔ index.toNat < (q u).length := by
    rw [UInt16.lt_iff_toNat_lt, h.newMessages]
  rw [cancelEvent, h.messages]
  by_cases hindex : index.toNat < (q u).length
  · rw [if_pos (hvalid.mpr hindex), if_pos hindex]
  · rw [if_neg (mt hvalid.mp hindex), if_neg hindex, getElem?_eq_none (by omega)]

theorem UserEvent.modify_cancel_eq_iff {m : List UserEvent} {i : ℕ} (hi : i < m.length) :
    m.modify i cancel = m ↔ m[i].isCancelled = true := by
  rw [← cancel_eq_self_iff]
  constructor
  · intro h
    have hget := congrArg (·[i]?) h
    simp only [getElem?_modify_eq, getElem?_eq_getElem hi, Option.map_eq_map,
      Option.map_some, Option.some.injEq] at hget
    exact hget
  · intro h
    refine ext_getElem? fun k => ?_
    by_cases hk : i = k
    · subst hk
      rw [getElem?_modify_eq, getElem?_eq_getElem hi, Option.map_eq_map, Option.map_some,
        h]
    · rw [getElem?_modify_ne _ _ hk]

theorem Events.cancelEvent_iff {s : Events ι} {q : Pending ι} (h : s.Agrees q) (u : ι)
    (index : UInt16) :
    (∃ s', s.cancelEvent u index = some s' ∧
      s'.Agrees (Function.update q u ((q u).modify index.toNat UserEvent.cancel))) ↔
      ∃ e, (q u)[index.toNat]? = some e ∧ e.isCancelled = true := by
  rw [cancelEvent_eq h]
  by_cases hindex : index.toNat < (q u).length
  · have hsame := UserEvent.modify_cancel_eq_iff hindex
    rw [if_pos hindex, getElem?_eq_getElem hindex]
    constructor
    · rintro ⟨s', hs, hagrees⟩
      cases hs
      refine ⟨_, rfl, hsame.mp ?_⟩
      have hq := congrFun (h.messages.symm.trans hagrees.messages) u
      rw [update_self] at hq
      exact hq.symm
    · rintro ⟨e, he, hcancelled⟩
      cases he
      exact ⟨s, rfl, step_update_eq h (hsame.mpr hcancelled)⟩
  · rw [if_neg hindex, getElem?_eq_none (by omega)]
    exact ⟨fun ⟨_, hs, _⟩ => (by cases hs), fun ⟨_, he, _⟩ => (by cases he)⟩

/-- **One call.**  Where the vectors are the queues, a call keeps them so and returns what the
queues return if and only if it is one of those that the code gets right. -/
theorem Events.step_iff {s : Events ι} {q : Pending ι} (h : s.Agrees q) (call : EventCall ι) :
    (∃ s', s.step call = some (s', (q.step call).2) ∧ s'.Agrees (q.step call).1) ↔
      q.CallOk call := by
  cases call with
  | push u e =>
    rw [Pending.CallOk, ← eventPush_iff h u e]
    constructor
    · rintro ⟨s', hs, hagrees⟩
      cases hs
      exact hagrees
    · exact fun hagrees => ⟨_, rfl, hagrees⟩
  | pop u => exact ⟨fun _ => trivial, fun _ => exists_eventPop h u⟩
  | peekId u id =>
    refine ⟨fun _ => trivial, fun _ => ⟨s, ?_, h⟩⟩
    rw [step, eventPeekId, h.messages]
    rfl
  | clear u index =>
    refine ⟨fun _ => trivial, fun _ => ?_⟩
    obtain ⟨s', hclear, hagrees⟩ := exists_eventClear h u index
    exact ⟨s', by rw [step, hclear]; rfl, hagrees⟩
  | clearId u id => exact ⟨fun _ => trivial, fun _ => ⟨_, rfl, eventClearId_agrees h u id⟩⟩
  | cancel u index =>
    rw [Pending.CallOk, ← cancelEvent_iff h u index]
    constructor
    · rintro ⟨s', hs, hagrees⟩
      rw [step] at hs
      obtain ⟨s'', hcancel, hpair⟩ := Option.map_eq_some_iff.mp hs
      cases hpair
      exact ⟨s', hcancel, hagrees⟩
    · rintro ⟨s', hcancel, hagrees⟩
      exact ⟨s', by rw [step, hcancel]; rfl, hagrees⟩

/-! ## Runs -/

theorem Events.follows_agrees {s : Events ι} {q : Pending ι} {calls : List (EventCall ι)}
    (h : s.Follows q calls) : s.Agrees q := by
  cases calls with
  | nil => exact h
  | cons call calls => exact h.1

theorem Events.follows_iff_of_agrees {s : Events ι} {q : Pending ι} (h : s.Agrees q)
    (calls : List (EventCall ι)) : s.Follows q calls ↔ q.CallsOk calls := by
  induction calls generalizing s q with
  | nil => exact ⟨fun _ => trivial, fun _ => h⟩
  | cons call calls ih =>
    rw [Follows, Pending.CallsOk, ← step_iff h call]
    constructor
    · rintro ⟨-, s', hstep, hfollows⟩
      have hagrees := follows_agrees hfollows
      exact ⟨⟨s', hstep, hagrees⟩, (ih hagrees).mp hfollows⟩
    · rintro ⟨⟨s', hstep, hagrees⟩, hok⟩
      exact ⟨h, s', hstep, (ih hagrees).mpr hok⟩

omit [DecidableEq ι] in
theorem Events.init_agrees : (init : Events ι).Agrees fun _ => [] where
  messages := rfl
  numUserEvents := by
    exact (Finset.sum_eq_zero fun _ _ => rfl).symm
  saved _ := rfl

/-- **Every run of calls on any number of users.** -/
theorem Events.follows_iff (calls : List (EventCall ι)) :
    (init : Events ι).Follows (fun _ => []) calls ↔ Pending.CallsOk (fun _ => []) calls :=
  follows_iff_of_agrees init_agrees calls

/-- The first event is not cancelled. -/
theorem Events.not_follows_cancelFirst :
    ¬ (init : Events Unit).Follows (fun _ => []) [.push () ⟨1, 0⟩, .cancel () 0] := by
  rintro ⟨-, s', hpush, -, s'', hcancel, hagrees⟩
  cases hpush
  cases hcancel
  exact absurd (congrFun hagrees.messages ()) (by decide)

end Runs

end Licq
