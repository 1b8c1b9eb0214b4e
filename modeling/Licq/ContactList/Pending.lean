import Licq.Data.Steps
import Licq.History.Events
import Mathlib.Data.List.DropRight
import Mathlib.Data.List.Infix
import Mathlib.Data.List.InsertIdx

/-!
# ContactList/Pending — the new events of a contact over a restart

A contact has a queue of events that nobody has read.  Its file has their number, and the events are
taken from the end of its history when the contact is loaded.  The history has every event of both
directions, also those that never come to the queue, so the queue comes back only as long as its
events are the last of the history: `good_iff_of_saved`.  The main result is `stays_good_iff_of_saved`.
-/

/-! ## The end of a list -/

namespace List

variable {α : Type*} {q l : List α} {a : α}

theorem cons_eq_concat_iff {x : α} {t : List α} : x :: t = t ++ [a] ↔ ∀ y ∈ x :: t, y = a := by
  rw [List.forall_mem_cons]
  induction t generalizing x with
  | nil => simp
  | cons y t ih =>
    rw [List.cons_append, List.cons.injEq, ih, List.forall_mem_cons]
    constructor
    · rintro ⟨rfl, rfl, hall⟩
      exact ⟨rfl, rfl, hall⟩
    · rintro ⟨rfl, rfl, hall⟩
      exact ⟨rfl, rfl, hall⟩

/-- **Something is put behind the end of a list**: what was at its end is so still only when all of
that is the same. -/
theorem suffix_concat_iff_of_suffix (h : q <:+ l) : q <:+ l ++ [a] ↔ ∀ x ∈ q, x = a := by
  cases q with
  | nil => simp
  | cons x t =>
    rw [← List.cons_eq_concat_iff]
    refine ⟨fun h' => ?_, fun heq => ?_⟩
    · obtain ⟨t', ht', hsuffix⟩ := (List.suffix_concat_iff.mp h').resolve_left (List.cons_ne_nil x t)
      have hlength := congrArg List.length ht'
      rw [List.length_cons, List.length_append, List.length_singleton] at hlength
      have ht : t <:+ l := (List.suffix_cons x t).trans h
      have htt : t = t' :=
        (List.suffix_of_suffix_length_le ht hsuffix (by omega)).eq_of_length (by omega)
      rw [ht', htt]
    · rw [heq]
      exact List.suffix_append_self_iff.mpr ((List.suffix_cons x t).trans h)

theorem eraseIdx_cons_eq_iff {x : α} {t : List α} {i : ℕ} (hi : i < (x :: t).length) :
    (x :: t).eraseIdx i = t ↔ ∀ y ∈ (x :: t).take i, (x :: t)[i]? = some y := by
  induction i generalizing x t with
  | zero => simp
  | succ i ih =>
    cases t with
    | nil => simp at hi
    | cons y t =>
      rw [List.eraseIdx_cons_succ, List.cons.injEq, ih (by simpa using hi), List.take_succ_cons,
        List.forall_mem_cons, List.getElem?_cons_succ]
      constructor
      · rintro ⟨rfl, hall⟩
        refine ⟨?_, hall⟩
        cases i with
        | zero => rfl
        | succ i => exact hall x (by simp)
      · rintro ⟨hx, hall⟩
        refine ⟨?_, hall⟩
        cases i with
        | zero => exact (Option.some.inj hx).symm
        | succ i => exact Option.some.inj (hx.symm.trans (hall y (by simp)))

/-- **Something is taken out of the end of a list**: what is left is at its end still only when all
before it was the same. -/
theorem eraseIdx_suffix_iff (h : q <:+ l) {i : ℕ} (hi : i < q.length) :
    q.eraseIdx i <:+ l ↔ ∀ x ∈ q.take i, q[i]? = some x := by
  cases q with
  | nil => simp at hi
  | cons x t =>
    rw [← List.eraseIdx_cons_eq_iff hi]
    have ht : t <:+ l := (List.suffix_cons x t).trans h
    have hlength : ((x :: t).eraseIdx i).length = t.length := by
      rw [List.length_eraseIdx_of_lt hi, List.length_cons, Nat.add_sub_cancel]
    constructor
    · exact fun h' => (List.suffix_of_suffix_length_le h' ht hlength.le).eq_of_length hlength
    · intro heq
      rw [heq]
      exact ht

end List

namespace Licq.Pending

open History (Event)

/-! ## The files of a contact -/

/-- `FilterRule`'s actions -/
inductive FilterAction
  | accept
  | silent
  | ignore
  deriving DecidableEq

/-- What an entry of the history has of an event: the direction that it is written with.  There is
none where `AddToHistory` writes nothing. -/
def entry (e : Event) (isReceiver : Bool) : Option Event :=
  (e.addToHistory isReceiver).map fun _ =>
    { e with nFlags := if isReceiver then e.nFlags - (e.nFlags &&& History.flagSender)
                       else e.nFlags ||| History.flagSender }

/-- A history file from which exactly that is read which has been written. -/
structure Codec where
  File : Type
  /-- `AddToHistory` -/
  append : Event → Bool → File → File
  /-- `UserHistory::load` -/
  load : File → List Event
  load_append : ∀ e isReceiver file,
    load (append e isReceiver file) = load file ++ (entry e isReceiver).toList
  /-- An event that is read is of a type that is written. -/
  load_written : ∀ file, ∀ e ∈ load file, ∀ isReceiver, e.addToHistory isReceiver ≠ none

/-- A contact: the number of new messages in its file, its history, and its new events, each with its
identifier. -/
structure State (codec : Codec) where
  newMessages : ℕ
  history : codec.File
  m_vcMessages : List (ℤ × Event)

namespace State

variable {codec : Codec}

/-- The queue of new events. -/
def events (s : State codec) : List Event := s.m_vcMessages.map Prod.snd

/-- `saveNewMessagesInfo`, of a number in 16 bits. -/
def saveNewMessagesInfo (s : State codec) : State codec :=
  { s with newMessages := s.m_vcMessages.length % 2 ^ 16 }

/-! ## Loading -/

/-- The loop that goes back from the end of the history. -/
def stepBack : ℕ → ℕ → ℕ
  | 0, it => it
  | _ + 1, 0 => 0
  | nNewMessages + 1, it + 1 => stepBack nNewMessages it

/-- The new events that `loadLicqInfo` gives a contact.  The events that are read have identifiers of
their own. -/
def loadLicqInfo (nNewMessages : ℕ) (history : codec.File) (nId : ℕ → ℤ) : State codec :=
  let hist := codec.load history
  let it := if hist.length < nNewMessages then 0 else stepBack nNewMessages hist.length
  ⟨nNewMessages, history,
    if 0 < nNewMessages then (hist.drop it).mapIdx fun i e => (nId i, e) else []⟩

/-- The contact is destroyed, which writes nothing, and loaded again. -/
def restart (s : State codec) (nId : ℕ → ℤ) : State codec := loadLicqInfo s.newMessages s.history nId

/-! ## Events come and go -/

/-- `EventPush` -/
def EventPush (s : State codec) (nId : ℤ) (e : Event) : State codec :=
  { s with m_vcMessages := s.m_vcMessages ++ [(nId, e)] }.saveNewMessagesInfo

/-- `EventPop`; none where its loop never ends, because its counter has 16 bits. -/
def EventPop (s : State codec) : Option (Option (ℤ × Event) × State codec) :=
  match s.m_vcMessages with
  | [] => some (none, s)
  | e :: rest =>
    if 2 ^ 16 < s.m_vcMessages.length then none
    else some (some e, { s with m_vcMessages := rest }.saveNewMessagesInfo)

/-- `EventClear`; none where its loop never ends. -/
def EventClear (s : State codec) (index : UInt16) : Option (State codec) :=
  if s.m_vcMessages.length ≤ index.toNat then some s
  else if 2 ^ 16 < s.m_vcMessages.length then none
  else some { s with m_vcMessages := s.m_vcMessages.eraseIdx index.toNat }.saveNewMessagesInfo

/-- The first event with the identifier. -/
def findId (s : State codec) (nId : ℤ) : ℕ := s.m_vcMessages.findIdx (·.1 = nId)

/-- `EventClearId` -/
def EventClearId (s : State codec) (nId : ℤ) : State codec :=
  if s.findId nId < s.m_vcMessages.length then
    { s with m_vcMessages := s.m_vcMessages.eraseIdx (s.findId nId) }.saveNewMessagesInfo
  else s

/-- `AddToHistory` -/
def addToHistory (s : State codec) (e : Event) (isReceiver : Bool) : State codec :=
  { s with history := codec.append e isReceiver s.history }

end State

def flagMultiRec : ℕ := 0x00020000

def ignoreMassMsg : ℕ := 1

def ignoreEmailPager : ℕ := 4

def ignoreWebPanel : ℕ := 8

/-- Whether the daemon ignores events of this kind. -/
def ignored (e : Event) (myIgnoreTypes : ℕ) : Prop :=
  (e.nFlags &&& flagMultiRec ≠ 0 ∧ myIgnoreTypes &&& ignoreMassMsg ≠ 0) ∨
    (e.body.eventType = 0x000E ∧ myIgnoreTypes &&& ignoreEmailPager ≠ 0) ∨
    (e.body.eventType = 0x000D ∧ myIgnoreTypes &&& ignoreWebPanel ≠ 0)

instance (e : Event) (myIgnoreTypes : ℕ) : Decidable (ignored e myIgnoreTypes) :=
  inferInstanceAs (Decidable (_ ∨ _ ∨ _))

/-- `Daemon::addUserEvent` for a contact, and what the filter says of the event. -/
def State.addUserEvent {codec : Codec} (s : State codec) (nId : ℤ) (e : Event)
    (filteraction : FilterAction) (myIgnoreTypes : ℕ) : State codec :=
  if filteraction = .ignore then s
  else if filteraction = .silent then s.addToHistory e true
  else if ignored e myIgnoreTypes then s.addToHistory e true
  else (s.addToHistory e true).EventPush nId e

/-! ## Runs -/

/-- What happens to a contact. -/
inductive Action
  | receive (nId : ℤ) (e : Event) (filteraction : FilterAction) (myIgnoreTypes : ℕ)
  | send (e : Event)
  | pop
  | clear (index : UInt16)
  | clearId (nId : ℤ)
  | restart (nId : ℕ → ℤ)

namespace State

variable {codec : Codec}

def step (s : State codec) : Action → Option (State codec)
  | .receive nId e filteraction myIgnoreTypes =>
    some (s.addUserEvent nId e filteraction myIgnoreTypes)
  | .send e => some (s.addToHistory e false)
  | .pop => s.EventPop.map Prod.snd
  | .clear index => s.EventClear index
  | .clearId nId => some (s.EventClearId nId)
  | .restart nId => some (s.restart nId)

/-- A contact that is loaded again has the queue that it had. -/
def Good (s : State codec) : Prop := ∀ nId, (s.restart nId).events = s.events

/-- The file has the number of new events. -/
def Saved (s : State codec) : Prop := s.newMessages = s.m_vcMessages.length % 2 ^ 16

/-- All new events are the same as the one that is written to the history. -/
def Logs (s : State codec) (e : Event) (isReceiver : Bool) : Prop :=
  ∀ e' ∈ entry e isReceiver, ∀ x ∈ s.events, x = e'

/-- All events before the one that goes are the same as it. -/
def Clears (s : State codec) (index : ℕ) : Prop :=
  index < s.events.length → ∀ x ∈ s.events.take index, s.events[index]? = some x

/-- An event that is received comes to a queue that has room for it, and is one that the history has;
one that only the history gets, and one that is sent, finds no other new event; and it is the first of
the new events that is read. -/
def Ok (s : State codec) : Action → Prop
  | .receive _ e filteraction myIgnoreTypes =>
    if filteraction = .ignore then True
    else if filteraction = .silent ∨ ignored e myIgnoreTypes then s.Logs e true
    else e.isReceiver = true ∧ e.addToHistory true ≠ none ∧ s.events.length + 1 < 2 ^ 16
  | .send e => s.Logs e false
  | .pop => True
  | .clear index => s.Clears index.toNat
  | .clearId nId => s.Clears (s.findId nId)
  | .restart _ => True

/-! ## What is loaded -/

theorem stepBack_eq (nNewMessages it : ℕ) : stepBack nNewMessages it = it - nNewMessages := by
  induction nNewMessages generalizing it with
  | zero => rw [stepBack, Nat.sub_zero]
  | succ n ih =>
    cases it with
    | zero => rw [stepBack, Nat.zero_sub]
    | succ it => rw [stepBack, ih, Nat.add_sub_add_right]

theorem map_mapIdx (hist : List Event) (nId : ℕ → ℤ) :
    (hist.mapIdx fun i e => (nId i, e)).map Prod.snd = hist := by
  refine List.ext_getElem (by simp) fun i h1 h2 => ?_
  simp

/-- **What is loaded** is the end of the history. -/
theorem events_restart (s : State codec) (nId : ℕ → ℤ) :
    (s.restart nId).events = (codec.load s.history).rtake s.newMessages := by
  simp only [restart, loadLicqInfo, events]
  split_ifs with hpos hlt
  · rw [map_mapIdx, List.drop_zero, List.rtake, Nat.sub_eq_zero_of_le hlt.le, List.drop_zero]
  · rw [map_mapIdx, stepBack_eq, List.rtake]
  · rw [Nat.eq_zero_of_not_pos hpos, List.rtake_zero, List.map_nil]

theorem length_events (s : State codec) : s.events.length = s.m_vcMessages.length :=
  List.length_map _

/-- **When the queue comes back**: its events are the last of the history, and there are so few that
their number fits. -/
theorem good_iff_of_saved {s : State codec} (hs : s.Saved) :
    s.Good ↔ s.events <:+ codec.load s.history ∧ s.events.length < 2 ^ 16 := by
  have hgood : s.Good ↔
      (codec.load s.history).rtake (s.events.length % 2 ^ 16) = s.events := by
    rw [length_events, ← hs]
    refine ⟨fun h => ?_, fun h nId => ?_⟩
    · rw [← events_restart s fun _ => 0]
      exact h _
    · rw [events_restart]
      exact h
  rw [hgood]
  constructor
  · intro h
    have hlength := congrArg List.length h
    rw [List.rtake, List.length_drop] at hlength
    have hmod := Nat.mod_lt s.events.length (show 0 < 2 ^ 16 by decide)
    refine ⟨?_, by omega⟩
    rw [← h]
    exact List.drop_suffix _ _
  · rintro ⟨hsuffix, hlt⟩
    rw [Nat.mod_eq_of_lt hlt, List.rtake]
    exact (List.suffix_iff_eq_drop.mp hsuffix).symm

/-! ## One step -/

variable {s s' : State codec}

theorem saved_saveNewMessagesInfo (s : State codec) : s.saveNewMessagesInfo.Saved := rfl

/-- **An entry is written**, for which the queue stays as it is. -/
theorem good_addToHistory (hs : s.Saved) (h : s.Good) (e : Event) (isReceiver : Bool) :
    (s.addToHistory e isReceiver).Good ↔ s.Logs e isReceiver := by
  obtain ⟨hsuffix, hlt⟩ := (good_iff_of_saved hs).mp h
  have hs' : (s.addToHistory e isReceiver).Saved := hs
  have hevents : (s.addToHistory e isReceiver).events = s.events := rfl
  have hload : codec.load (s.addToHistory e isReceiver).history = _ :=
    codec.load_append e isReceiver s.history
  rw [good_iff_of_saved hs', hevents, hload, and_iff_left hlt, Logs]
  cases hentry : entry e isReceiver with
  | none => simpa using hsuffix
  | some e' =>
    rw [Option.toList_some, List.suffix_concat_iff_of_suffix hsuffix]
    simp

/-- The entry of an event that is received is the event itself when it is marked so. -/
theorem entry_eq_self_iff {e e' : Event} (h : entry e true = some e') :
    e' = e ↔ e.isReceiver = true := by
  rw [entry, Option.map_eq_some_iff] at h
  obtain ⟨-, -, rfl⟩ := h
  obtain ⟨nFlags, tTime, body⟩ := e
  have hle : nFlags &&& History.flagSender ≤ nFlags := Nat.and_le_left
  simp only [Event.mk.injEq, and_true, if_true, Event.isReceiver, decide_eq_true_eq]
  omega

/-- **An event that is written comes to the queue.** -/
theorem good_push (hs : s.Saved) (h : s.Good) (nId : ℤ) (e : Event) :
    ((s.addToHistory e true).EventPush nId e).Good ↔
      e.isReceiver = true ∧ e.addToHistory true ≠ none ∧ s.events.length + 1 < 2 ^ 16 := by
  obtain ⟨hsuffix, hlt⟩ := (good_iff_of_saved hs).mp h
  have hevents : ((s.addToHistory e true).EventPush nId e).events = s.events ++ [e] := by
    simp [EventPush, events, saveNewMessagesInfo, addToHistory]
  have hload : codec.load ((s.addToHistory e true).EventPush nId e).history = _ :=
    codec.load_append e true s.history
  have hs' : ((s.addToHistory e true).EventPush nId e).Saved := saved_saveNewMessagesInfo _
  rw [good_iff_of_saved hs', hevents, hload, List.length_append, List.length_singleton, ← and_assoc]
  refine and_congr_left fun _ => ?_
  cases hentry : entry e true with
  | none =>
    have hnone : e.addToHistory true = none := Option.map_eq_none_iff.mp hentry
    rw [Option.toList_none, List.append_nil]
    refine ⟨fun h' => absurd hnone ?_, fun h' => absurd hnone h'.2⟩
    exact codec.load_written s.history e (h'.subset (by simp)) true
  | some e' =>
    have hwritten : e.addToHistory true ≠ none := by
      intro hnone
      rw [entry, hnone] at hentry
      cases hentry
    rw [Option.toList_some, and_iff_left hwritten, ← entry_eq_self_iff hentry]
    constructor
    · intro h'
      obtain ⟨t, ht⟩ := h'
      rw [← List.append_assoc] at ht
      exact (List.cons.inj (List.append_inj_right' ht rfl)).1.symm
    · rintro rfl
      exact List.suffix_append_self_iff.mpr hsuffix

/-- **An event leaves the queue.** -/
theorem good_eraseIdx (hs : s.Saved) (h : s.Good) {index : ℕ} (hi : index < s.m_vcMessages.length) :
    ({ s with m_vcMessages := s.m_vcMessages.eraseIdx index } : State codec).saveNewMessagesInfo.Good ↔
      s.Clears index := by
  obtain ⟨hsuffix, hlt⟩ := (good_iff_of_saved hs).mp h
  rw [← length_events] at hi
  have hevents : ({ s with m_vcMessages := s.m_vcMessages.eraseIdx index } :
      State codec).saveNewMessagesInfo.events = s.events.eraseIdx index := by
    exact (List.eraseIdx_map ..).symm
  have hlength : (s.events.eraseIdx index).length < 2 ^ 16 :=
    (List.length_eraseIdx_le _ _).trans_lt hlt
  rw [good_iff_of_saved (saved_saveNewMessagesInfo _), hevents, and_iff_left hlength]
  change _ <:+ codec.load s.history ↔ _
  rw [List.eraseIdx_suffix_iff hsuffix hi, Clears]
  exact ⟨fun hall _ => hall, fun hall => hall hi⟩

theorem lt_of_good (hs : s.Saved) (h : s.Good) : s.m_vcMessages.length < 2 ^ 16 := by
  rw [← length_events]
  exact ((good_iff_of_saved hs).mp h).2

theorem clears_zero (s : State codec) : s.Clears 0 := fun _ x hx => by simp at hx

theorem clears_of_le {index : ℕ} (h : s.m_vcMessages.length ≤ index) : s.Clears index :=
  fun hi => absurd (length_events s ▸ hi) h.not_gt

/-- **One step** keeps the queue exactly when its action meets the condition. -/
theorem good_step (hs : s.Saved) (h : s.Good) {a : Action} (hstep : s.step a = some s') :
    s'.Good ↔ s.Ok a := by
  cases a with
  | receive nId e filteraction myIgnoreTypes =>
    cases hstep
    rw [addUserEvent, Ok]
    split_ifs with hignore hsilent hcond hignored hcond hcond
    · exact iff_of_true h trivial
    · exact good_addToHistory hs h e true
    · exact absurd (.inl hsilent) hcond
    · exact good_addToHistory hs h e true
    · exact absurd (.inr hignored) hcond
    · exact absurd hcond (not_or.mpr ⟨hsilent, hignored⟩)
    · exact good_push hs h nId e
  | send e =>
    cases hstep
    exact good_addToHistory hs h e false
  | pop =>
    have hlt := lt_of_good hs h
    rw [step, EventPop] at hstep
    split at hstep
    · cases hstep
      exact iff_of_true h trivial
    · rename_i e rest hmessages
      rw [if_neg (by omega)] at hstep
      cases hstep
      have hgood := (good_eraseIdx hs h (show 0 < s.m_vcMessages.length by
        rw [hmessages]
        exact Nat.succ_pos _)).mpr (clears_zero s)
      simp only [hmessages, List.eraseIdx_cons_zero] at hgood
      exact iff_of_true hgood trivial
  | clear index =>
    have hlt := lt_of_good hs h
    rw [step, EventClear] at hstep
    split_ifs at hstep with hindex hlong
    · cases hstep
      exact iff_of_true h (clears_of_le hindex)
    · cases hstep
      exact good_eraseIdx hs h (not_le.mp hindex)
  | clearId nId =>
    cases hstep
    rw [EventClearId]
    split_ifs with hindex
    · exact good_eraseIdx hs h hindex
    · exact iff_of_true h (clears_of_le (not_lt.mp hindex))
  | restart nId =>
    cases hstep
    refine iff_of_true (fun nId' => ?_) trivial
    rw [h nId]
    exact h nId'

/-- **One step** leaves the number of the new events in the file. -/
theorem saved_step (hs : s.Saved) (h : s.Good) {a : Action} (hstep : s.step a = some s') :
    s'.Saved := by
  cases a with
  | receive nId e filteraction myIgnoreTypes =>
    cases hstep
    rw [addUserEvent]
    split_ifs
    · exact hs
    · exact hs
    · exact hs
    · exact saved_saveNewMessagesInfo _
  | send e =>
    cases hstep
    exact hs
  | pop =>
    rw [step, EventPop] at hstep
    split at hstep
    · cases hstep
      exact hs
    · split_ifs at hstep
      · cases hstep
      · cases hstep
        exact saved_saveNewMessagesInfo _
  | clear index =>
    rw [step, EventClear] at hstep
    split_ifs at hstep
    · cases hstep
      exact hs
    · cases hstep
      exact saved_saveNewMessagesInfo _
  | clearId nId =>
    cases hstep
    rw [EventClearId]
    split_ifs
    · exact saved_saveNewMessagesInfo _
    · exact hs
  | restart nId =>
    cases hstep
    have hlength := congrArg List.length (h nId)
    rw [length_events, length_events] at hlength
    rw [Saved, hlength]
    exact hs

/-- While the queue is good every step ends. -/
theorem step_ne_none (hs : s.Saved) (h : s.Good) (a : Action) : s.step a ≠ none := by
  have hlt := lt_of_good hs h
  cases a with
  | pop =>
    rw [step, EventPop]
    split
    · exact Option.some_ne_none _
    · rw [if_neg (by omega)]
      exact Option.some_ne_none _
  | clear index =>
    rw [step, EventClear]
    split_ifs
    · exact Option.some_ne_none _
    · omega
    · exact Option.some_ne_none _
  | _ => exact Option.some_ne_none _

/-- **New events over a restart.**  A run of a contact that begins with the queue that its files have
keeps that so exactly when every action meets the condition. -/
theorem stays_good_iff_of_saved (hs : s.Saved) (h : s.Good) (as : List Action) :
    Steps.Stays step Good s as ↔ Steps.Each step Ok s as :=
  Steps.stays_iff_each_of_inv (fun _ a h hs hnone => absurd hnone (step_ne_none hs h a))
    (fun _ _ _ h hs hstep => good_step hs h hstep)
    (fun _ _ _ h hs hstep _ => saved_step hs h hstep) h hs as

/-- A contact without new events. -/
def fresh (history : codec.File) : State codec := ⟨0, history, []⟩

/-- **New events over restarts.**  Whatever the history of a contact without new events, a run keeps
every queue that it comes to over a restart exactly when all its actions meet the condition. -/
theorem fresh_stays_iff (history : codec.File) (as : List Action) :
    Steps.Stays step Good (fresh history) as ↔ Steps.Each step Ok (fresh history) as := by
  have hs : (fresh history).Saved := rfl
  exact stays_good_iff_of_saved hs ((good_iff_of_saved hs).mpr ⟨List.nil_suffix, Nat.two_pow_pos 16⟩) as

end State

theorem addToHistory_isSome_iff (e : Event) (isReceiver : Bool) :
    (e.addToHistory isReceiver).isSome = true ↔ e.body.eventType ≠ 0x001F := by
  obtain ⟨nFlags, tTime, body⟩ := e
  cases body <;> simp [Event.addToHistory, History.Body.eventType]

/-- A history file that is the list of its entries. -/
def entries : Codec where
  File := List Event
  append e isReceiver file := file ++ (entry e isReceiver).toList
  load file := file.filter fun e => (e.addToHistory true).isSome
  load_append e isReceiver file := by
    rw [List.filter_append]
    congr 1
    refine List.filter_eq_self.mpr fun e' he' => ?_
    rw [Option.mem_toList, entry, Option.map_eq_some_iff] at he'
    obtain ⟨text, htext, rfl⟩ := he'
    exact (addToHistory_isSome_iff _ true).mpr
      ((addToHistory_isSome_iff e isReceiver).mp (Option.isSome_of_eq_some htext))
  load_written file e he isReceiver := by
    rw [List.mem_filter, addToHistory_isSome_iff] at he
    exact Option.isSome_iff_ne_none.mp ((addToHistory_isSome_iff e isReceiver).mpr he.2)

/-- Two messages come and the second is read first: after a restart it is the second that is new. -/
theorem not_stays_second_read :
    ¬ Steps.Stays State.step State.Good (State.fresh [] : State entries)
      [.receive 1 ⟨0, 1, .msg [0x61]⟩ .accept 0, .receive 2 ⟨0, 1, .msg [0x62]⟩ .accept 0,
        .clearId 2] := by
  intro h
  have hgood := h.foldlM rfl fun _ => 0
  exact absurd hgood (by decide +kernel)

end Licq.Pending
