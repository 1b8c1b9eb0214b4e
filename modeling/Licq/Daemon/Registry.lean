import Mathlib.Logic.Function.Basic
import Licq.Daemon.MainLoop

/-!
# Daemon/Registry — what a plugin has registered, and what it is told

The `Registry` is what the calls of a plugin say: which files and timeouts are registered, with
which callback, and how often a timeout has fired.  `Registry.Allows` says which events may be
delivered.  `Refines` ties the maps of the `MainLoop` to the registry; each step keeps it
(`refines_step`), so every run delivers what the registry allows (`follows_events`).
-/

namespace Licq

open Option SortedMap Function

/-! ## The registry -/

structure RegisteredFile (κ σ : Type*) where
  fd : ℤ
  callback : Option κ
  inetSocket : Option σ
  deriving DecidableEq

structure RegisteredTimeout (κ : Type*) where
  added : ℤ
  timeout : ℤ
  callback : Option κ
  once : Bool
  fired : ℕ
  deriving DecidableEq

structure Registry (κ σ : Type*) where
  files : ℤ → Option (RegisteredFile κ σ)
  timeouts : ℤ → Option (RegisteredTimeout κ)

/-- When a timeout fires next. -/
def RegisteredTimeout.deadline {κ : Type*} (t : RegisteredTimeout κ) : ℤ :=
  t.added + (t.fired + 1) * t.timeout

namespace Registry

variable {κ σ : Type*} [DecidableEq κ] [DecidableEq σ]

def empty : Registry κ σ := ⟨fun _ => none, fun _ => none⟩

/-- What a call registers and removes; a removed socket is not waited for any more, nor is its
descriptor. -/
def called (r : Registry κ σ) (clock : ℤ) : LoopCall κ σ → Registry κ σ
  | .addRawFile fd callback _ id =>
    { r with
      files := Function.update r.files (if id = -1 then fd else id) (some ⟨fd, callback, none⟩) }
  | .addSocket inetSocket fd callback _ id =>
    { r with
      files := Function.update r.files (if id = -1 then fd else id)
        (some ⟨fd, callback, inetSocket⟩) }
  | .removeFile id => { r with files := Function.update r.files id none }
  | .removeRawFile fd => { r with files := fun id => (r.files id).filter (·.fd ≠ fd) }
  | .removeSocket inetSocket fd =>
    { r with
      files := fun id => (r.files id).filter fun f => f.fd ≠ fd ∧ f.inetSocket ≠ inetSocket }
  | .addTimeout timeout callback id once =>
    { r with
      timeouts := Function.update r.timeouts id (some ⟨clock, timeout, callback, once, 0⟩) }
  | .removeTimeout id => { r with timeouts := Function.update r.timeouts id none }
  | .removeCallback callback =>
    { files := fun id => (r.files id).filter (·.callback ≠ callback)
      timeouts := fun id => (r.timeouts id).filter (·.callback ≠ callback) }
  | .getSocketFromFd _ => r
  | .quit => r

/-- The registry after an event. -/
def after (r : Registry κ σ) : LoopEvent κ σ → Registry κ σ
  | .called clock call => r.called clock call
  | .timeoutEvent _ id _ =>
    { r with
      timeouts := Function.update r.timeouts id
        ((r.timeouts id).map fun t => { t with fired := t.fired + 1 }) }
  | _ => r

/-- A callback is called for what is registered, with the callback of its last registration; a
timeout does not fire before its deadline, and once only if it is to fire once; a socket that is
found is registered. -/
def Allows (r : Registry κ σ) : LoopEvent κ σ → Prop
  | .called _ _ => True
  | .rawFileEvent callback id fd _ => r.files id = some ⟨fd, callback, none⟩
  | .socketEvent callback id inetSocket _ =>
    ∃ fd, r.files id = some ⟨fd, callback, some inetSocket⟩
  | .timeoutEvent callback id now =>
    ∃ t, r.timeouts id = some t ∧ t.callback = callback ∧ t.deadline ≤ now ∧
      (t.once → t.fired = 0)
  | .socketFromFd _ inetSocket =>
    inetSocket.isSome → ∃ id f, r.files id = some f ∧ f.inetSocket = inetSocket

/-- Every event is allowed when it happens. -/
def Follows : Registry κ σ → List (LoopEvent κ σ) → Prop
  | _, [] => True
  | r, event :: events => r.Allows event ∧ (r.after event).Follows events

end Registry

namespace MainLoop

variable {κ σ : Type*} [DecidableEq κ] [DecidableEq σ]

/-! ## What the maps register -/

def File.registered (f : File κ σ) : RegisteredFile κ σ := ⟨f.fd, f.callback, f.inetSocket⟩

/-- What the loop has registered for an id. -/
def file (m : MainLoop κ σ) (id : ℤ) : Option (RegisteredFile κ σ) :=
  ((m.myFiles.find? id).filter fun f => !f.removed).map File.registered

/-- The timeout of an id that is not removed. -/
def timeout (m : MainLoop κ σ) (id : ℤ) : Option (Timeout κ) :=
  (m.myTimeouts.find? id).filter fun t => !t.removed

/-- The timeout of the loop is the registered one. -/
def Matches (t : Timeout κ) (x : RegisteredTimeout κ) : Prop :=
  t.last = x.added + x.fired * x.timeout ∧ t.timeout = x.timeout ∧ t.callback = x.callback ∧
    t.once = x.once ∧ (x.once → x.fired = 0)

/-- **The loop and the registry.** -/
structure Refines (m : MainLoop κ σ) (r : Registry κ σ) : Prop where
  files : ∀ id, r.files id = m.file id
  timeouts : ∀ id t, m.timeout id = some t → ∃ x, r.timeouts id = some x ∧ Matches t x

variable {id now : ℤ} {after : Option ℤ}

omit [DecidableEq κ] [DecidableEq σ] in
theorem file_eq_some_iff {m : MainLoop κ σ} {x : RegisteredFile κ σ} :
    m.file id = some x ↔
      ∃ f, m.myFiles.find? id = some f ∧ f.removed = false ∧ File.registered f = x := by
  simp only [file, map_eq_some_iff, filter_eq_some_iff, Bool.not_eq_true', and_assoc]

omit [DecidableEq κ] [DecidableEq σ] in
theorem timeout_eq_some_iff {m : MainLoop κ σ} {t : Timeout κ} :
    m.timeout id = some t ↔ m.myTimeouts.find? id = some t ∧ t.removed = false := by
  simp only [timeout, filter_eq_some_iff, Bool.not_eq_true']

/-! ## The calls -/

omit [DecidableEq κ] [DecidableEq σ] in
theorem file_addFile {m m' : MainLoop κ σ} {fd : ℤ} {callback : Option κ} {inetSocket : Option σ}
    {events : ℤ} (h : m.addFile fd callback inetSocket events id = some m') :
    m'.file = Function.update m.file (if id = -1 then fd else id)
        (some ⟨fd, callback, inetSocket⟩) ∧
      m'.timeout = m.timeout := by
  rw [addFile] at h
  generalize (if id = -1 then fd else id) = id at h ⊢
  split at h
  case isFalse => cases h
  cases h
  refine ⟨funext fun k => ?_, rfl⟩
  by_cases hk : k = id
  · subst hk
    rw [update_self, file, find?_insert_self]
    rfl
  · rw [update_of_ne hk, file, find?_insert_of_ne _ _ hk, file]

omit [DecidableEq κ] [DecidableEq σ] in
theorem file_removeFile (m : MainLoop κ σ) (id : ℤ) :
    (m.removeFile id).file = Function.update m.file id none := by
  refine funext fun k => ?_
  by_cases hk : k = id
  · subst hk
    rw [update_self, file, removeFile, find?_insert_self]
    rfl
  · rw [update_of_ne hk, file, removeFile, find?_insert_of_ne _ _ hk, file]

omit [DecidableEq κ] [DecidableEq σ] in
/-- Marking some of the files, and changing nothing else, removes them. -/
theorem file_mapVals {m m' : MainLoop κ σ} {p : RegisteredFile κ σ → Bool}
    {mark : File κ σ → File κ σ} (hm : m'.myFiles = m.myFiles.mapVals fun _ f => mark f)
    (hmark : ∀ f, f.removed = false →
      mark f = if p (File.registered f) then f else { f with removed := true })
    (hremoved : ∀ f, f.removed = true → (mark f).removed = true) (id : ℤ) :
    m'.file id = (m.file id).filter p := by
  rw [file, file, hm, find?_mapVals]
  cases m.myFiles.find? id with
  | none => rfl
  | some f =>
    cases hf : f.removed with
    | true => simp [filter_some, hf, hremoved f hf]
    | false =>
      cases hp : p (File.registered f) with
      | true => simp [filter_some, hmark f hf, hp, hf]
      | false => simp [filter_some, hmark f hf, hp, hf]

omit [DecidableEq κ] [DecidableEq σ] in
theorem file_removeRawFile (m : MainLoop κ σ) (fd id : ℤ) :
    (m.removeRawFile fd).file id = (m.file id).filter (·.fd ≠ fd) := by
  have hmap : (m.removeRawFile fd).myFiles = m.myFiles.mapVals fun _ f =>
      if f.fd = fd then { f with removed := true } else f := rfl
  refine file_mapVals hmap (fun f hf => ?_) (fun f hf => ?_) id
  · by_cases hfd : f.fd = fd
    · simp [File.registered, hfd]
    · simp [File.registered, hfd]
  · split
    · rfl
    · exact hf

omit [DecidableEq σ] in
theorem file_removeCallback (m : MainLoop κ σ) (callback : Option κ) (id : ℤ) :
    (m.removeCallback callback).file id = (m.file id).filter (·.callback ≠ callback) := by
  have hmap : (m.removeCallback callback).myFiles = m.myFiles.mapVals fun _ f =>
      if f.callback = callback ∧ ¬ f.removed then { f with removed := true } else f := rfl
  refine file_mapVals hmap (fun f hf => ?_) (fun f hf => ?_) id
  · by_cases hcallback : f.callback = callback
    · simp [File.registered, hcallback, hf]
    · simp [File.registered, hcallback]
  · split
    · rfl
    · exact hf

omit [DecidableEq σ] in
theorem timeout_removeCallback (m : MainLoop κ σ) (callback : Option κ) (id : ℤ) :
    (m.removeCallback callback).timeout id = (m.timeout id).filter (·.callback ≠ callback) := by
  rw [timeout, timeout, removeCallback, find?_mapVals]
  cases m.myTimeouts.find? id with
  | none => rfl
  | some t =>
    by_cases hcallback : t.callback = callback
    · cases ht : t.removed <;> simp [filter_some, hcallback, ht]
    · cases ht : t.removed <;> simp [filter_some, hcallback, ht]

omit [DecidableEq κ] [DecidableEq σ] in
theorem timeout_addTimeout {m m' : MainLoop κ σ} {clock timeout : ℤ} {callback : Option κ}
    {once : Bool} (h : m.addTimeout clock timeout callback id once = some m') :
    m'.timeout = Function.update m.timeout id (some ⟨clock, timeout, callback, once, false⟩) ∧
      m'.file = m.file := by
  rw [addTimeout] at h
  split_ifs at h
  cases h
  refine ⟨funext fun k => ?_, rfl⟩
  by_cases hk : k = id
  · subst hk
    rw [update_self, MainLoop.timeout, find?_insert_self]
    rfl
  · rw [update_of_ne hk, MainLoop.timeout, find?_insert_of_ne _ _ hk,
      MainLoop.timeout]

omit [DecidableEq κ] [DecidableEq σ] in
theorem timeout_removeTimeout (m : MainLoop κ σ) (id : ℤ) :
    (m.removeTimeout id).timeout = Function.update m.timeout id none ∧
      (m.removeTimeout id).file = m.file := by
  rw [removeTimeout]
  split
  · rename_i hnone
    refine ⟨funext fun k => ?_, rfl⟩
    by_cases hk : k = id
    · subst hk
      rw [update_self, timeout, isNone_iff_eq_none.mp hnone]
      rfl
    · rw [update_of_ne hk]
  · refine ⟨funext fun k => ?_, rfl⟩
    by_cases hk : k = id
    · subst hk
      rw [update_self, timeout, find?_modify_self]
      cases m.myTimeouts.find? k <;> rfl
    · rw [update_of_ne hk, timeout, find?_modify_of_ne _ _ hk, timeout]

/-- A socket that is removed is waited for under its current descriptor; and the first file with a
descriptor, if it is removed and has a socket, has one that is still registered. -/
def CallOk (m : MainLoop κ σ) : LoopCall κ σ → Prop
  | .removeSocket inetSocket fd =>
    ∀ id f, m.file id = some f → f.inetSocket = inetSocket → f.fd = fd
  | .getSocketFromFd fd =>
    ∀ i, m.firstWithFd fd = some i → i.2.removed → i.2.inetSocket.isSome →
      ∃ id f, m.file id = some f ∧ f.inetSocket = i.2.inetSocket
  | _ => True

omit [DecidableEq κ] [DecidableEq σ] in
theorem Refines.congr {m m' : MainLoop κ σ} {r : Registry κ σ} (h : Refines m r)
    (hfile : m'.file = m.file) (htimeout : m'.timeout = m.timeout) : Refines m' r :=
  ⟨fun id => (h.files id).trans (congrFun hfile id).symm,
    fun id t ht => h.timeouts id t ((congrFun htimeout id).symm.trans ht)⟩

omit [DecidableEq κ] [DecidableEq σ] in
/-- **The socket of a descriptor** is registered, exactly when the first file with the descriptor
does not mislead. -/
theorem allows_socketFromFd_iff {m : MainLoop κ σ} {r : Registry κ σ} (h : Refines m r) (fd : ℤ) :
    r.Allows (.socketFromFd fd (m.getSocketFromFd fd)) ↔ m.CallOk (.getSocketFromFd fd) := by
  simp only [Registry.Allows, CallOk, getSocketFromFd, h.files]
  cases hfirst : m.firstWithFd fd with
  | none => simp
  | some i =>
    rw [bind_some]
    constructor
    · rintro hall _ ⟨⟩ - hsome
      exact hall hsome
    · intro hok hsome
      cases hremoved : i.2.removed with
      | true => exact hok i rfl hremoved hsome
      | false =>
        have hmem : i ∈ m.myFiles.entries := List.mem_of_find?_eq_some hfirst
        exact ⟨i.1, _, file_eq_some_iff.mpr
          ⟨i.2, mem_entries_iff.mp hmem, hremoved, rfl⟩, rfl⟩

/-- **A call** does to the maps what it does to the registry. -/
theorem refines_call {m m' : MainLoop κ σ} {r : Registry κ σ} {clock : ℤ} {call : LoopCall κ σ}
    (h : Refines m r) (hok : m.CallOk call) (hcall : m.call clock call = some m') :
    r.Allows (m.callEvent clock call) ∧ Refines m' (r.after (m.callEvent clock call)) := by
  have hfiles : r.files = m.file := funext h.files
  cases call with
  | addRawFile fd callback events id =>
    obtain ⟨hfile, htimeout⟩ := file_addFile hcall
    refine ⟨trivial, fun k => ?_, fun k t ht => h.timeouts k t (htimeout ▸ ht)⟩
    rw [hfile, ← hfiles]
    rfl
  | addSocket inetSocket fd callback events id =>
    rw [MainLoop.call, addSocket] at hcall
    split at hcall
    case isFalse => cases hcall
    obtain ⟨hfile, htimeout⟩ := file_addFile hcall
    refine ⟨trivial, fun k => ?_, fun k t ht => h.timeouts k t (htimeout ▸ ht)⟩
    rw [hfile, ← hfiles]
    rfl
  | removeFile id =>
    cases hcall
    refine ⟨trivial, fun k => ?_, fun k t ht => h.timeouts k t ht⟩
    rw [file_removeFile, ← hfiles]
    rfl
  | removeRawFile fd =>
    cases hcall
    refine ⟨trivial, fun k => ?_, fun k t ht => h.timeouts k t ht⟩
    rw [file_removeRawFile, ← hfiles]
    rfl
  | removeSocket inetSocket fd =>
    rw [MainLoop.call, removeSocket] at hcall
    split at hcall
    case isFalse => cases hcall
    cases hcall
    refine ⟨trivial, fun k => ?_, fun k t ht => h.timeouts k t ht⟩
    -- The descriptor finds every file of the socket
    rw [file_removeRawFile]
    change (r.files k).filter _ = _
    rw [hfiles]
    cases hk : m.file k with
    | none => rfl
    | some f =>
      by_cases hsocket : f.inetSocket = inetSocket
      · simp [filter_some, hok k f hk hsocket]
      · simp [filter_some, hsocket]
  | addTimeout timeout callback id once =>
    obtain ⟨htimeout, hfile⟩ := timeout_addTimeout hcall
    refine ⟨trivial, fun k => (h.files k).trans (congrFun hfile k).symm, fun k t ht => ?_⟩
    rw [htimeout] at ht
    by_cases hk : k = id
    · subst hk
      rw [update_self] at ht
      cases ht
      refine ⟨_, update_self _ _ _, ?_⟩
      simp [Matches]
    · rw [update_of_ne hk] at ht
      obtain ⟨x, hx, hmatch⟩ := h.timeouts k t ht
      exact ⟨x, (update_of_ne hk _ _).trans hx, hmatch⟩
  | removeTimeout id =>
    cases hcall
    obtain ⟨htimeout, hfile⟩ := timeout_removeTimeout m id
    refine ⟨trivial, fun k => (h.files k).trans (congrFun hfile k).symm, fun k t ht => ?_⟩
    rw [htimeout] at ht
    by_cases hk : k = id
    · subst hk
      rw [update_self] at ht
      cases ht
    · rw [update_of_ne hk] at ht
      obtain ⟨x, hx, hmatch⟩ := h.timeouts k t ht
      exact ⟨x, (update_of_ne hk _ _).trans hx, hmatch⟩
  | removeCallback callback =>
    cases hcall
    refine ⟨trivial, fun k => ?_, fun k t ht => ?_⟩
    · rw [file_removeCallback, ← hfiles]
      rfl
    · rw [timeout_removeCallback, filter_eq_some_iff] at ht
      obtain ⟨x, hx, hmatch⟩ := h.timeouts k t ht.1
      refine ⟨x, ?_, hmatch⟩
      change (r.timeouts k).filter _ = _
      rw [hx, filter_some, ← hmatch.2.2.1, if_pos ht.2]
  | getSocketFromFd fd =>
    cases hcall
    exact ⟨(allows_socketFromFd_iff h fd).mpr hok, h⟩
  | quit =>
    cases hcall
    exact ⟨trivial, h.congr rfl rfl⟩

/-! ## The loop -/

omit [DecidableEq κ] [DecidableEq σ] in
theorem file_rebuildFiles (m : MainLoop κ σ) :
    m.rebuildFiles.file = m.file ∧ m.rebuildFiles.timeout = m.timeout := by
  rw [rebuildFiles]
  split
  case isFalse => exact ⟨rfl, rfl⟩
  refine ⟨funext fun id => ?_, rfl⟩
  rw [file, file, find?_mapVals, find?_filter]
  cases m.myFiles.find? id with
  | none => rfl
  | some f => cases hf : f.removed <;> simp [filter_some, hf, File.registered]

omit [DecidableEq κ] [DecidableEq σ] in
theorem timeout_rebuildTimeouts (m : MainLoop κ σ) :
    m.rebuildTimeouts.file = m.file ∧ m.rebuildTimeouts.timeout = m.timeout := by
  rw [rebuildTimeouts]
  split
  case isFalse => exact ⟨rfl, rfl⟩
  refine ⟨rfl, funext fun id => ?_⟩
  rw [timeout, timeout, find?_filter, filter_filter]
  simp only [Bool.and_self]

omit [DecidableEq κ] [DecidableEq σ] in
theorem refines_iterate {m : MainLoop κ σ} {r : Registry κ σ} (h : Refines m r)
    (poll : Option (List ℤ)) : Refines (m.iterate poll) r := by
  have hrebuild : Refines m.rebuildFiles.rebuildTimeouts r :=
    h.congr ((timeout_rebuildTimeouts _).1.trans (file_rebuildFiles m).1)
      ((timeout_rebuildTimeouts _).2.trans (file_rebuildFiles m).2)
  rw [iterate]
  split
  · exact h.congr rfl rfl
  · cases poll with
    | none => exact hrebuild.congr rfl rfl
    | some revents =>
      simp only
      split
      · exact hrebuild.congr rfl rfl
      · exact hrebuild.congr rfl rfl

/-- A file that is delivered is registered. -/
theorem allows_fileEvent {m : MainLoop κ σ} {r : Registry κ σ} (h : Refines m r)
    {revents : List ℤ} {i : Σ _ : ℤ, File κ σ}
    (hnext : m.nextFile revents after = some i) :
    r.Allows (fileEvent revents i) ∧ r.after (fileEvent revents i) = r := by
  have hmem := mem_entries_iff.mp (List.mem_of_find?_eq_some hnext)
  have hlive : i.2.removed = false := by
    have hp := List.find?_some hnext
    simp only [Bool.and_eq_true, Bool.not_eq_true'] at hp
    exact hp.1.2
  have hfile : r.files i.1 = some ⟨i.2.fd, i.2.callback, i.2.inetSocket⟩ := by
    rw [h.files]
    exact file_eq_some_iff.mpr ⟨i.2, hmem, hlive, rfl⟩
  rw [fileEvent]
  split
  · rename_i inetSocket hsocket
    rw [hsocket] at hfile
    exact ⟨⟨i.2.fd, hfile⟩, rfl⟩
  · rename_i hsocket
    rw [hsocket] at hfile
    exact ⟨hfile, rfl⟩

omit [DecidableEq κ] [DecidableEq σ] in
/-- A timeout that is next is not removed and is due. -/
theorem timeout_of_nextTimeout {m : MainLoop κ σ}
    {i : Σ _ : ℤ, Timeout κ} (hnext : m.nextTimeout now after = some i) :
    m.timeout i.1 = some i.2 ∧ i.2.last + i.2.timeout ≤ now := by
  have hmem := mem_entries_iff.mp (List.mem_of_find?_eq_some hnext)
  have hp := List.find?_some hnext
  simp only [Bool.and_eq_true, Bool.not_eq_true', decide_eq_true_eq] at hp
  exact ⟨timeout_eq_some_iff.mpr ⟨hmem, hp.1.2⟩, hp.2⟩

omit [DecidableEq κ] [DecidableEq σ] in
/-- A timeout that is delivered is registered and due, and is one that fires again or fires for the
first time. -/
theorem allows_timeoutEvent {m : MainLoop κ σ} {r : Registry κ σ} (h : Refines m r)
    {i : Σ _ : ℤ, Timeout κ}
    (hnext : m.nextTimeout now after = some i) :
    r.Allows (.timeoutEvent i.2.callback i.1 now) := by
  obtain ⟨hlive, hdue⟩ := timeout_of_nextTimeout hnext
  obtain ⟨x, hx, hlast, htimeout, hcallback, -, hfired⟩ := h.timeouts i.1 i.2 hlive
  refine ⟨x, hx, hcallback.symm, ?_, hfired⟩
  rw [RegisteredTimeout.deadline, Int.add_mul, Int.one_mul, ← Int.add_assoc, ← hlast, ← htimeout]
  exact hdue

/-- A timeout that fired is not registered any more, or has its next deadline. -/
theorem refines_expire {m m' : MainLoop κ σ} {r : Registry κ σ} (h : Refines m r)
    {i : Σ _ : ℤ, Timeout κ}
    (hnext : m.nextTimeout now after = some i) (hfile : m'.file = m.file)
    (htimeouts : m'.myTimeouts = m.myTimeouts.modify i.1 expire) :
    Refines m' (r.after (.timeoutEvent i.2.callback i.1 now)) := by
  have hlive := (timeout_of_nextTimeout hnext).1
  obtain ⟨x, hx, hlast, htimeout, hcallback, honce, hfired⟩ := h.timeouts i.1 i.2 hlive
  refine ⟨fun k => (h.files k).trans (congrFun hfile k).symm, fun k t ht => ?_⟩
  rw [timeout_eq_some_iff, htimeouts] at ht
  by_cases hk : k = i.1
  · subst hk
    rw [find?_modify_self, (timeout_eq_some_iff.mp hlive).1, map_some] at ht
    obtain ⟨ht, hremoved⟩ := ht
    refine ⟨{ x with fired := x.fired + 1 }, ?_, ?_⟩
    · change update r.timeouts _ _ _ = _
      rw [update_self, hx, map_some]
    · cases hone : i.2.once with
      | true =>
        rw [expire, if_pos hone] at ht
        cases ht
        cases hremoved
      | false =>
        rw [expire, if_neg (by rw [hone]; exact Bool.false_ne_true)] at ht
        cases ht
        refine ⟨?_, htimeout, hcallback, honce, fun hx => ?_⟩
        · change i.2.last + i.2.timeout = x.added + ((x.fired : ℤ) + 1) * x.timeout
          rw [hlast, htimeout, Int.add_mul, Int.one_mul, Int.add_assoc]
        · rw [← honce, hone] at hx
          cases hx
  · rw [find?_modify_of_ne _ _ hk] at ht
    obtain ⟨y, hy, hmatch⟩ := h.timeouts k t (timeout_eq_some_iff.mpr ht)
    exact ⟨y, (update_of_ne hk _ _).trans hy, hmatch⟩

/-- What an action must meet: the condition on the call that it makes. -/
def ActionOk (m : MainLoop κ σ) : Action κ σ → Prop
  | .call _ call => m.CallOk call
  | _ => True

/-- **One step** delivers what the registry allows, and keeps the maps and the registry together. -/
theorem refines_step {m m' : MainLoop κ σ} {r : Registry κ σ} {a : Action κ σ}
    {event : Option (LoopEvent κ σ)} (h : Refines m r) (hok : m.ActionOk a)
    (hstep : m.step a = some (m', event)) :
    (∀ e, event = some e → r.Allows e) ∧ Refines m' (event.elim r r.after) := by
  cases a with
  | run =>
    rw [step] at hstep
    split at hstep
    case isFalse => cases hstep
    cases hstep
    exact ⟨fun e he => (by cases he), h.congr rfl rfl⟩
  | call clock call =>
    rw [step] at hstep
    split at hstep
    case isFalse => cases hstep
    obtain ⟨m₁, hcall, heq⟩ := map_eq_some_iff.mp hstep
    cases heq
    obtain ⟨hallows, hrefines⟩ := refines_call h hok hcall
    exact ⟨fun e he => some.inj he ▸ hallows, hrefines⟩
  | iterate poll =>
    rw [step] at hstep
    split at hstep
    case isFalse => cases hstep
    cases hstep
    exact ⟨fun e he => (by cases he), refines_iterate h poll⟩
  | proceed clock =>
    rw [step] at hstep
    split at hstep
    · split at hstep
      · rename_i i hnext
        cases hstep
        obtain ⟨hallows, hafter⟩ := allows_fileEvent h hnext
        refine ⟨fun e he => some.inj he ▸ hallows, ?_⟩
        rw [elim_some, hafter]
        exact h.congr rfl rfl
      · cases hstep
        exact ⟨fun e he => (by cases he), h.congr rfl rfl⟩
    · split at hstep
      · cases hstep
        exact ⟨fun e he => (by cases he), h.congr rfl rfl⟩
      · cases hstep
        exact ⟨fun e he => (by cases he), h.congr rfl rfl⟩
    · split at hstep
      · rename_i i hnext
        cases hstep
        exact ⟨fun e he => some.inj he ▸ allows_timeoutEvent h hnext,
          refines_expire h hnext rfl rfl⟩
      · cases hstep
        exact ⟨fun e he => (by cases he), h.congr rfl rfl⟩
    · cases hstep
  | ret =>
    rw [step] at hstep
    split at hstep
    · cases hstep
      exact ⟨fun e he => (by cases he), h.congr rfl rfl⟩
    · cases hstep
      exact ⟨fun e he => (by cases he), h.congr rfl rfl⟩
    · cases hstep

theorem follows_of_refines {m : MainLoop κ σ} {r : Registry κ σ} (h : Refines m r)
    (as : List (Action κ σ)) (hok : Steps.Each (fun m a => (m.step a).map Prod.fst) ActionOk m as) :
    r.Follows (m.events as) := by
  induction as generalizing m r with
  | nil => trivial
  | cons a as ih =>
    rw [events]
    cases hstep : m.step a with
    | none => trivial
    | some r' =>
      obtain ⟨m', event⟩ := r'
      obtain ⟨hallows, hrefines⟩ := refines_step h hok.1 hstep
      have hrest := ih hrefines (hok.2 m' (congrArg (Option.map Prod.fst) hstep))
      cases event with
      | none => exact hrest
      | some e => exact ⟨hallows e rfl, hrest⟩

/-- **What a plugin is told.**  In every run, whatever the callbacks add and remove, each callback
is called for a file or timeout that is registered at that moment, with the callback of its last
registration, a timeout not before its deadline and one that is to fire once no second time; and
every socket that is found is registered, if each call meets its condition. -/
theorem follows_events (as : List (Action κ σ))
    (hok : Steps.Each (fun m a => (m.step a).map Prod.fst) ActionOk (init : MainLoop κ σ) as) :
    (Registry.empty : Registry κ σ).Follows (init.events as) :=
  follows_of_refines ⟨fun _ => rfl, fun _ _ ht => by cases ht⟩ as hok

/-- A socket and a timeout; the callback of the socket removes it, and the timeout fires. -/
theorem follows_events_socketAndTimeout :
    (Registry.empty : Registry ℕ ℕ).Follows ((init : MainLoop ℕ ℕ).events
      [.call 100 (.addSocket (some 1) 7 (some 2) 1 (-1)), .call 100 (.addTimeout 5 (some 3) 0 true),
        .run, .iterate (some [1]), .proceed 104, .call 104 (.removeFile 7), .ret, .proceed 104,
        .proceed 105, .proceed 105, .ret, .proceed 105]) :=
  follows_events _ ⟨trivial, fun _ _ => ⟨trivial, fun _ _ => ⟨trivial, fun _ _ => ⟨trivial,
    fun _ _ => ⟨trivial, fun _ _ => ⟨trivial, fun _ _ => ⟨trivial, fun _ _ => ⟨trivial, fun _ _ =>
      ⟨trivial, fun _ _ => ⟨trivial, fun _ _ => ⟨trivial, fun _ _ => ⟨trivial, fun _ _ =>
        trivial⟩⟩⟩⟩⟩⟩⟩⟩⟩⟩⟩⟩

example : ((init : MainLoop ℕ ℕ).events
    [.call 100 (.addSocket (some 1) 7 (some 2) 1 (-1)), .call 100 (.addTimeout 5 (some 3) 0 true),
      .run, .iterate (some [1]), .proceed 104, .call 104 (.removeFile 7), .ret, .proceed 104,
      .proceed 105, .proceed 105, .ret, .proceed 105]) =
    [.called 100 (.addSocket (some 1) 7 (some 2) 1 (-1)),
      .called 100 (.addTimeout 5 (some 3) 0 true), .socketEvent (some 2) 7 1 1,
      .called 104 (.removeFile 7), .timeoutEvent (some 3) 0 105] := by
  decide +kernel

/-- A socket is found after its file is removed. -/
theorem not_follows_removedSocket :
    ¬ (Registry.empty : Registry ℕ ℕ).Follows ((init : MainLoop ℕ ℕ).events
      [.call 0 (.addSocket (some 1) 7 (some 2) 1 (-1)), .call 0 (.removeFile 7),
        .call 0 (.getSocketFromFd 7)]) := by
  rintro ⟨-, -, h, -⟩
  obtain ⟨id, f, hf, -⟩ := h rfl
  by_cases hid : id = 7
  · subst hid
    cases hf
  · have hnone : Function.update (Function.update (fun _ => none) 7
        (some (⟨7, some 2, some 1⟩ : RegisteredFile ℕ ℕ))) 7 none id = none := by
      rw [Function.update_of_ne hid, Function.update_of_ne hid]
    exact Option.some_ne_none f (hf.symm.trans hnone)

end MainLoop

end Licq
