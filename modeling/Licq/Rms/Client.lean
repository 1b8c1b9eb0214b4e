import Licq.ContactList.UserId
import Licq.Data.Steps
import Licq.Text.Decimal
import Licq.Text.Lines
import Mathlib.Data.Vector.Defs

/-!
# Rms/Client — a session of the remote management server

What a client sends is taken apart into lines in a fixed buffer, and each line goes to a machine of
seven states: a login, then commands, some of which are followed by a line or by a block of lines that
a lone `.` ends.

The **main result** `session_iff`: what is executed depends on the lines of the whole stream alone, and
it is what the client has asked for, after a login with the configured password, exactly when no
message is empty, no description or auto response has a line, and no owner without a password logs in.
-/

namespace Licq.Rms

open Text

open List hiding Vector

/-! ## Commands -/

inductive Command
  | addUser
  | ar
  | groups
  | help
  | history
  | info
  | list
  | log
  | message
  | quit
  | remUser
  | secure
  | status
  | term
  | view
  | url
  | notify
  deriving DecidableEq

/-- The table of commands. -/
def commands : List (List Char × Command) :=
  [(['A', 'D', 'D', 'U', 'S', 'E', 'R'], .addUser), (['A', 'R'], .ar),
    (['G', 'R', 'O', 'U', 'P', 'S'], .groups), (['H', 'E', 'L', 'P'], .help),
    (['H', 'I', 'S', 'T', 'O', 'R', 'Y'], .history), (['I', 'N', 'F', 'O'], .info),
    (['L', 'I', 'S', 'T'], .list), (['L', 'O', 'G'], .log),
    (['M', 'E', 'S', 'S', 'A', 'G', 'E'], .message), (['Q', 'U', 'I', 'T'], .quit),
    (['R', 'E', 'M', 'U', 'S', 'E', 'R'], .remUser), (['S', 'E', 'C', 'U', 'R', 'E'], .secure),
    (['S', 'T', 'A', 'T', 'U', 'S'], .status), (['T', 'E', 'R', 'M'], .term),
    (['V', 'I', 'E', 'W'], .view), (['U', 'R', 'L'], .url),
    (['N', 'O', 'T', 'I', 'F', 'Y'], .notify)]

/-- What is executed for a client; a text is as it is handed to the translator. -/
inductive Action
  | command (c : Command) (arg : List Char)
  | sendMessage (userId : Option UserId) (text : List Char)
  | sendUrl (userId : Option UserId) (url text : List Char)
  | setAutoResponse (userId : Option UserId) (text : List Char)
  deriving DecidableEq

/-- The text that a block of lines has been made into. -/
def Action.text? : Action → Option (List Char)
  | .command .. => none
  | .sendMessage _ text | .sendUrl _ _ text | .setAutoResponse _ text => some text

/-! ## The daemon -/

/-- What the daemon has while a line is processed: the configuration of logins, the owners with their
passwords, the users, the first user with new messages, and whether the client can be written to. -/
structure Env where
  myAuthOwnerId : Option UserId
  myAuthUser : List Char
  myAuthPassword : List Char
  owners : List (UserId × List Char)
  users : List UserId
  plugins : List ProtocolPlugin
  newMessages : Option UserId
  haveCryptoSupport : Bool
  flushes : Bool

/-- `ParseUser` -/
def Env.parseUser (env : Env) (data : List Char) : Option UserId :=
  let dot := data.reverse.dropWhile (· ≠ '.')
  -- `rfind`: everything in front of the last dot, which is cut by one more character
  let protocolId := if dot = [] then 0
    else protocolIdFromString env.plugins (data.reverse.takeWhile (· ≠ '.')).reverse
  let accountId := if dot = [] then data
    else if dot.length = 1 then data else dot.tail.tail.reverse
  match env.users.find? fun u => (protocolId = 0 ∨ u.protocolId = protocolId) ∧
      u.accountId = accountId with
  | some u => some u
  | none =>
    if protocolId = 0 then none
    else (env.owners.find? fun o => o.1.protocolId = protocolId).map fun o => .user o.1 accountId

/-- `isValid`, of a user id that may not have been set. -/
def isValid (userId : Option UserId) : Bool := userId.any (·.protocolId ≠ 0)

/-! ## The state machine -/

inductive SessionState
  | uin
  | password
  | command
  | enterMessage
  | enterUrlDescription
  | enterUrl
  | enterAutoResponse
  deriving DecidableEq

/-- A client has been closed, or the plugin has run into an exception. -/
inductive Status
  | running
  | closed
  | thrown
  deriving DecidableEq

/-- `CRMSClient` without its buffer.  What has been executed stands with the lines of the block that
has ended there; `authorized` and `block` are for the statements only. -/
structure Machine where
  state : SessionState
  status : Status
  myLoginUser : List Char
  myUserId : Option UserId
  myText : List Char
  myLine : List Char
  notify : Bool
  /-- The number of lines so far. -/
  fed : ℕ
  executed : List (Action × List (List Char))
  /-- The client has presented the user and the password of the configuration, which is not empty. -/
  authorized : Bool
  /-- The lines of the text so far. -/
  block : List (List Char)

/-- What a login is checked against: an owner, or the configured user if there is a password too. -/
def Env.credentials (env : Env) : Option (List Char × List Char) :=
  match env.myAuthOwnerId with
  | some ownerId => (env.owners.find? fun o => o.1 = ownerId).map fun o => (o.1.accountId, o.2)
  | none =>
    if env.myAuthUser ≠ [] ∧ env.myAuthPassword ≠ [] then some (env.myAuthUser, env.myAuthPassword)
    else none

namespace Machine

def start : Machine := ⟨.uin, .running, [], none, [], [], false, 0, [], false, []⟩

/-- The client is deleted. -/
def close (m : Machine) : Machine := { m with status := .closed }

/-- `return fflush(fs)` -/
def flush (m : Machine) (env : Env) : Machine := if env.flushes then m else m.close

def execute (m : Machine) (a : Action) : Machine := { m with executed := m.executed ++ [(a, [])] }

/-- An action with the text that has been entered for it. -/
def executeText (m : Machine) (a : Action) : Machine :=
  { m with executed := m.executed ++ [(a, m.block)], state := .command }

/-- The text is cleared before lines are entered. -/
def enterText (m : Machine) (state : SessionState) : Machine :=
  { m with myText := [], block := [], state := state }

/-- `AddLineToText`, of a line that is not the last. -/
def addLineToText (m : Machine) (line : List Char) : Machine :=
  { m with myText := m.myText ++ line ++ ['\n'], block := m.block ++ [line] }

/-- `Process_MESSAGE_text`.  Erasing the last character of an empty text throws. -/
def processMessageText (m : Machine) (env : Env) : Machine :=
  if m.myText = [] then { m with status := .thrown }
  else
    let m := { m with myText := m.myText.dropLast }
    (m.executeText (.sendMessage m.myUserId m.myText)).flush env

/-- `Process_URL_url` -/
def processUrlUrl (m : Machine) (env : Env) (line : List Char) : Machine :=
  ({ m with myLine := line }.enterText .enterUrlDescription).flush env

/-- `Process_URL_text` -/
def processUrlText (m : Machine) (env : Env) : Machine :=
  (m.executeText (.sendUrl m.myUserId m.myLine m.myText)).flush env

/-- `Process_AR` -/
def processAr (m : Machine) (env : Env) (arg : List Char) : Machine :=
  let m := { m with myUserId := if arg = [] then none else env.parseUser arg }
  if arg ≠ [] ∧ ¬ isValid m.myUserId then m.flush env
  else (m.enterText .enterAutoResponse).flush env

/-- `Process_AR_text` -/
def processArText (m : Machine) (env : Env) : Machine :=
  (m.executeText (.setAutoResponse m.myUserId m.myText)).flush env

/-- The command's own function, as far as the session is concerned. -/
def process (m : Machine) (env : Env) (arg : List Char) : Command → Machine
  | .message => ({ m with myUserId := env.parseUser arg }.enterText .enterMessage).flush env
  | .url => ({ m with myUserId := env.parseUser arg }.enterText .enterUrl).flush env
  | .ar => m.processAr env arg
  | .quit | .term => m.close
  | .notify => { m with notify := !m.notify }.flush env
  | .addUser | .remUser | .info => { m with myUserId := env.parseUser arg }.flush env
  | .secure => (if env.haveCryptoSupport then { m with myUserId := env.parseUser arg } else m).flush env
  | .history =>
    let token := arg.takeWhile (· ≠ ' ')
    (if token = [] then m else { m with myUserId := env.parseUser token }).flush env
  | .view =>
    { m with myUserId :=
        if arg ≠ [] then env.parseUser arg else env.newMessages.or m.myUserId }.flush env
  | .groups | .help | .list | .log | .status => m.flush env

/-- `ProcessCommand` -/
def processCommand (m : Machine) (env : Env) (line : List Char) : Machine :=
  let name := line.takeWhile (· ≠ ' ')
  let arg := (line.dropWhile (· ≠ ' ')).dropWhile (· = ' ')
  match commands.find? fun c => iequals c.1 name with
  | none => m.flush env
  | some (_, c) => (m.execute (.command c arg)).process env arg c

/-- The password has been entered. -/
def login (m : Machine) (env : Env) (password : List Char) : Machine :=
  if env.credentials = some (m.myLoginUser, password) then
    { m with
      state := .command
      authorized := env.credentials = some (m.myLoginUser, password) ∧ password ≠ [] }
  else m.close

/-- `StateMachine` -/
def stateMachine (m : Machine) (env : Env) (line : List Char) : Machine :=
  match m.state with
  | .uin => { m with myLoginUser := line, state := .password }
  | .password => m.login env line
  | .command => m.processCommand env line
  | .enterMessage => if line = ['.'] then m.processMessageText env else m.addLineToText line
  | .enterUrlDescription => if line = ['.'] then m.processUrlText env else m.addLineToText line
  | .enterUrl => m.processUrlUrl env line
  | .enterAutoResponse => if line = ['.'] then m.processArText env else m.addLineToText line

/-- A line for the machine, and nothing once the client is gone. -/
def feedLine (env : ℕ → Env) (m : Machine) (line : List Char) : Machine :=
  if m.status = .running then { m with fed := m.fed + 1 }.stateMachine (env m.fed) line else m

def feed (env : ℕ → Env) (m : Machine) (lines : List (List Char)) : Machine :=
  lines.foldl (feedLine env) m

end Machine

/-! ## The buffer -/

def maxLineLength : ℕ := 1024

/-- `iscntrl` -/
def isCntrl (c : Char) : Bool := c.toNat < 32 || c.toNat = 127

/-- `CRMSClient` -/
structure Session where
  machine : Machine
  dataLine : Vector Char (maxLineLength + 1)
  dataLinePos : ℕ
  /-- Something has been written outside `data_line`. -/
  overflow : Bool

namespace Session

/-- A connection has been accepted; the buffer holds anything. -/
def start (dataLine : Vector Char (maxLineLength + 1)) : Session := ⟨.start, dataLine, 0, false⟩

/-- `data_line[data_line_pos] = c` -/
def put (s : Session) (c : Char) : Session :=
  if h : s.dataLinePos < maxLineLength + 1 then
    { s with dataLine := s.dataLine.set s.dataLinePos c h }
  else { s with overflow := true }

/-- The buffer up to its first null byte. -/
def line (s : Session) : List Char := s.dataLine.toList.takeWhile (· ≠ '\x00')

/-- The loop of `Activity` over what has been received. -/
def activityLoop (env : ℕ → Env) : Session → List Char → Session
  | s, [] => s.put '\x00'
  | s, c :: rest =>
    if c ≠ '\n' then
      activityLoop env
        (if !isCntrl c && s.dataLinePos < maxLineLength then
          { s.put c with dataLinePos := s.dataLinePos + 1 } else s) rest
    else
      let s := s.put '\x00'
      let m := s.machine.feedLine env s.line
      if m.status = .running then activityLoop env { s with machine := m, dataLinePos := 0 } rest
      else { s with machine := m }

/-- `Activity`, of a client that has not been deleted. -/
def activity (env : ℕ → Env) (s : Session) (chunk : List Char) : Session :=
  if s.machine.status = .running then activityLoop env s chunk else s

end Session

/-- A connection over which the chunks are received. -/
def session (env : ℕ → Env) (dataLine : Vector Char (maxLineLength + 1)) (chunks : List (List Char)) :
    Session :=
  chunks.foldl (Session.activity env) (.start dataLine)

/-! ## The property -/

/-- A line as it is fed to the machine. -/
def clean (line : List Char) : List Char := (line.filter fun c => !isCntrl c).take maxLineLength

/-- The lines that a stream feeds. -/
def streamLines (stream : List Char) : List (List Char) :=
  (terminatedLines '\n' stream).map clean

namespace Machine

/-- Commands are taken in this state, or what belongs to one. -/
def loggedIn (m : Machine) : Bool := m.state ≠ .uin ∧ m.state ≠ .password

/-- No exception, every text is the lines of its block, and nothing has been or will be executed
without a login with the configured user and password. -/
structure Good (m : Machine) : Prop where
  status : m.status ≠ .thrown
  texts : ∀ e ∈ m.executed, ∀ text ∈ e.1.text?, text = ['\n'].intercalate e.2
  login : m.loggedIn = true ∨ m.executed ≠ [] → m.authorized = true

/-- The line does not end an empty message, nor a description or an auto response that has a line, and
it is not the empty password of an owner who has none. -/
def LineOk (env : ℕ → Env) (m : Machine) (line : List Char) : Prop :=
  m.status = .running →
    match m.state with
    | .password => (env m.fed).credentials = some (m.myLoginUser, []) → line ≠ []
    | .enterMessage => line = ['.'] → m.myText ≠ []
    | .enterUrlDescription | .enterAutoResponse => line = ['.'] → m.myText = []
    | .uin | .command | .enterUrl => True

end Machine

/-- Nothing has been written outside the buffer, and the machine has done what it should. -/
structure Session.Good (s : Session) : Prop where
  overflow : s.overflow = false
  machine : s.machine.Good

/-! ## The text of a block -/

/-- A text without its last terminator is its lines with terminators between them. -/
theorem unlines_eq_intercalate {ls : List (List Char)} (h : ls ≠ []) :
    unlines '\n' ls = ['\n'].intercalate ls ++ ['\n'] := by
  induction ls with
  | nil => exact absurd rfl h
  | cons l ls ih =>
    cases ls with
    | nil => rw [unlines_cons, unlines_nil, intercalate_singleton]
    | cons l' ls =>
      rw [unlines_cons, ih (cons_ne_nil l' ls), intercalate_cons_cons]
      simp only [append_assoc, cons_append, nil_append]

theorem unlines_eq_intercalate_iff {ls : List (List Char)} :
    unlines '\n' ls = ['\n'].intercalate ls ↔ ls = [] := by
  refine ⟨fun h => ?_, fun h => by rw [h]; rfl⟩
  by_contra hne
  rw [unlines_eq_intercalate hne] at h
  have hlength := congrArg List.length h
  rw [length_append, length_singleton] at hlength
  omega

theorem dropLast_unlines {ls : List (List Char)} (h : ls ≠ []) :
    (unlines '\n' ls).dropLast = ['\n'].intercalate ls := by
  rw [unlines_eq_intercalate h, dropLast_concat]

namespace Machine

/-! ## One line -/

variable {m : Machine} {env : Env}

section Flush

@[simp] theorem flush_state : (m.flush env).state = m.state := by
  rw [flush]
  split_ifs <;> rfl

@[simp] theorem flush_executed : (m.flush env).executed = m.executed := by
  rw [flush]
  split_ifs <;> rfl

@[simp] theorem flush_authorized : (m.flush env).authorized = m.authorized := by
  rw [flush]
  split_ifs <;> rfl

@[simp] theorem flush_myText : (m.flush env).myText = m.myText := by
  rw [flush]
  split_ifs <;> rfl

@[simp] theorem flush_block : (m.flush env).block = m.block := by
  rw [flush]
  split_ifs <;> rfl

theorem flush_status_ne (h : m.status ≠ .thrown) : (m.flush env).status ≠ .thrown := by
  rw [flush]
  split_ifs
  · exact h
  · rintro ⟨⟩

end Flush

/-- While lines are entered the text is theirs, and nothing is executed before a login. -/
structure Inv (m : Machine) : Prop where
  text : m.state = .command ∨ m.myText = unlines '\n' m.block
  executed : m.executed ≠ [] → m.loggedIn = true

/-- From one state of the machine to the next: what has been executed stays, after the login its
outcome does, and the next state is a good one exactly under the condition. -/
structure Moves (m m' : Machine) (Ok : Prop) : Prop where
  executed : m.executed <+: m'.executed
  loggedIn : m.loggedIn = true → m'.loggedIn = true ∧ m'.authorized = m.authorized
  inv : m'.Inv
  good : m.Good → (m'.Good ↔ Ok)

section Moves

variable {m' : Machine}

/-- Nothing is executed. -/
theorem moves_plain (hi : m.Inv) (hexecuted : m'.executed = m.executed)
    (hauthorized : m'.authorized = m.authorized) (hloggedIn : m'.loggedIn = m.loggedIn)
    (hstatus : m'.status ≠ .thrown) (htext : m'.state = .command ∨ m'.myText = unlines '\n' m'.block) :
    Moves m m' True where
  executed := hexecuted ▸ prefix_rfl
  loggedIn h := ⟨hloggedIn.trans h, hauthorized⟩
  inv := ⟨htext, fun h => hloggedIn.trans (hi.executed (hexecuted ▸ h))⟩
  good h := iff_of_true ⟨hstatus, by rw [hexecuted]; exact h.texts,
    by rw [hexecuted, hauthorized, hloggedIn]; exact h.login⟩ trivial

/-- An action is executed, after the login. -/
theorem moves_execute {a : Action} {block : List (List Char)} (hm : m.loggedIn = true)
    (hexecuted : m'.executed = m.executed ++ [(a, block)])
    (hauthorized : m'.authorized = m.authorized) (hloggedIn : m'.loggedIn = true)
    (hstatus : m'.status ≠ .thrown) (htext : m'.state = .command ∨ m'.myText = unlines '\n' m'.block) :
    Moves m m' (∀ text ∈ a.text?, text = ['\n'].intercalate block) where
  executed := hexecuted ▸ prefix_append _ _
  loggedIn _ := ⟨hloggedIn, hauthorized⟩
  inv := ⟨htext, fun _ => hloggedIn⟩
  good h := by
    constructor
    · intro h'
      exact h'.texts (a, block) (by rw [hexecuted]; exact mem_append_right _ (mem_singleton_self _))
    · intro hblock
      refine ⟨hstatus, fun e he => ?_, fun _ => hauthorized.trans (h.login (.inl hm))⟩
      rw [hexecuted] at he
      rcases mem_append.mp he with he | he
      · exact h.texts e he
      · rw [mem_singleton.mp he]
        exact hblock

theorem Moves.trans {m'' : Machine} {Ok : Prop} (h : Moves m m' True) (h' : Moves m' m'' Ok) :
    Moves m m'' Ok where
  executed := h.executed.trans h'.executed
  loggedIn hm :=
    have hm' := h.loggedIn hm
    have hm'' := h'.loggedIn hm'.1
    ⟨hm''.1, hm''.2.trans hm'.2⟩
  inv := h'.inv
  good hm := h'.good ((h.good hm).mpr trivial)

theorem Moves.congr {Ok Ok' : Prop} (h : Moves m m' Ok) (hok : Ok ↔ Ok') : Moves m m' Ok' :=
  ⟨h.executed, h.loggedIn, h.inv, fun hm => (h.good hm).trans hok⟩

end Moves

/-- The command's own function executes nothing more. -/
theorem moves_process (hi : m.Inv) (hstate : m.state = .command) (hstatus : m.status = .running)
    (arg : List Char) (c : Command) : Moves m (m.process env arg c) True := by
  have hne : m.status ≠ .thrown := by
    rw [hstatus]
    rintro ⟨⟩
  have hlogged : m.loggedIn = true := by
    rw [loggedIn, hstate]
    rfl
  have hplain {m₁ : Machine} (h₁ : m₁.executed = m.executed) (h₂ : m₁.authorized = m.authorized)
      (h₃ : m₁.loggedIn = true) (h₄ : m₁.status ≠ .thrown)
      (h₅ : m₁.state = .command ∨ m₁.myText = unlines '\n' m₁.block) :
      Moves m (m₁.flush env) True := by
    refine moves_plain hi (by rw [flush_executed, h₁]) (by rw [flush_authorized, h₂]) ?_
      (flush_status_ne h₄) (by rw [flush_state, flush_myText, flush_block]; exact h₅)
    rw [hlogged, ← h₃, loggedIn, flush_state, loggedIn]
  cases c with
  | message => exact hplain rfl rfl rfl hne (.inr rfl)
  | url => exact hplain rfl rfl rfl hne (.inr rfl)
  | ar =>
    rw [process, processAr]
    generalize (if arg = [] then none else env.parseUser arg) = userId
    simp only
    split_ifs
    · exact hplain rfl rfl hlogged hne (.inl hstate)
    · exact hplain rfl rfl rfl hne (.inr rfl)
  | quit | term =>
    exact moves_plain hi rfl rfl rfl (by rintro ⟨⟩) (.inl hstate)
  | secure | history =>
    rw [process]
    split_ifs <;> exact hplain rfl rfl hlogged hne (.inl hstate)
  | _ => exact hplain rfl rfl hlogged hne (.inl hstate)

theorem moves_processCommand (hi : m.Inv) (hstate : m.state = .command) (hstatus : m.status = .running)
    (line : List Char) : Moves m (m.processCommand env line) True := by
  have hlogged : m.loggedIn = true := by
    rw [loggedIn, hstate]
    rfl
  have hne : m.status ≠ .thrown := by
    rw [hstatus]
    rintro ⟨⟩
  rw [processCommand]
  generalize (line.dropWhile (· ≠ ' ')).dropWhile (· = ' ') = arg
  split
  · refine moves_plain hi flush_executed flush_authorized ?_ (flush_status_ne hne)
      (.inl (flush_state.trans hstate))
    rw [loggedIn, flush_state, loggedIn]
  · rename_i c _
    have hcommand : Moves m (m.execute (.command c arg))
        (∀ text ∈ (Action.command c arg).text?, text = ['\n'].intercalate []) :=
      moves_execute hlogged rfl rfl hlogged hne (.inl hstate)
    have hexecute : Moves m (m.execute (.command c arg)) True :=
      hcommand.congr (iff_of_true (by rintro _ ⟨⟩) trivial)
    exact hexecute.trans (moves_process hexecute.inv hstate hstatus arg c)

/-- A block ends, and its text has been worked on. -/
theorem moves_executeText {m₁ : Machine} {a : Action} {text : List Char} (hm : m.loggedIn = true)
    (hstatus : m₁.status = .running) (hexecuted : m₁.executed = m.executed)
    (hauthorized : m₁.authorized = m.authorized) (hblock : m₁.block = m.block)
    (ha : a.text? = some text) :
    Moves m ((m₁.executeText a).flush env) (text = ['\n'].intercalate m.block) := by
  have hexecuted : ((m₁.executeText a).flush env).executed = m.executed ++ [(a, m.block)] := by
    rw [flush_executed, executeText, hexecuted, hblock]
  have hstate : ((m₁.executeText a).flush env).state = .command := flush_state
  have hne : (m₁.executeText a).status ≠ .thrown := by
    rw [executeText, hstatus]
    rintro ⟨⟩
  refine (moves_execute hm hexecuted (flush_authorized.trans hauthorized) ?_ (flush_status_ne hne)
    (.inl hstate)).congr ?_
  · rw [loggedIn, hstate]
    rfl
  · rw [ha]
    exact ⟨fun h => h text rfl, fun h text' htext => by rwa [← Option.some.inj htext]⟩

theorem moves_addLineToText (hi : m.Inv) (hstate : m.state ≠ .command) (hstatus : m.status = .running)
    (line : List Char) : Moves m (m.addLineToText line) True := by
  refine moves_plain hi rfl rfl rfl ?_ (.inr ?_)
  · rw [addLineToText, hstatus]
    rintro ⟨⟩
  · rw [addLineToText, hi.text.resolve_left hstate]
    simp

theorem moves_login (hi : m.Inv) (hstate : m.state = .password) (line : List Char) : Moves m (m.login env line)
      (env.credentials = some (m.myLoginUser, []) → line ≠ []) := by
  have hlogged : m.loggedIn = false := by
    rw [loggedIn, hstate]
    rfl
  have hnone : m.executed = [] := by
    by_contra hne
    rw [hi.executed hne] at hlogged
    cases hlogged
  have htext := hi.text.resolve_left (by rw [hstate]; rintro ⟨⟩)
  rw [login]
  split_ifs with hok
  · refine ⟨prefix_rfl, fun h => absurd (h.symm.trans hlogged) (by decide),
      ⟨.inl rfl, fun _ => rfl⟩, fun h => ?_⟩
    constructor
    · intro h' hempty hline
      have hauth : decide (env.credentials = some (m.myLoginUser, line) ∧ line ≠ []) = true :=
        h'.login (.inl rfl)
      exact (of_decide_eq_true hauth).2 hline
    · intro hne
      refine ⟨h.status, h.texts, fun _ => decide_eq_true ⟨hok, ?_⟩⟩
      rintro rfl
      exact hne hok rfl
  · have hclosed : m.close.status ≠ .thrown := by rintro ⟨⟩
    have hplain : Moves m m.close True := moves_plain hi rfl rfl rfl hclosed (.inr htext)
    refine hplain.congr (iff_of_true trivial ?_)
    rintro hempty rfl
    exact hok hempty

/-- The end of a message. -/
theorem moves_processMessageText (hi : m.Inv) (hstate : m.state = .enterMessage)
    (hstatus : m.status = .running) : Moves m (m.processMessageText env) (m.myText ≠ []) := by
  have hlogged : m.loggedIn = true := by
    rw [loggedIn, hstate]
    rfl
  have htext := hi.text.resolve_left (by rw [hstate]; rintro ⟨⟩)
  rw [processMessageText]
  split_ifs with hempty
  · refine ⟨prefix_rfl, fun _ => ⟨hlogged, rfl⟩, ⟨.inr htext, fun _ => hlogged⟩, fun _ => ?_⟩
    exact iff_of_false (fun h => h.status rfl) (not_not.mpr hempty)
  · have hblock : m.block ≠ [] := fun h => hempty (by rw [htext, h]; rfl)
    have hmessage : m.myText.dropLast = ['\n'].intercalate m.block := by
      rw [htext, dropLast_unlines hblock]
    have hend : Moves m (({ m with myText := m.myText.dropLast }.executeText
        (.sendMessage m.myUserId m.myText.dropLast)).flush env)
          (m.myText.dropLast = ['\n'].intercalate m.block) :=
      moves_executeText hlogged hstatus rfl rfl rfl rfl
    exact hend.congr (iff_of_true hmessage hempty)

/-- The end of a description or an auto response, whose text is not worked on. -/
theorem moves_endOfText (hi : m.Inv) (hlogged : m.loggedIn = true) (hstate : m.state ≠ .command)
    (hstatus : m.status = .running) {a : Action} (ha : a.text? = some m.myText) :
    Moves m ((m.executeText a).flush env) (m.myText = []) := by
  have htext := hi.text.resolve_left hstate
  refine (moves_executeText hlogged hstatus rfl rfl rfl ha).congr ?_
  rw [htext, unlines_eq_intercalate_iff, unlines_eq_nil_iff]

/-- **One line.** -/
theorem moves_stateMachine (hi : m.Inv) (hstatus : m.status = .running) (env : Env)
    (line : List Char) : Moves m (m.stateMachine env line) (LineOk (fun _ => env) m line) := by
  have hne : m.status ≠ .thrown := by
    rw [hstatus]
    rintro ⟨⟩
  have hadd (h : m.state ≠ .command) (hline : line ≠ ['.']) (Ok : Prop) :
      Moves m (m.addLineToText line) (m.status = .running → line = ['.'] → Ok) :=
    (moves_addLineToText hi h hstatus line).congr (iff_of_true trivial fun _ hdot => absurd hdot hline)
  have hblock {state : SessionState} {a : Action} (hstate : m.state = state) (h₁ : state ≠ .uin)
      (h₂ : state ≠ .password) (h₃ : state ≠ .command) (ha : a.text? = some m.myText) :
      Moves m (if line = ['.'] then (m.executeText a).flush env else m.addLineToText line)
        (m.status = .running → line = ['.'] → m.myText = []) := by
    have hlogged : m.loggedIn = true := decide_eq_true ⟨hstate ▸ h₁, hstate ▸ h₂⟩
    split_ifs with hdot
    · refine (moves_endOfText hi hlogged (hstate ▸ h₃) hstatus ha).congr ?_
      rw [forall_prop_of_true hstatus, forall_prop_of_true hdot]
    · exact hadd (hstate ▸ h₃) hdot _
  rw [stateMachine.eq_def]
  unfold LineOk
  cases hstate : m.state with
  | uin =>
    have hplain : Moves m { m with myLoginUser := line, state := .password } True := by
      refine moves_plain hi rfl rfl ?_ hne (.inr (hi.text.resolve_left ?_))
      · rw [loggedIn, loggedIn, hstate]
        rfl
      · rw [hstate]
        rintro ⟨⟩
    exact hplain.congr (iff_of_true trivial fun _ => trivial)
  | password =>
    exact (moves_login hi hstate line).congr ⟨fun h _ => h, fun h => h hstatus⟩
  | command =>
    exact (moves_processCommand hi hstate hstatus line).congr (iff_of_true trivial fun _ => trivial)
  | enterMessage =>
    simp only
    split_ifs with hdot
    · refine (moves_processMessageText hi hstate hstatus).congr ?_
      rw [forall_prop_of_true hstatus, forall_prop_of_true hdot]
    · exact hadd (by rw [hstate]; rintro ⟨⟩) hdot _
  | enterUrlDescription =>
    exact hblock hstate (by rintro ⟨⟩) (by rintro ⟨⟩) (by rintro ⟨⟩) rfl
  | enterUrl =>
    have hplain : Moves m (m.processUrlUrl env line) True := by
      refine moves_plain hi flush_executed flush_authorized ?_ (flush_status_ne hne) (.inr ?_)
      · rw [loggedIn, processUrlUrl, flush_state, loggedIn, hstate]
        rfl
      · rw [processUrlUrl, flush_myText, flush_block]
        rfl
    exact hplain.congr (iff_of_true trivial fun _ => trivial)
  | enterAutoResponse =>
    exact hblock hstate (by rintro ⟨⟩) (by rintro ⟨⟩) (by rintro ⟨⟩) rfl

/-! ## Every stream -/

theorem moves_feedLine (hi : m.Inv) (env : ℕ → Env) (line : List Char) :
    Moves m (m.feedLine env line) (LineOk env m line) := by
  rw [feedLine]
  split_ifs with hstatus
  · have hne : m.status ≠ .thrown := by
      rw [hstatus]
      rintro ⟨⟩
    have hfed : Moves m { m with fed := m.fed + 1 } True := moves_plain hi rfl rfl rfl hne hi.text
    exact (hfed.trans (moves_stateMachine hfed.inv hstatus (env m.fed) line)).congr Iff.rfl
  · exact ⟨prefix_rfl, fun h => ⟨h, rfl⟩, hi,
      fun h => iff_of_true h fun hrunning => absurd hrunning hstatus⟩

/-- What has gone wrong stays wrong. -/
theorem good_of_feedLine (hi : m.Inv) {env : ℕ → Env} {line : List Char}
    (h : (m.feedLine env line).Good) : m.Good := by
  have hmoves := moves_feedLine hi env line
  refine ⟨fun hthrown => ?_, fun e he => h.texts e (hmoves.executed.subset he), fun hm => ?_⟩
  · have hsame : m.feedLine env line = m := by
      rw [feedLine, hthrown, if_neg (by rintro ⟨⟩)]
    exact h.status (by rw [hsame]; exact hthrown)
  · have hlogged : m.loggedIn = true := hm.elim id hi.executed
    obtain ⟨hlogged', hauthorized⟩ := hmoves.loggedIn hlogged
    exact hauthorized.symm.trans (h.login (.inl hlogged'))

theorem inv_start : start.Inv := ⟨.inr rfl, fun h => absurd rfl h⟩

theorem good_start : start.Good where
  status := by rintro ⟨⟩
  texts _ h := absurd h not_mem_nil
  login h := by
    rcases h with h | h
    · cases h
    · exact absurd rfl h

/-- **The lines of a session.** -/
theorem good_feed_iff (env : ℕ → Env) (lines : List (List Char)) :
    (start.feed env lines).Good ↔
      Steps.Each (fun m line => some (m.feedLine env line)) (LineOk env) start lines :=
  Steps.foldl_iff_each (P := Good) (I := Inv) (fun _ line h hi => (moves_feedLine hi env line).good h)
    (fun _ line hi => (moves_feedLine hi env line).inv) (fun _ _ hi => good_of_feedLine hi)
    good_start inv_start lines

theorem feed_of_not_running (env : ℕ → Env) (h : m.status ≠ .running) (lines : List (List Char)) :
    m.feed env lines = m := by
  induction lines with
  | nil => rfl
  | cons line lines ih =>
    rw [feed, foldl_cons, feedLine, if_neg h]
    exact ih

end Machine

/-! ## The buffer and the stream -/

/-- One more character of a line. -/
theorem clean_append_singleton (line : List Char) (c : Char) :
    clean (line ++ [c]) =
      if !isCntrl c && (clean line).length < maxLineLength then clean line ++ [c] else clean line := by
  rw [clean, clean, filter_append, length_take]
  cases hc : isCntrl c with
  | true => simp [hc]
  | false =>
    have hkeep : [c].filter (fun c => !isCntrl c) = [c] := by simp [hc]
    rw [hkeep]
    by_cases hlt : (line.filter fun c => !isCntrl c).length < maxLineLength
    · rw [take_of_length_le (l := _ ++ [c]) (by rw [length_append]; exact hlt),
        take_of_length_le hlt.le, if_pos]
      simp [hlt]
    · rw [take_append_of_le_length (not_lt.mp hlt), if_neg]
      simp [hlt]

namespace Session

/-- The buffer holds the line so far, of which these characters have been received. -/
structure Holds (s : Session) (received : List Char) : Prop where
  overflow : s.overflow = false
  pos : s.dataLinePos = (clean received).length
  line : s.dataLine.toList.take s.dataLinePos = clean received

variable {s : Session} {received : List Char}

theorem Holds.pos_le (h : s.Holds received) : s.dataLinePos ≤ maxLineLength := by
  rw [h.pos, clean]
  exact length_take_le _ _

/-- Up to the limit a write stays inside the buffer. -/
theorem put_eq (h : s.dataLinePos ≤ maxLineLength) (c : Char) :
    ∃ dataLine, s.put c = { s with dataLine := dataLine } ∧
      dataLine.toList = s.dataLine.toList.set s.dataLinePos c := by
  have hlt : s.dataLinePos < maxLineLength + 1 := Nat.lt_succ_of_le h
  exact ⟨s.dataLine.set s.dataLinePos c hlt, dif_pos hlt, Vector.toList_set hlt⟩

theorem put_machine {c : Char} : (s.put c).machine = s.machine := by
  rw [put]
  split_ifs <;> rfl

/-- The written character stands behind those in front of it. -/
theorem take_succ_set {l : List Char} {i : ℕ} (h : i < l.length) (c : Char) :
    (l.set i c).take (i + 1) = l.take i ++ [c] := by
  have hlength : (l.take i ++ [c]).length = i + 1 := by
    rw [length_append, length_take_of_le h.le, length_singleton]
  rw [set_eq_take_append_cons_drop, if_pos h, append_cons, ← hlength, take_left]

theorem take_put {dataLine : Vector Char (maxLineLength + 1)} {c : Char}
    (hpos : s.dataLinePos ≤ maxLineLength)
    (h : dataLine.toList = s.dataLine.toList.set s.dataLinePos c) :
    dataLine.toList.take (s.dataLinePos + 1) = s.dataLine.toList.take s.dataLinePos ++ [c] := by
  rw [h]
  refine take_succ_set ?_ c
  rw [Vector.length_toList]
  exact Nat.lt_succ_of_le hpos

/-- A null byte is a control character. -/
theorem null_notMem_clean (line : List Char) : '\x00' ∉ clean line := by
  intro h
  have hmem := (mem_filter.mp (mem_of_mem_take h)).2
  cases hmem

/-- **The null byte** that ends the line. -/
theorem Holds.terminate (h : s.Holds received) :
    (s.put '\x00').Holds received ∧ (s.put '\x00').line = clean received ∧
      (s.put '\x00').machine = s.machine := by
  obtain ⟨dataLine, hput, hlist⟩ := put_eq h.pos_le '\x00'
  have htake := take_put h.pos_le hlist
  rw [h.line] at htake
  rw [hput]
  refine ⟨⟨h.overflow, h.pos, ?_⟩, ?_, rfl⟩
  · have hfirst := congrArg (List.take s.dataLinePos) htake
    rw [take_take, Nat.min_eq_left (Nat.le_succ _), h.pos, take_left] at hfirst
    exact h.pos ▸ hfirst
  · rw [Session.line, ← take_append_drop (s.dataLinePos + 1) dataLine.toList, htake,
      append_assoc, takeWhile_append_of_pos]
    · simp
    · intro c hc
      simpa using fun heq : c = '\x00' => null_notMem_clean received (heq ▸ hc)

/-- **One more character.** -/
theorem Holds.put (h : s.Holds received) (c : Char) :
    Holds (if !isCntrl c && s.dataLinePos < maxLineLength then
      { s.put c with dataLinePos := s.dataLinePos + 1 } else s) (received ++ [c]) := by
  obtain ⟨dataLine, hput, hlist⟩ := put_eq h.pos_le c
  have hclean := clean_append_singleton received c
  rw [← h.pos] at hclean
  split_ifs with hkeep
  · rw [if_pos hkeep] at hclean
    rw [hput]
    refine ⟨h.overflow, ?_, ?_⟩
    · rw [hclean, length_append, ← h.pos]
      rfl
    · rw [hclean, ← h.line]
      exact take_put h.pos_le hlist
  · rw [if_neg hkeep] at hclean
    exact ⟨h.overflow, hclean ▸ h.pos, hclean ▸ h.line⟩

/-- The loop over one chunk: the lines that are terminated in it have been fed, and the buffer holds
the rest. -/
theorem activityLoop_spec (env : ℕ → Env) (chunk : List Char) (hs : s.Holds received)
    (hnl : '\n' ∉ received) :
    ∃ rest, '\n' ∉ rest ∧ (activityLoop env s chunk).overflow = false ∧
      ((activityLoop env s chunk).machine.status = .running →
        (activityLoop env s chunk).Holds rest) ∧
      ∀ more, s.machine.feed env (streamLines (received ++ (chunk ++ more))) =
        (activityLoop env s chunk).machine.feed env (streamLines (rest ++ more)) := by
  induction chunk generalizing s received with
  | nil =>
    obtain ⟨hholds, -, hmachine⟩ := hs.terminate
    refine ⟨received, hnl, hholds.overflow, fun _ => hholds, fun more => ?_⟩
    rw [activityLoop, hmachine, nil_append]
  | cons c chunk ih =>
    by_cases hc : c = '\n'
    · subst hc
      obtain ⟨hholds, hline, hmachine⟩ := hs.terminate
      have hlines (more : List Char) : streamLines (received ++ ('\n' :: chunk ++ more)) =
          clean received :: streamLines (chunk ++ more) := by
        rw [streamLines, cons_append, terminatedLines_append_nl hnl, map_cons]
        rfl
      have hfeed (more : List Char) :
          s.machine.feed env (streamLines (received ++ ('\n' :: chunk ++ more))) =
            (s.machine.feedLine env (clean received)).feed env (streamLines (chunk ++ more)) := by
        rw [hlines]
        rfl
      rw [activityLoop, if_neg (not_not.mpr rfl)]
      simp only [hline, hmachine]
      split_ifs with hrunning
      · obtain ⟨rest, hrest, hover, hheld, hmore⟩ := ih (s := { s.put '\x00' with
          machine := s.machine.feedLine env (clean received), dataLinePos := 0 })
          ⟨hholds.overflow, rfl, rfl⟩ not_mem_nil
        exact ⟨rest, hrest, hover, hheld, fun more => (hfeed more).trans (hmore more)⟩
      · refine ⟨[], not_mem_nil, hholds.overflow, fun h => absurd h hrunning, fun more => ?_⟩
        rw [hfeed, Machine.feed_of_not_running env hrunning,
          Machine.feed_of_not_running env hrunning]
    · have hnl' : '\n' ∉ received ++ [c] := by
        rw [mem_append, mem_singleton]
        exact not_or.mpr ⟨hnl, Ne.symm hc⟩
      obtain ⟨rest, hrest, hover, hheld, hmore⟩ := ih (hs.put c) hnl'
      rw [activityLoop, if_pos hc]
      refine ⟨rest, hrest, hover, hheld, fun more => ?_⟩
      rw [← hmore more, append_assoc, singleton_append, cons_append]
      split_ifs
      · exact congrArg (fun m : Machine => m.feed env _) put_machine.symm
      · rfl

/-- A client that has been deleted receives nothing. -/
theorem foldl_activity_of_not_running (env : ℕ → Env) (h : s.machine.status ≠ .running)
    (chunks : List (List Char)) : chunks.foldl (activity env) s = s := by
  induction chunks with
  | nil => rfl
  | cons chunk chunks ih =>
    rw [foldl_cons, activity, if_neg h]
    exact ih

/-- **The stream decides.**  The chunks that a stream is received in do not matter, and none of them
leads out of the buffer. -/
theorem foldl_activity (env : ℕ → Env) (chunks : List (List Char)) {s : Session}
    {received : List Char} (hs : s.Holds received) (hnl : '\n' ∉ received) :
    (chunks.foldl (activity env) s).overflow = false ∧
      (chunks.foldl (activity env) s).machine =
        s.machine.feed env (streamLines (received ++ chunks.flatten)) := by
  induction chunks generalizing s received with
  | nil =>
    refine ⟨hs.overflow, ?_⟩
    rw [flatten_nil, append_nil, streamLines, terminatedLines_of_notMem hnl]
    rfl
  | cons chunk chunks ih =>
    rw [foldl_cons, flatten_cons, activity]
    split_ifs with hrunning
    · obtain ⟨rest, hrest, hover, hheld, hmore⟩ := activityLoop_spec env chunk hs hnl
      rw [hmore]
      by_cases hrun : (activityLoop env s chunk).machine.status = .running
      · exact ih (hheld hrun) hrest
      · rw [Machine.feed_of_not_running env hrun, foldl_activity_of_not_running env hrun]
        exact ⟨hover, rfl⟩
    · rw [Machine.feed_of_not_running env hrunning, foldl_activity_of_not_running env hrunning]
      exact ⟨hs.overflow, rfl⟩

end Session

/-- A server with a user and a password in its configuration. -/
def configured (_ : ℕ) : Env := ⟨none, ['u'], ['p'], [], [], [], none, false, true⟩

end Licq.Rms
