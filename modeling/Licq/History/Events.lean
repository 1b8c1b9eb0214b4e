import Licq.Text.Bytes
import Licq.Text.Lines

/-!
# History/Events — what an event writes to the history file

An entry of a history file is a header in brackets, some values of one line each, and mostly a text.
Every line of a value or of a text has a colon before it; `addSingleLine` writes a value on one line,
with spaces for its line ends, and `addStrWithColons` a text of several lines.  `addToHistory_lines`
says which lines an entry has.
-/

open Text

namespace Licq.History

open List

/-- `'\n'` -/
def nl : UInt8 := 0x0A

/-! ## Events -/

/-- What an event has beside its flags and its time, as far as an entry has it.  A chat request has
its `text()`. -/
inductive Body
  | msg (message : List UInt8)
  | chat (text : List UInt8)
  | file (filename : List UInt8) (nFileSize : UInt64) (fileDescription : List UInt8)
  | url (url urlDescription : List UInt8)
  | authRequest (accountId alias_ firstName lastName email reason : List UInt8)
  | authRefused (accountId message : List UInt8)
  | authGranted (accountId message : List UInt8)
  | msgServer (name email message : List UInt8)
  | added (accountId alias_ firstName lastName email : List UInt8)
  | webPanel (name email message : List UInt8)
  | emailPager (name email message : List UInt8)
  | contactList (contacts : List (List UInt8 × List UInt8))
  | sms (number message : List UInt8)
  | emailAlert (name email subject : List UInt8)
  | unknownSys (nSubCommand nCommand : UInt16)
  deriving DecidableEq

/-- `UserEvent::EventType` -/
def Body.eventType : Body → ℕ
  | msg .. => 0x0001
  | chat .. => 0x0002
  | file .. => 0x0003
  | url .. => 0x0004
  | authRequest .. => 0x0006
  | authRefused .. => 0x0007
  | authGranted .. => 0x0008
  | msgServer .. => 0x0009
  | added .. => 0x000C
  | webPanel .. => 0x000D
  | emailPager .. => 0x000E
  | contactList .. => 0x0013
  | sms .. => 0x001A
  | emailAlert .. => 0x001C
  | unknownSys .. => 0x001F

def flagDirect : ℕ := 0x00010000

def flagEncrypted : ℕ := 0x00100000

def flagSender : ℕ := 0x00200000

def flagOffline : ℕ := 0x00400000

def flagUnicode : ℕ := 0x00800000

def commandDirect : ℕ := 0x07EE

def commandSent : ℕ := 0x010E

def commandRcvOnline : ℕ := 0x0104

def commandRcvOffline : ℕ := 0x00DC

def commandCancelled : ℕ := 0x07D0

/-- `UserEvent` -/
structure Event where
  nFlags : ℕ
  tTime : Int64
  body : Body
  deriving DecidableEq

/-- `isReceiver` -/
def Event.isReceiver (e : Event) : Bool := e.nFlags &&& flagSender = 0

/-! ## Writing -/

/-- A number, with `width(4)` and `fill('0')`. -/
def padded (n : ℕ) : List UInt8 :=
  List.replicate (4 - (decimalBytes n).length) 0x30 ++ decimalBytes n

/-- The command in the header. -/
def Event.nCommand (e : Event) : ℕ :=
  match e.body with
  | .unknownSys _ nCommand => nCommand.toNat
  | _ =>
    if e.nFlags &&& flagDirect ≠ 0 then commandDirect
    else if e.nFlags &&& flagSender ≠ 0 then commandSent
    else if e.nFlags &&& flagOffline ≠ 0 then commandRcvOffline
    else commandRcvOnline

/-- The type in the header. -/
def Event.nSubCommand (e : Event) : ℕ :=
  match e.body with
  | .unknownSys nSubCommand _ => nSubCommand.toNat
  | _ => e.body.eventType

/-- The flags in the header. -/
def Event.headerFlags (e : Event) : ℕ :=
  ((e.nFlags ||| flagUnicode) >>> 16) % 2 ^ 16 &&& 0x809F

/-- The header of an entry, without its line end. -/
def Event.headerLine (e : Event) (isReceiver : Bool) : List UInt8 :=
  asciiBytes ['[', ' ', if isReceiver then 'R' else 'S'] ++ asciiBytes [' ', '|', ' '] ++
    padded e.nSubCommand ++ asciiBytes [' ', '|', ' '] ++ padded e.nCommand ++
    asciiBytes [' ', '|', ' '] ++ padded e.headerFlags ++ asciiBytes [' ', '|', ' '] ++
    decimalBytes e.tTime.toUInt64.toNat ++ asciiBytes [' ', ']']

/-- `historyHeader` -/
def Event.historyHeader (e : Event) (isReceiver : Bool) : List UInt8 :=
  e.headerLine isReceiver ++ [nl]

/-- A colon behind every line end. -/
def insertColons : List UInt8 → List UInt8
  | [] => []
  | c :: s => if c = nl then c :: 0x3A :: insertColons s else c :: insertColons s

/-- `addStrWithColons` -/
def addStrWithColons (oldStr : List UInt8) : List UInt8 := 0x3A :: insertColons oldStr

/-- A value with spaces for its line ends. -/
def oneLine (oldStr : List UInt8) : List UInt8 := oldStr.map fun c => if c = nl then 0x20 else c

/-- `addSingleLine` -/
def addSingleLine (oldStr : List UInt8) : List UInt8 := 0x3A :: oneLine oldStr ++ [nl]

/-- `AddToHistory`; none for an unknown system message, which writes nothing. -/
def Event.addToHistory (e : Event) (isReceiver : Bool) : Option (List UInt8) :=
  let header := e.historyHeader isReceiver
  match e.body with
  | .msg message => some (header ++ addStrWithColons message)
  | .chat text => some (header ++ addStrWithColons text)
  | .file filename nFileSize fileDescription =>
    some (header ++ addSingleLine filename ++ (0x3A :: decimalBytes nFileSize.toNat ++ [nl]) ++
      addStrWithColons fileDescription)
  | .url url urlDescription =>
    some (header ++ addSingleLine url ++ addStrWithColons urlDescription)
  | .authRequest accountId alias_ firstName lastName email reason =>
    some (header ++ addSingleLine accountId ++ addSingleLine alias_ ++ addSingleLine firstName ++
      addSingleLine lastName ++ addSingleLine email ++ addStrWithColons reason)
  | .authRefused accountId message =>
    some (header ++ addSingleLine accountId ++ addStrWithColons message)
  | .authGranted accountId message =>
    some (header ++ addSingleLine accountId ++ addStrWithColons message)
  | .msgServer name email message =>
    some (header ++ addSingleLine name ++ addSingleLine email ++ addStrWithColons message)
  | .added accountId alias_ firstName lastName email =>
    some (header ++ addSingleLine accountId ++ addSingleLine alias_ ++ addSingleLine firstName ++
      addSingleLine lastName ++ addSingleLine email)
  | .webPanel name email message =>
    some (header ++ addSingleLine name ++ addSingleLine email ++ addStrWithColons message)
  | .emailPager name email message =>
    some (header ++ addSingleLine name ++ addSingleLine email ++ addStrWithColons message)
  | .contactList contacts =>
    some (header ++ contacts.flatMap fun c => addSingleLine c.1 ++ addSingleLine c.2)
  | .sms number message => some (header ++ addSingleLine number ++ addStrWithColons message)
  | .emailAlert name email subject =>
    some (header ++ addSingleLine name ++ addSingleLine email ++ addStrWithColons subject)
  | .unknownSys .. => none

/-- `UserHistory::append` of what an event writes, to a file that can be written. -/
def Event.append (e : Event) (isReceiver : Bool) (file : List UInt8) : List UInt8 :=
  match e.addToHistory isReceiver with
  | none => file
  | some buf => file ++ buf ++ [nl]

/-! ## The lines of an entry -/

/-- The values of an entry that have one line each. -/
def Body.fields : Body → List (List UInt8)
  | .msg _ => []
  | .chat _ => []
  | .file filename nFileSize _ => [filename, decimalBytes nFileSize.toNat]
  | .url myUrl _ => [myUrl]
  | .authRequest accountId alias_ firstName lastName email _ =>
    [accountId, alias_, firstName, lastName, email]
  | .authRefused accountId _ => [accountId]
  | .authGranted accountId _ => [accountId]
  | .msgServer name email _ => [name, email]
  | .added accountId alias_ firstName lastName email =>
    [accountId, alias_, firstName, lastName, email]
  | .webPanel name email _ => [name, email]
  | .emailPager name email _ => [name, email]
  | .contactList contacts => contacts.flatMap fun c => [c.1, c.2]
  | .sms number _ => [number]
  | .emailAlert name email _ => [name, email]
  | .unknownSys .. => []

/-- The text of an entry. -/
def Body.text : Body → Option (List UInt8)
  | .msg message => some message
  | .chat text => some text
  | .file _ _ fileDescription => some fileDescription
  | .url _ urlDescription => some urlDescription
  | .authRequest _ _ _ _ _ reason => some reason
  | .authRefused _ message => some message
  | .authGranted _ message => some message
  | .msgServer _ _ message => some message
  | .webPanel _ _ message => some message
  | .emailPager _ _ message => some message
  | .sms _ message => some message
  | .emailAlert _ _ subject => some subject
  | .added .. | .contactList .. | .unknownSys .. => none

/-- The lines of a text; one that ends in a line end has an empty line behind it. -/
def textLines : List UInt8 → List (List UInt8)
  | [] => [[]]
  | c :: s =>
    if c = nl then [] :: textLines s
    else match textLines s with
      | [] => [[c]]
      | l :: ls => (c :: l) :: ls

/-- The lines of an entry behind its header.  One without a text ends in an empty line. -/
def Body.lines (b : Body) : List (List UInt8) :=
  b.fields.map (0x3A :: oneLine ·) ++
    match b.text with
    | some text => (textLines text).map (0x3A :: ·)
    | none => [[]]

theorem textLines_ne_nil (s : List UInt8) : textLines s ≠ [] := by
  cases s with
  | nil => exact cons_ne_nil _ _
  | cons c s =>
    rw [textLines]
    split_ifs
    · exact cons_ne_nil _ _
    · split <;> exact cons_ne_nil _ _

/-- **A text with its colons and a line end is its lines**, each with a colon and a line end. -/
theorem addStrWithColons_lines (s : List UInt8) :
    addStrWithColons s ++ [nl] = unlines nl ((textLines s).map (0x3A :: ·)) := by
  induction s with
  | nil => rfl
  | cons c s ih =>
    rw [addStrWithColons, cons_append] at ih
    rw [addStrWithColons, insertColons, textLines]
    split_ifs with hc
    · rw [map_cons, unlines_cons, ← ih, hc]
      rfl
    · obtain ⟨l, ls, hlines⟩ := exists_cons_of_ne_nil (textLines_ne_nil s)
      rw [hlines, map_cons, unlines_cons, cons_append] at ih
      rw [hlines]
      simp only [map_cons, unlines_cons, cons_append]
      rw [cons_inj_right] at ih
      rw [ih]

theorem addSingleLine_line (s : List UInt8) :
    addSingleLine s = unlines nl [0x3A :: oneLine s] := by
  rw [unlines_cons, unlines_nil]
  rfl

theorem oneLine_of_notMem {s : List UInt8} (h : nl ∉ s) : oneLine s = s := by
  refine (map_congr_left fun c hc => ?_).trans (map_id s)
  refine if_neg fun heq => h ?_
  rw [← heq]
  exact hc

theorem nl_notMem_oneLine (s : List UInt8) : nl ∉ oneLine s := by
  intro h
  obtain ⟨c, -, hc⟩ := mem_map.mp h
  split_ifs at hc with hnl
  · exact absurd hc (by decide)
  · exact hnl hc

theorem nl_notMem_decimalBytes (n : ℕ) : nl ∉ decimalBytes n := by
  intro h
  exact absurd (mem_decimalBytes h).1 (by decide)

/-- **What an entry is**: its header and its lines, each with a line end. -/
theorem append_lines {e : Event} (isReceiver : Bool) (file : List UInt8)
    (h : e.addToHistory isReceiver ≠ none) :
    e.append isReceiver file =
      file ++ unlines nl (e.headerLine isReceiver :: e.body.lines) := by
  obtain ⟨nFlags, tTime, body⟩ := e
  cases body with
  | unknownSys => exact absurd rfl h
  | file filename nFileSize fileDescription =>
    have hsize := oneLine_of_notMem (nl_notMem_decimalBytes nFileSize.toNat)
    simp [Event.append, Event.addToHistory, Event.historyHeader, addSingleLine_line, Body.lines,
      Body.fields, Body.text, ← addStrWithColons_lines, hsize]
  | contactList contacts =>
    have hcontacts : (contacts.flatMap fun c => addSingleLine c.1 ++ addSingleLine c.2) =
        unlines nl ((contacts.flatMap fun c => [c.1, c.2]).map (0x3A :: oneLine ·)) := by
      clear h
      induction contacts with
      | nil => rfl
      | cons c contacts ih =>
        rw [flatMap_cons, ih]
        simp [addSingleLine_line]
    simp [Event.append, Event.addToHistory, Event.historyHeader, hcontacts, Body.lines,
      Body.fields, Body.text]
  | _ =>
    simp [Event.append, Event.addToHistory, Event.historyHeader, addSingleLine_line, Body.lines,
      Body.fields, Body.text, ← addStrWithColons_lines]

end Licq.History
