import Licq.Buffer.Basic
import Licq.History.Events

/-!
# History/Load — reading the history file

`UserHistory::load` reads the file with `fgets` into 4096 bytes.  It looks for a line that is a header
and reads the lines behind it as the type in the header has them.  A piece of a line that is longer
than the buffer is taken for a line of its own.
-/

open Text

namespace Licq.History

/-! ## Headers -/

/-- A number of `\d+`, and what follows it. -/
def readNumber (s : List UInt8) : Option (List UInt8 × List UInt8) :=
  let digit : UInt8 → Bool := fun c => 0x30 ≤ c && c ≤ 0x39
  if s.takeWhile digit = [] then none else some (s.takeWhile digit, s.dropWhile digit)

/-- What follows a text. -/
def readText (p s : List UInt8) : Option (List UInt8) :=
  if p <+: s then some (s.drop p.length) else none

/-- The parts of a header. -/
structure Header where
  cDir : UInt8
  nSubCommand : ℤ
  nCommand : ℤ
  nFlags : ℕ
  tTime : Int64
  deriving DecidableEq

/-- `atoi` of the digits that a match begins with. -/
def number (digits : List UInt8) : ℤ := atoi (byteChars digits)

/-- `atol` -/
def longNumber (digits : List UInt8) : ℤ := strtol (byteChars digits)

/-- The match with `headRegex`.  What follows digits there is no digit, so that every `\d+` takes all
of them. -/
def matchHeader (sz : List UInt8) : Option Header := do
  let s ← readText (asciiBytes ['[', ' ']) sz
  let cDir ← s.head?
  if cDir = 0x53 ∨ cDir = 0x52 then
    let s ← readText (asciiBytes [' ', '|', ' ']) s.tail
    let (nSubCommand, s) ← readNumber s
    let s ← readText (asciiBytes [' ', '|', ' ']) s
    let (nCommand, s) ← readNumber s
    let s ← readText (asciiBytes [' ', '|', ' ']) s
    let (nFlags, s) ← readNumber s
    let s ← readText (asciiBytes [' ', '|', ' ']) s
    let (tTime, s) ← readNumber s
    let _ ← readText (asciiBytes [' ', ']']) s
    some ⟨cDir, number nSubCommand, number nCommand,
      (longNumber nFlags * 2 ^ 16 % 2 ^ 64).toNat, Int64.ofInt (longNumber tTime)⟩
  else none

/-- The flags of an event with this header, and whether its texts are in UTF-8. -/
def Header.flags (h : Header) : ℕ × Bool :=
  let nFlags := if h.nCommand = commandRcvOffline then h.nFlags ||| flagOffline else h.nFlags
  let nFlags := if h.cDir ≠ 0x52 then nFlags ||| flagSender else nFlags
  if nFlags &&& flagUnicode ≠ 0 then (nFlags &&& (2 ^ 64 - 1 - flagUnicode), true)
  else (nFlags, false)

/-! ## Lines -/

/-- The lines that are left to read, as C strings, the one read last at the front; none is left where
`fgets` has given nothing. -/
abbrev Lines := List (List UInt8)

/-- `GET_VALID_LINE_OR_BREAK`: none where `assign` throws, for a line with nothing behind its colon,
and no value where it breaks. -/
def getValidLine (cs : Lines) : Option (Option (List UInt8) × Lines) :=
  match cs.tail with
  | [] => some (none, [])
  | sz :: cs =>
    if sz.head? ≠ some 0x3A then some (none, sz :: cs)
    else if sz.tail = [] then none
    else some (some sz.tail.dropLast, sz :: cs)

/-- `GET_VALID_LINES` -/
def getValidLines (cs : Lines) : List UInt8 × Lines :=
  let valid := cs.tail.takeWhile (·.head? = some 0x3A)
  ((valid.flatMap List.tail).dropLast, cs.tail.dropWhile (·.head? = some 0x3A))

/-- `SKIP_VALID_LINES` -/
def skipValidLines (cs : Lines) : Lines := cs.tail.dropWhile (·.head? = some 0x3A)

/-- What a case does with a value, unless reading it has broken out of the case. -/
def withLine {β : Type} (cs : Lines) (k : List UInt8 → Lines → Option (Option β × Lines)) :
    Option (Option β × Lines) :=
  match getValidLine cs with
  | none => none
  | some (none, cs) => some (none, cs)
  | some (some dest, cs) => k dest cs

/-- The loop over the contacts of a list, which a line without a colon ends.  It has as many rounds as
there are lines. -/
def getContacts (utf8 : List UInt8 → List UInt8) :
    ℕ → Lines → Option (List (List UInt8 × List UInt8) × Lines)
  | 0, cs => some ([], cs)
  | rounds + 1, cs =>
    match getValidLine cs with
    | none => none
    | some (none, cs) => some ([], cs)
    | some (some accountId, cs) =>
      match getValidLine cs with
      | none => none
      | some (none, cs) => some ([], cs)
      | some (some alias_, cs) =>
        (getContacts utf8 rounds cs).map fun (vc, cs) => ((accountId, utf8 alias_) :: vc, cs)

/-! ## Entries -/

/-- What reading depends on beside the file: the time, the texts that can be decrypted, and what the
translator makes of a text in the encoding of the locale and in that of the user. -/
structure Reader where
  now : Int64
  decrypt : List UInt8 → Option (List UInt8)
  toUtf8 : List UInt8 → List UInt8
  userToUtf8 : List UInt8 → List UInt8

/-- `-----BEGIN PGP MESSAGE-----` -/
def pgpSig : List UInt8 :=
  asciiBytes ['-', '-', '-', '-', '-', 'B', 'E', 'G', 'I', 'N', ' ', 'P', 'G', 'P', ' ', 'M', 'E',
    'S', 'S', 'A', 'G', 'E', '-', '-', '-', '-', '-']

namespace Reader

variable (r : Reader)

/-- The constructor of an event, for which a time of zero is the present. -/
def event (nFlags : ℕ) (tTime : Int64) (body : Body) : Event :=
  ⟨nFlags, if tTime = 0 then r.now else tTime, body⟩

/-- The constructor of a message, which decrypts it. -/
def eventMsg (message : List UInt8) (tTime : Int64) (nFlags : ℕ) : Event :=
  if pgpSig <+: message then
    match r.decrypt message with
    | some plaintext => r.event (nFlags ||| flagEncrypted) tTime (.msg plaintext)
    | none => r.event nFlags tTime (.msg message)
  else r.event nFlags tTime (.msg message)

/-- An entry, with its header at the front of the lines: the event, if there is one, and the lines
that are left.  None where `assign` throws. -/
def readEntry (h : Header) (cs : Lines) : Option (Option Event × Lines) :=
  let nFlags := h.flags.1
  let utf8 : List UInt8 → List UInt8 := if h.flags.2 then id else r.toUtf8
  let userUtf8 : List UInt8 → List UInt8 := if h.flags.2 then id else r.userToUtf8
  -- a text at the end of an entry
  let withText (cs : Lines) (k : List UInt8 → Event) : Option (Option Event × Lines) :=
    some (some (k (userUtf8 (getValidLines cs).1)), (getValidLines cs).2)
  match h.nSubCommand with
  | 0x0001 => withText cs fun message => r.eventMsg message h.tTime nFlags
  | 0x0002 =>
    if h.nCommand ≠ commandCancelled then
      withText cs fun message => r.event (nFlags ||| flagDirect) h.tTime (.chat message)
    else some (none, skipValidLines cs)
  | 0x0003 =>
    if h.nCommand ≠ commandCancelled then
      withLine cs fun file cs => withLine cs fun sizeStr cs => withText cs fun message =>
        r.event (nFlags ||| flagDirect) h.tTime
          (.file (utf8 file) (UInt64.ofInt (number sizeStr)) message)
    else some (none, skipValidLines cs)
  | 0x0004 =>
    withLine cs fun url cs => withText cs fun message =>
      r.event nFlags h.tTime (.url (utf8 url) message)
  | 0x0006 =>
    withLine cs fun accountId cs => withLine cs fun alias_ cs => withLine cs fun firstName cs =>
      withLine cs fun lastName cs => withLine cs fun email cs => withText cs fun message =>
        r.event nFlags h.tTime (.authRequest accountId (utf8 alias_) (utf8 firstName)
          (utf8 lastName) (utf8 email) message)
  | 0x0008 =>
    withLine cs fun accountId cs => withText cs fun message =>
      r.event nFlags h.tTime (.authGranted accountId message)
  | 0x0007 =>
    withLine cs fun accountId cs => withText cs fun message =>
      r.event nFlags h.tTime (.authRefused accountId message)
  | 0x000C =>
    withLine cs fun accountId cs => withLine cs fun alias_ cs => withLine cs fun firstName cs =>
      withLine cs fun lastName cs => withLine cs fun email cs =>
        some (some (r.event nFlags h.tTime (.added accountId (utf8 alias_) (utf8 firstName)
          (utf8 lastName) (utf8 email))), cs)
  | 0x000D =>
    withLine cs fun name cs => withLine cs fun email cs => withText cs fun message =>
      r.event nFlags h.tTime (.webPanel (utf8 name) (utf8 email) message)
  | 0x000E =>
    withLine cs fun name cs => withLine cs fun email cs => withText cs fun message =>
      r.event nFlags h.tTime (.emailPager (utf8 name) (utf8 email) message)
  | 0x0013 =>
    (getContacts utf8 cs.length cs).map fun (vc, cs) =>
      (some (r.event nFlags h.tTime (.contactList vc)), cs)
  | 0x001A =>
    withLine cs fun number cs => withText cs fun message =>
      r.event nFlags h.tTime (.sms number message)
  | 0x0009 =>
    withLine cs fun name cs => withLine cs fun email cs => withText cs fun message =>
      r.event 0 h.tTime (.msgServer (utf8 name) (utf8 email) message)
  | 0x001C | 0x00EC =>
    withLine cs fun name cs => withLine cs fun email cs => withText cs fun message =>
      r.event flagDirect h.tTime (.emailAlert (utf8 name) (utf8 email) message)
  -- the line that has been read last is the header again
  | _ => some (none, cs)

/-- The loop of `load`; none where an exception is thrown, or where the loop takes more rounds. -/
def loadLoop : ℕ → Lines → Option (List Event)
  | 0, _ => none
  | rounds + 1, cs =>
    match cs.dropWhile (·.head? ≠ some 0x5B) with
    | [] => some []
    | sz :: cs =>
      match matchHeader sz with
      | none => loadLoop rounds cs
      | some h =>
        match r.readEntry h (sz :: cs) with
        | none => none
        | some (e, cs) => (loadLoop rounds cs).map (e.toList ++ ·)

/-- The lines of a file, as `fgets` gives them: of 4095 characters at most, up to a NUL. -/
def fileLines (file : List UInt8) : Lines := (chunks 4094 nl 4094 file).map cStr

/-- `UserHistory::load`, of a file that can be read.  An entry of an unknown type is read again and
again; any other round takes a line at least. -/
def load (file : List UInt8) : Option (List Event) :=
  r.loadLoop ((fileLines file).length + 1) (fileLines file)

end Reader

end Licq.History
