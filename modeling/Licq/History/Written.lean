import Licq.History.RoundTrip

/-!
# History/Written — loading what has been written

Every line that an entry writes has a colon before it, so that no text of an event can be taken for a
header.  The main result is `load_written`: events come back one for one where no line is longer than
the buffer of `fgets` and nothing in it is lost to a C string.
-/

open Text

namespace Licq.History

open List

/-! ## Entries -/

/-- The texts of the event are compared: it is a message, a URL, an SMS or an e-mail. -/
def Body.HasText : Body → Prop
  | .msg .. | .url .. | .sms .. | .emailPager .. | .emailAlert .. => True
  | _ => False

/-- The event that is loaded has the direction that was written, and the type and the time of the
event written, and its texts where they are compared. -/
structure Same (e : Event × Bool) (e' : Event) : Prop where
  direction : e'.isReceiver = e.2
  type : e'.body.eventType = e.1.body.eventType
  time : e'.tTime = e.1.tTime
  text : e.1.body.HasText → e'.body = e.1.body

/-- **What is kept** in a history file: an event that writes an entry, of lines that there is room for
with their colon and their line end, with a value of no value that begins with a NUL; texts that are
compared have no NUL, and values no line end, and a message that looks encrypted is not decrypted to
another one.  The flags of a server message and of an e-mail alert are not read, so that both are
taken for received. -/
structure Reader.Kept (r : Reader) (e : Event) (isReceiver : Bool) : Prop where
  writes : e.addToHistory isReceiver ≠ none
  time : 0 < e.tTime
  short : ∀ l ∈ e.body.lines, l.length ≤ 4094
  start : ∀ f ∈ e.body.fields, f.head? ≠ some 0
  fields : e.body.HasText → ∀ f ∈ e.body.fields, 0 ∉ f ∧ nl ∉ f
  text : e.body.HasText → ∀ text ∈ e.body.text, 0 ∉ text
  plain : ∀ message, e.body = .msg message → pgpSig <+: message →
    ∀ plaintext, r.decrypt message = some plaintext → plaintext = message
  received : e.body.eventType = 0x0009 ∨ e.body.eventType = 0x001C → isReceiver = true

namespace Reader

variable {r : Reader} {e : Event} {isReceiver : Bool}

theorem same_event (hkept : r.Kept e isReceiver) {nFlags : ℕ} {body : Body}
    (hflags : nFlags.testBit 21 = !isReceiver) (htype : body.eventType = e.body.eventType)
    (htext : e.body.HasText → body = e.body) :
    Same (e, isReceiver) (r.event nFlags e.tTime body) := by
  have htime : e.tTime ≠ 0 := fun h => absurd (h ▸ hkept.time) (by decide)
  refine ⟨?_, htype, if_neg htime, htext⟩
  rw [isReceiver_eq, event, hflags, Bool.not_not]

theorem dropWhile_of_atHeader {cs : Lines} (h : AtHeader cs) :
    cs.dropWhile (fun l => decide (l.head? ≠ some 0x5B)) = cs := by
  cases cs with
  | nil => rfl
  | cons l cs => exact dropWhile_cons_of_neg (by simp [h l rfl])

/-- The contacts of a list are read from their lines. -/
theorem getContacts_lines (contacts : List (List UInt8 × List UInt8))
    (hstart : ∀ f ∈ contacts.flatMap (fun c => [c.1, c.2]), f.head? ≠ some 0) (rounds : ℕ)
    (hrounds : contacts.length < rounds) (sz : List UInt8) (cs : Lines) :
    ∃ vc, getContacts id rounds (sz ::
      (((contacts.flatMap fun c : List UInt8 × List UInt8 => [c.1, c.2]).map (0x3A :: oneLine ·) ++
        [[]]).map line ++ cs)) = some (vc, line [] :: cs) := by
  induction contacts generalizing rounds sz with
  | nil =>
    obtain ⟨rounds, rfl⟩ := Nat.exists_eq_add_of_lt hrounds
    exact ⟨[], rfl⟩
  | cons c contacts ih =>
    obtain ⟨rounds, rfl⟩ : ∃ n, rounds = n + 1 := ⟨rounds - 1, by omega⟩
    simp only [flatMap_cons, cons_append, nil_append, forall_mem_cons] at hstart
    obtain ⟨hfirst, hsecond, hrest⟩ := hstart
    rw [length_cons] at hrounds
    obtain ⟨vc, hvc⟩ := ih hrest rounds (by omega) (line (0x3A :: oneLine c.2))
    refine ⟨((line (oneLine c.1)).dropLast, (line (oneLine c.2)).dropLast) :: vc, ?_⟩
    simp only [flatMap_cons, cons_append, nil_append, map_cons] at hvc ⊢
    rw [getContacts, getValidLine_line (head?_oneLine hfirst)]
    simp only [getValidLine_line (head?_oneLine hsecond), hvc, Option.map_some, id]

/-- No entry is written as cancelled. -/
theorem nCommand_ne_cancelled (hkept : r.Kept e isReceiver) : (e.nCommand : ℤ) ≠ commandCancelled := by
  obtain ⟨nFlags, tTime, body⟩ := e
  cases body with
  | unknownSys => exact absurd rfl hkept.writes
  | _ =>
    simp only [Event.nCommand]
    split_ifs <;> decide

/-- What an entry with a text is read as. -/
theorem same_eventMsg {message : List UInt8} {nFlags : ℕ} (hkept : r.Kept e isReceiver)
    (hbody : e.body = .msg message) (hflags : nFlags.testBit 21 = !isReceiver) :
    Same (e, isReceiver) (r.eventMsg message e.tTime nFlags) := by
  have htype : (Body.msg message).eventType = e.body.eventType := hbody ▸ rfl
  have hencrypted : (nFlags ||| flagEncrypted).testBit 21 = !isReceiver := by
    have hmask : flagEncrypted.testBit 21 = false := by decide
    rw [Nat.testBit_or, hflags, hmask, Bool.or_false]
  rw [eventMsg]
  split_ifs with hsig
  · cases hplain : r.decrypt message with
    | none => exact same_event hkept hflags htype fun _ => hbody.symm
    | some plaintext =>
      have heq := hkept.plain message hbody hsig plaintext hplain
      simp only [heq]
      exact same_event hkept hencrypted htype fun _ => hbody.symm
  · exact same_event hkept hflags htype fun _ => hbody.symm

/-- **An entry is read** up to the header behind it. -/
theorem readEntry_entry (hkept : r.Kept e isReceiver) {cs : Lines} (hcs : AtHeader cs)
    (sz : List UInt8) :
    ∃ e' cs', r.readEntry (e.header isReceiver) (sz :: (e.body.lines.map line ++ cs)) =
        some (some e', cs') ∧
      cs'.dropWhile (fun l => decide (l.head? ≠ some 0x5B)) = cs ∧ Same (e, isReceiver) e' := by
  obtain ⟨hbit, hutf8⟩ := flags_header e isReceiver
  have hdirect : ((e.header isReceiver).flags.1 ||| flagDirect).testBit 21 = !isReceiver := by
    have hmask : flagDirect.testBit 21 = false := by decide
    rw [Nat.testBit_or, hbit, hmask, Bool.or_false]
  have htime : (e.header isReceiver).tTime = e.tTime := rfl
  have hsub : (e.header isReceiver).nSubCommand = (e.nSubCommand : ℤ) := rfl
  have hcommand : (e.header isReceiver).nCommand ≠ commandCancelled := nCommand_ne_cancelled hkept
  have hstart := hkept.start
  have hdrop := dropWhile_of_atHeader hcs
  generalize e.header isReceiver = h at hbit hutf8 hdirect htime hsub hcommand
  obtain ⟨nFlags, tTime, body⟩ := e
  cases body
  case unknownSys => exact absurd rfl hkept.writes
  case contactList contacts =>
    have hrounds : contacts.length <
        (sz :: ((Body.contactList contacts).lines.map line ++ cs)).length := by
      have hlength : contacts.length ≤ (contacts.flatMap fun c => [c.1, c.2]).length := by
        clear * -
        induction contacts with
        | nil => exact le_rfl
        | cons c contacts ih =>
          simp only [flatMap_cons, length_append, length_cons]
          omega
      simp only [Body.lines, Body.fields, length_cons, length_append, length_map]
      omega
    obtain ⟨vc, hvc⟩ := getContacts_lines contacts hstart _ hrounds sz cs
    simp only [readEntry, hsub, Event.nSubCommand, Body.eventType, Nat.cast_ofNat, hutf8, if_true,
      htime]
    exact ⟨_, _, congrArg (Option.map _) hvc, hdrop, same_event hkept hbit rfl False.elim⟩
  -- The values of the entry are read one by one, and its text takes the lines up to the header.
  all_goals
    simp only [Body.fields, forall_mem_cons] at hstart
    simp only [readEntry, hsub, Event.nSubCommand, Body.eventType, Nat.cast_ofNat, Nat.cast_one,
      hutf8, if_true, if_pos hcommand, htime, id, Body.lines, Body.fields, Body.text, map_cons,
      map_nil, cons_append, nil_append, withLine_line, hstart, ne_eq,
      not_false_eq_true, getValidLines_lines _ _ hcs]
  case msg message =>
    rw [dropLast_textLines (hkept.text trivial message rfl)]
    exact ⟨_, _, rfl, hdrop, same_eventMsg hkept rfl hbit⟩
  case chat text => exact ⟨_, _, rfl, hdrop, same_event hkept hdirect rfl False.elim⟩
  case file => exact ⟨_, _, rfl, hdrop, same_event hkept hdirect rfl False.elim⟩
  case authRequest => exact ⟨_, _, rfl, hdrop, same_event hkept hbit rfl False.elim⟩
  case authRefused => exact ⟨_, _, rfl, hdrop, same_event hkept hbit rfl False.elim⟩
  case authGranted => exact ⟨_, _, rfl, hdrop, same_event hkept hbit rfl False.elim⟩
  case webPanel => exact ⟨_, _, rfl, hdrop, same_event hkept hbit rfl False.elim⟩
  case added =>
    refine ⟨_, _, rfl, ?_, same_event hkept hbit rfl False.elim⟩
    rw [line_cons]
    exact hdrop
  case msgServer =>
    have hreceived : (0 : ℕ).testBit 21 = !isReceiver := by
      rw [hkept.received (.inl rfl)]
      decide
    exact ⟨_, _, rfl, hdrop, same_event hkept hreceived rfl False.elim⟩
  case url url urlDescription =>
    refine ⟨_, _, rfl, hdrop, same_event hkept hbit rfl fun htext => ?_⟩
    obtain ⟨hnul, hnl⟩ := hkept.fields htext url mem_cons_self
    rw [dropLast_line_oneLine hnul hnl, dropLast_textLines (hkept.text htext _ rfl)]
  case sms number message =>
    refine ⟨_, _, rfl, hdrop, same_event hkept hbit rfl fun htext => ?_⟩
    obtain ⟨hnul, hnl⟩ := hkept.fields htext number mem_cons_self
    rw [dropLast_line_oneLine hnul hnl, dropLast_textLines (hkept.text htext _ rfl)]
  case emailPager name email message =>
    refine ⟨_, _, rfl, hdrop, same_event hkept hbit rfl fun htext => ?_⟩
    obtain ⟨hname, hemail⟩ := forall_mem_cons.mp (hkept.fields htext)
    obtain ⟨hnul, hnl⟩ := hemail email mem_cons_self
    rw [dropLast_line_oneLine hname.1 hname.2, dropLast_line_oneLine hnul hnl,
      dropLast_textLines (hkept.text htext _ rfl)]
  case emailAlert name email subject =>
    have hreceived : flagDirect.testBit 21 = !isReceiver := by
      rw [hkept.received (.inr rfl)]
      decide
    refine ⟨_, _, rfl, hdrop, same_event hkept hreceived rfl fun htext => ?_⟩
    obtain ⟨hname, hemail⟩ := forall_mem_cons.mp (hkept.fields htext)
    obtain ⟨hnul, hnl⟩ := hemail email mem_cons_self
    rw [dropLast_line_oneLine hname.1 hname.2, dropLast_line_oneLine hnul hnl,
      dropLast_textLines (hkept.text htext _ rfl)]

end Reader

/-! ## Files -/

theorem length_padded {n : ℕ} (h : n < 10 ^ 5) : (padded n).length ≤ 9 := by
  have hlength : (decimalBytes n).length ≤ 5 := by
    rw [decimalBytes, asciiBytes, length_map]
    exact (Nat.length_toDigits_le_iff (by decide) (by decide)).mpr h
  rw [padded, length_append, length_replicate]
  omega

/-- A header is a line that there is room for. -/
theorem headerLine_line (e : Event) (isReceiver : Bool) :
    (∀ c ∈ e.headerLine isReceiver, c ≠ nl ∧ c ≠ 0) ∧ (e.headerLine isReceiver).length ≤ 4094 := by
  have hdigit : ∀ c : UInt8, 48 ≤ c.toNat ∧ c.toNat ≤ 57 → c ≠ nl ∧ c ≠ 0 := by
    rintro c ⟨hlow, -⟩
    constructor
    · rintro rfl
      exact absurd hlow (by decide)
    · rintro rfl
      exact absurd hlow (by decide)
  constructor
  · have hbar : ∀ c ∈ asciiBytes [' ', '|', ' '], c ≠ nl ∧ c ≠ 0 := by decide +kernel
    have hstart : ∀ c ∈ asciiBytes ['[', ' ', if isReceiver then 'R' else 'S'],
        c ≠ nl ∧ c ≠ 0 := by
      cases isReceiver <;> decide +kernel
    have hend : ∀ c ∈ asciiBytes [' ', ']'], c ≠ nl ∧ c ≠ 0 := by decide +kernel
    simp only [Event.headerLine, forall_mem_append]
    exact ⟨⟨⟨⟨⟨⟨⟨⟨⟨hstart, hbar⟩, fun c hc => hdigit c (mem_padded hc)⟩, hbar⟩,
      fun c hc => hdigit c (mem_padded hc)⟩, hbar⟩, fun c hc => hdigit c (mem_padded hc)⟩, hbar⟩,
      fun c hc => hdigit c (mem_decimalBytes hc)⟩, hend⟩
  · have hsub := length_padded (e.nSubCommand_lt.trans (by decide))
    have hcommand := length_padded (e.nCommand_lt.trans (by decide))
    have hflags := length_padded (e.headerFlags_lt.trans (by decide))
    have htime : (decimalBytes e.tTime.toUInt64.toNat).length ≤ 20 := by
      rw [decimalBytes, asciiBytes, length_map]
      refine (Nat.length_toDigits_le_iff (by decide) (by decide)).mpr ?_
      exact (UInt64.toNat_lt _).trans (by decide)
    simp only [Event.headerLine, length_append, asciiBytes, length_map, length_cons,
      length_nil]
    omega

/-- The lines of an event in the file. -/
def entryLines (e : Event × Bool) : Lines := (e.1.headerLine e.2 :: e.1.body.lines).map line

/-- The history file after these events have been written, each as received or sent. -/
def written (es : List (Event × Bool)) : List UInt8 :=
  es.foldl (fun file e => e.1.append e.2 file) []

theorem written_lines {es : List (Event × Bool)} (h : ∀ e ∈ es, e.1.addToHistory e.2 ≠ none) :
    written es = unlines nl (es.flatMap fun e => e.1.headerLine e.2 :: e.1.body.lines) := by
  rw [written]
  induction es using reverseRecOn with
  | nil => rfl
  | append_singleton es e ih =>
    rw [foldl_append, ih fun e' he' => h e' (mem_append_left _ he'), flatMap_append,
      unlines_append, flatMap_singleton]
    exact append_lines e.2 _ (h e (mem_append_right _ mem_cons_self))

theorem nl_notMem_lines (b : Body) : ∀ l ∈ b.lines, nl ∉ l := by
  have hcolon : ∀ l : List UInt8, nl ∉ l → nl ∉ 0x3A :: l := fun l hl =>
    not_mem_cons_of_ne_of_not_mem (by decide) hl
  intro l hl
  rcases mem_append.mp hl with hl | hl
  · obtain ⟨f, -, rfl⟩ := mem_map.mp hl
    exact hcolon _ (nl_notMem_oneLine f)
  · split at hl
    · obtain ⟨l', hl', rfl⟩ := mem_map.mp hl
      exact hcolon l' (nl_notMem_textLines _ l' hl')
    · rw [mem_singleton.mp hl]
      exact not_mem_nil

namespace Reader

variable {r : Reader} {es : List (Event × Bool)}

/-- **The lines of the file** come as they were written. -/
theorem fileLines_written (h : ∀ e ∈ es, r.Kept e.1 e.2) :
    fileLines (written es) = es.flatMap entryLines := by
  have hlines : ∀ l ∈ es.flatMap (fun e => e.1.headerLine e.2 :: e.1.body.lines),
      nl ∉ l ∧ l.length ≤ 4094 := by
    intro l hl
    obtain ⟨e, he, hl⟩ := mem_flatMap.mp hl
    rcases mem_cons.mp hl with rfl | hl
    · obtain ⟨hletters, hlength⟩ := headerLine_line e.1 e.2
      exact ⟨fun hmem => (hletters _ hmem).1 rfl, hlength⟩
    · exact ⟨nl_notMem_lines e.1.body l hl, (h e he).short l hl⟩
  have hchunks := chunks_unlines hlines []
  rw [append_nil] at hchunks
  rw [fileLines, written_lines fun e he => (h e he).writes, hchunks, chunks, append_nil,
    map_map, map_flatMap]
  rfl

theorem atHeader_entries : AtHeader (es.flatMap entryLines) := by
  cases es with
  | nil => exact fun l hl => by cases hl
  | cons e es =>
    rintro l ⟨⟩
    rfl

/-- **Entries are loaded one by one.** -/
theorem loadLoop_entries (h : ∀ e ∈ es, r.Kept e.1 e.2) {rounds : ℕ} (hrounds : es.length < rounds)
    {cs : Lines} (hcs : cs.dropWhile (fun l => decide (l.head? ≠ some 0x5B)) = es.flatMap entryLines) :
    ∃ es', r.loadLoop rounds cs = some es' ∧ List.Forall₂ Same es es' := by
  induction es generalizing rounds cs with
  | nil =>
    obtain ⟨rounds, rfl⟩ : ∃ n, rounds = n + 1 := ⟨rounds - 1, by omega⟩
    rw [loadLoop, hcs]
    exact ⟨[], rfl, .nil⟩
  | cons e es ih =>
    obtain ⟨rounds, rfl⟩ : ∃ n, rounds = n + 1 := ⟨rounds - 1, by omega⟩
    obtain ⟨hfirst, hrest⟩ := forall_mem_cons.mp h
    rw [length_cons] at hrounds
    have hcs₁ : AtHeader (es.flatMap entryLines) := atHeader_entries
    obtain ⟨e', cs', hread, hcs', hsame⟩ :=
      readEntry_entry hfirst hcs₁ (line (e.1.headerLine e.2))
    obtain ⟨es', hload, hall⟩ := ih hrest (by omega : es.length < rounds) hcs'
    have hheader : matchHeader (line (e.1.headerLine e.2)) = some (e.1.header e.2) := by
      rw [line_of_notMem fun hmem => ((headerLine_line e.1 e.2).1 0 hmem).2 rfl]
      exact matchHeader_headerLine e.2 hfirst.time [nl]
    have hlines : cs.dropWhile (fun l => decide (l.head? ≠ some 0x5B)) =
        line (e.1.headerLine e.2) :: (e.1.body.lines.map line ++ es.flatMap entryLines) := hcs
    rw [loadLoop, hlines]
    simp only [hheader, hread, hload, Option.map_some]
    exact ⟨e' :: es', rfl, .cons hsame hall⟩

/-- What looks like the header of a message. -/
def fakeHeader : List UInt8 :=
  asciiBytes ['[', ' ', 'S', ' ', '|', ' ', '0', '0', '0', '1', ' ', '|', ' ', '0', '2', '7', '0',
    ' ', '|', ' ', '0', '1', '2', '8', ' ', '|', ' ', '1', ' ', ']']

theorem fileLines_longLine {l : List UInt8} (hnl : nl ∉ l) (hnul : 0 ∉ l) (hlength : l.length = 4094) :
    fileLines (written [(⟨0, 1, .msg (l ++ fakeHeader)⟩, true)]) =
      [line (Event.headerLine ⟨0, 1, .msg (l ++ fakeHeader)⟩ true), 0x3A :: l, line fakeHeader] := by
  have hmessage : nl ∉ l ++ fakeHeader := by
    rw [mem_append, not_or]
    exact ⟨hnl, by decide⟩
  have hfull : nl ∉ 0x3A :: l := not_mem_cons_of_ne_of_not_mem (by decide) hnl
  obtain ⟨hletters, hheader⟩ := headerLine_line ⟨0, 1, .msg (l ++ fakeHeader)⟩ true
  rw [written_lines (by simp [Event.addToHistory]), flatMap_singleton]
  simp only [Body.lines, Body.fields, Body.text, textLines_of_notMem hmessage, map_nil,
    nil_append, map_cons, unlines_cons, unlines_nil]
  have hsplit : 0x3A :: (l ++ fakeHeader) ++ [nl] = (0x3A :: l) ++ (fakeHeader ++ nl :: []) := by
    rw [cons_append, append_assoc, cons_append]
  rw [hsplit, fileLines, chunks_line (fun hmem => (hletters _ hmem).1 rfl) hheader,
    chunks_full hfull (by rw [length_cons, hlength]), chunks_line (by decide) (by decide),
    chunks, map_cons, map_cons,
    cStr_of_notMem (not_mem_cons_of_ne_of_not_mem (by decide) hnul)]
  rfl

/-- A long line is loaded as two entries. -/
theorem load_longLine {l : List UInt8} (hnl : nl ∉ l) (hnul : 0 ∉ l) (hlength : l.length = 4094) :
    ∃ e e', Reader.load ⟨1, fun _ => none, id, id⟩
      (written [(⟨0, 1, .msg (l ++ fakeHeader)⟩, true)]) = some [e, e'] := by
  have hheader : matchHeader (line (Event.headerLine ⟨0, 1, .msg (l ++ fakeHeader)⟩ true)) =
      some (Event.header ⟨0, 1, .msg (l ++ fakeHeader)⟩ true) := by
    rw [line_of_notMem fun hmem => ((headerLine_line _ true).1 0 hmem).2 rfl]
    exact matchHeader_headerLine true (show (0 : Int64) < 1 by decide) [nl]
  have hsub : (Event.header ⟨0, 1, .msg (l ++ fakeHeader)⟩ true).nSubCommand = 0x0001 := rfl
  obtain ⟨e, he⟩ : ∃ e, Reader.readEntry ⟨1, fun _ => none, id, id⟩
      (Event.header ⟨0, 1, .msg (l ++ fakeHeader)⟩ true)
      [line (Event.headerLine ⟨0, 1, .msg (l ++ fakeHeader)⟩ true), 0x3A :: l, line fakeHeader] =
        some (some e, [line fakeHeader]) := by
    simp only [readEntry, hsub, getValidLines]
    exact ⟨_, rfl⟩
  have hrest : Reader.loadLoop ⟨1, fun _ => none, id, id⟩ 3 [line fakeHeader] =
      some [⟨flagSender, 1, .msg []⟩] := by decide +kernel
  refine ⟨e, ⟨flagSender, 1, .msg []⟩, ?_⟩
  rw [load, fileLines_longLine hnl hnul hlength]
  have hfirst (cs : Lines) :
      (line (Event.headerLine ⟨0, 1, .msg (l ++ fakeHeader)⟩ true) :: cs).dropWhile
        (fun l => decide (l.head? ≠ some 0x5B)) =
      line (Event.headerLine ⟨0, 1, .msg (l ++ fakeHeader)⟩ true) :: cs := rfl
  rw [length_cons, length_cons, length_singleton, loadLoop, hfirst]
  simp only [hheader, he, hrest, Option.map_some, Option.toList_some, singleton_append]

end Reader

end Licq.History
