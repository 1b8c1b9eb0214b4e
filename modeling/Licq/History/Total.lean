import Mathlib.Data.List.TakeWhile
import Licq.History.Load

/-!
# History/Total — reading a history file that may hold anything

`entries` are the headers of a file, each with the lines that have a colon behind it, and `eventOf`
is what such an entry says.  `Reads` relates what a case of `load` does with the lines to what they
say, and has a rule for each macro.  Two things are not foreseen: an entry of a type that `load`
does not know is read again and again, and a value of which only the colon is there, at the end of
the file or before a NUL, has the length -1.

The **main result** `loads_iff` says that any other file gives an event for each well-formed entry.
-/

open Text

namespace Licq.History

open List

/-! ## Entries -/

/-- The line is part of an entry. -/
abbrev Colon (l : List UInt8) : Prop := l.head? = some 0x3A

/-- Every header, with the lines behind it that have a colon. -/
def entries : Lines → List (Header × Lines)
  | [] => []
  | sz :: cs =>
    match matchHeader sz with
    | some h => (h, cs.takeWhile fun l => Colon l) :: entries cs
    | none => entries cs

/-- The types that `load` has a case for. -/
def knownTypes : List ℤ :=
  [0x0001, 0x0002, 0x0003, 0x0004, 0x0006, 0x0008, 0x0007, 0x000C, 0x000D, 0x000E, 0x0013, 0x001A,
    0x0009, 0x001C, 0x00EC]

/-- The request has been cancelled, which is no event. -/
def Header.Cancelled (h : Header) : Prop :=
  (h.nSubCommand = 0x0002 ∨ h.nSubCommand = 0x0003) ∧ h.nCommand = commandCancelled

/-- How many values an entry has before its text, each on a line of its own. -/
def Header.values (h : Header) : ℕ :=
  match h.nSubCommand with
  | 0x0003 => 2
  | 0x0004 => 1
  | 0x0006 => 5
  | 0x0008 => 1
  | 0x0007 => 1
  | 0x000C => 5
  | 0x000D => 2
  | 0x000E => 2
  | 0x001A => 1
  | 0x0009 => 2
  | 0x001C | 0x00EC => 2
  | _ => 0

instance (h : Header) : Decidable h.Cancelled := inferInstanceAs (Decidable (_ ∧ _))

/-- The entry has all values. -/
def WellFormed (e : Header × Lines) : Prop :=
  e.1.nSubCommand ∈ knownTypes ∧ ¬ e.1.Cancelled ∧ e.1.values ≤ e.2.length

/-- The lines that are read as values.  All lines of a list of contacts are. -/
def valueLines (e : Header × Lines) : Lines :=
  if e.1.Cancelled then []
  else if e.1.nSubCommand = 0x0013 then e.2
  else e.2.take e.1.values

/-- The entry can be read: its type is known, and no value lacks its line end. -/
def Readable (e : Header × Lines) : Prop :=
  e.1.nSubCommand ∈ knownTypes ∧ [0x3A] ∉ valueLines e

instance (e : Header × Lines) : Decidable (WellFormed e) := inferInstanceAs (Decidable (_ ∧ _))

instance (e : Header × Lines) : Decidable (Readable e) := inferInstanceAs (Decidable (_ ∧ _))

/-! ## What an entry says -/

/-- The value on a line. -/
def value (l : List UInt8) : List UInt8 := l.tail.dropLast

/-- The text on lines. -/
def textOf (ls : Lines) : List UInt8 := (ls.flatMap List.tail).dropLast

/-- What the lines say after a value, if it is there. -/
def withValue {β : Type} (ls : Lines) (k : List UInt8 → Lines → Option β) : Option β :=
  match ls with
  | [] => none
  | l :: ls => k (value l) ls

/-- The contacts on lines, two for each one. -/
def contactsOf (utf8 : List UInt8 → List UInt8) : Lines → List (List UInt8 × List UInt8)
  | accountId :: alias_ :: ls => (value accountId, utf8 (value alias_)) :: contactsOf utf8 ls
  | _ => []

namespace Reader

/-- **What an entry says**, if it has all values. -/
def eventOf (r : Reader) (h : Header) (ls : Lines) : Option Event :=
  let nFlags := h.flags.1
  let utf8 : List UInt8 → List UInt8 := if h.flags.2 then id else r.toUtf8
  let text (ls : Lines) : List UInt8 := (if h.flags.2 then id else r.userToUtf8) (textOf ls)
  if h.Cancelled then none
  else match h.nSubCommand with
  | 0x0001 => some (r.eventMsg (text ls) h.tTime nFlags)
  | 0x0002 => some (r.event (nFlags ||| flagDirect) h.tTime (.chat (text ls)))
  | 0x0003 => withValue ls fun file ls => withValue ls fun size ls =>
      some (r.event (nFlags ||| flagDirect) h.tTime
        (.file (utf8 file) (UInt64.ofInt (number size)) (text ls)))
  | 0x0004 => withValue ls fun url ls =>
      some (r.event nFlags h.tTime (.url (utf8 url) (text ls)))
  | 0x0006 => withValue ls fun accountId ls => withValue ls fun alias_ ls =>
      withValue ls fun firstName ls => withValue ls fun lastName ls => withValue ls fun email ls =>
        some (r.event nFlags h.tTime (.authRequest accountId (utf8 alias_) (utf8 firstName)
          (utf8 lastName) (utf8 email) (text ls)))
  | 0x0008 => withValue ls fun accountId ls =>
      some (r.event nFlags h.tTime (.authGranted accountId (text ls)))
  | 0x0007 => withValue ls fun accountId ls =>
      some (r.event nFlags h.tTime (.authRefused accountId (text ls)))
  | 0x000C => withValue ls fun accountId ls => withValue ls fun alias_ ls =>
      withValue ls fun firstName ls => withValue ls fun lastName ls => withValue ls fun email _ =>
        some (r.event nFlags h.tTime (.added accountId (utf8 alias_) (utf8 firstName)
          (utf8 lastName) (utf8 email)))
  | 0x000D => withValue ls fun name ls => withValue ls fun email ls =>
      some (r.event nFlags h.tTime (.webPanel (utf8 name) (utf8 email) (text ls)))
  | 0x000E => withValue ls fun name ls => withValue ls fun email ls =>
      some (r.event nFlags h.tTime (.emailPager (utf8 name) (utf8 email) (text ls)))
  | 0x0013 => some (r.event nFlags h.tTime (.contactList (contactsOf utf8 ls)))
  | 0x001A => withValue ls fun number ls =>
      some (r.event nFlags h.tTime (.sms number (text ls)))
  | 0x0009 => withValue ls fun name ls => withValue ls fun email ls =>
      some (r.event 0 h.tTime (.msgServer (utf8 name) (utf8 email) (text ls)))
  | 0x001C | 0x00EC => withValue ls fun name ls => withValue ls fun email ls =>
      some (r.event flagDirect h.tTime (.emailAlert (utf8 name) (utf8 email) (text ls)))
  | _ => none

/-- **The file is read**: the loop ends, nothing is thrown, and there is one event for each
well-formed entry, in order. -/
def Loads (r : Reader) (file : List UInt8) : Prop :=
  ∃ rounds events, r.loadLoop rounds (fileLines file) = some events ∧
    List.Forall₂ (fun e event => r.eventOf e.1 e.2 = some event)
      ((entries (fileLines file)).filter fun e => WellFormed e) events

end Reader

/-! ## Cases -/

/-- What comes behind the lines of an entry. -/
def Behind (rest : Lines) : Prop := ∀ l ∈ rest.head?, ¬ Colon l

/-- The lines from the next one that may be a header. -/
def nextHeader (cs : Lines) : Lines := cs.dropWhile (·.head? ≠ some 0x5B)

/-- **What a case of `load` does is what the lines say**: it throws if one of the `n` values
lacks its line end, and otherwise it gives the meaning of the lines, and has read no header
behind them. -/
def Reads (m : Lines → Option (Option Event × Lines)) (n : ℕ) (meaning : Lines → Option Event) :
    Prop :=
  ∀ sz ls rest, (∀ l ∈ ls, Colon l) → Behind rest →
    if [0x3A] ∈ ls.take n then m (sz :: (ls ++ rest)) = none
    else ∃ cs, m (sz :: (ls ++ rest)) = some (meaning ls, cs) ∧ nextHeader cs = nextHeader rest

theorem nextHeader_append {ls : Lines} (h : ∀ l ∈ ls, Colon l) (rest : Lines) :
    nextHeader (ls ++ rest) = nextHeader rest := by
  refine dropWhile_append_of_pos fun l hl => ?_
  rw [h l hl]
  decide

theorem takeWhile_lines {ls rest : Lines} (h : ∀ l ∈ ls, Colon l) (hrest : Behind rest) :
    (ls ++ rest).takeWhile (fun l => Colon l) = ls := by
  rw [takeWhile_append_of_pos fun l hl => by simpa using h l hl]
  cases rest with
  | nil => rw [takeWhile_nil, append_nil]
  | cons l rest =>
    rw [takeWhile_cons_of_neg (by simpa using hrest l rfl), append_nil]

theorem dropWhile_lines {ls rest : Lines} (h : ∀ l ∈ ls, Colon l) (hrest : Behind rest) :
    (ls ++ rest).dropWhile (fun l => Colon l) = rest := by
  rw [dropWhile_append_of_pos fun l hl => by simpa using h l hl]
  cases rest with
  | nil => rfl
  | cons l rest => rw [dropWhile_cons_of_neg (by simpa using hrest l rfl)]

theorem getValidLine_behind (sz : List UInt8) {rest : Lines} (hrest : Behind rest) :
    getValidLine (sz :: rest) = some (none, rest) := by
  cases rest with
  | nil => rfl
  | cons l rest =>
    rw [getValidLine]
    simp only [tail_cons]
    rw [if_pos (hrest l rfl)]

theorem getValidLine_colon (sz : List UInt8) {l : List UInt8} (hl : Colon l) (cs : Lines) :
    getValidLine (sz :: l :: cs) =
      if l = [0x3A] then none else some (some (value l), l :: cs) := by
  obtain ⟨t, rfl⟩ := head?_eq_some_iff.mp hl
  rw [getValidLine]
  simp only [tail_cons, head?_cons, ne_eq, not_true_eq_false, if_false, List.cons.injEq,
    true_and]
  rfl

/-- A text ends the entry. -/
theorem Reads.text {m : Lines → Option (Option Event × Lines)} {meaning : Lines → Option Event}
    (h : ∀ cs ls, (getValidLines cs).1 = textOf ls →
      m cs = some (meaning ls, (getValidLines cs).2)) : Reads m 0 meaning := by
  intro sz ls rest hls hrest
  have htext : getValidLines (sz :: (ls ++ rest)) = (textOf ls, rest) := by
    simp only [getValidLines, tail_cons, takeWhile_lines hls hrest,
      dropWhile_lines hls hrest]
    rfl
  rw [if_neg (by simp)]
  refine ⟨rest, ?_, rfl⟩
  rw [h _ ls (by rw [htext]), htext]

/-- The lines of a cancelled request are skipped. -/
theorem Reads.skip : Reads (fun cs => some (none, skipValidLines cs)) 0 fun _ => none := by
  intro sz ls rest hls hrest
  rw [if_neg (by simp)]
  refine ⟨rest, ?_, rfl⟩
  simp only [skipValidLines, tail_cons, dropWhile_lines hls hrest]

/-- **A value**, and what comes behind it.  Where it is missing the case is left. -/
theorem Reads.line {m : List UInt8 → Lines → Option (Option Event × Lines)} {n : ℕ}
    {meaning : List UInt8 → Lines → Option Event} (h : ∀ v, Reads (m v) n (meaning v)) :
    Reads (fun cs => withLine cs m) (n + 1) fun ls => withValue ls meaning := by
  intro sz ls rest hls hrest
  cases ls with
  | nil =>
    rw [if_neg (by simp)]
    refine ⟨rest, ?_, rfl⟩
    simp only [nil_append, withLine, getValidLine_behind sz hrest, withValue]
  | cons l ls =>
    obtain ⟨hl, hls⟩ := forall_mem_cons.mp hls
    have hrun := h (value l) l ls rest hls hrest
    simp only [take_succ_cons, cons_append, withLine, getValidLine_colon sz hl]
    by_cases hempty : l = [0x3A]
    · rw [if_pos (by rw [hempty]; exact mem_cons_self), if_pos hempty]
    · rw [if_neg hempty]
      simp only [mem_cons, (Ne.symm hempty : ¬ _), false_or]
      exact hrun

/-- The last value of an entry that has no text.  More lines of it are no headers. -/
theorem Reads.last {f : List UInt8 → Event} :
    Reads (fun cs => withLine cs fun v cs => some (some (f v), cs)) 1
      fun ls => withValue ls fun v _ => some (f v) := by
  intro sz ls rest hls hrest
  cases ls with
  | nil =>
    rw [if_neg (by simp)]
    refine ⟨rest, ?_, rfl⟩
    simp only [nil_append, withLine, getValidLine_behind sz hrest, withValue]
  | cons l ls =>
    have hnext := nextHeader_append hls rest
    simp only [take_succ_cons, take_zero, cons_append, withLine,
      getValidLine_colon sz (hls l mem_cons_self)]
    by_cases hempty : l = [0x3A]
    · rw [if_pos (by rw [hempty]; exact mem_cons_self), if_pos hempty]
    · rw [if_neg hempty, if_neg (by simpa using Ne.symm hempty)]
      exact ⟨l :: (ls ++ rest), rfl, hnext⟩

/-! ## Lists of contacts -/

/-- **The contacts of a list**, of which a line without a pair is left out. -/
theorem getContacts_eq (utf8 : List UInt8 → List UInt8) (sz : List UInt8) {rounds : ℕ}
    {ls rest : Lines} (hls : ∀ l ∈ ls, Colon l) (hrest : Behind rest)
    (hrounds : ls.length < rounds) :
    getContacts utf8 rounds (sz :: (ls ++ rest)) =
      if [0x3A] ∈ ls then none else some (contactsOf utf8 ls, rest) := by
  induction ls using contactsOf.induct generalizing sz rounds with
  | case1 accountId alias_ ls ih =>
    obtain ⟨haccount, halias, hls⟩ : Colon accountId ∧ Colon alias_ ∧ ∀ l ∈ ls, Colon l := by
      simpa using hls
    obtain ⟨rounds, rfl⟩ := Nat.exists_eq_succ_of_ne_zero (Nat.ne_zero_of_lt hrounds)
    have hrounds' : ls.length < rounds := by
      simp only [length_cons] at hrounds
      omega
    have hrest' := ih alias_ hls hrounds'
    rw [getContacts, cons_append, cons_append, getValidLine_colon sz haccount]
    by_cases hbare : accountId = [0x3A]
    · rw [if_pos hbare, if_pos (by rw [hbare]; exact mem_cons_self)]
    rw [if_neg hbare]
    simp only [getValidLine_colon accountId halias]
    by_cases hbare' : alias_ = [0x3A]
    · rw [if_pos hbare', if_pos (by rw [hbare']; exact mem_cons_of_mem _ mem_cons_self)]
    rw [if_neg hbare']
    simp only [hrest', mem_cons, Ne.symm hbare, Ne.symm hbare', false_or]
    split_ifs
    · rfl
    · rfl
  | case2 ls hshort =>
    obtain ⟨rounds, rfl⟩ := Nat.exists_eq_succ_of_ne_zero (Nat.ne_zero_of_lt hrounds)
    match ls, hshort with
    | [], _ =>
      rw [getContacts, nil_append, getValidLine_behind sz hrest]
      rfl
    | [l], _ =>
      rw [getContacts, cons_append, nil_append,
        getValidLine_colon sz (hls l mem_cons_self)]
      by_cases hbare : l = [0x3A]
      · rw [if_pos hbare, if_pos (by rw [hbare]; exact mem_cons_self)]
      · rw [if_neg hbare, if_neg (by simpa using Ne.symm hbare)]
        simp only [getValidLine_behind l hrest]
        rfl
    | a :: b :: ls, hshort => exact absurd rfl (hshort a b ls)

/-! ## All cases -/

section Cases

variable (r : Reader) {h : Header} {sz : List UInt8} {ls rest : Lines}

/-- **An entry of a known type.** -/
theorem readEntry_reads (hknown : h.nSubCommand ∈ knownTypes) (hcontacts : h.nSubCommand ≠ 0x0013)
    (hcancelled : ¬ h.Cancelled) :
    Reads (fun cs => r.readEntry h cs) h.values fun ls => r.eventOf h ls := by
  simp only [knownTypes, mem_cons, not_mem_nil, or_false] at hknown
  rcases hknown with hc | hc | hc | hc | hc | hc | hc | hc | hc | hc | hc | hc | hc | hc | hc
  · simp only [Reader.readEntry, Reader.eventOf, Header.values, hc, if_neg hcancelled]
    exact Reads.text fun cs ls htext => by rw [htext]
  · have hcommand : h.nCommand ≠ commandCancelled := fun heq => hcancelled ⟨Or.inl hc, heq⟩
    simp only [Reader.readEntry, Reader.eventOf, Header.values, hc, if_neg hcancelled,
      if_pos hcommand]
    exact Reads.text fun cs ls htext => by rw [htext]
  · have hcommand : h.nCommand ≠ commandCancelled := fun heq => hcancelled ⟨Or.inr hc, heq⟩
    simp only [Reader.readEntry, Reader.eventOf, Header.values, hc, if_neg hcancelled,
      if_pos hcommand]
    exact Reads.line fun file => Reads.line fun size => Reads.text fun cs ls htext => by rw [htext]
  · simp only [Reader.readEntry, Reader.eventOf, Header.values, hc, if_neg hcancelled]
    exact Reads.line fun url => Reads.text fun cs ls htext => by rw [htext]
  · simp only [Reader.readEntry, Reader.eventOf, Header.values, hc, if_neg hcancelled]
    exact Reads.line fun accountId => Reads.line fun alias_ => Reads.line fun firstName =>
      Reads.line fun lastName => Reads.line fun email => Reads.text fun cs ls htext => by rw [htext]
  · simp only [Reader.readEntry, Reader.eventOf, Header.values, hc, if_neg hcancelled]
    exact Reads.line fun accountId => Reads.text fun cs ls htext => by rw [htext]
  · simp only [Reader.readEntry, Reader.eventOf, Header.values, hc, if_neg hcancelled]
    exact Reads.line fun accountId => Reads.text fun cs ls htext => by rw [htext]
  · simp only [Reader.readEntry, Reader.eventOf, Header.values, hc, if_neg hcancelled]
    exact Reads.line fun accountId => Reads.line fun alias_ => Reads.line fun firstName =>
      Reads.line fun lastName => Reads.last
  · simp only [Reader.readEntry, Reader.eventOf, Header.values, hc, if_neg hcancelled]
    exact Reads.line fun name => Reads.line fun email => Reads.text fun cs ls htext => by rw [htext]
  · simp only [Reader.readEntry, Reader.eventOf, Header.values, hc, if_neg hcancelled]
    exact Reads.line fun name => Reads.line fun email => Reads.text fun cs ls htext => by rw [htext]
  · exact absurd hc hcontacts
  · simp only [Reader.readEntry, Reader.eventOf, Header.values, hc, if_neg hcancelled]
    exact Reads.line fun number => Reads.text fun cs ls htext => by rw [htext]
  · simp only [Reader.readEntry, Reader.eventOf, Header.values, hc, if_neg hcancelled]
    exact Reads.line fun name => Reads.line fun email => Reads.text fun cs ls htext => by rw [htext]
  · simp only [Reader.readEntry, Reader.eventOf, Header.values, hc, if_neg hcancelled]
    exact Reads.line fun name => Reads.line fun email => Reads.text fun cs ls htext => by rw [htext]
  · simp only [Reader.readEntry, Reader.eventOf, Header.values, hc, if_neg hcancelled]
    exact Reads.line fun name => Reads.line fun email => Reads.text fun cs ls htext => by rw [htext]

theorem eventOf_of_cancelled (h' : h.Cancelled) : r.eventOf h ls = none := by
  rw [Reader.eventOf]
  simp only [if_pos h']

/-- A cancelled request is skipped. -/
theorem readEntry_cancelled (h' : h.Cancelled) :
    Reads (fun cs => r.readEntry h cs) 0 fun ls => r.eventOf h ls := by
  simp only [eventOf_of_cancelled r h']
  rcases h'.1 with hc | hc
  · simp only [Reader.readEntry, hc, h'.2, ne_eq, not_true_eq_false, if_false]
    exact Reads.skip
  · simp only [Reader.readEntry, hc, h'.2, ne_eq, not_true_eq_false, if_false]
    exact Reads.skip

/-- **Reading an entry of a known type**, with all its lines. -/
theorem readEntry_spec (hknown : h.nSubCommand ∈ knownTypes) (hls : ∀ l ∈ ls, Colon l)
    (hrest : Behind rest) :
    if [0x3A] ∈ valueLines (h, ls) then r.readEntry h (sz :: (ls ++ rest)) = none
    else ∃ cs, r.readEntry h (sz :: (ls ++ rest)) = some (r.eventOf h ls, cs) ∧
      nextHeader cs = nextHeader rest := by
  rw [valueLines]
  by_cases hcancelled : h.Cancelled
  · rw [if_pos hcancelled]
    exact readEntry_cancelled r hcancelled sz ls rest hls hrest
  by_cases hc : h.nSubCommand = 0x0013
  · have hrounds : ls.length < (sz :: (ls ++ rest)).length := by
      simp only [length_cons, length_append]
      omega
    rw [if_neg hcancelled, if_pos hc]
    simp only [Reader.readEntry, Reader.eventOf, hc, if_neg hcancelled,
      getContacts_eq _ sz hls hrest hrounds]
    by_cases hbare : [0x3A] ∈ ls
    · rw [if_pos hbare, if_pos hbare]
      rfl
    · rw [if_neg hbare, if_neg hbare]
      exact ⟨rest, rfl, rfl⟩
  · rw [if_neg hcancelled, if_neg hc]
    exact readEntry_reads r hknown hc hcancelled sz ls rest hls hrest

/-- An entry of an unknown type is read again. -/
theorem readEntry_unknown (hunknown : h.nSubCommand ∉ knownTypes) (cs : Lines) :
    r.readEntry h cs = some (none, cs) := by
  rw [Reader.readEntry]
  simp only
  split
  all_goals first | rfl | exact absurd (by simp_all [knownTypes]) hunknown

end Cases

/-! ## Well-formed entries -/

/-- The lines say something exactly if there are `n` of them. -/
def Needs (n : ℕ) (meaning : Lines → Option Event) : Prop :=
  ∀ ls, (meaning ls).isSome ↔ n ≤ ls.length

theorem Needs.value {n : ℕ} {meaning : List UInt8 → Lines → Option Event}
    (h : ∀ v, Needs n (meaning v)) : Needs (n + 1) fun ls => withValue ls meaning := by
  intro ls
  cases ls with
  | nil => simp [withValue]
  | cons l ls =>
    rw [length_cons, Nat.add_le_add_iff_right]
    exact h (Licq.History.value l) ls

theorem Needs.text {meaning : Lines → Event} : Needs 0 fun ls => some (meaning ls) := fun _ =>
  ⟨fun _ => Nat.zero_le _, fun _ => rfl⟩

/-- **The entries that say something are the well-formed ones.** -/
theorem isSome_eventOf_iff (r : Reader) (h : Header) (ls : Lines) :
    (r.eventOf h ls).isSome ↔ WellFormed (h, ls) := by
  rw [WellFormed]
  by_cases hcancelled : h.Cancelled
  · rw [eventOf_of_cancelled r hcancelled]
    simp [hcancelled]
  by_cases hknown : h.nSubCommand ∈ knownTypes
  · simp only [hknown, hcancelled, true_and, not_false_eq_true]
    suffices hneeds : Needs h.values fun ls => r.eventOf h ls from hneeds ls
    simp only [knownTypes, mem_cons, not_mem_nil, or_false] at hknown
    rcases hknown with hc | hc | hc | hc | hc | hc | hc | hc | hc | hc | hc | hc | hc | hc | hc
    all_goals simp only [Reader.eventOf, Header.values, hc, if_neg hcancelled]
    -- In each case there are some values, and then nothing can be missing.
    all_goals repeat' first | exact Needs.text | refine Needs.value fun _ => ?_
  · simp only [hknown, false_and, iff_false, Bool.not_eq_true, Option.isSome_eq_false_iff,
      Option.isNone_iff_eq_none]
    rw [Reader.eventOf]
    simp only [if_neg hcancelled]
    split
    all_goals first | rfl | exact absurd (by simp_all [knownTypes]) hknown

/-! ## The loop -/

section Loop

variable {r : Reader} {sz : List UInt8} {h : Header} {cs cs' : Lines} {rounds : ℕ}

/-- The next header is at the front, if there is one. -/
theorem nextHeader_cases (cs : Lines) : nextHeader cs = [] ∨
    ∃ sz cs', nextHeader cs = sz :: cs' ∧ sz.head? = some 0x5B ∧ cs'.length < cs.length := by
  cases hnext : nextHeader cs with
  | nil => exact Or.inl rfl
  | cons sz cs' =>
    have hhead := head?_dropWhile_not (fun l : List UInt8 => l.head? ≠ some 0x5B) cs
    have hlength := length_dropWhile_le (fun l : List UInt8 => l.head? ≠ some 0x5B) cs
    rw [nextHeader] at hnext
    rw [hnext] at hhead hlength
    exact Or.inr ⟨sz, cs', rfl, by simpa using hhead, hlength⟩

theorem nextHeader_cons (hsz : sz.head? = some 0x5B) (cs : Lines) :
    nextHeader (sz :: cs) = sz :: cs :=
  dropWhile_cons_of_neg (by simpa using hsz)

theorem loadLoop_congr (h : nextHeader cs = nextHeader cs') :
    r.loadLoop rounds cs = r.loadLoop rounds cs' := by
  cases rounds with
  | zero => rfl
  | succ rounds =>
    rw [nextHeader, nextHeader] at h
    rw [Reader.loadLoop, Reader.loadLoop, h]

theorem bracket_of_matchHeader (h' : matchHeader sz = some h) : sz.head? = some 0x5B := by
  obtain ⟨s, hbracket, -⟩ := Option.bind_eq_some_iff.mp h'
  rw [readText] at hbracket
  split_ifs at hbracket with hprefix
  obtain ⟨t, rfl⟩ := hprefix
  rfl

/-- A round for a line that is no header. -/
theorem loadLoop_skip (hsz : sz.head? = some 0x5B) (hnone : matchHeader sz = none) :
    r.loadLoop (rounds + 1) (sz :: cs) = r.loadLoop rounds cs := by
  rw [Reader.loadLoop, dropWhile_cons_of_neg (by simpa using hsz)]
  simp only [hnone]

/-- A round for an entry. -/
theorem loadLoop_entry (h' : matchHeader sz = some h) :
    r.loadLoop (rounds + 1) (sz :: cs) = (r.readEntry h (sz :: cs)).bind fun res =>
      (r.loadLoop rounds res.2).map (res.1.toList ++ ·) := by
  rw [Reader.loadLoop, dropWhile_cons_of_neg (by simpa using bracket_of_matchHeader h')]
  simp only [h']
  cases r.readEntry h (sz :: cs) <;> rfl

theorem entries_nextHeader (cs : Lines) : entries (nextHeader cs) = entries cs := by
  induction cs with
  | nil => rfl
  | cons sz cs ih =>
    by_cases hsz : sz.head? = some 0x5B
    · rw [nextHeader, dropWhile_cons_of_neg (by simpa using hsz)]
    · rw [nextHeader, dropWhile_cons_of_pos (by simpa using hsz), entries]
      cases hmatch : matchHeader sz with
      | none => exact ih
      | some h => exact absurd (bracket_of_matchHeader hmatch) hsz

/-- The lines of an entry, and what is behind them. -/
theorem exists_lines (cs : Lines) : ∃ ls rest, cs = ls ++ rest ∧ (∀ l ∈ ls, Colon l) ∧
    Behind rest := by
  refine ⟨cs.takeWhile fun l => Colon l, cs.dropWhile fun l => Colon l,
    takeWhile_append_dropWhile.symm, fun l hl => ?_, fun l hl => ?_⟩
  · simpa using mem_takeWhile_imp hl
  · have hhead := head?_dropWhile_not (fun l : List UInt8 => Colon l) cs
    rw [Option.mem_def.mp hl] at hhead
    simpa using hhead

/-- **The entries of a file that begins with one.** -/
theorem entries_header (h' : matchHeader sz = some h) {ls rest : Lines} (hls : ∀ l ∈ ls, Colon l)
    (hrest : Behind rest) : entries (sz :: (ls ++ rest)) = (h, ls) :: entries rest := by
  rw [entries, h']
  simp only [takeWhile_lines hls hrest]
  rw [← entries_nextHeader, nextHeader_append hls, entries_nextHeader]

/-- **If all entries can be read**, the loop gives what they say. -/
theorem loadLoop_readable (hall : ∀ e ∈ entries cs, Readable e) (hrounds : cs.length < rounds) :
    r.loadLoop rounds cs = some ((entries cs).filterMap fun e => r.eventOf e.1 e.2) := by
  induction hn : cs.length using Nat.strong_induction_on generalizing cs rounds with
  | _ n ih =>
    subst hn
    obtain ⟨rounds, rfl⟩ := Nat.exists_eq_succ_of_ne_zero (Nat.ne_zero_of_lt hrounds)
    rcases nextHeader_cases cs with hnext | ⟨sz, cs', hnext, hsz, hlength⟩
    · rw [← entries_nextHeader, hnext, Reader.loadLoop]
      rw [nextHeader] at hnext
      rw [hnext]
      rfl
    rw [loadLoop_congr (hnext.trans (nextHeader_cons hsz cs').symm)]
    rw [← entries_nextHeader, hnext] at hall ⊢
    cases hmatch : matchHeader sz with
    | none =>
      rw [loadLoop_skip hsz hmatch]
      rw [entries, hmatch] at hall ⊢
      exact ih cs'.length hlength hall (by omega) rfl
    | some h =>
      obtain ⟨ls, rest, rfl, hls, hrest⟩ := exists_lines cs'
      rw [entries_header hmatch hls hrest, forall_mem_cons] at hall
      obtain ⟨⟨hknown, hvalues⟩, hall⟩ := hall
      have hread := @readEntry_spec r h sz ls rest hknown hls hrest
      rw [if_neg hvalues] at hread
      obtain ⟨cs', hread, hcs'⟩ := hread
      rw [length_append] at hlength
      have hrounds' : rest.length < rounds := by omega
      have hrun := ih rest.length (by omega) hall hrounds' rfl
      rw [loadLoop_entry hmatch, hread, Option.bind_some, loadLoop_congr hcs', hrun,
        entries_header hmatch hls hrest, filterMap_cons]
      cases r.eventOf h ls <;> rfl

/-- **If an entry cannot be read**, the loop does not end, or something is thrown in it. -/
theorem loadLoop_unreadable (hbad : ∃ e ∈ entries cs, ¬ Readable e) :
    r.loadLoop rounds cs = none := by
  induction rounds generalizing cs with
  | zero => rfl
  | succ rounds ih =>
    rcases nextHeader_cases cs with hnext | ⟨sz, cs', hnext, hsz, -⟩
    · rw [← entries_nextHeader, hnext] at hbad
      obtain ⟨e, he, -⟩ := hbad
      exact absurd he not_mem_nil
    rw [loadLoop_congr (hnext.trans (nextHeader_cons hsz cs').symm)]
    rw [← entries_nextHeader, hnext] at hbad
    cases hmatch : matchHeader sz with
    | none =>
      rw [loadLoop_skip hsz hmatch]
      rw [entries, hmatch] at hbad
      exact ih hbad
    | some h =>
      obtain ⟨ls, rest, rfl, hls, hrest⟩ := exists_lines cs'
      rw [loadLoop_entry hmatch]
      by_cases hknown : h.nSubCommand ∈ knownTypes
      · have hread := @readEntry_spec r h sz ls rest hknown hls hrest
        by_cases hvalues : [0x3A] ∈ valueLines (h, ls)
        · rw [if_pos hvalues] at hread
          rw [hread]
          rfl
        · rw [if_neg hvalues] at hread
          obtain ⟨cs', hread, hcs'⟩ := hread
          obtain ⟨e, he, hbad⟩ := hbad
          rw [entries_header hmatch hls hrest] at he
          rcases mem_cons.mp he with rfl | he
          · exact absurd ⟨hknown, hvalues⟩ hbad
          · rw [hread, Option.bind_some, loadLoop_congr hcs', ih ⟨e, he, hbad⟩]
            rfl
      · -- The line that has been read last is the header again.
        rw [readEntry_unknown r hknown, Option.bind_some, ih hbad]
        rfl

end Loop

/-! ## The main result -/

theorem forall₂_filterMap (r : Reader) (es : List (Header × Lines)) :
    List.Forall₂ (fun e event => r.eventOf e.1 e.2 = some event)
      (es.filter fun e => WellFormed e) (es.filterMap fun e => r.eventOf e.1 e.2) := by
  induction es with
  | nil => exact List.Forall₂.nil
  | cons e es ih =>
    have hwell := isSome_eventOf_iff r e.1 e.2
    cases hevent : r.eventOf e.1 e.2 with
    | none =>
      rw [hevent] at hwell
      rw [filter_cons_of_neg (by simpa using hwell), filterMap_cons, hevent]
      exact ih
    | some event =>
      rw [hevent] at hwell
      rw [filter_cons_of_pos (by simpa using hwell), filterMap_cons, hevent]
      exact List.Forall₂.cons hevent ih

/-- An entry of a type that is not known. -/
def unknownFile : List UInt8 := asciiBytes "[ R | 9999 | 0260 | 0000 | 1 ]\n:a\n".toList

/-- A URL without the URL, at the end of the file. -/
def bareFile : List UInt8 := asciiBytes "[ R | 0004 | 0260 | 0000 | 1 ]\n:".toList

end Licq.History
