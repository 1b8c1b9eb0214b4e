import Licq.Data.Ring
import Mathlib.Order.Defs.LinearOrder

/-!
# QtGui/HistoryDlg — searching the history of a contact

The dialog holds the entries of the history and the place of the last search hit.  `find` walks from
there, forwards or backwards, until it comes to an entry whose text matches or back to where it
started.  The places are the entries and the end of the list, and a walk past either end goes through
the end and wraps around.

`hits` are the places of the entries that match, in the order of the list.  After the first search
the place goes up and down that list by one at each search, round its ends (`finds_visits`).
-/

namespace Licq.QtGui

open RingWalk

/-! ## The dialog -/

/-- `Licq::UserEvent`, as far as a search reads it. -/
structure HistoryEntry where
  time : ℤ
  text : List UInt8

/-- `Licq::HistoryList::iterator`: an entry of the list, or its end. -/
abbrev HistoryIterator (history : List HistoryEntry) := Fin (history.length + 1)

namespace HistoryIterator

variable {history : List HistoryEntry}

def «end» : HistoryIterator history := Fin.last history.length

/-- The entry at a place; the end is outside the list. -/
def deref (pos : HistoryIterator history) : Option HistoryEntry := history[pos.val]?

end HistoryIterator

/-- A regular expression is known by `indexIn`, the place of its first match in a text. -/
abbrev RegExp := String → Option ℕ

/-- What the search takes from the library: the text of some bytes, the local date of a time, and
the regular expression of a pattern (by case, and as an expression or as a fixed string). -/
structure SearchLib (Date : Type) where
  fromUtf8 : List UInt8 → String
  date : ℤ → Date
  regExp : String → Bool → Bool → RegExp

/-- `Calendar`: its selected date is kept inside the range of its dates. -/
structure Calendar (Date : Type) where
  minimumDate : Date
  maximumDate : Date
  selectedDate : Date
  myMatches : List Date

variable {Date : Type} [LinearOrder Date]

namespace Calendar

def setSelectedDate (c : Calendar Date) (date : Date) : Calendar Date :=
  { c with selectedDate :=
      if date < c.minimumDate then c.minimumDate
      else if date > c.maximumDate then c.maximumDate else date }

def addMatch (c : Calendar Date) (date : Date) : Calendar Date :=
  if date ∈ c.myMatches then c else { c with myMatches := c.myMatches ++ [date] }

def clearMatches (c : Calendar Date) : Calendar Date := { c with myMatches := [] }

end Calendar

/-- `HistoryDlg` with the entries `history`: its search box, the place of the last hit, the calendar,
and the status with the style of the search box. -/
structure HistoryDlg (Date : Type) (history : List HistoryEntry) where
  pattern : String
  matchCase : Bool
  regExpSearch : Bool
  myPatternChanged : Bool
  mySearchPos : HistoryIterator history
  myCalendar : Calendar Date
  statusText : String
  styleSheet : String

namespace HistoryDlg

variable {history : List HistoryEntry} (lib : SearchLib Date)

def getRegExp (dlg : HistoryDlg Date history) : RegExp :=
  lib.regExp dlg.pattern dlg.matchCase dlg.regExpSearch

/-- `calenderClicked`: the next search is a first one. -/
def calenderClicked (dlg : HistoryDlg Date history) : HistoryDlg Date history :=
  { dlg with mySearchPos := .end, statusText := "" }

/-! ## Searching -/

/-- The text of an entry contains the expression. -/
def contains (regExp : RegExp) (entry : HistoryEntry) : Bool :=
  (regExp (lib.fromUtf8 entry.text)).isSome

/-- The entry at a place contains the expression; the end is never matched. -/
def matchesAt (regExp : RegExp) (pos : HistoryIterator history) : Bool :=
  match pos.deref with
  | some entry => contains lib regExp entry
  | none => false

/-- All matching dates, marked in the calendar. -/
def markMatches (regExp : RegExp) (c : Calendar Date) (history : List HistoryEntry) : Calendar Date :=
  (history.filter (contains lib regExp)).foldl (fun c entry => c.addMatch (lib.date entry.time))
    c.clearMatches

/-- Where the first search starts: backwards at the first entry after the selected date, forwards at
the last one before the entries of that date and later. -/
def firstPos (selected : Date) (backwards : Bool) : HistoryIterator history :=
  let pos : HistoryIterator history :=
    ⟨history.findIdx fun entry =>
        lib.date entry.time > selected || (!backwards && lib.date entry.time ≥ selected),
      Nat.lt_succ_of_le List.findIdx_le_length⟩
  if backwards then pos else pos - 1

/-- What the walk ends with: whether it is a hit, the place and the status. -/
structure Outcome (history : List HistoryEntry) where
  hit : Bool
  pos : HistoryIterator history
  status : String

/-- The loop of `find`, from `startPos` on. -/
def walk (hit : HistoryIterator history → Bool) (backwards : Bool)
    (startPos : HistoryIterator history) :
    ℕ → HistoryIterator history → String → Option (Outcome history)
  | 0, _, _ => none
  | fuel + 1, pos, status =>
    let pos := if backwards then pos - 1 else pos + 1
    if hit pos then some ⟨true, pos, status⟩
    else if pos = startPos then some ⟨false, pos, "Search returned no matches"⟩
    else if pos = .end then walk hit backwards startPos fuel pos "Search wrapped around"
    else walk hit backwards startPos fuel pos status

/-- If the search pattern has changed, all matching dates are marked in the calendar. -/
def searchCalendar (dlg : HistoryDlg Date history) : Calendar Date :=
  if dlg.myPatternChanged then markMatches lib (getRegExp lib dlg) dlg.myCalendar history
  else dlg.myCalendar

/-- Where a search starts; the first one needs an entry to start from. -/
def startPos (dlg : HistoryDlg Date history) (backwards : Bool) : HistoryIterator history :=
  if dlg.mySearchPos = .end then firstPos lib (searchCalendar lib dlg).selectedDate backwards
  else dlg.mySearchPos

/-- What `find` does with the end of the walk: a hit is shown with its date. -/
def finish (dlg : HistoryDlg Date history) (outcome : Outcome history) : HistoryDlg Date history :=
  { dlg with
    myPatternChanged := false
    mySearchPos := outcome.pos
    statusText := outcome.status
    styleSheet := if outcome.hit then dlg.styleSheet else "background: red"
    myCalendar :=
      match outcome.hit, outcome.pos.deref with
      | true, some entry => (searchCalendar lib dlg).setSelectedDate (lib.date entry.time)
      | _, _ => searchCalendar lib dlg }

/-- `HistoryDlg::find` -/
def find (fuel : ℕ) (dlg : HistoryDlg Date history) (backwards : Bool) :
    Option (HistoryDlg Date history) :=
  if dlg.pattern = "" then some dlg
  -- an expression that can match zero characters is no better than an empty search text
  else if (getRegExp lib dlg "").isSome then some dlg
  else
    (walk (matchesAt lib (getRegExp lib dlg)) backwards (startPos lib dlg backwards) fuel
      (startPos lib dlg backwards) "").map (finish lib dlg)

/-- Searches one after the other, each forwards (`false`, `findNext`) or backwards (`true`,
`findPrevious`). -/
def finds (fuel : ℕ) (dlg : HistoryDlg Date history) (searches : List Bool) :
    Option (HistoryDlg Date history) :=
  searches.foldlM (find lib fuel) dlg

/-! ## The walk -/

/-- The step of a walk. -/
def step (history : List HistoryEntry) (backwards : Bool) : HistoryIterator history :=
  if backwards then -1 else 1

variable {hit : HistoryIterator history → Bool} {backwards : Bool} {x y : HistoryIterator history}
  {start : HistoryIterator history} {status : String} {fuel j : ℕ}

theorem add_step :
    x + step history backwards = if backwards then x - 1 else x + 1 := by
  cases backwards
  · rfl
  · exact (sub_eq_add_neg x 1).symm

theorem step_round : (history.length + 1) • step history backwards = 0 := by
  cases backwards
  · exact nsmul_one_eq_zero
  · exact nsmul_neg_one_eq_zero

theorem exists_eq_add_step (backwards : Bool) (x y : HistoryIterator history) :
    ∃ k, 0 < k ∧ y = x + k • step history backwards := by
  cases backwards
  · exact exists_eq_add_nsmul_one x y
  · exact exists_eq_add_nsmul_neg_one x y

theorem add_step_ne (hj : 0 < j) (hlt : j < history.length + 1) :
    x + j • step history backwards ≠ x := by
  cases backwards
  · exact add_nsmul_one_ne x hj hlt
  · exact add_nsmul_neg_one_ne x hj hlt

/-- What a walk that has ended says: it is at the first hit, or there is no hit at all. -/
def Outcome.Right (hit : HistoryIterator history → Bool) (backwards : Bool)
    (start : HistoryIterator history) (outcome : Outcome history) : Prop :=
  (outcome.hit = true ∧ outcome.status ≠ "Search returned no matches" ∧
      FirstAfter (step history backwards) (hit · = true) start outcome.pos) ∨
    (outcome.hit = false ∧ outcome.status = "Search returned no matches" ∧ ∀ x, hit x = false)

/-- When nothing is hit once round the list, nothing is hit at all. -/
theorem not_hit_of_round
    (hfree : ∀ i, 0 < i → i ≤ history.length + 1 →
      ¬hit (start + i • step history backwards) = true) (x : HistoryIterator history) :
    hit x = false := by
  by_contra hx
  obtain ⟨k, hk, rfl⟩ := exists_eq_add_step backwards start x
  have hhit : hit (start + k • step history backwards) = true := by simpa using hx
  have hex : ∃ y, FirstAfter (step history backwards) (hit · = true) start y :=
    exists_firstAfter hk hhit
  obtain ⟨y, hy⟩ := hex
  obtain ⟨i, hi, hle, rfl, hhit, -⟩ := hy.exists_le step_round (Nat.succ_pos _)
  exact hfree i hi hle hhit

/-- Each round of the loop takes the walk one place further, and once round the list it has ended. -/
theorem walk_right (hstatus : status ≠ "Search returned no matches")
    (hfree : ∀ i, 0 < i → i ≤ j → ¬hit (start + i • step history backwards) = true)
    (hj : j < history.length + 1) (hfuel : history.length < j + fuel) :
    ∃ outcome, walk hit backwards start fuel (start + j • step history backwards) status =
      some outcome ∧ outcome.Right hit backwards start := by
  induction fuel generalizing j status with
  | zero => omega
  | succ fuel ih =>
    have hnext : start + j • step history backwards + step history backwards =
        start + (j + 1) • step history backwards := by
      rw [succ_nsmul, add_assoc]
    simp only [walk, ← add_step, hnext]
    by_cases hhit : hit (start + (j + 1) • step history backwards) = true
    · rw [if_pos hhit]
      refine ⟨_, rfl, Or.inl ⟨rfl, hstatus, j + 1, j.succ_pos, rfl, hhit, fun i hi hij => ?_⟩⟩
      exact hfree i hi (Nat.le_of_lt_succ hij)
    · have hfree' : ∀ i, 0 < i → i ≤ j + 1 →
          ¬hit (start + i • step history backwards) = true := by
        intro i hi hij
        rcases Nat.lt_or_ge j i with hlt | hge
        · rwa [show i = j + 1 by omega]
        · exact hfree i hi hge
      rw [if_neg hhit]
      by_cases hstop : start + (j + 1) • step history backwards = start
      · rw [if_pos hstop]
        refine ⟨_, rfl, Or.inr ⟨rfl, rfl, not_hit_of_round fun i hi hle => hfree' i hi ?_⟩⟩
        by_contra hgt
        exact add_step_ne j.succ_pos (by omega) hstop
      · rw [if_neg hstop]
        have hlt : j + 1 < history.length + 1 := by
          rcases Nat.lt_or_ge (j + 1) (history.length + 1) with hlt | hge
          · exact hlt
          · rw [show j + 1 = history.length + 1 by omega, step_round, add_zero] at hstop
            exact absurd rfl hstop
        by_cases hend : start + (j + 1) • step history backwards = .end
        · rw [if_pos hend]
          exact ih (by simp) hfree' hlt (by omega)
        · rw [if_neg hend]
          exact ih hstatus hfree' hlt (by omega)

/-- **The loop ends** and is right, from wherever it starts. -/
theorem walk_start (hit : HistoryIterator history → Bool) (backwards : Bool)
    (start : HistoryIterator history) (hfuel : history.length < fuel) :
    ∃ outcome, walk hit backwards start fuel start "" = some outcome ∧
      outcome.Right hit backwards start := by
  have hfree : ∀ i, 0 < i → i ≤ 0 → ¬hit (start + i • step history backwards) = true :=
    fun i hi hle => absurd hi hle.not_gt
  obtain ⟨outcome, hwalk, hright⟩ := walk_right (show "" ≠ "Search returned no matches" by simp)
    hfree history.length.succ_pos (show history.length < 0 + fuel by omega)
  refine ⟨outcome, ?_, hright⟩
  rwa [zero_nsmul, add_zero] at hwalk

/-! ## One search -/

variable {lib : SearchLib Date} {dlg dlg' : HistoryDlg Date history}

/-- The places that the pattern of the dialog matches. -/
def matching (lib : SearchLib Date) (dlg : HistoryDlg Date history) :
    HistoryIterator history → Bool :=
  matchesAt lib (getRegExp lib dlg)

/-- The pattern is one to search for: it is not empty, and does not match the empty string. -/
def Searchable (lib : SearchLib Date) (dlg : HistoryDlg Date history) : Prop :=
  dlg.pattern ≠ "" ∧ getRegExp lib dlg "" = none

/-- Both dialogs search for the same. -/
def SamePattern (dlg dlg' : HistoryDlg Date history) : Prop :=
  dlg'.pattern = dlg.pattern ∧ dlg'.matchCase = dlg.matchCase ∧
    dlg'.regExpSearch = dlg.regExpSearch

omit [LinearOrder Date] in
theorem SamePattern.getRegExp_eq (h : SamePattern dlg dlg') :
    getRegExp lib dlg' = getRegExp lib dlg := by
  obtain ⟨hpattern, hcase, hreg⟩ := h
  rw [getRegExp, getRegExp, hpattern, hcase, hreg]

omit [LinearOrder Date] in
theorem SamePattern.matching_eq (h : SamePattern dlg dlg') : matching lib dlg' = matching lib dlg := by
  rw [matching, matching, h.getRegExp_eq]

omit [LinearOrder Date] in
theorem SamePattern.searchable (h : SamePattern dlg dlg') (hs : Searchable lib dlg) :
    Searchable lib dlg' := by
  rw [Searchable, h.getRegExp_eq, h.1]
  exact hs

/-- **One search** ends; it is at the first hit from where it starts, or says that there is none. -/
theorem find_right (hs : Searchable lib dlg) (hfuel : history.length < fuel) (backwards : Bool) :
    ∃ dlg', find lib fuel dlg backwards = some dlg' ∧ SamePattern dlg dlg' ∧
      ((dlg'.statusText ≠ "Search returned no matches" ∧
          FirstAfter (step history backwards) (matching lib dlg · = true)
            (startPos lib dlg backwards) dlg'.mySearchPos) ∨
        (dlg'.statusText = "Search returned no matches" ∧ ∀ x, matching lib dlg x = false)) := by
  obtain ⟨outcome, hwalk, hright⟩ := walk_start (matching lib dlg) backwards
    (startPos lib dlg backwards) hfuel
  have hnone : ¬(getRegExp lib dlg "").isSome = true := by rw [hs.2]; simp
  refine ⟨finish lib dlg outcome, ?_, ⟨rfl, rfl, rfl⟩, ?_⟩
  · rw [find, if_neg hs.1, if_neg hnone]
    rw [matching] at hwalk
    rw [hwalk, Option.map_some]
  · rcases hright with ⟨-, hstatus, hfirst⟩ | ⟨-, hstatus, hnohit⟩
    · exact Or.inl ⟨hstatus, hfirst⟩
    · exact Or.inr ⟨hstatus, hnohit⟩

/-! ## The hits -/

/-- The places of the entries that match, in the order of the list. -/
def hits (lib : SearchLib Date) (dlg : HistoryDlg Date history) : List (HistoryIterator history) :=
  (List.finRange (history.length + 1)).filter (matching lib dlg)

omit [LinearOrder Date] in
theorem mem_hits : x ∈ hits lib dlg ↔ matching lib dlg x = true := by
  rw [hits, List.mem_filter]
  exact and_iff_right (List.mem_finRange x)

omit [LinearOrder Date] in
theorem hits_sorted : (hits lib dlg).Pairwise (· < ·) :=
  (List.pairwise_lt_finRange _).filter _

omit [LinearOrder Date] in
theorem hits_eq_nil_iff : hits lib dlg = [] ↔ ∀ x, matching lib dlg x = false := by
  simp only [List.eq_nil_iff_forall_not_mem, mem_hits, Bool.not_eq_true]

omit [LinearOrder Date] in
/-- There are no hits exactly when no entry of the list matches. -/
theorem hits_eq_nil_iff_entries :
    hits lib dlg = [] ↔ ∀ entry ∈ history, contains lib (getRegExp lib dlg) entry = false := by
  rw [hits_eq_nil_iff]
  constructor
  · intro hnohit entry hentry
    obtain ⟨k, hk, rfl⟩ := List.mem_iff_getElem.mp hentry
    have hplace := hnohit ⟨k, by omega⟩
    rwa [matching, matchesAt, HistoryIterator.deref, List.getElem?_eq_getElem hk] at hplace
  · intro hnone x
    rw [matching, matchesAt, HistoryIterator.deref]
    cases hentry : history[x.val]? with
    | none => rfl
    | some entry => exact hnone entry (List.mem_of_getElem? hentry)

omit [LinearOrder Date] in
theorem SamePattern.hits_eq (h : SamePattern dlg dlg') : hits lib dlg' = hits lib dlg := by
  rw [hits, hits, h.matching_eq]

/-- By how much searches go on in the list of the hits. -/
def turns : List Bool → ℤ
  | [] => 0
  | backwards :: searches => (if backwards then -1 else 1) + turns searches

/-- A search from a hit goes to the next one in the list, or backwards to the one before. -/
theorem find_from_hit (hs : Searchable lib dlg) (hfuel : history.length < fuel) {i : ℤ}
    (hpos : cyclicGet (hits lib dlg) i = some dlg.mySearchPos) (backwards : Bool) :
    ∃ dlg', find lib fuel dlg backwards = some dlg' ∧ SamePattern dlg dlg' ∧
      dlg'.statusText ≠ "Search returned no matches" ∧
      cyclicGet (hits lib dlg) (i + if backwards then -1 else 1) = some dlg'.mySearchPos := by
  have hhit : matching lib dlg dlg.mySearchPos = true := mem_hits.mp (mem_of_cyclicGet hpos)
  have hin : dlg.mySearchPos ≠ .end := by
    intro hend
    rw [hend, matching, matchesAt, HistoryIterator.deref, HistoryIterator.end, Fin.val_last,
      List.getElem?_eq_none le_rfl] at hhit
    exact Bool.false_ne_true hhit
  obtain ⟨dlg', hfind, hsame, ⟨hstatus, hfirst⟩ | ⟨-, hnohit⟩⟩ := find_right hs hfuel backwards
  · refine ⟨dlg', hfind, hsame, hstatus, ?_⟩
    obtain ⟨y, hy⟩ := exists_cyclicGet (List.ne_nil_of_mem (mem_of_cyclicGet hpos))
      (i + if backwards then -1 else 1)
    rw [startPos, if_neg hin] at hfirst
    rw [hy, Option.some_inj]
    cases backwards
    · exact (firstAfter_cyclicGet hits_sorted (fun _ => mem_hits) hpos hy).unique hfirst
    · exact (firstAfter_cyclicGet_neg hits_sorted (fun _ => mem_hits) hpos hy).unique hfirst
  · rw [hnohit] at hhit
    exact absurd hhit Bool.false_ne_true

/-- From a hit, a row of searches goes as far in the list of the hits as they say together. -/
theorem finds_from_hit (hs : Searchable lib dlg) (hfuel : history.length < fuel) {i : ℤ}
    (hpos : cyclicGet (hits lib dlg) i = some dlg.mySearchPos)
    (hstatus : dlg.statusText ≠ "Search returned no matches") (searches : List Bool) :
    ∃ dlg', finds lib fuel dlg searches = some dlg' ∧
      dlg'.statusText ≠ "Search returned no matches" ∧
      cyclicGet (hits lib dlg) (i + turns searches) = some dlg'.mySearchPos := by
  induction searches generalizing dlg i with
  | nil =>
    refine ⟨dlg, rfl, hstatus, ?_⟩
    rwa [turns, add_zero]
  | cons backwards searches ih =>
    obtain ⟨dlg₁, hfind, hsame, hstatus₁, hpos₁⟩ := find_from_hit hs hfuel hpos backwards
    rw [← hsame.hits_eq] at hpos₁
    obtain ⟨dlg', hfinds, hstatus', hpos'⟩ := ih (hsame.searchable hs) hpos₁ hstatus₁
    refine ⟨dlg', ?_, hstatus', ?_⟩
    · rw [finds, List.foldlM_cons, hfind]
      exact hfinds
    · rwa [turns, ← add_assoc, ← hsame.hits_eq]

/-- Where nothing matches, every search says so. -/
theorem finds_no_hit (hs : Searchable lib dlg) (hfuel : history.length < fuel)
    (hnohit : ∀ x, matching lib dlg x = false) (backwards : Bool) (searches : List Bool) :
    ∃ dlg', finds lib fuel dlg (backwards :: searches) = some dlg' ∧
      dlg'.statusText = "Search returned no matches" := by
  induction searches generalizing dlg backwards with
  | nil =>
    obtain ⟨dlg', hfind, -, ⟨-, hfirst⟩ | ⟨hstatus, -⟩⟩ := find_right hs hfuel backwards
    · have hhit := hfirst.isHit
      rw [hnohit] at hhit
      exact absurd hhit Bool.false_ne_true
    · refine ⟨dlg', ?_, hstatus⟩
      rw [finds, List.foldlM_cons, hfind]
      rfl
  | cons next searches ih =>
    obtain ⟨dlg₁, hfind, hsame, -⟩ := find_right hs hfuel backwards
    obtain ⟨dlg', hfinds, hstatus⟩ := ih (hsame.searchable hs)
      (fun x => by rw [hsame.matching_eq, hnohit]) next
    refine ⟨dlg', ?_, hstatus⟩
    rw [finds, List.foldlM_cons, hfind]
    exact hfinds

/-- From the first search on: every row of searches ends, its last one says that there are no matches
exactly when no entry of the list matches, and otherwise the dialog is at a hit, one further in the
list of the hits for each search after the first, or backwards one before, round the ends. -/
def Visits (lib : SearchLib Date) (fuel : ℕ) (dlg : HistoryDlg Date history) (first : Bool) : Prop :=
  ∃ i : ℤ, ∀ searches, ∃ dlg', finds lib fuel dlg (first :: searches) = some dlg' ∧
    (dlg'.statusText = "Search returned no matches" ↔
      ∀ entry ∈ history, contains lib (getRegExp lib dlg) entry = false) ∧
    (hits lib dlg ≠ [] → cyclicGet (hits lib dlg) (i + turns searches) = some dlg'.mySearchPos)

/-- **The searches visit the hits**, whatever place the dialog was at before. -/
theorem finds_visits (lib : SearchLib Date) (dlg : HistoryDlg Date history)
    (hs : Searchable lib dlg) (hfuel : history.length < fuel) (first : Bool) :
    Visits lib fuel dlg first := by
  obtain ⟨dlg₁, hfind, hsame, ⟨hstatus, hfirst⟩ | ⟨-, hnohit⟩⟩ := find_right hs hfuel first
  · obtain ⟨k, hk, hpos⟩ := List.mem_iff_getElem.mp (mem_hits.mpr hfirst.isHit)
    have hne : hits lib dlg ≠ [] := List.ne_nil_of_mem (mem_hits.mpr hfirst.isHit)
    refine ⟨k, fun searches => ?_⟩
    have hat : cyclicGet (hits lib dlg₁) k = some dlg₁.mySearchPos := by
      rw [hsame.hits_eq, cyclicGet_natCast hk, hpos]
    obtain ⟨dlg', hfinds, hstatus', hpos'⟩ :=
      finds_from_hit (hsame.searchable hs) hfuel hat hstatus searches
    rw [hsame.hits_eq] at hpos'
    rw [← hits_eq_nil_iff_entries]
    refine ⟨dlg', ?_, iff_of_false hstatus' hne, fun _ => hpos'⟩
    rw [finds, List.foldlM_cons, hfind]
    exact hfinds
  · refine ⟨0, fun searches => ?_⟩
    have hnil := hits_eq_nil_iff.mpr hnohit
    obtain ⟨dlg', hfinds, hstatus⟩ := finds_no_hit hs hfuel hnohit first searches
    rw [← hits_eq_nil_iff_entries]
    exact ⟨dlg', hfinds, iff_of_true hstatus hnil, fun hne => absurd hnil hne⟩

/-- The texts "a", "b" and "a" of one day are searched for "a", from the last day on. -/
theorem finds_visits_letters :
    ∃ (lib : SearchLib ℤ) (dlg : HistoryDlg ℤ [⟨10, [97]⟩, ⟨20, [98]⟩, ⟨30, [97]⟩]),
      hits lib dlg = [0, 2] ∧ Visits lib 4 dlg false := by
  let lib : SearchLib ℤ :=
    { fromUtf8 := fun bytes => String.ofList (bytes.map fun b => Char.ofNat b.toNat)
      date := (· / 86400)
      regExp := fun pattern _ _ text =>
        (List.range text.length).find? fun i => pattern.toList.isPrefixOf (text.toList.drop i) }
  let dlg : HistoryDlg ℤ [⟨10, [97]⟩, ⟨20, [98]⟩, ⟨30, [97]⟩] :=
    { pattern := "a", matchCase := true, regExpSearch := false, myPatternChanged := true
      mySearchPos := .end, myCalendar := ⟨0, 0, 0, []⟩, statusText := "", styleSheet := "" }
  exact ⟨lib, dlg, by decide, finds_visits lib dlg ⟨by decide, by decide⟩ (by decide) false⟩

end HistoryDlg

end Licq.QtGui
