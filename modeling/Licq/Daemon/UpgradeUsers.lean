import Licq.IniFile.Edit
import Licq.IniFile.Whole
import Licq.ContactList.GroupFile

/-!
# Daemon/UpgradeUsers — the users of an old users.conf

Before 1.8 the file users.conf had one list of the users of all protocols, a name of a user being
the account, a dot and four characters for the protocol.  `upgradeLicq18_updateUsersList` writes a
section for each owner and removes the list.  An owner that has a section keeps it, and the ICQ
owner may have one under an old name.  `Conf.updateOwner` is what a turn does to the configuration,
and `lines?_updateOwners` what all turns do.

The **main result** `splits_fresh` says that the list is split among the other owners; an owner that
has a section does not get its users (`not_splits_ownFile`). -/

namespace Licq.UpgradeUsers

open Text IniFile Conf

/-! ## The upgrade -/

def usersSection : List Char := ['u', 's', 'e', 'r', 's']

def numOfUsers : List Char := ['N', 'u', 'm', 'O', 'f', 'U', 's', 'e', 'r', 's']

def numUsers : List Char := ['N', 'u', 'm', 'U', 's', 'e', 'r', 's']

/-- "User%i"; the names fit `char key[20]`, as the number is an `int`. -/
def userKey (i : ℕ) : List Char := ['U', 's', 'e', 'r'] ++ decimal i

/-- "ICQ_" -/
def icqName : List Char := ['I', 'C', 'Q', '_']

/-- "Licq", the name of the ICQ protocol before. -/
def oldIcqName : List Char := ['L', 'i', 'c', 'q']

/-- An entry of the map of owners: the protocol and the account. -/
structure Owner where
  ppid : List Char
  accountId : List Char
  deriving DecidableEq, Repr

def Owner.newSection (o : Owner) : List Char := o.accountId ++ '.' :: o.ppid

/-- The section of the ICQ owner before. -/
def Owner.oldSection (o : Owner) : List Char := o.accountId ++ '.' :: oldIcqName

/-- The loop over the users of a section: what is accepted of them. -/
def readUsers (usersConf : IniFile) (countKey : List Char)
    (accept : List Char → Option (List Char)) : List (List Char) :=
  (List.range' 1 (getInt usersConf countKey 0).toNat).filterMap fun i =>
    accept (getString usersConf (userKey i) [])

/-- `if (!str.empty())` -/
def nonEmpty (str : List Char) : Option (List Char) := if str = [] then none else some str

/-- The account of a user file name that has the protocol. -/
def accountOf (ppid userIdStr : List Char) : Option (List Char) :=
  if userIdStr.length < 6 ∨ userIdStr[userIdStr.length - 5]? ≠ some '.' then none
  else
    let ppidStr := userIdStr.drop (userIdStr.length - 4)
    if ppidStr = ppid ∨ (ppidStr = oldIcqName ∧ ppid = icqName) then
      some (userIdStr.take (userIdStr.length - 5))
    else none

/-- Write users to new section: those from number `i` on. -/
def setUsers (usersConf : IniFile) (i : ℕ) : List (List Char) → Option IniFile
  | [] => some usersConf
  | userIdStr :: users => do
    let (_, usersConf) ← set usersConf (userKey i) userIdStr
    setUsers usersConf (i + 1) users

/-- Write users to new section. -/
def writeUsers (usersConf : IniFile) (newSection : List Char) (users : List (List Char)) :
    Option IniFile := do
  let usersConf := (setSection usersConf newSection true).2
  let (_, usersConf) ← set usersConf numUsers (decimal users.length)
  setUsers usersConf 1 users

/-- One turn of the loop over the owners. -/
def updateOwner (usersConf : IniFile) (o : Owner) : Option IniFile :=
  match setSection usersConf o.newSection false with
  -- Owner specific section already exists
  | (true, usersConf) => some usersConf
  | (false, usersConf) =>
    match (if o.ppid = icqName then setSection usersConf o.oldSection false
      else (false, usersConf)) with
    | (true, usersConf) =>
      -- Migrate ICQ section to new name
      let users := readUsers usersConf numUsers nonEmpty
      writeUsers (removeSection usersConf o.oldSection) o.newSection users
    | (false, usersConf) =>
      -- Migrate from old mixed section
      let usersConf := (setSection usersConf usersSection true).2
      writeUsers usersConf o.newSection (readUsers usersConf numOfUsers (accountOf o.ppid))

/-- The loop over the owners. -/
def updateOwners : List Owner → IniFile → Option IniFile
  | [], usersConf => some usersConf
  | o :: owners, usersConf => do
    let usersConf ← updateOwner usersConf o
    updateOwners owners usersConf

/-- The file users.conf, loaded. -/
abbrev loaded (disk : Option (List Char)) : IniFile :=
  (ConfFile.loadFile (ConfFile.opened disk)).2.ini

/-- `upgradeLicq18_updateUsersList`, on what the file users.conf holds. -/
def updateUsersList (owners : List Owner) (disk : Option (List Char)) :
    Option (Option (List Char)) := do
  let conf := (ConfFile.loadFile (ConfFile.opened disk)).2
  let usersConf ← updateOwners owners conf.ini
  some (ConfFile.writeFile { conf with ini := removeSection usersConf usersSection }).2.disk

/-! ## The configuration -/

/-- What is accepted of the users in the lines of a section. -/
def usersIn (countKey : List Char) (accept : List Char → Option (List Char)) (body : List Line) :
    List (List Char) :=
  (List.range' 1 ((((lookup countKey body).map unescape).map atoi).getD 0).toNat).filterMap fun i =>
    accept (((lookup (userKey i) body).map unescape).getD [])

/-- The parameters of users, from a number on. -/
def userEntries (i : ℕ) : List (List Char) → List Entry
  | [] => []
  | userIdStr :: users => (userKey i, userIdStr) :: userEntries (i + 1) users

/-- The lines of a section with the users. -/
def usersBody (users : List (List Char)) : List Line :=
  assignAll (written ((numUsers, decimal users.length) :: userEntries 1 users)) []

/-- The users that are written for an owner without a section. -/
def newUsers (c : Conf) (o : Owner) : List (List Char) :=
  if o.ppid = icqName ∧ c.lines? (sectionName o.oldSection) ≠ none then
    usersIn numUsers nonEmpty ((c.lines? (sectionName o.oldSection)).getD [])
  else usersIn numOfUsers (accountOf o.ppid) ((c.lines? (sectionName usersSection)).getD [])

/-- The other sections, when one is written for an owner. -/
def otherSections (c : Conf) (o : Owner) : Conf :=
  if o.ppid = icqName ∧ c.lines? (sectionName o.oldSection) ≠ none then
    c.erase (sectionName o.oldSection)
  else if c.lines? (sectionName usersSection) = none then c.add (sectionName usersSection) []
  else c

/-- **A turn of the loop over the owners**, on the configuration. -/
def Conf.updateOwner (c : Conf) (o : Owner) : Conf :=
  if c.lines? (sectionName o.newSection) ≠ none then c
  else (otherSections c o).add (sectionName o.newSection) (usersBody (newUsers c o))

/-! ## The text and the configuration -/

theorem userKey_valid (i : ℕ) : (userKey i).all keyChar = true := by
  rw [userKey, List.all_append, decimal_all_keyChar]
  decide

theorem sectionName_append (s : List Char) {t : List Char} (ht : t.all sectionChar = true) :
    sectionName (s ++ '.' :: t) = sectionName s ++ '.' :: t := by
  have htail : ('.' :: t).filter sectionChar = '.' :: t :=
    List.filter_eq_self.mpr fun c hc => by
      rcases List.mem_cons.mp hc with rfl | hc
      · decide
      · exact List.all_eq_true.mp ht c hc
  rw [sectionName, List.filter_append, htail]
  rfl

theorem dot_mem_sectionName (s t : List Char) : '.' ∈ sectionName (s ++ '.' :: t) :=
  List.mem_filter.mpr ⟨by simp, by decide⟩

theorem newSection_ne_nil (o : Owner) : sectionName o.newSection ≠ [] :=
  List.ne_nil_of_mem (dot_mem_sectionName o.accountId o.ppid)

theorem oldSection_ne_nil (o : Owner) : sectionName o.oldSection ≠ [] :=
  List.ne_nil_of_mem (dot_mem_sectionName o.accountId oldIcqName)

theorem newSection_ne_users (o : Owner) : sectionName o.newSection ≠ sectionName usersSection :=
  fun h => absurd (h ▸ dot_mem_sectionName o.accountId o.ppid) (by decide)

theorem setUsers_eq (usersConf : IniFile) (i : ℕ) (users : List (List Char)) :
    setUsers usersConf i users = setAll usersConf (userEntries i users) := by
  induction users generalizing usersConf i with
  | nil => rfl
  | cons u users ih =>
    simp only [setUsers, userEntries, setAll, ih]
    rfl

section Spelled

variable {ini₀ ini : IniFile} {c : Conf} {current : Option (List Char)} {name raw : List Char}

theorem readUsers_eq (h : Spells ini₀ c (some name) ini) {countKey : List Char}
    (hcount : countKey.all keyChar = true) (accept : List Char → Option (List Char)) :
    readUsers ini countKey accept = usersIn countKey accept ((c.lines? name).getD []) := by
  rw [readUsers, usersIn, getInt, h.get_eq hcount]
  refine List.filterMap_congr fun i _ => ?_
  rw [getString, h.get_eq (userKey_valid i)]

/-- **Writing a section that is not there adds it**, with the users. -/
theorem writeUsers_spells (h : Spells ini₀ c current ini) (hraw : sectionName raw ≠ [])
    (hnone : c.lines? (sectionName raw) = none) (users : List (List Char)) :
    ∃ ini', writeUsers ini raw users = some ini' ∧
      Spells ini₀ (c.add (sectionName raw) (usersBody users)) (some (sectionName raw)) ini' := by
  obtain ⟨ini', hall, h'⟩ := (h.add hraw hnone).setAll_eq
    ((numUsers, decimal users.length) :: userEntries 1 users)
  have hmodify := @modify_add c (sectionName raw) [] hnone
    (assignAll (written ((numUsers, decimal users.length) :: userEntries 1 users)))
  change mk (c.add (sectionName raw) []).preamble _ = _ at hmodify
  rw [hmodify] at h'
  refine ⟨ini', ?_, h'⟩
  rw [writeUsers]
  simp only [setUsers_eq]
  exact hall

/-- The section for an owner is still not there when the others are ready. -/
theorem lines?_otherSections {o : Owner} (h : c.lines? (sectionName o.newSection) = none) :
    (otherSections c o).lines? (sectionName o.newSection) = none := by
  rw [otherSections]
  split_ifs
  · exact lines?_erase_eq_none h _
  · rw [lines?_add_of_ne (bracket_notMem_sectionName _) (bracket_notMem_sectionName _)
      (newSection_ne_users o), h]
  · exact h

/-- **A turn does to the text what it does to the configuration.** -/
theorem updateOwner_spells (h : Spells ini₀ c current ini) (o : Owner) : ∃ ini' current',
    updateOwner ini o = some ini' ∧ Spells ini₀ (Conf.updateOwner c o) current' ini' := by
  rw [updateOwner, Conf.updateOwner]
  by_cases hnew : c.lines? (sectionName o.newSection) = none
  · obtain ⟨hout, h₁⟩ := h.miss (newSection_ne_nil o) hnew
    have hwrite := lines?_otherSections hnew
    rcases hset : setSection ini o.newSection false with ⟨b, ini₁⟩
    rw [hset] at hout h₁
    obtain rfl : b = false := hout
    rw [if_neg (by simpa using hnew)]
    simp only
    rw [otherSections] at hwrite ⊢
    rw [newUsers]
    by_cases hold : o.ppid = icqName ∧ c.lines? (sectionName o.oldSection) ≠ none
    · -- The section of the ICQ owner under its old name.
      obtain ⟨hout, h₂⟩ := h₁.select (oldSection_ne_nil o) hold.2 false
      rw [if_pos hold.1]
      rcases hset₂ : setSection ini₁ o.oldSection false with ⟨b, ini₂⟩
      rw [hset₂] at hout h₂
      obtain rfl : b = true := hout
      rw [if_pos hold] at hwrite ⊢
      rw [if_pos hold, ← readUsers_eq h₂ (by decide)]
      obtain ⟨ini', hrun, h'⟩ := writeUsers_spells (h₂.erase (oldSection_ne_nil o))
        (newSection_ne_nil o) hwrite (readUsers ini₂ numUsers nonEmpty)
      exact ⟨ini', _, hrun, h'⟩
    · -- The list of the users of all protocols.
      have hskip : ∃ ini₂ current₂, (if o.ppid = icqName then setSection ini₁ o.oldSection false
          else (false, ini₁)) = (false, ini₂) ∧ Spells ini₀ c current₂ ini₂ := by
        by_cases hicq : o.ppid = icqName
        · have hnone : c.lines? (sectionName o.oldSection) = none := by
            by_contra hne
            exact hold ⟨hicq, hne⟩
          obtain ⟨hout, h₂⟩ := h₁.miss (oldSection_ne_nil o) hnone
          refine ⟨(setSection ini₁ o.oldSection false).2, none, ?_, h₂⟩
          rw [if_pos hicq]
          exact Prod.ext hout rfl
        · exact ⟨ini₁, none, if_neg hicq, h₁⟩
      obtain ⟨ini₂, current₂, hskip, h₂⟩ := hskip
      rw [hskip]
      rw [if_neg hold] at hwrite ⊢
      rw [if_neg hold]
      simp only
      have husers : sectionName usersSection ≠ [] := by decide
      split_ifs at hwrite ⊢ with hmixed
      · have h₃ := h₂.add husers hmixed
        have hlines : (c.add (sectionName usersSection) []).lines? (sectionName usersSection)
            = some [] := lines?_add_self hmixed
        obtain ⟨ini', hrun, h'⟩ := writeUsers_spells h₃ (newSection_ne_nil o) hwrite
          (readUsers (setSection ini₂ usersSection true).2 numOfUsers (accountOf o.ppid))
        refine ⟨ini', some (sectionName o.newSection), hrun, ?_⟩
        rw [hmixed, Option.getD_none]
        rwa [readUsers_eq h₃ (by decide), hlines, Option.getD_some] at h'
      · obtain ⟨-, h₃⟩ := h₂.select husers hmixed true
        obtain ⟨ini', hrun, h'⟩ := writeUsers_spells h₃ (newSection_ne_nil o) hwrite
          (readUsers (setSection ini₂ usersSection true).2 numOfUsers (accountOf o.ppid))
        refine ⟨ini', some (sectionName o.newSection), hrun, ?_⟩
        rwa [readUsers_eq h₃ (by decide)] at h'
  · obtain ⟨hout, h₁⟩ := h.select (newSection_ne_nil o) hnew false
    rcases hset : setSection ini o.newSection false with ⟨b, ini₁⟩
    rw [hset] at hout h₁
    obtain rfl : b = true := hout
    rw [if_pos hnew]
    exact ⟨ini₁, _, rfl, h₁⟩

theorem updateOwners_spells (h : Spells ini₀ c current ini) (owners : List Owner) :
    ∃ ini' current', updateOwners owners ini = some ini' ∧
      Spells ini₀ (owners.foldl Conf.updateOwner c) current' ini' := by
  induction owners generalizing ini c current with
  | nil => exact ⟨ini, current, rfl, h⟩
  | cons o owners ih =>
    obtain ⟨ini₁, current₁, hturn, h₁⟩ := updateOwner_spells h o
    obtain ⟨ini', current', hrest, h'⟩ := ih h₁
    refine ⟨ini', current', ?_, h'⟩
    rw [updateOwners, hturn]
    exact hrest

end Spelled

/-! ## The sections of the owners -/

/-- The name of a protocol has four characters, which a section name may hold, and it is not the old
name of ICQ, which is replaced when the owners are read. -/
structure Owner.Proper (o : Owner) : Prop where
  length : o.ppid.length = 4
  valid : o.ppid.all sectionChar = true
  mapped : o.ppid ≠ oldIcqName

theorem ppid_eq_of_append {s s' p p' : List Char} (hp : p.length = 4) (hp' : p'.length = 4)
    (hvalid : p.all sectionChar = true) (hvalid' : p'.all sectionChar = true)
    (h : sectionName (s ++ '.' :: p) = sectionName (s' ++ '.' :: p')) : p = p' := by
  rw [sectionName_append s hvalid, sectionName_append s' hvalid'] at h
  exact (List.cons.inj (List.append_inj' h (by simp [hp, hp'])).2).2

theorem Owner.Proper.newSection_ne {o o' : Owner} (h : o.Proper) (h' : o'.Proper)
    (hne : o.ppid ≠ o'.ppid) : sectionName o.newSection ≠ sectionName o'.newSection := fun heq =>
  hne (ppid_eq_of_append h.length h'.length h.valid h'.valid heq)

theorem Owner.Proper.newSection_ne_old {o : Owner} (h : o.Proper) (o' : Owner) :
    sectionName o.newSection ≠ sectionName o'.oldSection := fun heq =>
  h.mapped (ppid_eq_of_append h.length (by decide) h.valid (by decide) heq)

theorem oldSection_ne_users (o : Owner) : sectionName o.oldSection ≠ sectionName usersSection :=
  fun h => absurd (h ▸ dot_mem_sectionName o.accountId oldIcqName) (by decide)

section Sections

variable {c : Conf} {o o' : Owner} {name : List Char}

/-- **A turn leaves the sections of other names.** -/
theorem lines?_updateOwner_of_ne (hname : ']' ∉ name) (hnew : name ≠ sectionName o.newSection)
    (husers : name ≠ sectionName usersSection)
    (hold : o.ppid = icqName → name ≠ sectionName o.oldSection) :
    (Conf.updateOwner c o).lines? name = c.lines? name := by
  rw [Conf.updateOwner]
  split_ifs
  · rfl
  · rw [lines?_add_of_ne (bracket_notMem_sectionName _) hname hnew, otherSections]
    split_ifs with hicq
    · exact lines?_erase_of_ne (bracket_notMem_sectionName _) hname (hold hicq.1)
    · exact lines?_add_of_ne (bracket_notMem_sectionName _) hname husers
    · rfl

/-- The list of the users of all protocols stays, or is made empty. -/
theorem users_updateOwner (c : Conf) (o : Owner) :
    ((Conf.updateOwner c o).lines? (sectionName usersSection)).getD []
      = (c.lines? (sectionName usersSection)).getD [] := by
  rw [Conf.updateOwner]
  split_ifs
  · rfl
  · rw [lines?_add_of_ne (bracket_notMem_sectionName _) (bracket_notMem_sectionName _)
      (newSection_ne_users o).symm, otherSections]
    split_ifs with hicq hnone
    · rw [lines?_erase_of_ne (bracket_notMem_sectionName _) (bracket_notMem_sectionName _)
        (oldSection_ne_users o).symm]
    · rw [lines?_add_self hnone, hnone]
      rfl
    · rfl

/-- **A turn leaves the users that are to be written for another owner.** -/
theorem newUsers_updateOwner (h' : o'.Proper) (hne : o.ppid ≠ o'.ppid) :
    newUsers (Conf.updateOwner c o') o = newUsers c o := by
  rw [newUsers, newUsers, users_updateOwner]
  by_cases hicq : o.ppid = icqName
  · rw [lines?_updateOwner_of_ne (bracket_notMem_sectionName _) (h'.newSection_ne_old o).symm
      (oldSection_ne_users o) fun hicq' => absurd (hicq.trans hicq'.symm) hne]
  · rw [if_neg fun h => hicq h.1, if_neg fun h => hicq h.1]

/-- The lines of the section of an owner, after its turn. -/
def sectionOf (c : Conf) (o : Owner) : List Line :=
  (c.lines? (sectionName o.newSection)).getD (usersBody (newUsers c o))

theorem lines?_updateOwner_self (c : Conf) (o : Owner) :
    (Conf.updateOwner c o).lines? (sectionName o.newSection) = some (sectionOf c o) := by
  rw [Conf.updateOwner, sectionOf]
  cases hnew : c.lines? (sectionName o.newSection) with
  | none =>
    rw [if_neg (by simp), lines?_add_self (lines?_otherSections hnew), Option.getD_none]
  | some body => rw [if_pos (by simp), hnew, Option.getD_some]

theorem sectionOf_updateOwner (h : o.Proper) (h' : o'.Proper) (hne : o.ppid ≠ o'.ppid) :
    sectionOf (Conf.updateOwner c o') o = sectionOf c o := by
  rw [sectionOf, sectionOf, newUsers_updateOwner h' hne,
    lines?_updateOwner_of_ne (bracket_notMem_sectionName _) (h.newSection_ne h' hne)
      (newSection_ne_users o) fun _ => h.newSection_ne_old o']

theorem lines?_foldl_of_ne (h : o.Proper) {owners : List Owner}
    (howners : ∀ o' ∈ owners, o'.Proper ∧ o.ppid ≠ o'.ppid) :
    (owners.foldl Conf.updateOwner c).lines? (sectionName o.newSection)
      = c.lines? (sectionName o.newSection) := by
  induction owners generalizing c with
  | nil => rfl
  | cons o' owners ih =>
    obtain ⟨h', hne⟩ := howners o' List.mem_cons_self
    rw [List.foldl_cons, ih fun x hx => howners x (List.mem_cons_of_mem o' hx),
      lines?_updateOwner_of_ne (bracket_notMem_sectionName _) (h.newSection_ne h' hne)
        (newSection_ne_users o) fun _ => h.newSection_ne_old o']

/-- **All turns**: the section of each owner is what it is after a turn of its own. -/
theorem lines?_updateOwners {owners : List Owner} (howners : ∀ o ∈ owners, o.Proper)
    (hnodup : (owners.map Owner.ppid).Nodup) (ho : o ∈ owners) :
    (owners.foldl Conf.updateOwner c).lines? (sectionName o.newSection)
      = some (sectionOf c o) := by
  induction owners generalizing c with
  | nil => exact absurd ho List.not_mem_nil
  | cons o' owners ih =>
    rw [List.map_cons, List.nodup_cons] at hnodup
    have h' := howners o' List.mem_cons_self
    have hrest : ∀ x ∈ owners, x.Proper := fun x hx => howners x (List.mem_cons_of_mem o' hx)
    have hne : ∀ x ∈ owners, x.ppid ≠ o'.ppid := fun x hx heq =>
      hnodup.1 (heq ▸ List.mem_map_of_mem hx)
    rw [List.foldl_cons]
    rcases List.mem_cons.mp ho with rfl | ho
    · rw [lines?_foldl_of_ne h' fun x hx => ⟨hrest x hx, (hne x hx).symm⟩,
        lines?_updateOwner_self]
    · rw [ih hrest hnodup.2 ho, sectionOf_updateOwner (hrest o ho) h' (hne o ho)]

/-! ## Lines that survive loading -/

theorem nul_notMem_lookup {body : List Line} (h : ∀ l ∈ body, Steady l) {key value : List Char}
    (hvalue : (lookup key body).map unescape = some value) : Char.ofNat 0 ∉ value := by
  obtain ⟨v, hlookup, rfl⟩ := Option.map_eq_some_iff.mp hvalue
  obtain ⟨l, hfind, rfl⟩ := Option.map_eq_some_iff.mp hlookup
  exact nul_notMem_unescape fun hmem =>
    (h l (List.mem_of_find?_eq_some hfind)).2 (List.mem_of_mem_drop hmem)

theorem mem_usersIn {countKey : List Char} {accept : List Char → Option (List Char)}
    {body : List Line} {id : List Char} (h : id ∈ usersIn countKey accept body) :
    ∃ i, accept (((lookup (userKey i) body).map unescape).getD []) = some id := by
  obtain ⟨i, -, hi⟩ := List.mem_filterMap.mp h
  exact ⟨i, hi⟩

theorem nul_notMem_usersIn {countKey : List Char} {accept : List Char → Option (List Char)}
    {body : List Line} (h : ∀ l ∈ body, Steady l)
    (haccept : ∀ str id, accept str = some id → ∀ x ∈ id, x ∈ str) :
    ∀ id ∈ usersIn countKey accept body, Char.ofNat 0 ∉ id := by
  intro id hid hmem
  obtain ⟨i, hi⟩ := mem_usersIn hid
  have hstr := haccept _ id hi _ hmem
  cases hvalue : (lookup (userKey i) body).map unescape with
  | none =>
    rw [hvalue] at hstr
    exact absurd hstr List.not_mem_nil
  | some value =>
    rw [hvalue, Option.getD_some] at hstr
    exact nul_notMem_lookup h hvalue hstr

theorem mem_of_accountOf {ppid str id : List Char} (h : accountOf ppid str = some id) :
    ∀ x ∈ id, x ∈ str := by
  rw [accountOf] at h
  simp only at h
  split_ifs at h
  cases h
  exact fun x hx => List.mem_of_mem_take hx

theorem mem_of_nonEmpty {str id : List Char} (h : nonEmpty str = some id) : ∀ x ∈ id, x ∈ str := by
  rw [nonEmpty] at h
  split_ifs at h
  cases h
  exact fun x hx => hx

theorem steady_lines (h : c.Survives) (name : List Char) :
    ∀ l ∈ (c.lines? name).getD [], Steady l := by
  cases hlines : c.lines? name with
  | none => exact nofun
  | some body =>
    obtain ⟨s, hfind, rfl⟩ := Option.map_eq_some_iff.mp hlines
    exact (h.sections s (List.mem_of_find?_eq_some hfind)).2

theorem nul_notMem_newUsers (h : c.Survives) (o : Owner) :
    ∀ id ∈ newUsers c o, Char.ofNat 0 ∉ id := by
  rw [newUsers]
  split_ifs
  · exact nul_notMem_usersIn (steady_lines h _) fun _ _ => mem_of_nonEmpty
  · exact nul_notMem_usersIn (steady_lines h _) fun _ _ => mem_of_accountOf

theorem mem_userEntries {i : ℕ} {users : List (List Char)} {e : Entry} :
    e ∈ userEntries i users ↔ ∃ j u, users[j]? = some u ∧ e = (userKey (i + j), u) := by
  induction users generalizing i with
  | nil => simp [userEntries]
  | cons u users ih =>
    rw [userEntries, List.mem_cons, ih]
    constructor
    · rintro (rfl | ⟨j, v, hj, rfl⟩)
      · exact ⟨0, u, rfl, rfl⟩
      · exact ⟨j + 1, v, hj, by rw [Nat.add_right_comm, Nat.add_assoc]⟩
    · rintro ⟨j, v, hj, rfl⟩
      cases j with
      | zero =>
        obtain rfl : u = v := Option.some.inj hj
        exact Or.inl rfl
      | succ j => exact Or.inr ⟨j, v, hj, by rw [Nat.add_right_comm, Nat.add_assoc]⟩

theorem steady_usersBody {users : List (List Char)} (h : ∀ id ∈ users, Char.ofNat 0 ∉ id) :
    ∀ l ∈ usersBody users, Steady l := by
  intro l hl
  rcases mem_assignAll hl with hl | ⟨e, he, rfl⟩
  · exact absurd hl List.not_mem_nil
  · obtain ⟨x, hx, rfl⟩ := List.mem_map.mp he
    obtain ⟨hmem, hvalid⟩ := List.mem_filter.mp hx
    refine steady_keyLine hvalid (nul_notMem_escape ?_)
    rcases List.mem_cons.mp hmem with rfl | hmem
    · exact nul_notMem_decimal _
    · obtain ⟨j, u, hj, rfl⟩ := mem_userEntries.mp hmem
      exact h u (List.mem_of_getElem? hj)

theorem survives_updateOwner (h : c.Survives) (o : Owner) : (Conf.updateOwner c o).Survives := by
  have hother : (otherSections c o).Survives := by
    rw [otherSections]
    split_ifs
    · exact h.erase _
    · exact h.add (nul_notMem_sectionName _) nofun
    · exact h
  rw [Conf.updateOwner]
  split_ifs
  · exact h
  · exact hother.add (nul_notMem_sectionName _) (steady_usersBody (nul_notMem_newUsers h o))

theorem survives_updateOwners (h : c.Survives) (owners : List Owner) :
    (owners.foldl Conf.updateOwner c).Survives := by
  induction owners generalizing c with
  | nil => exact h
  | cons o owners ih => exact ih (survives_updateOwner h o)

end Sections

/-! ## What is read afterwards -/

/-- The users of an owner, as they are read. -/
def sectionUsers (usersConf : IniFile) (o : Owner) : List (List Char) :=
  readUsers (setSection usersConf o.newSection true).2 numUsers some

/-- The count of the users of an owner. -/
def sectionCount (usersConf : IniFile) (o : Owner) : ℤ :=
  getInt (setSection usersConf o.newSection true).2 numUsers 0

section Read

variable {users : List (List Char)} {body : List Line} {ini : IniFile} {o : Owner}

theorem userKey_inj {i j : ℕ} (h : userKey i = userKey j) : i = j :=
  decimal_injective (List.append_cancel_left h)

theorem numUsers_ne (i : ℕ) : numUsers ≠ userKey i := fun h => by
  have hhead : some 'N' = some 'U' := congrArg List.head? h
  exact absurd hhead (by decide)

theorem lookup_usersBody {e : Entry}
    (he : e ∈ (numUsers, decimal users.length) :: userEntries 1 users) :
    lookup e.1 (usersBody users) = some (IniFile.escape e.2) := by
  refine lookup_kept (mem_kept (fun a ha b hb hkey => ?_) he ?_)
  · rcases List.mem_cons.mp ha with rfl | ha
    · rcases List.mem_cons.mp hb with rfl | hb
      · rfl
      · obtain ⟨j, u, -, rfl⟩ := mem_userEntries.mp hb
        exact absurd hkey (numUsers_ne _)
    · obtain ⟨i, u, hi, rfl⟩ := mem_userEntries.mp ha
      rcases List.mem_cons.mp hb with rfl | hb
      · exact absurd hkey.symm (numUsers_ne _)
      · obtain ⟨j, v, hj, rfl⟩ := mem_userEntries.mp hb
        obtain rfl : i = j := by
          have := userKey_inj hkey
          omega
        obtain rfl : u = v := Option.some.inj (hi.symm.trans hj)
        rfl
  · rcases List.mem_cons.mp he with rfl | he
    · exact (by decide : numUsers.all keyChar = true)
    · obtain ⟨j, u, -, rfl⟩ := mem_userEntries.mp he
      exact userKey_valid _

/-- **As many users as are counted are read**, one after the other. -/
theorem usersIn_eq {countKey : List Char} (accept : List Char → Option (List Char))
    (hlength : users.length < 2 ^ 31)
    (hcount : (lookup countKey body).map unescape = some (decimal users.length))
    (husers : ∀ i u, users[i]? = some u →
      (lookup (userKey (i + 1)) body).map unescape = some u) :
    usersIn countKey accept body = users.filterMap accept := by
  have hread : (List.range' 1 users.length).map
      (fun i => ((lookup (userKey i) body).map unescape).getD []) = users := by
    refine List.ext_getElem (by simp) fun i hi hi' => ?_
    rw [List.getElem_map, List.getElem_range', Nat.one_mul, Nat.add_comm,
      husers i _ (List.getElem?_eq_getElem hi'), Option.getD_some]
  rw [usersIn, hcount, Option.map_some, Option.getD_some, atoi_decimal hlength, Int.toNat_natCast]
  nth_rewrite 2 [← hread]
  rw [List.filterMap_map]
  rfl

theorem usersIn_usersBody (hlength : users.length < 2 ^ 31) :
    usersIn numUsers some (usersBody users) = users := by
  rw [usersIn_eq some hlength, List.filterMap_some]
  · rw [lookup_usersBody (e := (numUsers, decimal users.length)) List.mem_cons_self,
      Option.map_some, unescape_escape]
  · intro i u hi
    have hmem : (userKey (1 + i), u) ∈ (numUsers, decimal users.length) :: userEntries 1 users :=
      List.mem_cons_of_mem _ (mem_userEntries.mpr ⟨i, u, hi, rfl⟩)
    rw [Nat.add_comm i 1, lookup_usersBody hmem, Option.map_some, unescape_escape]

theorem length_usersIn_lt (countKey : List Char) (accept : List Char → Option (List Char))
    (body : List Line) : (usersIn countKey accept body).length < 2 ^ 31 := by
  have hle := List.length_filterMap_le (fun i => accept (((lookup (userKey i) body).map
    unescape).getD [])) (List.range' 1 ((((lookup countKey body).map unescape).map
      atoi).getD 0).toNat)
  rw [List.length_range'] at hle
  refine Nat.lt_of_le_of_lt hle ?_
  cases (lookup countKey body).map unescape with
  | none => exact (by decide : (0 : ℤ).toNat < 2 ^ 31)
  | some value =>
    rw [Option.map_some, Option.getD_some]
    have := (atoi_bounds value).2
    omega

theorem length_newUsers_lt (c : Conf) (o : Owner) : (newUsers c o).length < 2 ^ 31 := by
  rw [newUsers]
  split_ifs
  · exact length_usersIn_lt _ _ _
  · exact length_usersIn_lt _ _ _

/-- The users that are read from a section. -/
theorem readUsers_section (h : HasLines ini ini.textLines) {raw : List Char}
    (hraw : sectionName raw ≠ []) {countKey : List Char} (hcount : countKey.all keyChar = true)
    (accept : List Char → Option (List Char)) :
    readUsers (setSection ini raw true).2 countKey accept = usersIn countKey accept
      (((Conf.ofLines ini.textLines).lines? (sectionName raw)).getD []) := by
  have hget : ∀ key, key.all keyChar = true → get (setSection ini raw true).2 key
      = (lookup key (((ofLines ini.textLines).lines? (sectionName raw)).getD [])).map
          unescape := fun key hkey =>
    get_setSection h hraw (notMem_of_all_keyChar hkey (by decide)) (head_ne_of_all_keyChar hkey)
  rw [readUsers, usersIn, getInt, hget _ hcount]
  refine List.filterMap_congr fun i _ => ?_
  rw [getString, hget _ (userKey_valid i)]

theorem sectionUsers_eq (h : HasLines ini ini.textLines) : sectionUsers ini o
    = usersIn numUsers some (((Conf.ofLines ini.textLines).lines?
        (sectionName o.newSection)).getD []) :=
  readUsers_section h (newSection_ne_nil o) (by decide) some

theorem sectionCount_eq (h : HasLines ini ini.textLines) : sectionCount ini o
    = ((((lookup numUsers (((Conf.ofLines ini.textLines).lines?
        (sectionName o.newSection)).getD [])).map unescape).map atoi).getD 0) := by
  rw [sectionCount, getInt, get_setSection h (newSection_ne_nil o) (by decide) (by decide)]
  rfl

/-- **What the file says about the owners afterwards.** -/
theorem updateUsersList_spec {owners : List Owner} {disk : Option (List Char)}
    (howners : ∀ o ∈ owners, o.Proper) (hnodup : (owners.map Owner.ppid).Nodup)
    (hdisk : Settled (loaded disk)) :
    ∃ disk' conf, updateUsersList owners disk = some disk' ∧
      ConfFile.loadFile (ConfFile.opened disk') = (true, conf) ∧ Settled conf.ini ∧
      ∀ o ∈ owners, (Conf.ofLines conf.ini.textLines).lines? (sectionName o.newSection)
        = some (sectionOf (Conf.ofLines (loaded disk).textLines) o) := by
  have hnone : (loaded disk).mySection = none := by cases disk <;> rfl
  obtain ⟨ini, current, hrun, hspells⟩ := updateOwners_spells (Spells.start hdisk.1 hnone) owners
  have hsurvives := survives_updateOwners (survives_ofLines_iff.mpr hdisk.2) owners
  obtain ⟨conf, hload, hsettled, hconf⟩ := Spells.reload (ConfFile.inSync_loadFile hdisk)
    (hspells.erase (by decide : sectionName usersSection ≠ [])) (hsurvives.erase _)
  refine ⟨_, conf, ?_, hload, hsettled, fun o ho => ?_⟩
  · rw [updateUsersList, hrun]
    rfl
  · rw [hconf, lines?_erase_of_ne (bracket_notMem_sectionName _)
      (bracket_notMem_sectionName _) (newSection_ne_users o),
      lines?_updateOwners howners hnodup ho]

end Read

/-! ## The old list -/

/-- The name of a user file: an account, a dot and four characters for the protocol. -/
structure UserFile where
  accountId : List Char
  suffix : List Char
  account_ne : accountId ≠ []
  suffix_length : suffix.length = 4
  deriving DecidableEq

namespace UserFile

def name (u : UserFile) : List Char := u.accountId ++ '.' :: u.suffix

/-- The name of the protocol now. -/
def protocol (u : UserFile) : List Char := if u.suffix = oldIcqName then icqName else u.suffix

/-- **The account of a user file** is accepted for its protocol only. -/
theorem accountOf_name (u : UserFile) {ppid : List Char} (hppid : ppid ≠ oldIcqName) :
    accountOf ppid u.name = if u.protocol = ppid then some u.accountId else none := by
  have hlength : u.name.length = u.accountId.length + 5 := by
    rw [name, List.length_append, List.length_cons, u.suffix_length]
  have hpos := List.length_pos_iff.mpr u.account_ne
  have hdot : u.name[u.name.length - 5]? = some '.' := by
    rw [hlength, Nat.add_sub_cancel, name, List.getElem?_append_right (le_refl _), Nat.sub_self]
    rfl
  have hsuffix : u.name.drop (u.name.length - 4) = u.suffix := by
    rw [hlength, name, show u.accountId.length + 5 - 4 = u.accountId.length + 1 from rfl,
      List.drop_append, List.drop_eq_nil_of_le (by omega), Nat.add_sub_cancel_left]
    rfl
  have haccount : u.name.take (u.name.length - 5) = u.accountId := by
    rw [hlength, Nat.add_sub_cancel, name, List.take_left]
  rw [accountOf, if_neg (by rw [hdot, hlength]; simp; omega), hsuffix, haccount, protocol]
  by_cases hicq : u.suffix = oldIcqName
  · rw [if_pos hicq, hicq]
    simp only [hppid.symm, false_or, true_and, eq_comm]
  · rw [if_neg hicq]
    simp only [hicq, false_and, or_false]

end UserFile

/-- The accounts of the users of a protocol. -/
def accountsOf (ppid : List Char) (old : List UserFile) : List (List Char) :=
  (old.filter fun u => u.protocol = ppid).map UserFile.accountId

theorem filterMap_accountOf {ppid : List Char} (hppid : ppid ≠ oldIcqName) (old : List UserFile) :
    (old.map UserFile.name).filterMap (accountOf ppid) = accountsOf ppid old := by
  rw [accountsOf]
  induction old with
  | nil => rfl
  | cons u old ih =>
    rw [List.map_cons, List.filterMap_cons, u.accountOf_name hppid, ih]
    by_cases hu : u.protocol = ppid
    · rw [if_pos hu, List.filter_cons_of_pos (by simpa using hu), List.map_cons]
    · rw [if_neg hu, List.filter_cons_of_neg (by simpa using hu)]

/-- The values are those of an old list. -/
structure Lists (old : List UserFile) (values : ValueMap) : Prop where
  count : values numOfUsers = some (decimal old.length)
  users : ∀ i u, old[i]? = some u → values (userKey (i + 1)) = some u.name

/-- The map of the owners. -/
structure OwnerMap where
  entries : List Owner
  nodup : (entries.map Owner.ppid).Nodup
  proper : ∀ o ∈ entries, o.Proper

/-! ## What is claimed of it -/

/-- **The list is split among the owners**: the section of each one has the accounts of its
protocol, in order, and together they have every user of these protocols once. -/
structure Splits (owners : List Owner) (old : List UserFile) (usersConf : IniFile) : Prop where
  counts : ∀ o ∈ owners, sectionCount usersConf o = (accountsOf o.ppid old).length
  users : ∀ o ∈ owners, sectionUsers usersConf o = accountsOf o.ppid old
  once : (owners.flatMap fun o => (sectionUsers usersConf o).map fun id => (o.ppid, id)).Perm
    ((old.filter fun u => u.protocol ∈ owners.map Owner.ppid).map fun u =>
      (u.protocol, u.accountId))

/-- The owner has a section. -/
def HasSection (usersConf : IniFile) (o : Owner) : Prop :=
  (setSection usersConf o.newSection false).1 = true

/-- The ICQ owner has a section under the old name only. -/
def HasOldSection (usersConf : IniFile) (o : Owner) : Prop :=
  ¬ HasSection usersConf o ∧ o.ppid = icqName ∧
    (setSection usersConf o.oldSection false).1 = true

/-- The users of the section under the old name. -/
def oldUsers (usersConf : IniFile) (o : Owner) : List (List Char) :=
  readUsers (setSection usersConf o.oldSection true).2 numUsers nonEmpty

/-- **A section that is there is kept**, under the new name. -/
structure Kept (before after : IniFile) (o : Owner) : Prop where
  count : HasSection before o → sectionCount after o = sectionCount before o
  users : HasSection before o → sectionUsers after o = sectionUsers before o
  oldCount : HasOldSection before o → sectionCount after o = (oldUsers before o).length
  oldUsers : HasOldSection before o → sectionUsers after o = oldUsers before o

instance (usersConf : IniFile) (o : Owner) : Decidable (HasSection usersConf o) :=
  inferInstanceAs (Decidable (_ = _))

instance (usersConf : IniFile) (o : Owner) : Decidable (HasOldSection usersConf o) :=
  inferInstanceAs (Decidable (_ ∧ _))

/-- The owner has no section, nor has the ICQ owner one under the old name. -/
def Fresh (usersConf : IniFile) (o : Owner) : Prop :=
  ¬ HasSection usersConf o ∧ ¬ HasOldSection usersConf o

instance (usersConf : IniFile) (o : Owner) : Decidable (Fresh usersConf o) :=
  inferInstanceAs (Decidable (_ ∧ _))

/-! ## The main result -/

section Main

variable {owners : List Owner} {old : List UserFile} {usersConf : IniFile}

/-- Two conditions of which one holds at most. -/
theorem filter_or_perm {α : Type*} {p q : α → Prop} [DecidablePred p] [DecidablePred q]
    (h : ∀ x, p x → ¬ q x) (l : List α) : (l.filter fun x => p x ∨ q x).Perm
      (l.filter (fun x => p x) ++ l.filter fun x => q x) := by
  induction l with
  | nil => exact List.Perm.nil
  | cons x l ih =>
    by_cases hp : p x
    · have hor : (x :: l).filter (fun x => p x ∨ q x) = x :: l.filter fun x => p x ∨ q x :=
        List.filter_cons_of_pos (by simp [hp])
      rw [hor, List.filter_cons_of_pos (by simpa using hp),
        List.filter_cons_of_neg (by simpa using h x hp)]
      exact ih.cons x
    · by_cases hq : q x
      · have hor : (x :: l).filter (fun x => p x ∨ q x) = x :: l.filter fun x => p x ∨ q x :=
          List.filter_cons_of_pos (by simp [hq])
        have hright : (x :: l).filter (fun x => q x) = x :: l.filter fun x => q x :=
          List.filter_cons_of_pos (by simpa using hq)
        rw [hor, hright, List.filter_cons_of_neg (by simpa using hp)]
        exact (ih.cons x).trans List.perm_middle.symm
      · rw [List.filter_cons_of_neg (by simp [hp, hq]), List.filter_cons_of_neg (by simpa using hp),
          List.filter_cons_of_neg (by simpa using hq)]
        exact ih

/-- **Every user of the protocols is in one of the lists**, once. -/
theorem flatMap_accountsOf (hnodup : (owners.map Owner.ppid).Nodup) (old : List UserFile) :
    (owners.flatMap fun o => (accountsOf o.ppid old).map fun id => (o.ppid, id)).Perm
      ((old.filter fun u => u.protocol ∈ owners.map Owner.ppid).map fun u =>
        (u.protocol, u.accountId)) := by
  induction owners with
  | nil => simp
  | cons o owners ih =>
    rw [List.map_cons, List.nodup_cons] at hnodup
    have hone : (accountsOf o.ppid old).map (fun id => (o.ppid, id))
        = (old.filter fun u => u.protocol = o.ppid).map fun u => (u.protocol, u.accountId) := by
      rw [accountsOf, List.map_map]
      refine List.map_congr_left fun u hu => ?_
      have hprotocol : u.protocol = o.ppid := by simpa using (List.mem_filter.mp hu).2
      rw [hprotocol]
      rfl
    have hsplit := (filter_or_perm (p := fun u : UserFile => u.protocol = o.ppid)
      (q := fun u => u.protocol ∈ owners.map Owner.ppid)
      (fun u hu hmem => hnodup.1 (hu ▸ hmem)) old).map fun u => (u.protocol, u.accountId)
    rw [List.flatMap_cons, hone]
    refine ((ih hnodup.2).append_left _).trans ?_
    rw [List.map_append] at hsplit
    refine hsplit.symm.trans (List.Perm.of_eq ?_)
    simp only [List.map_cons, List.mem_cons]

/-- A section is found exactly if the configuration has it. -/
theorem setSection_isSome_iff (h : HasLines usersConf usersConf.textLines)
    (hnone : usersConf.mySection = none) {raw : List Char} (hraw : sectionName raw ≠ []) :
    (setSection usersConf raw false).1 = true ↔
      (Conf.ofLines usersConf.textLines).lines? (sectionName raw) ≠ none := by
  have hspells := Spells.start h hnone
  constructor
  · intro htrue hthere
    rw [(hspells.miss hraw hthere).1] at htrue
    exact nomatch htrue
  · exact fun hthere => (hspells.select hraw hthere false).1

/-- What is read for an owner whose section is written. -/
theorem read_usersBody {users : List (List Char)} {o : Owner}
    (h : HasLines usersConf usersConf.textLines) (hlength : users.length < 2 ^ 31)
    (hbody : (Conf.ofLines usersConf.textLines).lines? (sectionName o.newSection)
      = some (usersBody users)) :
    sectionCount usersConf o = users.length ∧ sectionUsers usersConf o = users := by
  rw [sectionCount_eq h, sectionUsers_eq h, hbody, Option.getD_some]
  refine ⟨?_, usersIn_usersBody hlength⟩
  rw [lookup_usersBody (e := (numUsers, decimal users.length)) List.mem_cons_self,
    Option.map_some, unescape_escape, Option.map_some, Option.getD_some, atoi_decimal hlength]

/-- The users that are written for an owner without a section are those of its protocol. -/
theorem newUsers_eq {c : Conf} {o : Owner} (ho : o.Proper) (hlength : old.length < 2 ^ 31)
    (hold : Lists old fun key =>
      (lookup key ((c.lines? (sectionName usersSection)).getD [])).map unescape)
    (hfresh : ¬ (o.ppid = icqName ∧ c.lines? (sectionName o.oldSection) ≠ none)) :
    newUsers c o = accountsOf o.ppid old := by
  rw [newUsers, if_neg hfresh, ← filterMap_accountOf ho.mapped]
  refine usersIn_eq (accountOf o.ppid) (by rwa [List.length_map]) ?_ ?_
  · rw [List.length_map]
    exact hold.count
  · intro i u hi
    rw [List.getElem?_map] at hi
    obtain ⟨user, huser, rfl⟩ := Option.map_eq_some_iff.mp hi
    exact hold.users i user huser

theorem splits_of_users (hnodup : (owners.map Owner.ppid).Nodup)
    (h : ∀ o ∈ owners, sectionCount usersConf o = (accountsOf o.ppid old).length ∧
      sectionUsers usersConf o = accountsOf o.ppid old) : Splits owners old usersConf where
  counts o ho := (h o ho).1
  users o ho := (h o ho).2
  once := by
    refine (List.Perm.of_eq ?_).trans (flatMap_accountsOf hnodup old)
    exact List.flatMap_congr fun o ho => by rw [(h o ho).2]

/-- The users that are written for the ICQ owner with a section under the old name. -/
theorem newUsers_oldSection (h : HasLines usersConf usersConf.textLines)
    (hnone : usersConf.mySection = none) {o : Owner} (ho : HasOldSection usersConf o) :
    newUsers (Conf.ofLines usersConf.textLines) o = oldUsers usersConf o := by
  have hthere := (setSection_isSome_iff h hnone (oldSection_ne_nil o)).mp ho.2.2
  rw [newUsers, if_pos ⟨ho.2.1, hthere⟩, oldUsers,
    readUsers_section h (oldSection_ne_nil o) (by decide)]

/-- **The upgrade of the user list.**  The list is split among the owners that have no section; an
owner that has one keeps it, and the ICQ owner whose section has the old name gets the users of that
one. -/
theorem splits_fresh (owners : OwnerMap) {disk : Option (List Char)}
    (hdisk : Settled (loaded disk)) (hlength : old.length < 2 ^ 31)
    (hold : Lists old ((loaded disk).valuesOf (sectionName usersSection))) :
    ∃ disk' conf, updateUsersList owners.entries disk = some disk' ∧
      ConfFile.loadFile (ConfFile.opened disk') = (true, conf) ∧
      Splits (owners.entries.filter fun o => Fresh (loaded disk) o) old conf.ini ∧
      ∀ o ∈ owners.entries, Kept (loaded disk) conf.ini o := by
  obtain ⟨disk', conf, hrun, hload, hsettled, hlines⟩ :=
    updateUsersList_spec owners.proper owners.nodup hdisk
  have hnone : (loaded disk).mySection = none := by cases disk <;> rfl
  -- What is read for an owner that had no section.
  have hread : ∀ o ∈ owners.entries, ¬ HasSection (loaded disk) o →
      ∀ users, newUsers (Conf.ofLines (loaded disk).textLines) o = users →
      sectionCount conf.ini o = users.length ∧ sectionUsers conf.ini o = users := by
    rintro o ho hnew _ rfl
    have hlacks : (Conf.ofLines (loaded disk).textLines).lines?
        (sectionName o.newSection) = none := by
      by_contra hthere
      exact hnew ((setSection_isSome_iff hdisk.1 hnone (newSection_ne_nil o)).mpr hthere)
    refine read_usersBody hsettled.1 (length_newUsers_lt _ o) ?_
    rw [hlines o ho, sectionOf, hlacks, Option.getD_none]
  -- The lines for an owner that had one.
  have hsame : ∀ o ∈ owners.entries, HasSection (loaded disk) o →
      (Conf.ofLines conf.ini.textLines).lines? (sectionName o.newSection)
        = (Conf.ofLines (loaded disk).textLines).lines? (sectionName o.newSection) := by
    intro o ho hnew
    obtain ⟨body, hbody⟩ := Option.ne_none_iff_exists'.mp
      ((setSection_isSome_iff hdisk.1 hnone (newSection_ne_nil o)).mp hnew)
    rw [hlines o ho, sectionOf, hbody, Option.getD_some]
  refine ⟨disk', conf, hrun, hload, ?_, fun o ho => ⟨?_, ?_, ?_, ?_⟩⟩
  · refine splits_of_users (owners.nodup.sublist (List.filter_sublist.map _)) fun o ho => ?_
    obtain ⟨ho, hfresh⟩ := List.mem_filter.mp ho
    obtain ⟨hnew, hnotOld⟩ : Fresh _ o := by simpa using hfresh
    refine hread o ho hnew _ (newUsers_eq (owners.proper o ho) hlength hold ?_)
    rintro ⟨hicq, hthere⟩
    exact hnotOld
      ⟨hnew, hicq, (setSection_isSome_iff hdisk.1 hnone (oldSection_ne_nil o)).mpr hthere⟩
  · intro hnew
    rw [sectionCount_eq hsettled.1, sectionCount_eq hdisk.1, hsame o ho hnew]
  · intro hnew
    rw [sectionUsers_eq hsettled.1, sectionUsers_eq hdisk.1, hsame o ho hnew]
  · exact fun h => (hread o ho h.1 _ (newUsers_oldSection hdisk.1 hnone h)).1
  · exact fun h => (hread o ho h.1 _ (newUsers_oldSection hdisk.1 hnone h)).2

theorem lists_of_all {values : ValueMap} (hcount : values numOfUsers = some (decimal old.length))
    (husers : ∀ i < old.length, ∀ u ∈ old[i]?, values (userKey (i + 1)) = some u.name) :
    Lists old values where
  count := hcount
  users i u hi := husers i (List.getElem?_eq_some_iff.mp hi).1 u hi

end Main

/-! ## Files -/

def icqOwner : Owner := ⟨icqName, ['5']⟩

def msnOwner : Owner := ⟨['M', 'S', 'N', '_'], ['b']⟩

/-- Two owners. -/
def twoOwners : OwnerMap where
  entries := [icqOwner, msnOwner]
  nodup := by decide
  proper o ho := by
    rcases List.mem_cons.mp ho with rfl | ho
    · exact ⟨rfl, by decide, by decide⟩
    · obtain rfl := List.mem_singleton.mp ho
      exact ⟨rfl, by decide, by decide⟩

/-- A list of three users. -/
def oldFile : List Char :=
  "[users]\nNumOfUsers=3\nUser1=1.Licq\nUser2=a.MSN_\nUser3=2.ICQ_\n".toList

def oldList : List UserFile :=
  [⟨['1'], oldIcqName, by decide, rfl⟩, ⟨['a'], ['M', 'S', 'N', '_'], by decide, rfl⟩,
    ⟨['2'], icqName, by decide, rfl⟩]

/-- Two users are those of the ICQ owner, and one is that of the other. -/
theorem splits_oldFile : ∃ disk' conf,
    updateUsersList twoOwners.entries (some oldFile) = some disk' ∧
    ConfFile.loadFile (ConfFile.opened disk') = (true, conf) ∧
    sectionUsers conf.ini icqOwner = [['1'], ['2']] ∧ sectionUsers conf.ini msnOwner = [['a']] := by
  obtain ⟨disk', conf, hrun, hload, hsplits, -⟩ :=
    @splits_fresh oldList twoOwners (some oldFile) (by decide +kernel) (by decide)
      (lists_of_all (by decide +kernel) (by decide +kernel))
  exact ⟨disk', conf, hrun, hload, hsplits.users icqOwner (by decide +kernel),
    hsplits.users msnOwner (by decide +kernel)⟩

/-- A list of one user, and an empty section of its owner. -/
def ownFile : List Char :=
  "[users]\nNumOfUsers=1\nUser1=1.Licq\n[5.ICQ_]\nNumUsers=0\n".toList

def ownList : List UserFile := [⟨['1'], oldIcqName, by decide, rfl⟩]

/-- **The owner that has a section does not get the user.** -/
theorem not_splits_ownFile :
    Lists ownList ((loaded (some ownFile)).valuesOf (sectionName usersSection)) ∧
    ¬ ∃ disk' conf, updateUsersList [icqOwner] (some ownFile) = some disk' ∧
      ConfFile.loadFile (ConfFile.opened disk') = (true, conf) ∧
      Splits [icqOwner] ownList conf.ini := by
  refine ⟨lists_of_all (by decide +kernel) (by decide +kernel), ?_⟩
  rintro ⟨disk', conf, hrun, hload, hsplits⟩
  have husers : (updateUsersList [icqOwner] (some ownFile)).map (fun disk' =>
      sectionUsers (loaded disk') icqOwner) = some [] := by
    decide +kernel
  rw [hrun, Option.map_some, loaded, hload, hsplits.users icqOwner List.mem_cons_self] at husers
  exact absurd husers (by decide)

end Licq.UpgradeUsers
