import Licq.ContactList.Owners
import Licq.IniFile.Leftover
import Mathlib.Data.List.Nodup

/-!
# ContactList/UserList — saving and loading the users of an owner

The lists of all owners share one file, a section for each owner, and the users of every list are
numbered from one.  `saveUserList` writes the permanent users of one owner and removes the numbers
left over; `loadUserList` reads a section back.
-/

namespace Licq

open Text IniFile List Conf

/-! ## The user list of an owner -/

/-- `myUsers`, in the order it is iterated in: each user with its `NotInList` flag. -/
structure UserMap where
  users : List (UserId × Bool)
  nodup : (users.map Prod.fst).Nodup

/-- The section of an owner in users.conf. -/
def usersSection (ownerId : UserId) : List Char :=
  ownerId.accountId ++ '.' :: protocolIdToString ownerId.protocolId

/-- "User%i". -/
def userKey (count : ℕ) : List Char := ['U', 's', 'e', 'r'] ++ decimal count

def numUsers : List Char := ['N', 'u', 'm', 'U', 's', 'e', 'r', 's']

/-- The loop of `saveUserList` over all users. -/
def setUsers (ownerId : UserId) (ini : IniFile) (count : ℕ) :
    List (UserId × Bool) → Option (ℕ × IniFile)
  | [] => some (count, ini)
  | (userId, notInList) :: users =>
    if userId.ownerId ≠ ownerId then setUsers ownerId ini count users
    -- Only save users for this owner that's been permanently added
    else if notInList then setUsers ownerId ini count users
    else do
      let count := count + 1
      let (_, ini) ← set ini (userKey count) userId.accountId
      setUsers ownerId ini count users

/-- Don't leave old higher numbered users in config. -/
def unsetUsers : ℕ → IniFile → ℕ → Option IniFile
  | 0, _, _ => none
  | fuel + 1, ini, count =>
    let user := unset ini (userKey count)
    if user.1 then unsetUsers fuel user.2 (count + 1) else some user.2

/-- Save the users of an owner; the file before and after. -/
def saveUserList (myUsers : UserMap) (ownerId : UserId) (disk : Option (List Char)) :
    Option (Option (List Char)) := do
  let usersConf := (ConfFile.loadFile (ConfFile.opened disk)).2
  let ini := (setSection usersConf.ini (usersSection ownerId) true).2
  let (count, ini) ← setUsers ownerId ini 0 myUsers.users
  let (_, ini) ← set ini numUsers (decimal count)
  let ini ← unsetUsers (ini.myConfigData.length + 1) ini (count + 1)
  some (ConfFile.writeFile { usersConf with ini := ini }).2.disk

/-- The users the loop of `loadUserList` adds. -/
def readUsers (ownerId : UserId) (ini : IniFile) (count : ℕ) : List UserId :=
  (List.range count).filterMap fun i =>
    let accountId := getString ini (userKey (i + 1)) []
    if accountId = [] ∨ accountId = ownerId.accountId then none
    else some (UserId.user ownerId accountId)

/-- Load the users of an owner; `none` where the counter, an `int`, cannot pass the number. -/
def loadUserList (ownerId : UserId) (disk : Option (List Char)) : Option (List UserId) :=
  let usersConf := (ConfFile.loadFile (ConfFile.opened disk)).2
  let ini := (setSection usersConf.ini (usersSection ownerId) true).2
  let numUsers := getInt ini numUsers 0
  if numUsers = 2 ^ 31 - 1 then none else some (readUsers ownerId ini numUsers.toNat)

/-! ## What is claimed of them -/

/-- The permanent users of an owner. -/
def permanentUsers (myUsers : UserMap) (ownerId : UserId) : List UserId :=
  (myUsers.users.filter fun u => u.1.ownerId = ownerId ∧ u.2 = false).map Prod.fst

/-- users.conf as a new `IniFile` reads it. -/
def usersConf (disk : Option (List Char)) : IniFile := (ConfFile.opened disk).restart

/-- The lines of the section of an owner in a file. -/
def ownerLines (disk : Option (List Char)) (ownerId : UserId) : List Line :=
  (usersConf disk).sectionLines (sectionName (usersSection ownerId))

/-- **Saving the list of an owner and loading it gives its permanent users, and the sections of the
other owners, with what they load to, stay.** -/
def SavesUserList (myUsers : UserMap) (ownerId : UserId) (others : List UserId)
    (disk : Option (List Char)) : Prop :=
  ∃ disk', saveUserList myUsers ownerId disk = some disk' ∧
    (∃ us, loadUserList ownerId disk' = some us ∧
      ∀ u, u ∈ us ↔ u ∈ permanentUsers myUsers ownerId) ∧
    ∀ other ∈ others, ownerLines disk' other = ownerLines disk other ∧
      loadUserList other disk' = loadUserList other disk

/-- The parameters of the permanent users, and their number. -/
def userEntries (count : ℕ) : List UserId → List Entry
  | [] => []
  | u :: users => (userKey (count + 1), u.accountId) :: userEntries (count + 1) users

/-- The parameters `saveUserList` sets. -/
def savedEntries (myUsers : UserMap) (ownerId : UserId) : List Entry :=
  userEntries 0 (permanentUsers myUsers ownerId) ++
    [(numUsers, decimal (permanentUsers myUsers ownerId).length)]

/-- The leftover loop gets as far as the number `c`: from the section of the owner on, each number
after the last one written is found. -/
def LeftoverTo (disk : Option (List Char)) (ownerId : UserId) (count c : ℕ) : Prop :=
  count < c ∧ ∀ j, count < j → j ≤ c →
    Conf.Has (userKey j) ((usersConf disk).sectionsFrom (sectionName (usersSection ownerId)))

/-- The leftover loop for an owner finds the number `c` in the section of another owner. -/
def LeftoverIn (disk : Option (List Char)) (ownerId other : UserId) (c : ℕ) : Prop :=
  (∀ s ∈ (usersConf disk).sectionsBefore (sectionName (usersSection ownerId)),
      ¬ s.Named (sectionName (usersSection other))) ∧
    Conf.Reaches (sectionName (usersSection other)) (userKey c)
      ((usersConf disk).sectionsFrom (sectionName (usersSection ownerId)))

/-! ## The keys -/

theorem userKey_valid (count : ℕ) : (userKey count).all keyChar = true := by
  rw [userKey, all_append, decimal_all_keyChar]
  decide

theorem userKey_injective : Function.Injective userKey := fun c d h => by
  rw [userKey, userKey, append_cancel_left_eq] at h
  exact decimal_injective h

theorem numUsers_valid : numUsers.all keyChar = true := by decide

theorem numUsers_ne (count : ℕ) : numUsers ≠ userKey count := by
  intro h
  have hhead : some 'N' = some 'U' := congrArg head? h
  exact absurd hhead (by decide)

theorem sectionName_usersSection_ne (ownerId : UserId) : sectionName (usersSection ownerId) ≠ [] := by
  have hdot : '.' ∈ sectionName (usersSection ownerId) :=
    mem_filter.mpr ⟨by simp [usersSection], by decide⟩
  exact ne_nil_of_mem hdot

/-- A header has one section name. -/
theorem header_unique {a b : List Char} {l : Line} (ha : ']' ∉ a) (hb : ']' ∉ b)
    (h : header a <+: l) (h' : header b <+: l) : a = b := by
  obtain ⟨s, rfl⟩ := h
  obtain ⟨t, ht⟩ := h'
  simp only [header, cons_append, append_assoc, List.cons.injEq, true_and,
    nil_append] at ht
  exact (append_nl_inj hb ha ht).1.symm

theorem bracket_notMem_sectionName (raw : List Char) : ']' ∉ sectionName raw := fun h =>
  absurd (mem_filter.mp h).2 (by decide)

/-! ## Saving -/

theorem setUsers_eq (ownerId : UserId) (ini : IniFile) (count : ℕ) (users : List (UserId × Bool)) :
    setUsers ownerId ini count users =
      (setAll ini (userEntries count ((users.filter fun u =>
        u.1.ownerId = ownerId ∧ u.2 = false).map Prod.fst))).map fun ini =>
          (count + ((users.filter fun u =>
            u.1.ownerId = ownerId ∧ u.2 = false).map Prod.fst).length, ini) := by
  induction users generalizing ini count with
  | nil => rfl
  | cons u users ih =>
    obtain ⟨userId, notInList⟩ := u
    rw [setUsers]
    by_cases howner : userId.ownerId = ownerId
    · rw [if_neg (not_not.mpr howner)]
      cases notInList with
      | true => rw [if_pos rfl, ih, filter_cons_of_neg (by simp)]
      | false =>
        rw [if_neg (by decide), filter_cons_of_pos (by simpa using howner), map_cons,
          userEntries, setAll, Option.map_bind]
        simp only [ih, length_cons, Nat.add_assoc, Nat.add_comm 1]
        rfl
    · rw [if_pos howner, ih, filter_cons_of_neg (by simp [howner])]

variable {count : ℕ} {myUsers : UserMap} {ownerId u : UserId} {disk : Option (List Char)}

theorem mem_userEntries {users : List UserId} {e : Entry}
    (h : e ∈ userEntries count users) : ∃ c u, count < c ∧ c ≤ count + users.length ∧ u ∈ users ∧
      e = (userKey c, u.accountId) := by
  induction users generalizing count with
  | nil => exact absurd h not_mem_nil
  | cons u users ih =>
    rcases mem_cons.mp h with rfl | h
    · exact ⟨count + 1, u, by omega, by rw [length_cons]; omega, by simp, rfl⟩
    · obtain ⟨c, x, hlt, hle, hx, rfl⟩ := ih h
      exact ⟨c, x, by omega, by rw [length_cons]; omega, by simp [hx], rfl⟩

theorem nodup_userEntries (count : ℕ) (users : List UserId) :
    ((userEntries count users).map Prod.fst).Nodup := by
  induction users generalizing count with
  | nil => exact nodup_nil
  | cons u users ih =>
    refine nodup_cons.mpr ⟨fun h => ?_, ih (count + 1)⟩
    obtain ⟨e, he, hkey⟩ := mem_map.mp h
    obtain ⟨c, x, hlt, -, -, rfl⟩ := mem_userEntries he
    exact absurd (userKey_injective hkey) (by omega)

theorem userEntries_get {count i : ℕ} {users : List UserId} {u : UserId} (h : users[i]? = some u) :
    (userKey (count + 1 + i), u.accountId) ∈ userEntries count users := by
  induction users generalizing count i with
  | nil => exact nomatch h
  | cons x users ih =>
    cases i with
    | zero =>
      obtain rfl : x = u := by simpa using h
      exact mem_cons_self
    | succ i =>
      have := @ih (count + 1) i (by simpa using h)
      rw [show count + 1 + (i + 1) = count + 1 + 1 + i by omega]
      exact mem_cons_of_mem _ this

/-- The keys the leftover loop removes. -/
def leftoverKeys (count stop : ℕ) : List (List Char) :=
  (List.range' count (stop - count)).map userKey

theorem mem_leftoverKeys {stop : ℕ} {k : List Char} :
    k ∈ leftoverKeys count stop ↔ ∃ j, count ≤ j ∧ j < stop ∧ userKey j = k := by
  rw [leftoverKeys, mem_map]
  constructor
  · rintro ⟨j, hj, rfl⟩
    rw [mem_range'_1] at hj
    exact ⟨j, by omega, by omega, rfl⟩
  · rintro ⟨j, hle, hlt, rfl⟩
    exact ⟨j, mem_range'_1.mpr (by omega), rfl⟩

theorem nodup_leftoverKeys (count stop : ℕ) : (leftoverKeys count stop).Nodup :=
  List.Nodup.map userKey_injective (nodup_range' 1)

theorem exists_hasKey_forget {key key' : List Char} {body : List Line} (hne : key ≠ key')
    (hkey : '=' ∉ key) (hkey' : '=' ∉ key') :
    (∃ l ∈ forget key' body, HasKey key l) ↔ ∃ l ∈ body, HasKey key l := by
  rw [← lookup_isSome_iff, ← lookup_isSome_iff, lookup_forget_of_ne hne hkey hkey']

/-- **The leftover loop ends at the first number that no line after the header has.** -/
theorem unsetUsers_spec {ini : IniFile} {name : List Char} {pre rest : List Line} {hdr : Line}
    (h : Opens ini name pre hdr rest) (count : ℕ) {fuel : ℕ} (hfuel : rest.length < fuel) :
    ∃ ini' stop, unsetUsers fuel ini count = some ini' ∧
      Opens ini' name pre hdr (forgetAll (leftoverKeys count stop) rest) ∧ Tracked ini ini' ∧
      count ≤ stop ∧ (∀ j, count ≤ j → j < stop → ∃ l ∈ rest, HasKey (userKey j) l) ∧
      ¬ ∃ l ∈ rest, HasKey (userKey stop) l := by
  have heq : ∀ j, '=' ∉ userKey j := fun j => eq_notMem_of_all_keyChar (userKey_valid j)
  induction fuel generalizing ini rest count with
  | zero => exact absurd hfuel (Nat.not_lt_zero _)
  | succ fuel ih =>
    obtain ⟨ini₁, h₁, hopen₁⟩ :=
      h.unset_eq (notMem_of_all_keyChar (userKey_valid count) (by decide))
    have htrack : Tracked ini ini₁ := by
      have := unset_tracked ini (userKey count)
      rwa [h₁] at this
    rw [unsetUsers, h₁]
    by_cases hfound : ∃ l ∈ rest, HasKey (userKey count) l
    · have hlt := length_forget_lt hfound
      rw [decide_eq_true hfound]
      obtain ⟨ini', stop, hrun, hopen, ht, hle, hall, hnone⟩ := ih hopen₁ (count + 1) (by omega)
      have hkeys : leftoverKeys count stop = userKey count :: leftoverKeys (count + 1) stop := by
        rw [leftoverKeys, show stop - count = stop - (count + 1) + 1 by omega, range'_succ]
        rfl
      refine ⟨ini', stop, hrun, by rwa [hkeys, forgetAll_cons], htrack.trans ht, by omega,
        fun j hj hjs => ?_, ?_⟩
      · obtain rfl | hlt := Nat.eq_or_lt_of_le hj
        · exact hfound
        · exact (exists_hasKey_forget (userKey_injective.ne (by omega)) (heq j) (heq _)).mp
            (hall j hlt hjs)
      · exact fun hs => hnone ((exists_hasKey_forget (userKey_injective.ne (by omega)) (heq stop)
          (heq _)).mpr hs)
    · rw [decide_eq_false hfound]
      refine ⟨ini₁, count, rfl, ?_, htrack, le_refl _, fun j hj hjs => absurd hj (by omega), hfound⟩
      have hsame : forget (userKey count) rest = rest := by
        simp only [not_exists, not_and] at hfound
        exact forget_eq_self (lookup_eq_none_iff.mpr hfound)
      rw [hsame] at hopen₁
      rwa [leftoverKeys, Nat.sub_self]

/-- The sections from the owner's on once its users are written, before the leftover loop. -/
def savedSections (myUsers : UserMap) (ownerId : UserId) (disk : Option (List Char)) (hdr : Line) :
    List Sect :=
  ⟨hdr, assignAll (written (savedEntries myUsers ownerId)) (ownerLines disk ownerId)⟩
    :: ((usersConf disk).sectionsFrom (sectionName (usersSection ownerId))).tail

/-- **What the saved file says about every section**: the leftover loop stops at the number `stop`. -/
structure Saved (myUsers : UserMap) (ownerId : UserId) (disk disk' : Option (List Char))
    (hdr : Line) (stop : ℕ) : Prop where
  settled : Settled (usersConf disk')
  named : header (sectionName (usersSection ownerId)) <+: hdr
  sections : (Conf.ofLines (usersConf disk').textLines).sections =
    (usersConf disk).sectionsBefore (sectionName (usersSection ownerId)) ++
      Conf.forgetFirstAll (leftoverKeys ((permanentUsers myUsers ownerId).length + 1) stop)
        (savedSections myUsers ownerId disk hdr)
  past : (permanentUsers myUsers ownerId).length < stop
  found : ∀ j, (permanentUsers myUsers ownerId).length < j → j < stop →
    Conf.Has (userKey j) (savedSections myUsers ownerId disk hdr)
  missing : ¬ Conf.Has (userKey stop) (savedSections myUsers ownerId disk hdr)

theorem saveUserList_spec
    (hdisk : Settled (usersConf disk))
    (hnul : ∀ u ∈ permanentUsers myUsers ownerId, Char.ofNat 0 ∉ u.accountId) :
    ∃ disk' hdr stop, saveUserList myUsers ownerId disk = some disk' ∧
      Saved myUsers ownerId disk disk' hdr stop := by
  have hvalues : ∀ e ∈ savedEntries myUsers ownerId, Char.ofNat 0 ∉ e.2 := by
    intro e he
    rcases mem_append.mp he with he | he
    · obtain ⟨c, u, -, -, hu, rfl⟩ := mem_userEntries he
      exact hnul u hu
    · obtain rfl := mem_singleton.mp he
      exact fun h => absurd (isDigit_of_mem_decimal h) (by decide)
  obtain ⟨ini₁, ini₂, pre, hdr, sel, tail, hset, hall, hs, hd, htrack, hsteady⟩ :=
    save_section hdisk (sectionName_usersSection_ne ownerId) hvalues
  obtain ⟨ini₃, stop, hunset, hopen, htrack', hlt, hfound, hmissing⟩ :=
    unsetUsers_spec hd.opens ((permanentUsers myUsers ownerId).length + 1) hd.opens.length_lt
  have hhead : ∀ j, (userKey j).head? ≠ some '[' := fun j =>
    head_ne_of_all_keyChar (userKey_valid j)
  -- The lines after the header, as sections.
  have hsects : sectsFrom hdr (assignAll (written (savedEntries myUsers ownerId)) sel ++ tail)
      = savedSections myUsers ownerId disk hdr := by
    rw [sectsFrom, ofLines_append _ hd.tail_ends, ofLines_body hd.body,
      ← assignAll_nonblank, hs.selected, hs.after]
    rfl
  have hsettled : Settled ini₃ := hopen.settled_forgetAll hsteady
  have hrun := ConfFile.restart_eq (@ConfFile.inSync_loadFile disk hdisk) hsettled
    (htrack.trans htrack')
  obtain ⟨disk', hdisk'⟩ : ∃ disk', disk' = (ConfFile.writeFile
      { (ConfFile.loadFile (ConfFile.opened disk)).2 with ini := ini₃ }).2.disk := ⟨_, rfl⟩
  have hreload : usersConf disk' = ⟨ini₃.myConfigData, none, false⟩ := by
    rw [hdisk']
    exact hrun
  refine ⟨disk', hdr, stop, ?_, ⟨?_, hd.named, ?_, hlt, fun j hj hjs => ?_, ?_⟩⟩
  · have hentries : (do
        let (count, ini) ← setUsers ownerId ini₁ 0 myUsers.users
        let (_, ini) ← set ini numUsers (decimal count)
        some (count, ini)) = some ((permanentUsers myUsers ownerId).length, ini₂) := by
      rw [savedEntries, setAll_append, Option.bind_eq_some_iff] at hall
      obtain ⟨ini, hini, hnum⟩ := hall
      rw [setAll, Option.bind_eq_some_iff] at hnum
      obtain ⟨r, hr, hlast⟩ := hnum
      obtain rfl : r.2 = ini₂ := by simpa [setAll] using hlast
      rw [setUsers_eq, ← permanentUsers, hini]
      simp only [Option.map_some, Option.bind_eq_bind, Option.bind_some, Nat.zero_add, hr]
    have hset' : (setSection (ConfFile.loadFile (ConfFile.opened disk)).2.ini
        (usersSection ownerId) true).2 = ini₁ := congrArg Prod.snd hset
    rw [saveUserList, hset']
    simp only [Option.bind_eq_bind, Option.bind_eq_some_iff] at hentries ⊢
    obtain ⟨r, hr, r', hr', heq⟩ := hentries
    obtain ⟨hcount, hini⟩ : r.1 = (permanentUsers myUsers ownerId).length ∧ r'.2 = ini₂ := by
      simpa using heq
    refine ⟨r, hr, r', hr', ini₃, ?_, by rw [hdisk']⟩
    rw [hini, hcount]
    exact hunset
  · rw [hreload]
    exact ⟨⟨hsettled.1.terminated, hsettled.1.data⟩, hsettled.2⟩
  · have hlines : IniFile.textLines ⟨ini₃.myConfigData, none, false⟩ = ini₃.textLines := rfl
    have hkeys : ∀ k ∈ leftoverKeys ((permanentUsers myUsers ownerId).length + 1) stop,
        k.head? ≠ some '[' := by
      intro k hk
      obtain ⟨j, -, -, rfl⟩ := mem_leftoverKeys.mp hk
      exact hhead j
    rw [hreload, hlines, hopen.conf_eq, hs.before, ← hsects,
      ← sectsFrom_forgetAll hkeys]
    rfl
  · rw [← hsects, has_sectsFrom (hhead j)]
    exact hfound j hj hjs
  · rw [← hsects, has_sectsFrom (hhead stop)]
    exact hmissing

/-! ## The sections of the saved file -/

theorem savedEntries_valid {e : Entry}
    (h : e ∈ savedEntries myUsers ownerId) : e.1.all keyChar = true ∧
      ∀ j, (permanentUsers myUsers ownerId).length < j → e.1 ≠ userKey j := by
  rcases mem_append.mp h with h | h
  · obtain ⟨c, u, -, hle, -, rfl⟩ := mem_userEntries h
    exact ⟨userKey_valid c, fun j hj heq => absurd (userKey_injective heq) (by omega)⟩
  · obtain rfl := mem_singleton.mp h
    exact ⟨numUsers_valid, fun j _ => numUsers_ne j⟩

theorem nodup_savedEntries (myUsers : UserMap) (ownerId : UserId) :
    ((savedEntries myUsers ownerId).map Prod.fst).Nodup := by
  rw [savedEntries, map_append, nodup_append]
  refine ⟨nodup_userEntries 0 _, nodup_singleton _, fun a ha b hb heq => ?_⟩
  obtain ⟨e, he, rfl⟩ := mem_map.mp ha
  obtain ⟨c, u, -, -, -, rfl⟩ := mem_userEntries he
  exact numUsers_ne c ((mem_singleton.mp hb).symm.trans heq.symm)

section Frame

variable {myUsers : UserMap} {ownerId other : UserId} {disk disk' : Option (List Char)} {hdr : Line}
  {stop : ℕ}

theorem sections_eq (disk : Option (List Char)) (name : List Char) :
    (Conf.ofLines (usersConf disk).textLines).sections
      = (usersConf disk).sectionsBefore name ++ (usersConf disk).sectionsFrom name :=
  takeWhile_append_dropWhile.symm

theorem not_named_sectionsBefore (disk : Option (List Char)) (name : List Char) :
    ∀ s ∈ (usersConf disk).sectionsBefore name, ¬ s.Named name := fun s hs => by
  simpa using mem_takeWhile_imp hs

theorem ownerLines_eq (disk : Option (List Char)) (ownerId : UserId) : ownerLines disk ownerId
    = Conf.linesOf (sectionName (usersSection ownerId))
        (Conf.ofLines (usersConf disk).textLines).sections := rfl

/-- The first section from the owner's on is the owner's, if there is one. -/
theorem sectionsFrom_cases (disk : Option (List Char)) (ownerId : UserId) :
    (usersConf disk).sectionsFrom (sectionName (usersSection ownerId)) = [] ∧
        ownerLines disk ownerId = [] ∨
      ∃ s ss, (usersConf disk).sectionsFrom (sectionName (usersSection ownerId)) = s :: ss ∧
        s.Named (sectionName (usersSection ownerId)) ∧ ownerLines disk ownerId = s.body := by
  rw [ownerLines_eq, sections_eq disk (sectionName (usersSection ownerId)),
    linesOf_append (not_named_sectionsBefore disk _)]
  cases hfrom : (usersConf disk).sectionsFrom (sectionName (usersSection ownerId)) with
  | nil => exact Or.inl ⟨rfl, rfl⟩
  | cons s ss =>
    have hs : s.Named (sectionName (usersSection ownerId)) := by
      have hhead := head?_dropWhile_not
        (fun s : Sect => decide (¬ s.Named (sectionName (usersSection ownerId))))
        (ofLines (usersConf disk).textLines).sections
      rw [← IniFile.sectionsFrom, hfrom] at hhead
      simpa using hhead
    exact Or.inr ⟨s, ss, rfl, hs, linesOf_cons_of_named hs⟩

theorem named_iff {s : Sect} (h : s.Named (sectionName (usersSection ownerId))) :
    s.Named (sectionName (usersSection other)) ↔
      sectionName (usersSection other) = sectionName (usersSection ownerId) :=
  ⟨fun h' => header_unique (bracket_notMem_sectionName _) (bracket_notMem_sectionName _) h' h,
    fun heq => by rwa [heq]⟩

variable {j : ℕ}

/-- A number past the last one is where it was before the users were written. -/
theorem lookup_past (hj : (permanentUsers myUsers ownerId).length < j) (body : List Line) :
    lookup (userKey j) (assignAll (written (savedEntries myUsers ownerId)) body)
      = lookup (userKey j) body := by
  refine lookup_assignAll_of_notMem (fun e he => ?_) (eq_notMem_of_all_keyChar (userKey_valid j))
    fun e he => ?_
  · exact eq_notMem_of_all_keyChar (key_of_mem_written he).1
  · obtain ⟨x, hx, heq⟩ := mem_map.mp (key_of_mem_written he).2
    rw [← heq]
    exact (savedEntries_valid hx).2 j hj

theorem has_savedSections (hj : (permanentUsers myUsers ownerId).length < j) :
    Conf.Has (userKey j) (savedSections myUsers ownerId disk hdr) ↔
      Conf.Has (userKey j) ((usersConf disk).sectionsFrom (sectionName (usersSection ownerId))) := by
  rw [savedSections, has_cons, lookup_past hj]
  rcases sectionsFrom_cases disk ownerId with ⟨hfrom, hlines⟩ | ⟨s, ss, hfrom, -, hlines⟩
  · rw [hfrom, hlines]
    simp [Conf.Has, lookup]
  · rw [hfrom, hlines, has_cons, tail_cons]

theorem reaches_savedSections (hhdr : header (sectionName (usersSection ownerId)) <+: hdr)
    (hj : (permanentUsers myUsers ownerId).length < j) :
    Conf.Reaches (sectionName (usersSection other)) (userKey j)
        (savedSections myUsers ownerId disk hdr) ↔
      Conf.Reaches (sectionName (usersSection other)) (userKey j)
        ((usersConf disk).sectionsFrom (sectionName (usersSection ownerId))) := by
  have hnamed : Sect.Named (sectionName (usersSection ownerId))
    ⟨hdr, assignAll (written (savedEntries myUsers ownerId)) (ownerLines disk ownerId)⟩ := hhdr
  rw [savedSections]
  rcases sectionsFrom_cases disk ownerId with ⟨hfrom, hlines⟩ | ⟨s, ss, hfrom, hs, hlines⟩
  · have hnone : lookup (userKey j) (assignAll (written (savedEntries myUsers ownerId))
        (ownerLines disk ownerId)) = none := by rw [lookup_past hj, hlines]; rfl
    rw [hfrom, tail_nil]
    refine iff_of_false (fun h => ?_) id
    obtain ⟨t, ht, hsome⟩ := h.has
    obtain rfl := mem_singleton.mp ht
    rw [hnone] at hsome
    exact nomatch hsome
  · rw [hfrom, tail_cons]
    by_cases hname : sectionName (usersSection other) = sectionName (usersSection ownerId)
    · rw [reaches_cons_of_named ((named_iff hnamed).mpr hname),
        reaches_cons_of_named ((named_iff hs).mpr hname), lookup_past hj, hlines]
    · rw [reaches_cons_of_not fun h => hname ((named_iff hnamed).mp h),
        reaches_cons_of_not fun h => hname ((named_iff hs).mp h), lookup_past hj, hlines]

/-- **The leftover loop gets to the numbers before the one it stops at.** -/
theorem Saved.leftoverTo_iff (h : Saved myUsers ownerId disk disk' hdr stop) {c : ℕ} :
    LeftoverTo disk ownerId (permanentUsers myUsers ownerId).length c ↔
      (permanentUsers myUsers ownerId).length < c ∧ c < stop := by
  refine and_congr_right fun hc => ⟨fun hall => ?_, fun hlt j hj hjc => ?_⟩
  · by_contra hge
    exact h.missing ((has_savedSections h.past).mpr (hall stop h.past (by omega)))
  · exact (has_savedSections hj).mp (h.found j hj (by omega))

/-- **The saved parameters are in the section of the owner.** -/
theorem Saved.lookup_eq (h : Saved myUsers ownerId disk disk' hdr stop) {e : Entry}
    (he : e ∈ savedEntries myUsers ownerId) :
    lookup e.1 (ownerLines disk' ownerId) = some (IniFile.escape e.2) := by
  have hnamed : Sect.Named (sectionName (usersSection ownerId))
    ⟨hdr, assignAll (written (savedEntries myUsers ownerId)) (ownerLines disk ownerId)⟩ := h.named
  obtain ⟨hvalid, hne⟩ := savedEntries_valid he
  rw [ownerLines_eq, h.sections, linesOf_append (not_named_sectionsBefore disk _),
    lookup_linesOf_forgetFirstAll (eq_notMem_of_all_keyChar hvalid) fun k hk => ?_,
    savedSections, linesOf_cons_of_named hnamed,
    lookup_written he hvalid (nodup_savedEntries myUsers ownerId)]
  obtain ⟨j, hj, -, rfl⟩ := mem_leftoverKeys.mp hk
  exact ⟨eq_notMem_of_all_keyChar (userKey_valid j), hne j hj⟩

/-- The sections from the owner's on keep the lines of a name exactly when no leftover number is
found there. -/
theorem Saved.linesOf_iff (h : Saved myUsers ownerId disk disk' hdr stop)
    (hbefore : ∀ s ∈ (usersConf disk).sectionsBefore (sectionName (usersSection ownerId)),
      ¬ s.Named (sectionName (usersSection other))) :
    Conf.linesOf (sectionName (usersSection other))
        (Conf.forgetFirstAll (leftoverKeys ((permanentUsers myUsers ownerId).length + 1) stop)
          (savedSections myUsers ownerId disk hdr))
      = Conf.linesOf (sectionName (usersSection other)) (savedSections myUsers ownerId disk hdr) ↔
    ∀ c, LeftoverTo disk ownerId (permanentUsers myUsers ownerId).length c →
      ¬ LeftoverIn disk ownerId other c := by
  rw [linesOf_forgetFirstAll_iff (fun k hk => ?_) (nodup_leftoverKeys _ _)]
  · constructor
    · rintro hkeys c hc ⟨-, hreach⟩
      obtain ⟨hlt, hstop⟩ := h.leftoverTo_iff.mp hc
      exact hkeys _ (mem_leftoverKeys.mpr ⟨c, hlt, hstop, rfl⟩)
        ((reaches_savedSections h.named hlt).mpr hreach)
    · intro hall k hk hreach
      obtain ⟨j, hj, hjs, rfl⟩ := mem_leftoverKeys.mp hk
      exact hall j (h.leftoverTo_iff.mpr ⟨hj, hjs⟩)
        ⟨hbefore, (reaches_savedSections h.named hj).mp hreach⟩
  · obtain ⟨j, -, -, rfl⟩ := mem_leftoverKeys.mp hk
    exact eq_notMem_of_all_keyChar (userKey_valid j)

/-- **The section of another owner stays exactly when the leftover loop finds nothing there**, and,
where both owners have one section, it already holds the list. -/
theorem Saved.ownerLines_iff (h : Saved myUsers ownerId disk disk' hdr stop) :
    ownerLines disk' other = ownerLines disk other ↔
      (sectionName (usersSection other) = sectionName (usersSection ownerId) →
        ∀ e ∈ savedEntries myUsers ownerId,
          lookup e.1 (ownerLines disk ownerId) = some (IniFile.escape e.2)) ∧
      ∀ c, LeftoverTo disk ownerId (permanentUsers myUsers ownerId).length c →
        ¬ LeftoverIn disk ownerId other c := by
  by_cases hbefore : ∃ s ∈ (usersConf disk).sectionsBefore (sectionName (usersSection ownerId)),
      s.Named (sectionName (usersSection other))
  · refine iff_of_true ?_ ⟨fun hname => ?_, fun c _ hc => ?_⟩
    · rw [ownerLines_eq, ownerLines_eq, h.sections,
        sections_eq disk (sectionName (usersSection ownerId))]
      exact linesOf_append_of_named hbefore _ _
    · obtain ⟨s, hs, hsn⟩ := hbefore
      rw [hname] at hsn
      exact absurd hsn (not_named_sectionsBefore disk _ s hs)
    · obtain ⟨s, hs, hsn⟩ := hbefore
      exact hc.1 s hs hsn
  · simp only [not_exists, not_and] at hbefore
    have hnamed : Sect.Named (sectionName (usersSection ownerId))
      ⟨hdr, assignAll (written (savedEntries myUsers ownerId)) (ownerLines disk ownerId)⟩ := h.named
    rw [← h.linesOf_iff hbefore, ownerLines_eq disk' other, h.sections,
      linesOf_append hbefore]
    by_cases hname : sectionName (usersSection other) = sectionName (usersSection ownerId)
    · have hsame : ownerLines disk other = ownerLines disk ownerId := by
        rw [ownerLines, ownerLines, hname]
      have hsaved : linesOf (sectionName (usersSection other))
          (savedSections myUsers ownerId disk hdr)
          = assignAll (written (savedEntries myUsers ownerId)) (ownerLines disk ownerId) :=
        linesOf_cons_of_named ((named_iff hnamed).mpr hname)
      have hself : (∀ e ∈ savedEntries myUsers ownerId,
          lookup e.1 (ownerLines disk ownerId) = some (IniFile.escape e.2)) →
          assignAll (written (savedEntries myUsers ownerId)) (ownerLines disk ownerId)
            = ownerLines disk ownerId := by
        refine fun hall => assignAll_eq_self fun e he => ?_
        obtain ⟨x, hx, rfl⟩ := mem_map.mp he
        exact hall x (mem_filter.mp hx).1
      rw [hsame, hsaved]
      constructor
      · intro heq
        have hall : ∀ e ∈ savedEntries myUsers ownerId,
            lookup e.1 (ownerLines disk ownerId) = some (IniFile.escape e.2) := by
          intro e he
          have hlookup := h.lookup_eq he
          rw [ownerLines_eq, h.sections, linesOf_append (not_named_sectionsBefore disk _),
            ← hname, heq] at hlookup
          exact hlookup
        exact ⟨fun _ => hall, by rw [heq, hself hall]⟩
      · rintro ⟨hall, heq⟩
        rw [heq, hself (hall hname)]
    · have hsaved : linesOf (sectionName (usersSection other))
          (savedSections myUsers ownerId disk hdr) = ownerLines disk other := by
        rw [savedSections, linesOf_cons_of_not fun hn => hname ((named_iff hnamed).mp hn),
          ownerLines_eq, sections_eq disk (sectionName (usersSection ownerId)),
          linesOf_append hbefore]
        rcases sectionsFrom_cases disk ownerId with ⟨hfrom, -⟩ | ⟨s, ss, hfrom, hs, -⟩
        · rw [hfrom, tail_nil]
        · rw [hfrom, tail_cons,
            linesOf_cons_of_not fun hn => hname ((named_iff hs).mp hn)]
      rw [hsaved]
      exact ⟨fun heq => ⟨fun hn => absurd hn hname, heq⟩, fun heq => heq.2⟩

end Frame

/-! ## Loading -/

theorem get_usersConf {key : List Char}
    (hkey : key.all keyChar = true) :
    get (setSection (usersConf disk) (usersSection ownerId) true).2 key
      = (lookup key (ownerLines disk ownerId)).map unescape :=
  get_setSection (ConfFile.hasLines_restart _) (sectionName_usersSection_ne ownerId)
    (notMem_of_all_keyChar hkey (by decide)) (head_ne_of_all_keyChar hkey)

theorem loadUserList_eq (ownerId : UserId) (disk : Option (List Char)) : loadUserList ownerId disk =
    if getInt (setSection (usersConf disk) (usersSection ownerId) true).2 numUsers 0 = 2 ^ 31 - 1
    then none
    else some (readUsers ownerId (setSection (usersConf disk) (usersSection ownerId) true).2
      (getInt (setSection (usersConf disk) (usersSection ownerId) true).2 numUsers 0).toNat) := rfl

/-- **What an owner loads to is in the lines of its section.** -/
theorem loadUserList_congr {disk' : Option (List Char)}
    (h : ownerLines disk' ownerId = ownerLines disk ownerId) :
    loadUserList ownerId disk' = loadUserList ownerId disk := by
  have hget : ∀ {key : List Char}, key.all keyChar = true →
      get (setSection (usersConf disk') (usersSection ownerId) true).2 key
        = get (setSection (usersConf disk) (usersSection ownerId) true).2 key := fun hkey => by
    rw [get_usersConf hkey, get_usersConf hkey, h]
  have hread : ∀ n, readUsers ownerId (setSection (usersConf disk') (usersSection ownerId) true).2 n
      = readUsers ownerId (setSection (usersConf disk) (usersSection ownerId) true).2 n := fun n => by
    rw [readUsers, readUsers]
    refine congrArg (fun f => filterMap f (range n)) (funext fun i => ?_)
    rw [getString, getString, hget (userKey_valid _)]
  rw [loadUserList_eq, loadUserList_eq, hread, getInt, getInt, hget numUsers_valid]

theorem mem_readUsers {ini : IniFile} :
    u ∈ readUsers ownerId ini count ↔ ∃ i < count, getString ini (userKey (i + 1)) [] ≠ [] ∧
      getString ini (userKey (i + 1)) [] ≠ ownerId.accountId ∧
      UserId.user ownerId (getString ini (userKey (i + 1)) []) = u := by
  simp only [readUsers, mem_filterMap, mem_range]
  refine exists_congr fun i => and_congr_right fun _ => ?_
  split_ifs with h
  · refine iff_of_false (nofun) fun hu => ?_
    exact h.elim hu.1 hu.2.1
  · rw [not_or] at h
    rw [Option.some.injEq]
    exact ⟨fun hu => ⟨h.1, h.2, hu⟩, fun hu => hu.2.2⟩

theorem mem_permanentUsers :
    u ∈ permanentUsers myUsers ownerId ↔ (u, false) ∈ myUsers.users ∧ u.ownerId = ownerId := by
  rw [permanentUsers, mem_map]
  constructor
  · rintro ⟨⟨x, b⟩, hx, rfl⟩
    obtain ⟨hmem, hcond⟩ := mem_filter.mp hx
    obtain ⟨howner, rfl⟩ : x.ownerId = ownerId ∧ b = false := by simpa using hcond
    exact ⟨hmem, howner⟩
  · rintro ⟨hmem, howner⟩
    exact ⟨(u, false), mem_filter.mpr ⟨hmem, by simpa using howner⟩, rfl⟩

theorem nodup_permanentUsers (myUsers : UserMap) (ownerId : UserId) :
    (permanentUsers myUsers ownerId).Nodup :=
  myUsers.nodup.sublist (filter_sublist.map _)

/-- A user of an owner is rebuilt from its account. -/
theorem user_of_mem
    (h : u ∈ permanentUsers myUsers ownerId) : UserId.user ownerId u.accountId = u := by
  obtain ⟨-, howner⟩ := mem_permanentUsers.mp h
  have hp : u.ownerId.protocolId = ownerId.protocolId := congrArg UserId.protocolId howner
  have ho : u.ownerId.ownerAccountId = ownerId.ownerAccountId :=
    congrArg UserId.ownerAccountId howner
  exact UserId.user_eq hp (u.owner_normal.symm.trans ho)

theorem toNat_atoi_decimal_le (n : ℕ) : (atoi (decimal n)).toNat ≤ n := by
  by_cases h : n < 2 ^ 31
  · rw [atoi_decimal h, Int.toNat_natCast]
  · have hlt : atoi (decimal n) < 2 ^ 31 := by
      have := @Int.bmod_lt (strtol (decimal n)) (2 ^ 32) (by decide)
      rw [atoi]
      omega
    omega

/-- **After saving, the numbered users are loaded back**, but for those the loader skips. -/
theorem Saved.mem_loaded {disk' : Option (List Char)}
    {hdr : Line} {stop : ℕ} (h : Saved myUsers ownerId disk disk' hdr stop) :
    (atoi (decimal (permanentUsers myUsers ownerId).length) = 2 ^ 31 - 1 →
        loadUserList ownerId disk' = none) ∧
      (atoi (decimal (permanentUsers myUsers ownerId).length) ≠ 2 ^ 31 - 1 →
        ∃ us, loadUserList ownerId disk' = some us ∧
          us.length ≤ (atoi (decimal (permanentUsers myUsers ownerId).length)).toNat ∧
          ∀ u, u ∈ us ↔ ∃ i < (atoi (decimal (permanentUsers myUsers ownerId).length)).toNat,
            (permanentUsers myUsers ownerId)[i]? = some u ∧ u.accountId ≠ [] ∧
              u.accountId ≠ ownerId.accountId) := by
  have hget : ∀ {e : Entry}, e ∈ savedEntries myUsers ownerId →
      get (setSection (usersConf disk') (usersSection ownerId) true).2 e.1 = some e.2 := fun he => by
    rw [get_usersConf (savedEntries_valid he).1, h.lookup_eq he, Option.map_some, unescape_escape]
  have hnum : getInt (setSection (usersConf disk') (usersSection ownerId) true).2 numUsers 0
      = atoi (decimal (permanentUsers myUsers ownerId).length) := by
    have hmem : (numUsers, decimal (permanentUsers myUsers ownerId).length)
        ∈ savedEntries myUsers ownerId := mem_append_right _ mem_cons_self
    rw [getInt, hget hmem]
    rfl
  have huser : ∀ {i u}, (permanentUsers myUsers ownerId)[i]? = some u →
      getString (setSection (usersConf disk') (usersSection ownerId) true).2 (userKey (i + 1)) []
        = u.accountId := by
    intro i u hu
    have hmem := @userEntries_get 0 i _ u hu
    rw [Nat.zero_add, Nat.add_comm] at hmem
    rw [getString, hget (mem_append_left _ hmem)]
    rfl
  rw [loadUserList_eq, hnum]
  refine ⟨fun heq => if_pos heq, fun hne => ⟨_, if_neg hne, ?_, fun u => ?_⟩⟩
  · refine (length_filterMap_le _ _).trans ?_
    rw [length_range]
  · rw [mem_readUsers]
    refine exists_congr fun i => and_congr_right fun hi => ?_
    have hlt : i < (permanentUsers myUsers ownerId).length :=
      lt_of_lt_of_le hi (toNat_atoi_decimal_le _)
    obtain ⟨x, hx⟩ : ∃ x, (permanentUsers myUsers ownerId)[i]? = some x :=
      ⟨_, getElem?_eq_getElem hlt⟩
    rw [huser hx, user_of_mem (mem_of_getElem? hx), hx, Option.some.injEq]
    constructor
    · rintro ⟨hne, howner, rfl⟩
      exact ⟨rfl, hne, howner⟩
    · rintro ⟨rfl, hne, howner⟩
      exact ⟨hne, howner, rfl⟩

/-- A user that is loaded from a file has an account without null characters. -/
theorem nul_notMem_loadedUser {us : List UserId}
    (h : loadUserList ownerId disk = some us) (hu : u ∈ us) : Char.ofNat 0 ∉ u.accountId := by
  rw [loadUserList_eq] at h
  split_ifs at h
  cases h
  obtain ⟨i, -, -, -, rfl⟩ := mem_readUsers.mp hu
  exact nul_notMem_normalizeId (nul_notMem_getString
    (nul_notMem_setSection (ConfFile.nul_notMem_restart _) _ _) _) _

/-- **A list is saved as claimed exactly when** it is shorter than 2^31 - 1, none of its accounts is
empty, the owner's own, or has a null character, no other owner's section holds a number that the
leftover loop finds there first, and an owner of the same section name has that very list. -/
theorem savesUserList_iff {myUsers : UserMap} {ownerId : UserId} {others : List UserId}
    {disk : Option (List Char)} (hdisk : Settled (usersConf disk)) :
    SavesUserList myUsers ownerId others disk ↔
      (permanentUsers myUsers ownerId).length < 2 ^ 31 - 1 ∧
      (∀ u ∈ permanentUsers myUsers ownerId, u.accountId ≠ [] ∧ u.accountId ≠ ownerId.accountId ∧
        Char.ofNat 0 ∉ u.accountId) ∧
      ∀ other ∈ others,
        (sectionName (usersSection other) = sectionName (usersSection ownerId) →
          ∀ e ∈ savedEntries myUsers ownerId,
            lookup e.1 (ownerLines disk ownerId) = some (IniFile.escape e.2)) ∧
        ∀ c, LeftoverTo disk ownerId (permanentUsers myUsers ownerId).length c →
          ¬ LeftoverIn disk ownerId other c := by
  constructor
  · rintro ⟨disk', hsave, ⟨us, hload, hmem⟩, hothers⟩
    have hnul : ∀ u ∈ permanentUsers myUsers ownerId, Char.ofNat 0 ∉ u.accountId :=
      fun u hu => nul_notMem_loadedUser hload ((hmem u).mpr hu)
    obtain ⟨d, hdr, stop, hsave', hs⟩ := saveUserList_spec hdisk hnul
    obtain rfl : d = disk' := Option.some.inj (hsave'.symm.trans hsave)
    have hmax : atoi (decimal (permanentUsers myUsers ownerId).length) ≠ 2 ^ 31 - 1 := by
      intro heq
      rw [hs.mem_loaded.1 heq] at hload
      exact nomatch hload
    obtain ⟨us', hload', hlen, hmem'⟩ := hs.mem_loaded.2 hmax
    obtain rfl : us' = us := Option.some.inj (hload'.symm.trans hload)
    have hcard := (List.subperm_of_subset (nodup_permanentUsers myUsers ownerId)
      fun u hu => (hmem u).mpr hu).length_le
    have hlt : atoi (decimal (permanentUsers myUsers ownerId).length) < 2 ^ 31 := by
      have := @Int.bmod_lt (strtol (decimal (permanentUsers myUsers ownerId).length)) (2 ^ 32)
        (by decide)
      rw [atoi]
      omega
    refine ⟨by omega, fun u hu => ?_, fun other ho => ?_⟩
    · obtain ⟨i, -, -, hne, howner⟩ := (hmem' u).mp ((hmem u).mpr hu)
      exact ⟨hne, howner, hnul u hu⟩
    · exact hs.ownerLines_iff.mp (hothers other ho).1
  · rintro ⟨hfew, hgood, hothers⟩
    obtain ⟨disk', hdr, stop, hsave, hs⟩ := saveUserList_spec hdisk fun u hu => (hgood u hu).2.2
    have hnum : atoi (decimal (permanentUsers myUsers ownerId).length)
        = (permanentUsers myUsers ownerId).length := atoi_decimal (by omega)
    obtain ⟨us, hload, -, hmem⟩ := hs.mem_loaded.2 (by rw [hnum]; omega)
    refine ⟨disk', hsave, ⟨us, hload, fun u => ?_⟩, fun other ho => ?_⟩
    · rw [hmem, hnum, Int.toNat_natCast]
      constructor
      · rintro ⟨i, -, hu, -⟩
        exact List.mem_of_getElem? hu
      · intro hu
        obtain ⟨i, hi, rfl⟩ := List.getElem_of_mem hu
        exact ⟨i, hi, List.getElem?_eq_getElem hi, (hgood _ hu).1, (hgood _ hu).2.1⟩
    · have hlines := hs.ownerLines_iff.mpr (hothers other ho)
      exact ⟨hlines, loadUserList_congr hlines⟩

/-- One user, 100, of the ICQ owner 1. -/
def oneUser : UserMap :=
  ⟨[(UserId.user (UserId.owner icqPpid ['1']) ['1', '0', '0'], false)], by decide⟩

/-- Into an empty file the list is saved as claimed. -/
theorem savesUserList_empty : SavesUserList oneUser (UserId.owner icqPpid ['1'])
    [UserId.owner icqPpid ['2']] none := by
  have hdisk : Settled (usersConf none) := ConfFile.inSync_opened.settled
  refine (savesUserList_iff hdisk).mpr ⟨by decide +kernel, by decide +kernel, fun other ho => ?_⟩
  obtain rfl := List.mem_singleton.mp ho
  refine ⟨fun hname => absurd hname (by decide +kernel), fun c hc => ?_⟩
  obtain ⟨s, hs, -⟩ := hc.2 c hc.1 (le_refl c)
  exact absurd hs List.not_mem_nil

/-- A later section with more users loses the first number past the list. -/
theorem not_savesUserList_later : ¬ SavesUserList oneUser (UserId.owner icqPpid ['1'])
    [UserId.owner icqPpid ['2']]
    (some "[1.ICQ_]\nUser1=100\nNumUsers=1\n\n[2.ICQ_]\nUser1=200\nUser2=201\nNumUsers=2\n".toList) := by
  rintro ⟨disk', hsave, -, hothers⟩
  have hload := (hothers _ List.mem_cons_self).2
  have hrun : ((saveUserList oneUser (UserId.owner icqPpid ['1'])
      (some "[1.ICQ_]\nUser1=100\nNumUsers=1\n\n[2.ICQ_]\nUser1=200\nUser2=201\nNumUsers=2\n".toList)).bind
        (loadUserList (UserId.owner icqPpid ['2']))).map List.length = some 1 := by decide +kernel
  rw [hsave, Option.bind_some, hload] at hrun
  revert hrun
  decide +kernel

end Licq
