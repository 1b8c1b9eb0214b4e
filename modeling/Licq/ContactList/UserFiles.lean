import Licq.ContactList.UserId
import Mathlib.Data.List.Forall2
import Mathlib.Data.List.Nodup

/-!
# ContactList/UserFiles — which files and sections belong to a user

The files of a user are named after its ids: `sanitizeName` replaces the slashes of an id, and
`setSection` erases the characters a section name may not hold.  Neither is injective.  Two users
have files of their own exactly when their ids differ in more than slashes and dashes
(`filesApart_iff`), two owners have sections of their own exactly when something differs that
`setSection` keeps (`sectionsApart_iff`).
-/

namespace Licq

open Text List Char

/-! ## The names -/

namespace IniFile

/-- One slash after the other is replaced, from the first on. -/
def sanitizeLoop : ℕ → List Char → List Char
  | 0, r => r
  | fuel + 1, r =>
    match find ['/'] r with
    | some p => sanitizeLoop fuel (r.set p '-')
    | none => r

def sanitizeName (s : List Char) : List Char := sanitizeLoop s.length s

/-- The name a configuration file is opened under. -/
def path (baseDir myFilename : List Char) : List Char :=
  cString (if myFilename.head? ≠ some '/' then baseDir ++ myFilename else myFilename)

end IniFile

open IniFile

namespace UserId

def usersDir : List Char := ['u', 's', 'e', 'r', 's', '/']

def confExtension : List Char := ['.', 'c', 'o', 'n', 'f']

def historyExtension : List Char := ['.', 'h', 'i', 's', 't', 'o', 'r', 'y']

def pictureExtension : List Char := ['.', 'p', 'i', 'c', 't', 'u', 'r', 'e']

/-- The start of the names of a user's files. -/
def filename (myId : UserId) : List Char :=
  usersDir ++ sanitizeName myId.ownerId.accountId ++ '.' :: protocolIdToString myId.protocolId
    ++ '/' :: sanitizeName myId.accountId

def confFile (baseDir : List Char) (myId : UserId) : List Char :=
  path baseDir (myId.filename ++ confExtension)

def historyFile (baseDir : List Char) (myId : UserId) : List Char :=
  cString (baseDir ++ myId.filename ++ historyExtension)

def pictureFile (baseDir : List Char) (myId : UserId) : List Char :=
  cString (baseDir ++ myId.filename ++ pictureExtension)

def files (baseDir : List Char) (myId : UserId) : List (List Char) :=
  [confFile baseDir myId, historyFile baseDir myId, pictureFile baseDir myId]

/-- The section of users.conf that lists the users of an owner. -/
def userListSection (ownerId : UserId) : List Char :=
  ownerId.accountId ++ '.' :: protocolIdToString ownerId.protocolId

end UserId

open UserId

/-! ## What is asked of them -/

/-- A name that a directory can give to a file. -/
structure FilePart (s : List Char) : Prop where
  slash : '/' ∉ s
  nonempty : s ≠ []
  dot : s ≠ ['.']
  dots : s ≠ ['.', '.']

/-- The file is in a directory of the users directory. -/
def InUsersDir (baseDir file : List Char) : Prop :=
  ∃ dir name, FilePart dir ∧ FilePart name ∧ file = baseDir ++ usersDir ++ (dir ++ '/' :: name)

/-- The files of two users are six different files in the users directory. -/
structure FilesApart (baseDir : List Char) (a b : UserId) : Prop where
  inUsersDir : ∀ file ∈ files baseDir a ++ files baseDir b, InUsersDir baseDir file
  nodup : (files baseDir a ++ files baseDir b).Nodup

/-- The lists of two owners are in different sections of users.conf, whatever it holds. -/
def SectionsApart (a b : UserId) : Prop :=
  ∀ usersConf : IniFile, (setSection usersConf (userListSection a) false).1 = true →
    (setSection usersConf (userListSection b) false).1 = true →
      (setSection usersConf (userListSection a) false).2.mySection ≠
        (setSection usersConf (userListSection b) false).2.mySection

/-- The two texts differ at most in what is a slash and what is a dash. -/
def SlashAlike (s t : List Char) : Prop :=
  List.Forall₂ (fun c d => c = d ∨ c ∈ ['/', '-'] ∧ d ∈ ['/', '-']) s t

/-- The ids fit into file names: no null character, no slash in the protocol, and together with it
the owner's account is not a name for the directory itself or the one above. -/
structure Nameable (myId : UserId) : Prop where
  owner : Char.ofNat 0 ∉ myId.ownerAccountId
  account : Char.ofNat 0 ∉ myId.accountId
  protocol : '/' ∉ protocolIdToString myId.protocolId
  named : userListSection myId.ownerId ∉ [['.'], ['.', '.']]

/-! ## Replacing the slashes -/

/-- What becomes of one character. -/
def sanitizeChar (c : Char) : Char := if c = '/' then '-' else c

theorem set_of_find_slash {r : List Char} {p : ℕ} (h : find ['/'] r = some p) :
    ∃ a b, r = a ++ '/' :: b ∧ r.set p '-' = a ++ '-' :: b := by
  obtain ⟨b, hb⟩ := (find_eq_some_iff.mp h).1
  have hlt : p < r.length := find_lt (by decide) h
  have hlen : (r.take p).length = p := length_take_of_le hlt.le
  have hr : r = r.take p ++ '/' :: b :=
    (take_append_drop p r).symm.trans (congrArg (r.take p ++ ·) hb.symm)
  refine ⟨r.take p, b, hr, ?_⟩
  conv_lhs => rw [hr]
  rw [set_append_right _ _ hlen.le, hlen, Nat.sub_self, set_cons_zero]

variable {s extension baseDir : List Char}

theorem map_sanitizeChar_of_notMem (hs : '/' ∉ s) : s.map sanitizeChar = s := by
  refine (map_congr_left fun c hc => ?_).trans (map_id s)
  have hne : c ≠ '/' := fun he => hs (he ▸ hc)
  exact if_neg hne

theorem sanitizeLoop_eq {fuel : ℕ} {r : List Char} (h : r.count '/' ≤ fuel) :
    sanitizeLoop fuel r = r.map sanitizeChar := by
  induction fuel generalizing r with
  | zero =>
    exact (map_sanitizeChar_of_notMem (count_eq_zero.mp (Nat.le_zero.mp h))).symm
  | succ fuel ih =>
    rw [sanitizeLoop]
    cases hfind : find ['/'] r with
    | none =>
      refine (map_sanitizeChar_of_notMem fun hmem => ?_).symm
      obtain ⟨a, b, rfl⟩ := append_of_mem hmem
      exact find_eq_none_iff.mp hfind a.length (by simp)
    | some p =>
      obtain ⟨a, b, rfl, hset⟩ := set_of_find_slash hfind
      simp only [hset]
      rw [ih (by simp at h ⊢; omega)]
      simp [sanitizeChar]

/-- **Sanitizing a name** is replacing each slash by a dash. -/
theorem sanitizeName_eq (s : List Char) : sanitizeName s = s.map sanitizeChar :=
  sanitizeLoop_eq count_le_length

theorem sanitizeChar_eq_iff (c d : Char) :
    sanitizeChar c = sanitizeChar d ↔ c = d ∨ c ∈ ['/', '-'] ∧ d ∈ ['/', '-'] := by
  simp only [sanitizeChar, mem_cons, not_mem_nil, or_false]
  split_ifs with hc hd hd
  · simp [hc, hd]
  · simp only [hc, true_or, true_and]
    constructor
    · rintro rfl
      exact Or.inr (Or.inr rfl)
    · rintro (rfl | rfl | rfl)
      · exact absurd rfl hd
      · exact absurd rfl hd
      · rfl
  · simp only [hd, true_or, and_true]
    constructor
    · rintro rfl
      exact Or.inr (Or.inr rfl)
    · rintro (rfl | rfl | rfl)
      · exact absurd rfl hc
      · exact absurd rfl hc
      · rfl
  · simp only [hc, hd, false_or]
    exact ⟨Or.inl, fun h => h.elim id fun h => h.1.trans h.2.symm⟩

/-- **Two names are sanitized to the same name** when they are alike but for slashes and dashes. -/
theorem sanitizeName_eq_iff (s t : List Char) : sanitizeName s = sanitizeName t ↔ SlashAlike s t := by
  have halike : SlashAlike s t ↔
      List.Forall₂ (fun c d => sanitizeChar c = sanitizeChar d) s t := by
    simp only [SlashAlike, sanitizeChar_eq_iff]
  rw [sanitizeName_eq, sanitizeName_eq, halike, ← forall₂_eq_eq_eq,
    forall₂_map_left_iff, forall₂_map_right_iff]

theorem slash_notMem_sanitizeName (s : List Char) : '/' ∉ sanitizeName s := by
  rw [sanitizeName_eq]
  intro h
  obtain ⟨c, -, hc⟩ := mem_map.mp h
  rw [sanitizeChar] at hc
  split_ifs at hc with he
  · exact absurd hc (by decide)
  · exact absurd hc he

theorem mem_sanitizeName_iff {c : Char} (hc : c ∉ ['/', '-']) (s : List Char) :
    c ∈ sanitizeName s ↔ c ∈ s := by
  have hsame (d : Char) : sanitizeChar d = c ↔ d = c := by
    have hself : sanitizeChar c = c := if_neg fun he => hc (by simp [he])
    conv_lhs => rw [← hself]
    rw [sanitizeChar_eq_iff]
    exact or_iff_left fun h => hc h.2
  rw [sanitizeName_eq, mem_map]
  simp only [hsame, exists_eq_right]

theorem sanitizeName_append_dot {o p : List Char} (hp : '/' ∉ p) :
    sanitizeName (o ++ '.' :: p) = sanitizeName o ++ '.' :: p := by
  have hdot : sanitizeChar '.' = '.' := rfl
  rw [sanitizeName_eq, sanitizeName_eq, map_append, map_cons,
    map_sanitizeChar_of_notMem hp, hdot]

/-- What holds neither a slash nor a dash is the name of nothing else. -/
theorem sanitizeName_eq_plain_iff {t : List Char} (ht : ∀ c ∈ t, c ∉ ['/', '-']) :
    sanitizeName s = t ↔ s = t := by
  have hself : sanitizeName t = t := by
    rw [sanitizeName_eq, map_sanitizeChar_of_notMem fun h => ht _ h (by simp)]
  constructor
  · intro h
    rw [← hself, sanitizeName_eq_iff] at h
    obtain ⟨hlen, hget⟩ := forall₂_iff_get.mp h
    refine ext_get hlen fun i h₁ h₂ => ?_
    exact (hget i h₁ h₂).resolve_right fun hd => ht _ (get_mem _ _) hd.2
  · rintro rfl
    exact hself

/-! ## The files -/

/-- The directory of an owner's users. -/
def ownerDir (myId : UserId) : List Char :=
  sanitizeName myId.ownerAccountId ++ '.' :: protocolIdToString myId.protocolId

/-- The name of a file of a user, before it is cut at a null character. -/
def filePath (baseDir : List Char) (myId : UserId) (extension : List Char) : List Char :=
  baseDir ++ usersDir ++ (ownerDir myId ++ '/' :: (sanitizeName myId.accountId ++ extension))

def extensions : List (List Char) := [confExtension, historyExtension, pictureExtension]

theorem accountId_ownerId (myId : UserId) : myId.ownerId.accountId = myId.ownerAccountId :=
  myId.owner_normal

theorem files_eq (baseDir : List Char) (myId : UserId) :
    files baseDir myId = extensions.map fun e => cString (filePath baseDir myId e) := by
  have hhead : (myId.filename ++ confExtension).head? ≠ some '/' := by
    simp [filename, usersDir]
  rw [files, confFile, historyFile, pictureFile, path, if_pos hhead]
  simp only [extensions, map_cons, map_nil, filename, filePath, ownerDir,
    accountId_ownerId, append_assoc, cons_append]

/-- A null character before the extension hides the extension. -/
theorem cString_append_of_mem (h : Char.ofNat 0 ∈ s) (e : List Char) :
    cString (s ++ e) = cString s := by
  induction s with
  | nil => cases h
  | cons c s ih =>
    by_cases hc : c = ofNat 0
    · simp [cString, hc]
    · have hmem : ofNat 0 ∈ s := (mem_cons.mp h).resolve_left (Ne.symm hc)
      have htail := ih hmem
      simp only [cString] at htail ⊢
      rw [cons_append, takeWhile_cons_of_pos (by simpa using hc),
        takeWhile_cons_of_pos (by simpa using hc), htail]

/-- **What is before the last slash** and what is after it. -/
theorem append_slash_inj {a b x y : List Char} (hx : '/' ∉ x) (hy : '/' ∉ y)
    (h : a ++ '/' :: x = b ++ '/' :: y) : a = b ∧ x = y := by
  have hrev := congrArg reverse h
  simp only [reverse_append, reverse_cons, append_assoc, singleton_append]
    at hrev
  obtain ⟨hxy, hab⟩ := append_nl_inj (by simpa using hx) (by simpa using hy) hrev
  exact ⟨reverse_inj.mp hab, reverse_inj.mp hxy⟩

theorem extension_inj {t e e' : List Char} (he : e ∈ extensions) (he' : e' ∈ extensions)
    (h : s ++ e = t ++ e') : s = t ∧ e = e' := by
  have hlast : e.getLast? = e'.getLast? := by
    have hne : ∀ e ∈ extensions, e ≠ [] := by decide
    rw [← getLast?_append_of_ne_nil s (hne e he), h,
      getLast?_append_of_ne_nil t (hne e' he')]
  have hsame : ∀ e ∈ extensions, ∀ e' ∈ extensions, e.getLast? = e'.getLast? → e = e' := by decide
  obtain rfl := hsame e he e' he' hlast
  exact ⟨append_cancel_right h, rfl⟩

theorem slash_notMem_fileName (he : extension ∈ extensions)
    (accountId : List Char) : '/' ∉ sanitizeName accountId ++ extension := by
  have hext : ∀ e ∈ extensions, '/' ∉ e := by decide
  rw [mem_append, not_or]
  exact ⟨slash_notMem_sanitizeName accountId, hext extension he⟩

/-- With its extension every name can be that of a file. -/
theorem filePart_fileName (he : extension ∈ extensions)
    (accountId : List Char) : FilePart (sanitizeName accountId ++ extension) := by
  have hlong : ∀ e ∈ extensions, 2 < e.length := by decide
  have hlen : 2 < (sanitizeName accountId ++ extension).length := by
    have := hlong extension he
    rw [length_append]
    omega
  refine ⟨slash_notMem_fileName he accountId, ?_, ?_, ?_⟩
  all_goals
    intro h
    rw [h] at hlen
    simp at hlen

/-- The owner's directory can be that of a file in the users directory. -/
theorem filePart_ownerDir_iff (myId : UserId) : FilePart (ownerDir myId) ↔
    '/' ∉ protocolIdToString myId.protocolId ∧
      userListSection myId.ownerId ∉ [['.'], ['.', '.']] := by
  rw [userListSection, accountId_ownerId]
  change _ ↔ '/' ∉ _ ∧ myId.ownerAccountId ++ '.' :: protocolIdToString myId.protocolId ∉ _
  by_cases hp : '/' ∈ protocolIdToString myId.protocolId
  · exact iff_of_false (fun h => h.slash (by simp [ownerDir, hp])) fun h => h.1 hp
  have hdir : ownerDir myId =
      sanitizeName (myId.ownerAccountId ++ '.' :: protocolIdToString myId.protocolId) :=
    (sanitizeName_append_dot hp).symm
  have hdot := sanitizeName_eq_plain_iff (s := myId.ownerAccountId ++ '.' ::
    protocolIdToString myId.protocolId) (t := ['.']) (by simp)
  have hdots := sanitizeName_eq_plain_iff (s := myId.ownerAccountId ++ '.' ::
    protocolIdToString myId.protocolId) (t := ['.', '.']) (by simp)
  simp only [mem_cons, not_mem_nil, or_false, not_or, ← hdot, ← hdots, ← hdir]
  constructor
  · exact fun h => ⟨hp, h.dot, h.dots⟩
  · exact fun h => ⟨hdir ▸ slash_notMem_sanitizeName _, by simp [ownerDir], h.2.1, h.2.2⟩

theorem inUsersDir_filePath_iff (baseDir : List Char) (myId : UserId)
    (he : extension ∈ extensions) :
    InUsersDir baseDir (filePath baseDir myId extension) ↔ FilePart (ownerDir myId) := by
  constructor
  · rintro ⟨dir, name, hdir, hname, h⟩
    rw [filePath, append_cancel_left_eq] at h
    obtain ⟨rfl, -⟩ := append_slash_inj (slash_notMem_fileName he _) hname.slash h
    exact hdir
  · exact fun h => ⟨_, _, h, filePart_fileName he _, rfl⟩

/-- Two names of files are the same for the same directory, name and extension. -/
theorem filePath_eq_iff (baseDir : List Char) (a b : UserId) {e e' : List Char}
    (he : e ∈ extensions) (he' : e' ∈ extensions) :
    filePath baseDir a e = filePath baseDir b e' ↔
      ownerDir a = ownerDir b ∧ sanitizeName a.accountId = sanitizeName b.accountId ∧ e = e' := by
  constructor
  · intro h
    rw [filePath, filePath, append_cancel_left_eq] at h
    obtain ⟨hdir, hname⟩ := append_slash_inj (slash_notMem_fileName he _)
      (slash_notMem_fileName he' _) h
    exact ⟨hdir, extension_inj he he' hname⟩
  · rintro ⟨hdir, hname, rfl⟩
    rw [filePath, filePath, hdir, hname]

/-- The null characters that cut the name of a file are those of the two accounts. -/
theorem nul_mem_filePath_iff (hbase : Char.ofNat 0 ∉ baseDir) (myId : UserId)
    (he : extension ∈ extensions) :
    Char.ofNat 0 ∈ filePath baseDir myId extension ↔
      Char.ofNat 0 ∈ myId.ownerAccountId ∨ Char.ofNat 0 ∈ myId.accountId := by
  have husers : ofNat 0 ∉ usersDir := by decide
  have hext : ∀ e ∈ extensions, ofNat 0 ∉ e := by decide
  have hproto : ofNat 0 ∉ protocolIdToString myId.protocolId := nul_notMem_cString _
  have hdot : ofNat 0 ≠ '.' := by decide
  have hslash : ofNat 0 ≠ '/' := by decide
  simp only [filePath, ownerDir, mem_append, mem_cons, hbase, husers, hproto, hdot,
    hslash, hext extension he, mem_sanitizeName_iff (by decide : ofNat 0 ∉ ['/', '-']),
    false_or, or_false]

/-- **A null character in an id** gives the three files of the user one name. -/
theorem nul_notMem_of_nodup {myId : UserId}
    (h : (files baseDir myId).Nodup) :
    Char.ofNat 0 ∉ myId.ownerAccountId ∧ Char.ofNat 0 ∉ myId.accountId := by
  by_contra hnul
  have hmem : ofNat 0 ∈ baseDir ++ usersDir ++
      (ownerDir myId ++ '/' :: sanitizeName myId.accountId) := by
    have hor : ofNat 0 ∈ myId.ownerAccountId ∨ ofNat 0 ∈ myId.accountId := by tauto
    simp only [ownerDir, mem_append, mem_cons,
      mem_sanitizeName_iff (by decide : ofNat 0 ∉ ['/', '-'])]
    tauto
  have hsame (e : List Char) : cString (filePath baseDir myId e) = cString (baseDir ++ usersDir ++
      (ownerDir myId ++ '/' :: sanitizeName myId.accountId)) := by
    rw [← cString_append_of_mem hmem e, filePath]
    simp only [append_assoc, cons_append]
  rw [files_eq] at h
  simp [extensions, hsame] at h

/-! ## The main results -/

/-- **Two users have files of their own** exactly when their ids can be part of file names and
differ, in the owner's directory or in the account, in more than slashes and dashes. -/
theorem filesApart_iff (hbase : Char.ofNat 0 ∉ baseDir) (a b : UserId) :
    FilesApart baseDir a b ↔ Nameable a ∧ Nameable b ∧
      ¬ (SlashAlike (userListSection a.ownerId) (userListSection b.ownerId) ∧
        SlashAlike a.accountId b.accountId) := by
  have hplain {u : UserId} (ho : ofNat 0 ∉ u.ownerAccountId) (ha : ofNat 0 ∉ u.accountId) :
      files baseDir u = extensions.map (filePath baseDir u) := by
    rw [files_eq]
    refine map_congr_left fun e he => cString_of_notMem ?_
    rw [nul_mem_filePath_iff hbase u he]
    exact not_or.mpr ⟨ho, ha⟩
  have hdir {u : UserId} (hp : '/' ∉ protocolIdToString u.protocolId) :
      ownerDir u = sanitizeName (userListSection u.ownerId) := by
    rw [userListSection, accountId_ownerId]
    exact (sanitizeName_append_dot hp).symm
  have hone : confExtension ∈ extensions := by decide
  constructor
  · intro h
    obtain ⟨hnoda, hnodb, hdisj⟩ := nodup_append.mp h.nodup
    obtain ⟨hoa, haa⟩ := nul_notMem_of_nodup hnoda
    obtain ⟨hob, hab⟩ := nul_notMem_of_nodup hnodb
    have hin := h.inUsersDir
    rw [hplain hoa haa, hplain hob hab] at hin hdisj
    have hfa : FilePart (ownerDir a) := (inUsersDir_filePath_iff baseDir a hone).mp
      (hin _ (mem_append_left _ (mem_map_of_mem hone)))
    have hfb : FilePart (ownerDir b) := (inUsersDir_filePath_iff baseDir b hone).mp
      (hin _ (mem_append_right _ (mem_map_of_mem hone)))
    obtain ⟨hpa, hna⟩ := (filePart_ownerDir_iff a).mp hfa
    obtain ⟨hpb, hnb⟩ := (filePart_ownerDir_iff b).mp hfb
    refine ⟨⟨hoa, haa, hpa, hna⟩, ⟨hob, hab, hpb, hnb⟩, fun ⟨halike, hacc⟩ => ?_⟩
    rw [← sanitizeName_eq_iff] at halike hacc
    have heq : filePath baseDir a confExtension = filePath baseDir b confExtension :=
      (filePath_eq_iff baseDir a b hone hone).mpr
        ⟨(hdir hpa).trans (halike.trans (hdir hpb).symm), hacc, rfl⟩
    exact hdisj _ (mem_map_of_mem hone) _ (mem_map_of_mem hone) heq
  · rintro ⟨ha, hb, hdiff⟩
    have hnodup (u : UserId) : (extensions.map (filePath baseDir u)).Nodup :=
      List.Nodup.map_on (fun e he e' he' h => ((filePath_eq_iff baseDir u u he he').mp h).2.2)
        (by decide)
    refine ⟨?_, ?_⟩
    · rw [hplain ha.owner ha.account, hplain hb.owner hb.account]
      intro file hfile
      rw [mem_append, mem_map, mem_map] at hfile
      obtain ⟨e, he, rfl⟩ | ⟨e, he, rfl⟩ := hfile
      · exact (inUsersDir_filePath_iff baseDir a he).mpr
          ((filePart_ownerDir_iff a).mpr ⟨ha.protocol, ha.named⟩)
      · exact (inUsersDir_filePath_iff baseDir b he).mpr
          ((filePart_ownerDir_iff b).mpr ⟨hb.protocol, hb.named⟩)
    · rw [hplain ha.owner ha.account, hplain hb.owner hb.account]
      refine nodup_append.mpr ⟨hnodup a, hnodup b, ?_⟩
      rintro _ hfile _ hfile' rfl
      obtain ⟨e, he, rfl⟩ := mem_map.mp hfile
      obtain ⟨e', he', heq⟩ := mem_map.mp hfile'
      obtain ⟨hd, hacc, -⟩ := (filePath_eq_iff baseDir a b he he').mp heq.symm
      rw [hdir ha.protocol, hdir hb.protocol, sanitizeName_eq_iff] at hd
      exact hdiff ⟨hd, (sanitizeName_eq_iff _ _).mp hacc⟩

/-- Where the line after a header starts. -/
def startAfter (data : List Char) (pos : ℕ) : ℕ :=
  match findFrom ['\n'] data (pos + 1) with
  | some p => p + 1
  | none => data.length + 1

/-- Selecting a section that is there selects what follows its header. -/
theorem setSection_found {ini : IniFile} {raw : List Char}
    (h : (setSection ini raw false).1 = true) :
    ∃ pos, find ('\n' :: header (sectionName raw)) ini.myConfigData = some pos ∧
      (setSection ini raw false).2.mySection.map Prod.fst =
        some (startAfter ini.myConfigData pos) := by
  have hname : sectionName raw ≠ [] := by
    intro he
    simp [setSection, he] at h
  cases hfind : find ('\n' :: header (sectionName raw)) ini.myConfigData with
  | none => simp [setSection, hname, hfind] at h
  | some pos =>
    refine ⟨pos, rfl, ?_⟩
    simp only [setSection, if_neg hname, hfind, startAfter]
    cases findFrom ['\n'] ini.myConfigData (pos + 1) <;> rfl

/-- A search ends where the pattern is, or before. -/
theorem exists_find_le {p : List Char} {i : ℕ} (h : p <+: s.drop i) :
    ∃ r, find p s = some r ∧ r ≤ i := by
  cases hfind : find p s with
  | none => exact absurd h (find_eq_none_iff.mp hfind i)
  | some r =>
    refine ⟨r, rfl, ?_⟩
    by_contra hlt
    exact (find_eq_some_iff.mp hfind).2 i (by omega) h

theorem startAfter_lt {data : List Char} {p q : ℕ} (hpq : p < q)
    (hq : ['\n'] <+: data.drop q) : startAfter data p < startAfter data q := by
  have hlt : q < data.length := by
    by_contra hge
    rw [drop_eq_nil_of_le (by omega)] at hq
    exact absurd (prefix_nil.mp hq) (by decide)
  have hdrop : (data.drop (p + 1)).drop (q - (p + 1)) = data.drop q := by
    rw [drop_drop, Nat.add_sub_cancel' hpq]
  obtain ⟨r, hr, hle⟩ := exists_find_le (hdrop.symm ▸ hq)
  rw [startAfter, startAfter, findFrom, hr]
  cases hs : findFrom ['\n'] data (q + 1) with
  | some s =>
    obtain ⟨i, -, rfl⟩ := Option.map_eq_some_iff.mp hs
    change r + (p + 1) + 1 < i + (q + 1) + 1
    omega
  | none =>
    change r + (p + 1) + 1 < data.length + 1
    omega

/-- Only one section starts at a position. -/
theorem header_prefix_inj {raw raw' : List Char}
    (h : '\n' :: header (sectionName raw) <+: s) (h' : '\n' :: header (sectionName raw') <+: s) :
    sectionName raw = sectionName raw' := by
  have hclose (r : List Char) : ']' ∉ sectionName r := fun hmem =>
    absurd (mem_filter.mp hmem).2 (by decide)
  obtain ⟨x, rfl⟩ := h
  obtain ⟨y, hy⟩ := h'
  simp only [header, cons_append, List.cons.injEq, true_and, append_assoc,
    nil_append] at hy
  exact (append_nl_inj (hclose raw') (hclose raw) hy).1.symm

/-- **Two owners have sections of their own** exactly when something differs that `setSection`
keeps. -/
theorem sectionsApart_iff (a b : UserId) : SectionsApart a b ↔
    (userListSection a).filter sectionChar ≠ (userListSection b).filter sectionChar := by
  change SectionsApart a b ↔ sectionName (userListSection a) ≠ sectionName (userListSection b)
  constructor
  · intro h hname
    have hdot : '.' ∈ sectionName (userListSection a) :=
      mem_filter.mpr ⟨by simp [userListSection], by decide⟩
    have hsame (ini : IniFile) : setSection ini (userListSection a) false =
        setSection ini (userListSection b) false := by
      rw [setSection, setSection, hname]
    let ini : IniFile := ⟨'\n' :: header (sectionName (userListSection a)), none, false⟩
    have hfound : (setSection ini (userListSection a) false).1 = true := by
      have hne := ne_nil_of_mem hdot
      have hfind : find ('\n' :: header (sectionName (userListSection a))) ini.myConfigData =
          some 0 := find_of_isPrefix (prefix_refl _)
      simp only [setSection, if_neg hne, hfind]
    exact h ini hfound (hsame ini ▸ hfound) (congrArg (fun r => r.2.mySection) (hsame ini))
  · intro hne usersConf ha hb heq
    obtain ⟨p, hp, hsel⟩ := setSection_found ha
    obtain ⟨q, hq, hsel'⟩ := setSection_found hb
    have hpre := (find_eq_some_iff.mp hp).1
    have hpre' := (find_eq_some_iff.mp hq).1
    have hnl {s t : List Char} (h : '\n' :: s <+: t) : ['\n'] <+: t :=
      (prefix_append ['\n'] s).trans h
    rw [heq, hsel', Option.some.injEq] at hsel
    obtain hlt | rfl | hlt := lt_trichotomy p q
    · exact absurd hsel.symm (startAfter_lt hlt (hnl hpre')).ne
    · exact hne (header_prefix_inj hpre hpre')
    · exact absurd hsel.symm (startAfter_lt hlt (hnl hpre)).ne'

/-- What a user keeps to itself: its files, and the list of its owner. -/
structure KeptApart (baseDir : List Char) (a b : UserId) : Prop where
  files : FilesApart baseDir a b
  sections : a.ownerId ≠ b.ownerId → SectionsApart a.ownerId b.ownerId

/-- **Two users are kept apart** exactly when their ids can be part of file names, differ in more
than slashes and dashes, and, for different owners, in characters a section name may hold. -/
theorem keptApart_iff (baseDir : {s : List Char // Char.ofNat 0 ∉ s}) (a b : UserId) :
    KeptApart baseDir a b ↔ Nameable a ∧ Nameable b ∧
      ¬ (SlashAlike (userListSection a.ownerId) (userListSection b.ownerId) ∧
        SlashAlike a.accountId b.accountId) ∧
      (a.ownerId ≠ b.ownerId → (userListSection a.ownerId).filter sectionChar ≠
        (userListSection b.ownerId).filter sectionChar) := by
  constructor
  · intro h
    obtain ⟨ha, hb, hdiff⟩ := (filesApart_iff baseDir.2 a b).mp h.files
    exact ⟨ha, hb, hdiff, fun hne => (sectionsApart_iff _ _).mp (h.sections hne)⟩
  · rintro ⟨ha, hb, hdiff, hsect⟩
    exact ⟨(filesApart_iff baseDir.2 a b).mpr ⟨ha, hb, hdiff⟩,
      fun hne => (sectionsApart_iff _ _).mpr (hsect hne)⟩

/-- Two contacts of one owner whose addresses differ in a slash and a dash share their files. -/
theorem not_keptApart_slash : ¬ ∀ (baseDir : {s : List Char // Char.ofNat 0 ∉ s}) (a b : UserId),
    a ≠ b → KeptApart baseDir a b := by
  intro h
  let own : UserId := UserId.owner msnPpid ['m', 'e', '@', 'x']
  have happart := h ⟨['/'], by decide⟩ (UserId.user own ['a', '/', 'b', '@', 'x'])
    (UserId.user own ['a', '-', 'b', '@', 'x']) (by decide)
  exact absurd happart.files.nodup (by decide)

end Licq
