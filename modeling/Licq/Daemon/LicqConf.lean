import Licq.Daemon.ConfWriters
import Licq.Data.Steps
import Mathlib.Logic.Function.Basic

/-!
# Daemon/LicqConf — the file that five writers share

Four of the writers of licq.conf edit one copy of it in memory, under a lock; the list of the plugins is
saved from a copy of its own.  A copy is only as good as its last loading: the owners are saved without
one, a loading is skipped while the time of the file, in seconds, is the one that is known, and one that
fails is not noticed.  Where every save has the text of the file before it, the file holds what each of the
writers saved last (`stays_saved`).
-/

namespace Licq.LicqConf

open Text IniFile Option

/-! ## The file and its copies -/

/-- An `IniFile` with the time of the file it knows. -/
structure Copy where
  ini : IniFile
  myLastTimestamp : ℕ
  deriving DecidableEq, Repr

/-- The content of the file and its modification time, none when it is missing. -/
abbrev Disk := Option (List Char × ℕ)

/-- How the calls to the file system go in one operation. -/
structure FileCalls where
  /-- Opening the file, and asking for its size and time. -/
  opens : Bool
  /-- Reading it. -/
  reads : Bool
  /-- The time of the new file, none when it could not be written or put in place. -/
  writes : Option ℕ
  /-- Asking for that time. -/
  stats : Bool
  deriving DecidableEq, Repr

/-- A new `IniFile`. -/
def Copy.new : Copy := ⟨empty, 0⟩

/-- The file has the time that is known, and the text has not been changed. -/
def Copy.Skips (c : Copy) (st_mtime : ℕ) : Prop :=
  c.ini.myIsModified = false ∧ c.myLastTimestamp ≠ 0 ∧ c.myLastTimestamp = st_mtime

instance (c : Copy) (st_mtime : ℕ) : Decidable (c.Skips st_mtime) :=
  inferInstanceAs (Decidable (_ ∧ _ ∧ _))

/-- `IniFile::loadFile` -/
def loadFile (io : FileCalls) (disk : Disk) (c : Copy) : Bool × Copy :=
  match disk with
  | none => (false, c)
  | some (text, st_mtime) =>
    if ¬ io.opens then (false, c)
    else if c.Skips st_mtime then (true, { c with ini := { c.ini with mySection := none } })
    else if ¬ io.reads then (false, c)
    else (true, ⟨{ loadRawConfiguration (cString text) with myIsModified := false }, st_mtime⟩)

/-- `IniFile::writeFile` -/
def writeFile (io : FileCalls) (disk : Disk) (c : Copy) : Bool × Disk × Copy :=
  if ¬ c.ini.myIsModified then (true, disk, c)
  else match io.writes with
    | none => (false, disk, c)
    | some st_mtime =>
      (true, some (getRawConfiguration c.ini, st_mtime),
        ⟨{ c.ini with myIsModified := false },
          if io.stats then st_mtime else c.myLastTimestamp⟩)

/-- What a new `IniFile` reads from the file. -/
def onDisk : Disk → IniFile
  | none => empty
  | some (text, _) => loadRawConfiguration (cString text)

/-! ## The saves -/

/-- The file, the copy of `getLicqConf` and whether its lock is held, and, for every writer, the parameters
of its last save that was successful. -/
structure State where
  disk : Disk
  shared : Copy
  locked : Bool
  latest : Writer → List Entry

/-- Write a copy that has been edited. -/
def State.write (s : State) (save : Save) (io : FileCalls) (c : Copy) : Copy × State :=
  let r := writeFile io s.disk c
  (r.2.2, { s with
    disk := r.2.1
    latest := if r.1 then Function.update s.latest save.writer save.entries else s.latest })

/-- Edit the shared copy, write it and release the lock. -/
def State.saveShared (s : State) (save : Save) (io : FileCalls) : Option State := do
  let ini ← save.edit s.shared.ini
  let r := s.write save io { s.shared with ini := ini }
  some { r.2 with shared := r.1, locked := false }

/-- The operations, each with what it saves. -/
inductive Action
  | saveOwnerList (l : OwnerLists) (io : FileCalls)
  | saveGroups (m_bAllowSave : Bool) (myGroups : GroupMap) (io : FileCalls)
  | saveConf (c : Settings) (io : FileCalls)
  | writeCounters (c : Counters) (io : FileCalls)
  | saveLoadedPlugins (p : LoadedPlugins) (io : FileCalls)

/-- `getLicqConf`, which waits for the lock: nobody releases it for an operation that comes later. -/
def State.getLicqConf (s : State) : Option State :=
  if s.locked then none else some { s with locked := true }

def State.load (s : State) (io : FileCalls) : Bool × State :=
  let r := loadFile io s.disk s.shared
  (r.1, { s with shared := r.2 })

def step (s : State) : Action → Option State
  | .saveOwnerList l io => do
    let s ← s.getLicqConf
    s.saveShared (.owners l) io
  | .saveGroups m_bAllowSave myGroups io =>
    if !m_bAllowSave then some s
    else do
      let s ← s.getLicqConf
      -- Load the group info from licq.conf
      (s.load io).2.saveShared (.groups myGroups) io
  | .saveConf c io => do
    let s ← s.getLicqConf
    let r := s.load io
    if !r.1 then some r.2 else r.2.saveShared (.network c) io
  | .writeCounters c io => do
    let s ← s.getLicqConf
    (s.load io).2.saveShared (.stats c) io
  | .saveLoadedPlugins p io => do
    let c := (loadFile io s.disk Copy.new).2
    let ini ← editPlugins p c.ini
    some (s.write (.plugins p) io { c with ini := ini }).2

/-- The daemon starts with a copy that has been loaded, or has found no file. -/
def State.start (disk : Disk) (io : FileCalls) : State :=
  ⟨disk, (loadFile io disk Copy.new).2, false, fun _ => []⟩

/-- A text has the parameters, with their last values. -/
def Holds (latest : Writer → List Entry) (ini : IniFile) : Prop :=
  ∀ w, ∀ e ∈ kept (latest w),
    (lookup e.1 (ini.sectionLines (sectionName w.sectionOf))).map unescape = some e.2

/-- The file holds what every writer saved last, and the lock is free. -/
structure State.Sound (s : State) : Prop where
  holds : Holds s.latest (onDisk s.disk)
  unlocked : s.locked = false

/-! ## When a save works on the text of the file -/

/-- The file is read anew. -/
def Copy.Reads (io : FileCalls) (disk : Disk) (c : Copy) : Prop :=
  ∃ text st_mtime, disk = some (text, st_mtime) ∧ io.opens = true ∧ io.reads = true ∧
    ¬ c.Skips st_mtime

/-- The copy has the text of the file. -/
def Copy.Fresh (disk : Disk) (c : Copy) : Prop := c.ini.myConfigData = (onDisk disk).myConfigData

/-- The loading succeeds. -/
def Copy.Loads (io : FileCalls) (disk : Disk) (c : Copy) : Prop :=
  ∃ text st_mtime, disk = some (text, st_mtime) ∧ io.opens = true ∧
    (c.Skips st_mtime ∨ io.reads = true)

/-- What a save asks of the file: loading its text once more changes nothing, the loops over leftover
parameters find none in a later section and come to an end, and no value has a null character. -/
structure Save.Ok (save : Save) (disk : Disk) : Prop where
  settled : Settled (onDisk disk)
  fits : save.Fits (onDisk disk)
  values : ∀ e ∈ save.entries, Char.ofNat 0 ∉ e.2

/-- **The condition on an operation**: the copy it edits has the text of the file, and `SaveConf` finds the
file. -/
def ActionOk (s : State) : Action → Prop
  | .saveOwnerList l _ => s.shared.Fresh s.disk ∧ Save.Ok (.owners l) s.disk
  | .saveGroups m_bAllowSave myGroups io => m_bAllowSave = true →
      (s.shared.Fresh s.disk ∨ s.shared.Reads io s.disk) ∧ Save.Ok (.groups myGroups) s.disk
  | .saveConf c io => s.shared.Loads io s.disk ∧
      (s.shared.Fresh s.disk ∨ s.shared.Reads io s.disk) ∧ Save.Ok (.network c) s.disk
  | .writeCounters c io =>
      (s.shared.Fresh s.disk ∨ s.shared.Reads io s.disk) ∧ Save.Ok (.stats c) s.disk
  | .saveLoadedPlugins p io =>
      (Copy.new.Fresh s.disk ∨ Copy.new.Reads io s.disk) ∧ Save.Ok (.plugins p) s.disk

/-! ## Loading -/

variable {io : FileCalls} {disk : Disk} {c : Copy} {save : Save} {s t : State}

theorem loadFile_fresh (h : c.Fresh disk ∨ c.Reads io disk) : (loadFile io disk c).2.Fresh disk := by
  rcases h with h | ⟨text, st_mtime, rfl, hopens, hreads, hskips⟩
  · cases disk with
    | none => exact h
    | some file =>
      rw [loadFile]
      split_ifs <;> first | exact h | rfl
  · rw [loadFile]
    simp only [hopens, hreads, not_true_eq_false, if_false, if_neg hskips]
    rfl

theorem loadFile_loads (h : c.Loads io disk) : (loadFile io disk c).1 = true := by
  obtain ⟨text, st_mtime, rfl, hopens, hloads⟩ := h
  rw [loadFile]
  simp only [hopens, not_true_eq_false, if_false]
  by_cases hskips : c.Skips st_mtime
  · rw [if_pos hskips]
  · simp only [if_neg hskips, hloads.resolve_left hskips, not_true_eq_false, if_false]

/-- A text that is not in the file has to be written. -/
def Copy.Unsaved (disk : Disk) (c : Copy) : Prop := disk = none → c.ini.myIsModified = true

theorem loadFile_unsaved (h : c.Unsaved disk) : (loadFile io disk c).2.Unsaved disk := by
  rintro rfl
  exact h rfl

/-! ## Texts that are equal -/

section Congr

variable {ini ini' : IniFile}

theorem fits_congr (h : ini.myConfigData = ini'.myConfigData) (hini : save.Fits ini) :
    save.Fits ini' := by
  have hfrom := sectionsFrom_congr h
  cases save with
  | owners l =>
    rw [Save.Fits, NoneBehind, ← hfrom]
    exact hini
  | plugins p =>
    rw [Save.Fits, NoneBehind, FreeNumber, FreeNumber, ← hfrom, ← sectionLines_congr h]
    exact hini
  | groups _ => trivial
  | network _ => trivial
  | stats _ => trivial

theorem holds_congr {latest : Writer → List Entry} (h : ini.myConfigData = ini'.myConfigData)
    (hini : Holds latest ini) : Holds latest ini' := fun w e he => by
  rw [← sectionLines_congr h]
  exact hini w e he

end Congr

/-! ## One save -/

/-- **An edit keeps what the other writers have saved.** -/
theorem holds_edit {latest : Writer → List Entry} {ini ini' : IniFile} {pre sel tail sel' : List Line}
    {hdr : Line} (h : Edited ini ini' (sectionName save.writer.sectionOf) save.entries pre hdr sel tail sel')
    (hholds : Holds latest ini) :
    Holds (Function.update latest save.writer save.entries) ini' := by
  intro w e he
  by_cases hw : w = save.writer
  · subst hw
    rw [Function.update_self] at he
    rw [h.lookup_self he, map_some, unescape_escape]
  · rw [Function.update_of_ne hw] at he
    rw [h.sectionLines_other (apart fun heq => hw heq.symm)]
    exact hholds w e he

/-- **Writing a text that has been edited.** -/
theorem holds_write {ini' : IniFile} {pre sel tail sel' : List Line} {hdr : Line}
    (hedit : Edited c.ini ini' (sectionName save.writer.sectionOf) save.entries pre hdr sel tail sel')
    (hholds : Holds s.latest (onDisk s.disk)) (hok : save.Ok s.disk) (hfresh : c.Fresh s.disk)
    (hunsaved : c.Unsaved s.disk) :
    Holds (s.write save io { c with ini := ini' }).2.latest
        (onDisk (s.write save io { c with ini := ini' }).2.disk) ∧
      (s.write save io { c with ini := ini' }).1.Unsaved (s.write save io { c with ini := ini' }).2.disk := by
  have hnew := holds_edit hedit (holds_congr hfresh.symm hholds)
  rw [State.write, writeFile]
  cases hmod : ini'.myIsModified with
  | false =>
    -- Nothing has been changed, and the file has the text.
    have hsame : ini'.myConfigData = c.ini.myConfigData ∧ ini'.myIsModified = c.ini.myIsModified :=
      hedit.tracked.resolve_left fun h => by rw [hmod] at h; cases h
    simp only [Bool.false_eq_true, not_false_eq_true, if_true]
    refine ⟨holds_congr (hsame.1.trans hfresh) hnew, fun hnone => ?_⟩
    exact hsame.2.trans (hunsaved hnone)
  | true =>
    simp only [not_true_eq_false, if_false]
    cases io.writes with
    | none => exact ⟨hholds, fun _ => hmod⟩
    | some st_mtime =>
      have hsettled : Settled ini' := hedit.settled (settled_congr hfresh.symm hok.settled)
        (nul_notMem_sectionOf _) hok.values
      refine ⟨holds_congr ?_ hnew, fun hnone => by cases hnone⟩
      change ini'.myConfigData = (loadRawConfiguration (cString (getRawConfiguration ini'))).myConfigData
      rw [load_settled hsettled]

/-- Writing does not remove the file. -/
theorem disk_write_eq_none (h : (s.write save io c).2.disk = none) : s.disk = none := by
  rw [State.write, writeFile] at h
  split at h
  · exact h
  · split at h
    · exact h
    · cases h

/-! ## Every step -/

/-- What is kept: besides the file, a text that is not in it. -/
structure State.Inv (s : State) : Prop extends State.Sound s where
  unsaved : s.shared.Unsaved s.disk

/-- **An operation on the shared copy returns**, and has released the lock. -/
theorem State.Inv.saveShared (h : Holds s.latest (onDisk s.disk)) (hok : save.Ok s.disk)
    (hfresh : s.shared.Fresh s.disk) (hunsaved : s.shared.Unsaved s.disk) (io : FileCalls) :
    ∃ t, s.saveShared save io = some t ∧ t.Inv := by
  have hsettled := settled_congr hfresh.symm hok.settled
  obtain ⟨ini', pre, hdr, sel, tail, sel', hrun, hedit⟩ :=
    save.edit_spec hsettled.1 (fits_congr hfresh.symm hok.fits)
  obtain ⟨hholds, hunsaved'⟩ := @holds_write io _ _ _ _ _ _ _ _ _ hedit h hok hfresh hunsaved
  let r := s.write save io { s.shared with ini := ini' }
  have hsave : s.saveShared save io = some { r.2 with shared := r.1, locked := false } := by
    rw [State.saveShared, hrun]
    rfl
  exact ⟨_, hsave, ⟨hholds, rfl⟩, hunsaved'⟩

theorem getLicqConf_eq (h : s.locked = false) : s.getLicqConf = some { s with locked := true } := by
  rw [State.getLicqConf, h]
  rfl

/-- **An operation whose condition holds returns, with the file and the lock as they should be.** -/
theorem State.Inv.step (h : s.Inv) {a : Action} (hok : ActionOk s a) :
    ∃ t, LicqConf.step s a = some t ∧ t.Inv := by
  cases a with
  | saveOwnerList l io =>
    obtain ⟨hfresh, hok⟩ := hok
    simp only [LicqConf.step, getLicqConf_eq h.unlocked, bind_eq_bind, bind_some]
    exact saveShared h.holds hok hfresh h.unsaved io
  | saveGroups m_bAllowSave myGroups io =>
    cases m_bAllowSave with
    | false => exact ⟨s, rfl, h⟩
    | true =>
      obtain ⟨hfresh, hok⟩ := hok rfl
      simp only [LicqConf.step, getLicqConf_eq h.unlocked, bind_eq_bind, bind_some]
      exact saveShared (s := (State.load { s with locked := true } io).2) h.holds hok
        (loadFile_fresh hfresh) (loadFile_unsaved h.unsaved) io
  | saveConf c io =>
    obtain ⟨hloads, hfresh, hok⟩ := hok
    have hload : (State.load { s with locked := true } io).1 = true := loadFile_loads hloads
    simp only [LicqConf.step, getLicqConf_eq h.unlocked, bind_eq_bind, bind_some, hload,
      Bool.not_true, Bool.false_eq_true, if_false]
    exact saveShared (s := (State.load { s with locked := true } io).2) h.holds hok
      (loadFile_fresh hfresh) (loadFile_unsaved h.unsaved) io
  | writeCounters c io =>
    obtain ⟨hfresh, hok⟩ := hok
    simp only [LicqConf.step, getLicqConf_eq h.unlocked, bind_eq_bind, bind_some]
    exact saveShared (s := (State.load { s with locked := true } io).2) h.holds hok
      (loadFile_fresh hfresh) (loadFile_unsaved h.unsaved) io
  | saveLoadedPlugins p io =>
    obtain ⟨hfresh, hok⟩ := hok
    have hfresh := loadFile_fresh hfresh
    have hunsaved : Copy.new.Unsaved s.disk := fun _ => rfl
    have hsettled := settled_congr hfresh.symm hok.settled
    obtain ⟨ini', pre, hdr, sel, tail, sel', hrun, hedit⟩ :=
      (Save.plugins p).edit_spec hsettled.1 (fits_congr hfresh.symm hok.fits)
    obtain ⟨hholds, -⟩ := @holds_write io _ _ _ _ _ _ _ _ _ hedit h.holds hok hfresh
      (loadFile_unsaved hunsaved)
    let c := (loadFile io s.disk Copy.new).2
    have hstep : LicqConf.step s (.saveLoadedPlugins p io)
        = some (s.write (.plugins p) io { c with ini := ini' }).2 := by
      have hrun : editPlugins p c.ini = some ini' := hrun
      simp only [LicqConf.step, bind_eq_bind, c] at hrun ⊢
      rw [hrun]
      rfl
    exact ⟨_, hstep, ⟨hholds, h.unlocked⟩, fun hnone => h.unsaved (disk_write_eq_none hnone)⟩

theorem State.inv_start (disk : Disk) (io : FileCalls) : (State.start disk io).Inv where
  holds _ _ he := nomatch he
  unlocked := rfl
  unsaved := loadFile_unsaved fun _ => rfl

/-! ## Every run -/

/-- **Saving to the shared file.**  In every run whose operations all meet the condition, each operation
returns, the lock is free after it, and the file holds the last saved values of every writer. -/
theorem stays_saved {disk : Disk} {io : FileCalls} {as : List Action}
    (h : Steps.Each step ActionOk (State.start disk io) as) :
    Steps.Stays step State.Sound (State.start disk io) as ∧
      ∃ t, as.foldlM step (State.start disk io) = some t := by
  have hinv := State.inv_start disk io
  constructor
  · refine (Steps.stays_of_each (fun s a t hs hok hstep => ?_) hinv h).mono fun _ => State.Inv.toSound
    obtain ⟨r, hr, hinv⟩ := hs.step hok
    cases hr.symm.trans hstep
    exact hinv
  · obtain ⟨t, ht, -⟩ := Steps.exists_foldlM_of_each (fun s a hs hok => hs.step hok) hinv h
    exact ⟨t, ht⟩

/-- A file with an empty list of plugins, written in the first second. -/
def noPlugins : List Char :=
  ['['] ++ pluginsSection ++ [']', '\n'] ++ numPlugins ++ ['=', '0', '\n']

def onePlugin : LoadedPlugins := ⟨[['r', 'm', 's']], []⟩

/-- The file with one plugin. -/
def withPlugin : List Char :=
  ['['] ++ pluginsSection ++ [']', '\n'] ++ numPlugins ++ ['=', '1', '\n'] ++
    pluginKey pluginTag 1 ++ ['=', 'r', 'm', 's', '\n'] ++ numProtoPlugins ++ ['=', '0', '\n']

/-- Every call succeeds, in a given second. -/
def inSecond (n : ℕ) : FileCalls := ⟨true, true, some n, true⟩

theorem stays_saved_withPlugin : Steps.Stays step State.Sound
    (State.start (some (noPlugins, 1)) (inSecond 1))
    [.saveLoadedPlugins onePlugin (inSecond 2), .writeCounters ⟨0, 1, 0, 0, 0⟩ (inSecond 2)] := by
  refine (stays_saved ?_).1
  rw [Steps.Each]
  refine ⟨⟨.inr ⟨noPlugins, 1, rfl, rfl, rfl, by decide⟩, by decide +kernel, ?_, by decide +kernel⟩,
    fun t ht => ⟨⟨.inr ?_, ?_, trivial, by decide +kernel⟩, fun _ _ => trivial⟩⟩
  · have hlast : ((onDisk (some (noPlugins, 1))).sectionsFrom (sectionName pluginsSection)).tail = [] := by
      decide +kernel
    refine ⟨fun key _ hhas => ?_, ⟨2, by decide, by decide, by decide +kernel⟩,
      ⟨1, by decide, by decide, by decide +kernel⟩⟩
    obtain ⟨s, hs, -⟩ := hlast ▸ hhas
    cases hs
  all_goals
    have hdisk : (step (State.start (some (noPlugins, 1)) (inSecond 1))
        (.saveLoadedPlugins onePlugin (inSecond 2))).map State.disk = some (some (withPlugin, 2)) := by
      decide +kernel
    rw [ht, Option.map_some, Option.some.injEq] at hdisk
  · have hshared : (step (State.start (some (noPlugins, 1)) (inSecond 1))
        (.saveLoadedPlugins onePlugin (inSecond 2))).map (fun t => t.shared.myLastTimestamp) = some 1 := by
      decide +kernel
    rw [ht, Option.map_some, Option.some.injEq] at hshared
    refine ⟨withPlugin, 2, hdisk, rfl, rfl, fun hskips => ?_⟩
    exact absurd (hshared.symm.trans hskips.2.2) (by decide)
  · rw [hdisk]
    decide +kernel

def noOwners : OwnerLists :=
  ⟨[], [], nofun, List.nodup_nil, List.nodup_nil, List.nil_subset []⟩

def defaultSettings : Settings :=
  ⟨0, 0, true, false, false, 1, [], 0, false, [], [], [], [], 6, [], true, 0, 0, 0, []⟩

/-- The plugins are saved, and then the owners from a copy that was loaded before. -/
def staleRun : List Action :=
  [.saveLoadedPlugins onePlugin (inSecond 2), .saveOwnerList noOwners (inSecond 3)]

/-- `SaveConf` cannot open the file. -/
def unreadable : FileCalls := ⟨false, false, some 2, true⟩

/-- **The old list of plugins comes back, and the lock is not released** when `SaveConf` cannot load. -/
theorem not_stays_saved :
    (¬ ∀ disk io as, Steps.Stays step (fun s => Holds s.latest (onDisk s.disk)) (State.start disk io) as) ∧
      ¬ ∀ disk io as, Steps.Stays step (fun s => s.locked = false) (State.start disk io) as := by
  constructor
  · intro h
    have hrun : (staleRun.foldlM step (State.start (some (noPlugins, 1)) (inSecond 1))).map (fun t =>
        (kept (t.latest .plugins)).all fun e => (lookup e.1 ((onDisk t.disk).sectionLines
          (sectionName Writer.plugins.sectionOf))).map unescape = some e.2) = some false := by
      decide +kernel
    obtain ⟨t, ht, hlost⟩ := Option.map_eq_some_iff.mp hrun
    have hall := (h _ _ staleRun).foldlM ht .plugins
    rw [List.all_eq_true.mpr fun e he => decide_eq_true (hall e he)] at hlost
    cases hlost
  · intro h
    have hlocked := (h (some (noPlugins, 1)) (inSecond 1) [.saveConf defaultSettings unreadable]).foldlM rfl
    cases hlocked

end Licq.LicqConf
