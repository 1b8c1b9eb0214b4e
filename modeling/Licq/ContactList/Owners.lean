import Licq.ContactList.UserId
import Licq.IniFile.Holds
import Mathlib.Data.List.Nodup
import Mathlib.Data.List.Perm.Subperm

/-!
# ContactList/Owners — saving and loading the list of owners

`saveOwnerList` writes the configured owners, but counts the owners whose protocol is loaded; `Load`
reads as many owners as were counted.
-/

namespace Licq

open Text IniFile List

/-! ## The owner section -/

/-- `myConfiguredOwners` and the keys of `myOwners`, the owners whose protocol is loaded; both are
ordered sets, listed in the order they are iterated in. -/
structure OwnerLists where
  myConfiguredOwners : List UserId
  myOwners : List UserId
  isOwner : ∀ o ∈ myConfiguredOwners, o.IsOwner
  nodup : myConfiguredOwners.Nodup
  owners_nodup : myOwners.Nodup
  configured : myOwners ⊆ myConfiguredOwners

def ownersSection : List Char := ['o', 'w', 'n', 'e', 'r', 's']

def numOfOwners : List Char := ['N', 'u', 'm', 'O', 'f', 'O', 'w', 'n', 'e', 'r', 's']

/-- "Owner%d.Id" and "Owner%d.Protocol". -/
def ownerKey (count : ℕ) (field : List Char) : List Char :=
  ['O', 'w', 'n', 'e', 'r'] ++ decimal count ++ '.' :: field

def idField : List Char := ['I', 'd']

def protocolField : List Char := ['P', 'r', 'o', 't', 'o', 'c', 'o', 'l']

/-- The loop of `saveOwnerList` over the configured owners. -/
def setOwners (ini : IniFile) (count : ℕ) : List UserId → Option IniFile
  | [] => some ini
  | ownerId :: owners => do
    let count := count + 1
    let (_, ini) ← set ini (ownerKey count idField) ownerId.accountId
    let (_, ini) ← set ini (ownerKey count protocolField) (protocolIdToString ownerId.protocolId)
    setOwners ini count owners

/-- Don't leave old higher numbered owners in config. -/
def unsetOwners : ℕ → IniFile → ℕ → Option IniFile
  | 0, _, _ => none
  | fuel + 1, ini, count =>
    let id := unset ini (ownerKey count idField)
    let protocol := unset id.2 (ownerKey count protocolField)
    if id.1 || protocol.1 then unsetOwners fuel protocol.2 (count + 1) else some protocol.2

def saveOwnerList (l : OwnerLists) (licqConf : ConfFile) : Option ConfFile := do
  let ini := (setSection licqConf.ini ownersSection true).2
  let (_, ini) ← set ini numOfOwners (decimal l.myOwners.length)
  let ini ← setOwners ini 0 l.myConfiguredOwners
  let ini ← unsetOwners (ini.myConfigData.length + 1) ini (l.myConfiguredOwners.length + 1)
  some (ConfFile.writeFile { licqConf with ini := ini }).2

/-- What `Load` knows of the owners: the configured ones, and the account of each protocol's last
owner. -/
structure LoadedOwners where
  myConfiguredOwners : List UserId
  oldOwners : List (ℕ × List Char)
  deriving DecidableEq

/-- One round of the loop of `Load`. -/
def loadOwner (plugins : List ProtocolPlugin) (ini : IniFile) (i : ℕ) (l : LoadedOwners) :
    LoadedOwners :=
  let accountId := getString ini (ownerKey i idField) []
  let ppidStr := getString ini (ownerKey i protocolField) []
  let protocolId := protocolIdFromString plugins ppidStr
  ⟨l.myConfiguredOwners.insert (UserId.owner protocolId accountId),
    (protocolId, accountId) :: l.oldOwners⟩

/-- The loop of `Load`, whose counter is an `unsigned short`; with 65535 owners or more it never
ends, and the fuel of one round for each value of the counter runs out. -/
def loadOwnersLoop (plugins : List ProtocolPlugin) (ini : IniFile) (nOwners : ℕ) :
    ℕ → ℕ → LoadedOwners → Option LoadedOwners
  | 0, _, _ => none
  | fuel + 1, i, l =>
    if i ≤ nOwners then
      loadOwnersLoop plugins ini nOwners fuel ((i + 1) % 2 ^ 16) (loadOwner plugins ini i l)
    else some l

/-- The owners part of `Load`. -/
def loadOwners (plugins : List ProtocolPlugin) (licqConf : IniFile) : Option LoadedOwners :=
  let ini := (setSection licqConf ownersSection true).2
  loadOwnersLoop plugins ini (getUnsigned ini numOfOwners 0) (2 ^ 16 + 1) 1 ⟨[], []⟩

/-- **Saving the owners and loading the file again restores the configured owners.** -/
def RestoresOwners (plugins : List ProtocolPlugin) (l : OwnerLists) (licqConf : ConfFile) : Prop :=
  ∃ f r, saveOwnerList l licqConf = some f ∧ loadOwners plugins f.restart = some r ∧
    ∀ o, o ∈ r.myConfiguredOwners ↔ o ∈ l.myConfiguredOwners

/-- An owner as it is rebuilt from its two parameters. -/
def reread (plugins : List ProtocolPlugin) (o : UserId) : UserId :=
  UserId.owner (protocolIdFromString plugins (protocolIdToString o.protocolId)) o.accountId

/-! ## The keys -/

theorem decimal_all_keyChar (n : ℕ) : (decimal n).all keyChar = true := by
  refine all_eq_true.mpr fun c hc => ?_
  have hdigit := isDigit_of_mem_decimal hc
  simp [keyChar, Char.isAlphanum, hdigit]

theorem dot_notMem_decimal (n : ℕ) : '.' ∉ decimal n := fun h =>
  absurd (isDigit_of_mem_decimal h) (by decide)

theorem ownerKey_valid (count : ℕ) {field : List Char}
    (h : field = idField ∨ field = protocolField) : (ownerKey count field).all keyChar = true := by
  have hfield : ('.' :: field).all keyChar = true := by rcases h with rfl | rfl <;> decide
  rw [ownerKey, all_append, all_append, decimal_all_keyChar, hfield]
  decide

/-- The number and the field of an owner's parameter. -/
theorem ownerKey_inj {c d : ℕ} {f g : List Char} (h : ownerKey c f = ownerKey d g) :
    c = d ∧ f = g := by
  rw [ownerKey, ownerKey, append_assoc, append_assoc, append_cancel_left_eq] at h
  obtain ⟨hnum, hfield⟩ := append_nl_inj (dot_notMem_decimal c) (dot_notMem_decimal d) h
  exact ⟨decimal_injective hnum, hfield⟩

theorem numOfOwners_ne (count : ℕ) (field : List Char) : numOfOwners ≠ ownerKey count field := by
  intro h
  have hhead : some 'N' = some 'O' := congrArg head? h
  exact absurd hhead (by decide)

/-! ## Saving -/

/-- The parameters of the configured owners. -/
def ownerEntries (count : ℕ) : List UserId → List Entry
  | [] => []
  | o :: owners =>
    (ownerKey (count + 1) idField, o.accountId)
      :: (ownerKey (count + 1) protocolField, protocolIdToString o.protocolId)
      :: ownerEntries (count + 1) owners

theorem setOwners_eq (ini : IniFile) (count : ℕ) (owners : List UserId) :
    setOwners ini count owners = setAll ini (ownerEntries count owners) := by
  induction owners generalizing ini count with
  | nil => rfl
  | cons o owners ih =>
    simp only [setOwners, ownerEntries, setAll, ih]
    rfl

theorem mem_ownerEntries {count : ℕ} {owners : List UserId} {e : Entry}
    (h : e ∈ ownerEntries count owners) : ∃ c o, count < c ∧ c ≤ count + owners.length ∧
      o ∈ owners ∧ (e = (ownerKey c idField, o.accountId) ∨
        e = (ownerKey c protocolField, protocolIdToString o.protocolId)) := by
  induction owners generalizing count with
  | nil => exact absurd h not_mem_nil
  | cons o owners ih =>
    rw [ownerEntries, mem_cons, mem_cons] at h
    rcases h with h | h | h
    · exact ⟨count + 1, o, by omega, by rw [length_cons]; omega, by simp, Or.inl h⟩
    · exact ⟨count + 1, o, by omega, by rw [length_cons]; omega, by simp, Or.inr h⟩
    · obtain ⟨c, x, hlt, hle, hx, he⟩ := ih h
      exact ⟨c, x, by omega, by rw [length_cons]; omega, by simp [hx], he⟩

theorem nodup_ownerEntries (count : ℕ) (owners : List UserId) :
    ((ownerEntries count owners).map Prod.fst).Nodup := by
  have hfields : idField ≠ protocolField := by decide
  induction owners generalizing count with
  | nil => exact nodup_nil
  | cons o owners ih =>
    have hfresh : ∀ f, ownerKey (count + 1) f ∉ (ownerEntries (count + 1) owners).map Prod.fst := by
      intro f hf
      obtain ⟨e, he, hkey⟩ := mem_map.mp hf
      obtain ⟨c, x, hlt, -, -, rfl | rfl⟩ := mem_ownerEntries he
      · exact absurd (ownerKey_inj hkey).1 (by omega)
      · exact absurd (ownerKey_inj hkey).1 (by omega)
    rw [ownerEntries, map_cons, map_cons, nodup_cons, nodup_cons,
      mem_cons, not_or]
    exact ⟨⟨fun h => hfields (ownerKey_inj h).2, hfresh _⟩, hfresh _, ih (count + 1)⟩

theorem ownerEntries_get {count i : ℕ} {owners : List UserId} {o : UserId}
    (h : owners[i]? = some o) :
    (ownerKey (count + 1 + i) idField, o.accountId) ∈ ownerEntries count owners ∧
      (ownerKey (count + 1 + i) protocolField, protocolIdToString o.protocolId)
        ∈ ownerEntries count owners := by
  induction owners generalizing count i with
  | nil => exact nomatch h
  | cons x owners ih =>
    cases i with
    | zero =>
      obtain rfl : x = o := by simpa using h
      simp [ownerEntries]
    | succ i =>
      have := @ih (count + 1) i (by simpa using h)
      rw [show count + 1 + (i + 1) = count + 1 + 1 + i by omega, ownerEntries]
      exact ⟨by simp [this.1], by simp [this.2]⟩

/-- The parameters that `saveOwnerList` sets. -/
def savedOwners (l : OwnerLists) : List Entry :=
  (numOfOwners, decimal l.myOwners.length) :: ownerEntries 0 l.myConfiguredOwners

theorem savedOwners_ne {l : OwnerLists} {e : Entry} (he : e ∈ savedOwners l) {c : ℕ} {f : List Char}
    (hc : l.myConfiguredOwners.length < c) : e.1 ≠ ownerKey c f := by
  rcases mem_cons.mp he with rfl | he
  · exact numOfOwners_ne c f
  · obtain ⟨d, o, -, hd, -, rfl | rfl⟩ := mem_ownerEntries he
    · exact fun heq => absurd (ownerKey_inj heq).1 (by omega)
    · exact fun heq => absurd (ownerKey_inj heq).1 (by omega)

variable {ini : IniFile} {plugins : List ProtocolPlugin} {i : ℕ}

/-- **The loop over leftover parameters ends, and removes numbered parameters of owners only.** -/
theorem unsetOwners_spec {name : List Char} {pre rest : List Line} {hdr : Line}
    (h : Opens ini name pre hdr rest) (count : ℕ) {fuel : ℕ} (hfuel : rest.length < fuel) :
    ∃ keys, unsetOwners fuel ini count = some (unsetAll ini keys) ∧
      ∀ k ∈ keys, ∃ c f, count ≤ c ∧ (f = idField ∨ f = protocolField) ∧ k = ownerKey c f := by
  have hnl : ∀ {c f}, f = idField ∨ f = protocolField → '\n' ∉ ownerKey c f := fun hf =>
    notMem_of_all_keyChar (ownerKey_valid _ hf) (by decide)
  induction fuel generalizing ini rest count with
  | zero => exact absurd hfuel (Nat.not_lt_zero _)
  | succ fuel ih =>
    obtain ⟨ini₁, h₁, hopen₁⟩ := h.unset_eq (@hnl count idField (.inl rfl))
    obtain ⟨ini₂, h₂, hopen₂⟩ := hopen₁.unset_eq (@hnl count protocolField (.inr rfl))
    have hall : ∀ keys, unsetAll ini (ownerKey count idField :: ownerKey count protocolField :: keys)
        = unsetAll ini₂ keys := fun keys => by
      simp only [unsetAll, foldl_cons, h₁, h₂]
    have hkey : ∀ {keys : List (List Char)}, (∀ k ∈ keys, ∃ c f, count ≤ c ∧
          (f = idField ∨ f = protocolField) ∧ k = ownerKey c f) →
        ∀ k ∈ ownerKey count idField :: ownerKey count protocolField :: keys, ∃ c f, count ≤ c ∧
          (f = idField ∨ f = protocolField) ∧ k = ownerKey c f := fun hkeys => by
      rw [forall_mem_cons, forall_mem_cons]
      exact ⟨⟨count, _, le_refl _, .inl rfl, rfl⟩, ⟨count, _, le_refl _, .inr rfl, rfl⟩, hkeys⟩
    rw [unsetOwners, h₁]
    simp only [h₂]
    have hle₁ := length_forget_le (ownerKey count idField) rest
    have hle₂ := length_forget_le (ownerKey count protocolField) (forget (ownerKey count idField) rest)
    by_cases hfound : (∃ l ∈ rest, HasKey (ownerKey count idField) l) ∨
        ∃ l ∈ forget (ownerKey count idField) rest, HasKey (ownerKey count protocolField) l
    · have hlt : (forget (ownerKey count protocolField)
          (forget (ownerKey count idField) rest)).length < rest.length := by
        rcases hfound with hf | hf
        · have := length_forget_lt hf
          omega
        · have := length_forget_lt hf
          omega
      rw [if_pos (by simpa using hfound)]
      obtain ⟨keys, hrun, hkeys⟩ := ih hopen₂ (count + 1) (by omega)
      refine ⟨_, hrun.trans (congrArg some (hall keys).symm), hkey fun k hk => ?_⟩
      obtain ⟨c, f, hc, hf, rfl⟩ := hkeys k hk
      exact ⟨c, f, by omega, hf, rfl⟩
    · rw [if_neg (by simpa using hfound)]
      exact ⟨_, congrArg some (hall []).symm, hkey fun k hk => absurd hk not_mem_nil⟩

/-- **What the saved file says about the owners.** -/
theorem saveOwnerList_spec {l : OwnerLists} {licqConf : ConfFile} (hf : licqConf.InSync)
    (hnul : ∀ o ∈ l.myConfiguredOwners, Char.ofNat 0 ∉ o.accountId) :
    ∃ f, saveOwnerList l licqConf = some f ∧
      get (setSection f.restart ownersSection true).2 numOfOwners
        = some (decimal l.myOwners.length) ∧
      ∀ i o, l.myConfiguredOwners[i]? = some o →
        get (setSection f.restart ownersSection true).2 (ownerKey (i + 1) idField)
          = some o.accountId ∧
        get (setSection f.restart ownersSection true).2 (ownerKey (i + 1) protocolField)
          = some (protocolIdToString o.protocolId) := by
  have hname : sectionName ownersSection ≠ [] := by decide
  have hnum : numOfOwners.all keyChar = true := by decide
  have hentries : ∀ e ∈ savedOwners l, e.1.all keyChar = true ∧ Char.ofNat 0 ∉ e.2 := by
    intro e he
    rcases mem_cons.mp he with rfl | he
    · exact ⟨hnum, fun h => absurd (isDigit_of_mem_decimal h) (by decide)⟩
    · obtain ⟨c, o, -, -, ho, rfl | rfl⟩ := mem_ownerEntries he
      · exact ⟨ownerKey_valid c (.inl rfl), hnul o ho⟩
      · exact ⟨ownerKey_valid c (.inr rfl), nul_notMem_cString _⟩
  have hdistinct : ((savedOwners l).map Prod.fst).Nodup := by
    refine nodup_cons.mpr ⟨fun h => ?_, nodup_ownerEntries 0 _⟩
    obtain ⟨e, he, hkey⟩ := mem_map.mp h
    obtain ⟨c, o, -, -, -, rfl | rfl⟩ := mem_ownerEntries he
    · exact numOfOwners_ne _ _ hkey.symm
    · exact numOfOwners_ne _ _ hkey.symm
  obtain ⟨pre, hdr, tail, hstart⟩ := Holds.start hf.settled hname
  obtain ⟨ini, hall, hheld⟩ := hstart.setAll_eq hentries
  have ⟨sel, hd, _⟩ := hheld
  obtain ⟨keys, hunset, hkeys⟩ :=
    unsetOwners_spec hd.opens (l.myConfiguredOwners.length + 1) hd.opens.length_lt
  obtain ⟨conf, hload, -, hget⟩ := Holds.write_spec hf hname hheld fun k hk => by
    obtain ⟨c, f, -, hfield, rfl⟩ := hkeys k hk
    exact ownerKey_valid c hfield
  have hrestart : (ConfFile.writeFile { licqConf with ini := unsetAll ini keys }).2.restart
      = conf.ini := by rw [ConfFile.restart, hload]
  -- No leftover parameter is one of those just written.
  have hfound : ∀ e ∈ savedOwners l, get (setSection conf.ini ownersSection true).2 e.1
      = some e.2 := by
    intro e he
    rw [hget e.1 (hentries e he).1 fun hk => ?_]
    · exact updateAll_of_mem (fun x hx y hy => inj_on_of_nodup_map hdistinct hx hy) he
    · obtain ⟨c, f, hc, -, heq⟩ := hkeys _ hk
      exact savedOwners_ne he hc heq
  refine ⟨_, ?_, hrestart.symm ▸ hfound _ mem_cons_self, fun i o ho => ?_⟩
  · have hsetall : (do
        let (_, ini) ← set (setSection licqConf.ini ownersSection true).2 numOfOwners
          (decimal l.myOwners.length)
        setOwners ini 0 l.myConfiguredOwners) = some ini := by
      simp only [setOwners_eq]
      exact hall
    simp only [saveOwnerList, Option.bind_eq_bind, Option.bind_eq_some_iff] at hsetall ⊢
    obtain ⟨r, hr, hrest⟩ := hsetall
    exact ⟨r, hr, ini, hrest, _, hunset, rfl⟩
  · have hmem := @ownerEntries_get 0 _ _ _ ho
    rw [Nat.zero_add, Nat.add_comm] at hmem
    rw [hrestart]
    exact ⟨hfound _ (mem_cons_of_mem _ hmem.1), hfound _ (mem_cons_of_mem _ hmem.2)⟩

/-! ## Loading -/

theorem mem_loadOwner {l : LoadedOwners}
    {o : UserId} : o ∈ (loadOwner plugins ini i l).myConfiguredOwners ↔
      o ∈ l.myConfiguredOwners ∨ o = UserId.owner
        (protocolIdFromString plugins (getString ini (ownerKey i protocolField) []))
        (getString ini (ownerKey i idField) []) := by
  rw [loadOwner, mem_insert_iff, or_comm]

/-- **The loop of `Load` reads the owners up to the count.** -/
theorem loadOwnersLoop_spec (plugins : List ProtocolPlugin) (ini : IniFile) {nOwners fuel : ℕ}
    (l : LoadedOwners) (hn : nOwners < 65535) (hi : i ≤ nOwners + 1) (hfuel : nOwners + 2 ≤ fuel + i) :
    ∃ r, loadOwnersLoop plugins ini nOwners fuel i l = some r ∧
      ∀ o, o ∈ r.myConfiguredOwners ↔ o ∈ l.myConfiguredOwners ∨
        ∃ j, i ≤ j ∧ j ≤ nOwners ∧ o = UserId.owner
          (protocolIdFromString plugins (getString ini (ownerKey j protocolField) []))
          (getString ini (ownerKey j idField) []) := by
  induction fuel generalizing i l with
  | zero => omega
  | succ fuel ih =>
    rw [loadOwnersLoop]
    by_cases hle : i ≤ nOwners
    · rw [if_pos hle, Nat.mod_eq_of_lt (by omega)]
      obtain ⟨r, hr, hmem⟩ := @ih (i + 1) (loadOwner plugins ini i l) (by omega) (by omega)
      refine ⟨r, hr, fun o => ?_⟩
      rw [hmem, mem_loadOwner, or_assoc]
      refine or_congr_right ⟨?_, ?_⟩
      · rintro (rfl | ⟨j, hij, hj, rfl⟩)
        · exact ⟨i, le_refl _, hle, rfl⟩
        · exact ⟨j, by omega, hj, rfl⟩
      · rintro ⟨j, hij, hj, rfl⟩
        obtain rfl | hlt := Nat.eq_or_lt_of_le hij
        · exact Or.inl rfl
        · exact Or.inr ⟨j, hlt, hj, rfl⟩
    · rw [if_neg hle]
      refine ⟨l, rfl, fun o => ⟨Or.inl, ?_⟩⟩
      rintro (ho | ⟨j, hij, hj, -⟩)
      · exact ho
      · omega

/-- …and never ends from 65535 owners on: no value of the counter is past the count. -/
theorem loadOwnersLoop_none {nOwners : ℕ}
    (hn : 65535 ≤ nOwners) (fuel : ℕ) (hi : i < 2 ^ 16) (l : LoadedOwners) :
    loadOwnersLoop plugins ini nOwners fuel i l = none := by
  induction fuel generalizing i l with
  | zero => rfl
  | succ fuel ih =>
    rw [loadOwnersLoop, if_pos (by omega)]
    exact ih (Nat.mod_lt _ (by decide)) _

theorem nul_notMem_getString (h : Char.ofNat 0 ∉ ini.myConfigData)
    (key : List Char) : Char.ofNat 0 ∉ getString ini key [] := by
  rw [getString]
  cases hget : get ini key with
  | none => exact not_mem_nil
  | some value => exact nul_notMem_get h hget

/-- What `loadOwners` reads, in the words of the loop. -/
theorem loadOwners_eq {r : LoadedOwners}
    (h : loadOwners plugins ini = some r) :
    ∃ n, n = getUnsigned (setSection ini ownersSection true).2 numOfOwners 0 ∧ n < 65535 ∧
      ∀ o, o ∈ r.myConfiguredOwners ↔ ∃ j, 1 ≤ j ∧ j ≤ n ∧ o = UserId.owner
        (protocolIdFromString plugins
          (getString (setSection ini ownersSection true).2 (ownerKey j protocolField) []))
        (getString (setSection ini ownersSection true).2 (ownerKey j idField) []) := by
  rw [loadOwners] at h
  by_cases hn : 65535 ≤ getUnsigned (setSection ini ownersSection true).2 numOfOwners 0
  · simp only [loadOwnersLoop_none hn _ (by decide : 1 < 2 ^ 16)] at h
    exact nomatch h
  · obtain ⟨r', hr, hmem⟩ := loadOwnersLoop_spec plugins (setSection ini ownersSection true).2
      ⟨[], []⟩ (Nat.not_le.mp hn) (by omega : 1 ≤ _) (by omega : _ ≤ 2 ^ 16 + 1 + 1)
    simp only [hr, Option.some.injEq] at h
    subst h
    exact ⟨_, rfl, Nat.not_le.mp hn, fun o => by rw [hmem]; simp⟩

/-- **Every owner that is loaded from a file has an account without null characters.** -/
theorem nul_notMem_loaded {f : ConfFile} {r : LoadedOwners}
    (h : loadOwners plugins f.restart = some r) {o : UserId} (ho : o ∈ r.myConfiguredOwners) :
    Char.ofNat 0 ∉ o.accountId := by
  obtain ⟨n, -, -, hmem⟩ := loadOwners_eq h
  obtain ⟨j, -, -, rfl⟩ := (hmem o).mp ho
  exact nul_notMem_normalizeId (nul_notMem_getString
    (nul_notMem_setSection (ConfFile.nul_notMem_restart f) _ _) _) _

theorem strtoul_decimal_le (n : ℕ) : strtoul (decimal n) ≤ n := by
  by_cases h : n < 2 ^ 64
  · exact le_of_eq (strtoul_decimal h)
  · rw [strtoul, readSign_digits (decimal_ne_nil n) fun c hc => isDigit_of_mem_decimal hc]
    simp only [readDigits_decimal, if_pos (Nat.not_lt.mp h)]
    omega

/-- **After saving, as many owners are loaded as are live**, each of the configured ones in turn. -/
theorem mem_loadOwners (plugins : List ProtocolPlugin) {l : OwnerLists} {licqConf f : ConfFile}
    (hf : licqConf.InSync) (hnul : ∀ o ∈ l.myConfiguredOwners, Char.ofNat 0 ∉ o.accountId)
    (hsave : saveOwnerList l licqConf = some f) :
    ∃ n, n ≤ l.myOwners.length ∧ (l.myOwners.length < 65535 → n = l.myOwners.length) ∧
      (65535 ≤ n → loadOwners plugins f.restart = none) ∧
      (n < 65535 → ∃ r, loadOwners plugins f.restart = some r ∧ ∀ o, o ∈ r.myConfiguredOwners ↔
        ∃ i x, i < n ∧ l.myConfiguredOwners[i]? = some x ∧ o = reread plugins x) := by
  obtain ⟨f', hsave', hcount, howners⟩ := saveOwnerList_spec hf hnul
  obtain rfl : f' = f := Option.some.inj (hsave'.symm.trans hsave)
  have hlive : l.myOwners.length ≤ l.myConfiguredOwners.length :=
    (subperm_of_subset l.owners_nodup l.configured).length_le
  have hn : getUnsigned (setSection f'.restart ownersSection true).2 numOfOwners 0
      = strtoul (decimal l.myOwners.length) % 2 ^ 32 := by
    rw [getUnsigned, hcount]
    rfl
  have hentry : ∀ {i x}, l.myConfiguredOwners[i]? = some x →
      UserId.owner (protocolIdFromString plugins
          (getString (setSection f'.restart ownersSection true).2 (ownerKey (i + 1) protocolField) []))
        (getString (setSection f'.restart ownersSection true).2 (ownerKey (i + 1) idField) [])
        = reread plugins x := by
    intro i x hx
    obtain ⟨hid, hprotocol⟩ := howners i x hx
    rw [getString, getString, hid, hprotocol]
    rfl
  refine ⟨getUnsigned (setSection f'.restart ownersSection true).2 numOfOwners 0, ?_, ?_, ?_, ?_⟩
  · rw [hn]
    exact (Nat.mod_le _ _).trans (strtoul_decimal_le _)
  · intro h
    rw [hn, strtoul_decimal (by omega), Nat.mod_eq_of_lt (by omega)]
  · intro h
    rw [loadOwners]
    exact loadOwnersLoop_none h _ (by decide) _
  · intro h
    obtain ⟨r, hr, hmem⟩ := loadOwnersLoop_spec plugins
      (setSection f'.restart ownersSection true).2 ⟨[], []⟩ h (by omega : 1 ≤ _)
      (by omega : _ ≤ 2 ^ 16 + 1 + 1)
    have hle : getUnsigned (setSection f'.restart ownersSection true).2 numOfOwners 0
        ≤ l.myConfiguredOwners.length := by
      rw [hn]
      exact ((Nat.mod_le _ _).trans (strtoul_decimal_le _)).trans hlive
    refine ⟨r, hr, fun o => ?_⟩
    rw [hmem]
    constructor
    · rintro (ho | ⟨j, hj, hjn, rfl⟩)
      · exact absurd ho not_mem_nil
      · obtain ⟨i, rfl⟩ : ∃ i, j = i + 1 := ⟨j - 1, by omega⟩
        have hi : i < l.myConfiguredOwners.length := by omega
        exact ⟨i, _, hjn, getElem?_eq_getElem hi, hentry (getElem?_eq_getElem hi)⟩
    · rintro ⟨i, x, hi, hx, rfl⟩
      exact Or.inr ⟨i + 1, by omega, hi, (hentry hx).symm⟩

/-- **The owners are restored exactly when all of them are live**, there are fewer than 65535, no
account has a null character, and every owner is some owner read back from its protocol's name. -/
theorem restoresOwners_iff {plugins : List ProtocolPlugin} {l : OwnerLists} {licqConf : ConfFile}
    (hf : licqConf.InSync) : RestoresOwners plugins l licqConf ↔
      l.myOwners.length = l.myConfiguredOwners.length ∧ l.myConfiguredOwners.length < 65535 ∧
      (∀ o ∈ l.myConfiguredOwners, Char.ofNat 0 ∉ o.accountId) ∧
      ∀ o ∈ l.myConfiguredOwners, ∃ x ∈ l.myConfiguredOwners, reread plugins x = o := by
  have hlive : l.myOwners.length ≤ l.myConfiguredOwners.length :=
    (List.subperm_of_subset l.owners_nodup l.configured).length_le
  constructor
  · rintro ⟨f, r, hsave, hload, hmem⟩
    have hnul : ∀ o ∈ l.myConfiguredOwners, Char.ofNat 0 ∉ o.accountId :=
      fun o ho => nul_notMem_loaded hload ((hmem o).mpr ho)
    obtain ⟨n, hle, -, hnone, hsome⟩ := mem_loadOwners plugins hf hnul hsave
    have hn : n < 65535 := by
      by_contra hge
      rw [hnone (Nat.not_lt.mp hge)] at hload
      exact nomatch hload
    obtain ⟨r', hr', hmem'⟩ := hsome hn
    obtain rfl : r' = r := Option.some.inj (hr'.symm.trans hload)
    -- The owners are among the first `n` re-read, so there are no more than `n` of them.
    have hsub : l.myConfiguredOwners ⊆ (l.myConfiguredOwners.take n).map (reread plugins) := by
      intro o ho
      obtain ⟨i, x, hi, hx, rfl⟩ := (hmem' o).mp ((hmem o).mpr ho)
      refine List.mem_map_of_mem (List.mem_of_getElem? (i := i) ?_)
      rw [List.getElem?_take, if_pos hi, hx]
    have hcard := (List.subperm_of_subset l.nodup hsub).length_le
    rw [List.length_map, List.length_take] at hcard
    refine ⟨by omega, by omega, hnul, fun o ho => ?_⟩
    obtain ⟨i, x, -, hx, rfl⟩ := (hmem' o).mp ((hmem o).mpr ho)
    exact ⟨x, List.mem_of_getElem? hx, rfl⟩
  · rintro ⟨hall, hfew, hnul, hreread⟩
    obtain ⟨f, hsave, -⟩ := saveOwnerList_spec hf hnul
    obtain ⟨n, -, hn, -, hsome⟩ := mem_loadOwners plugins hf hnul hsave
    obtain rfl := hn (by omega)
    obtain ⟨r, hr, hmem⟩ := hsome (by omega)
    -- Reading back permutes the owners.
    have hperm : l.myConfiguredOwners.Perm (l.myConfiguredOwners.map (reread plugins)) := by
      have hsub : l.myConfiguredOwners ⊆ l.myConfiguredOwners.map (reread plugins) := by
        intro o ho
        obtain ⟨x, hx, rfl⟩ := hreread o ho
        exact List.mem_map_of_mem hx
      exact (List.subperm_of_subset l.nodup hsub).perm_of_length_le (by rw [List.length_map])
    refine ⟨f, r, hsave, hr, fun o => ?_⟩
    rw [hmem, hperm.mem_iff, List.mem_map]
    constructor
    · rintro ⟨i, x, -, hx, rfl⟩
      exact ⟨x, List.mem_of_getElem? hx, rfl⟩
    · rintro ⟨x, hx, rfl⟩
      obtain ⟨i, hi, rfl⟩ := List.getElem_of_mem hx
      exact ⟨i, _, by omega, List.getElem?_eq_getElem hi, rfl⟩

/-- An ICQ and an MSN owner are configured; `myOwners` is empty until a protocol is loaded. -/
def icqAndMsn (loaded : List UserId)
    (nodup : loaded.Nodup)
    (configured : loaded ⊆ [UserId.owner icqPpid ['1'], UserId.owner msnPpid ['a']]) :
    OwnerLists where
  myConfiguredOwners := [UserId.owner icqPpid ['1'], UserId.owner msnPpid ['a']]
  myOwners := loaded
  isOwner := by simp [UserId.IsOwner, UserId.owner]
  nodup := by decide
  owners_nodup := nodup
  configured := configured

/-- With both owners live they are restored. -/
theorem restoresOwners_icqAndMsn : RestoresOwners []
    (icqAndMsn [UserId.owner icqPpid ['1'], UserId.owner msnPpid ['a']] (by decide)
      (List.Subset.refl _)) (ConfFile.opened none) :=
  (restoresOwners_iff ConfFile.inSync_opened).mpr ⟨rfl, by decide, by decide, by decide⟩

/-- With MSN not loaded its owner is written but not counted, and lost. -/
theorem not_restoresOwners_unloaded : ¬ RestoresOwners []
    (icqAndMsn [UserId.owner icqPpid ['1']] (by decide) (by decide)) (ConfFile.opened none) := by
  rintro ⟨f, r, hsave, hload, hmem⟩
  have hrun : ((saveOwnerList (icqAndMsn [UserId.owner icqPpid ['1']] (by decide) (by decide))
      (ConfFile.opened none)).bind fun f => loadOwners [] f.restart).map
        LoadedOwners.myConfiguredOwners = some [UserId.owner icqPpid ['1']] := by decide +kernel
  rw [hsave, Option.bind_some, hload, Option.map_some, Option.some.injEq] at hrun
  have hmsn := (hmem (UserId.owner msnPpid ['a'])).mpr (by decide)
  rw [hrun] at hmsn
  exact absurd hmsn (by decide)

end Licq
