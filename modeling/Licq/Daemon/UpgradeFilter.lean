import Licq.Daemon.FilterConf

/-!
# Daemon/UpgradeFilter — the rules of an old filter.conf

Before 1.8 the rules were numbered from 0 and a protocol was saved as a number.
`upgradeLicq18_updateFilter` moves each rule to the next number, the last rule first, so that what a
turn reads has not been written over (`Moved.step`), and writes the name of the protocol.

The **main result** `upgrades_iff` says when the rules that are loaded afterwards are the old ones.
-/

namespace Licq.Filter

open Text IniFile List Option

/-! ## The upgrade -/

/-- "Licq" as a number, the protocol id of ICQ before. -/
def oldIcqPpid : ℕ := 0x4C696371

/-- One turn of the loop: the rule `i` is moved to `i + 1`.  The names fit `char key[16]`, as the
number is an `int`. -/
def moveRule (i : ℕ) (filterConf : IniFile) : Option IniFile := do
  let ppid := getULong filterConf (ruleKey i protocolField) 0
  let ppid := if ppid = oldIcqPpid then icqPpid else ppid
  let (_, filterConf) ← set filterConf (ruleKey (i + 1) protocolField) (protocolText ppid)
  let b := getBool filterConf (ruleKey i enabledField) false
  let (_, filterConf) ← set filterConf (ruleKey (i + 1) enabledField) (boolText b)
  let ul := getULong filterConf (ruleKey i eventsField) 0
  let (_, filterConf) ← set filterConf (ruleKey (i + 1) eventsField) (decimal ul)
  let s := getString filterConf (ruleKey i expressionField) []
  let (_, filterConf) ← set filterConf (ruleKey (i + 1) expressionField) s
  let ul := getULong filterConf (ruleKey i actionField) 0
  let (_, filterConf) ← set filterConf (ruleKey (i + 1) actionField) (decimal ul)
  some filterConf

/-- The rules below a number, from the last one on. -/
def moveRules : ℕ → IniFile → Option IniFile
  | 0, filterConf => some filterConf
  | i + 1, filterConf => do
    let filterConf ← moveRule i filterConf
    moveRules i filterConf

/-- `upgradeLicq18_updateFilter`, on what the file filter.conf holds. -/
def updateFilter (disk : Option (List Char)) : Option (Option (List Char)) := do
  let conf := (ConfFile.loadFile (ConfFile.opened disk)).2
  let filterConf := (setSection conf.ini eventfilter true).2
  let numFilters := getInt filterConf numRules 0
  let filterConf ← moveRules numFilters.toNat filterConf
  some (ConfFile.writeFile { conf with ini := unsetAll filterConf (ruleKeys 0) }).2.disk

/-! ## What is claimed of it -/

/-- The parameters of a rule in an old file. -/
def oldRuleEntries (i : ℕ) (rule : FilterRule) : List Entry :=
  [(ruleKey i enabledField, boolText rule.isEnabled),
    (ruleKey i protocolField, decimal rule.protocolId),
    (ruleKey i eventsField, decimal rule.eventMask.toNat),
    (ruleKey i expressionField, rule.expression), (ruleKey i actionField, decimalInt rule.action)]

/-- The values are those of an old list of rules. -/
structure Lists (rules : List FilterRule) (values : ValueMap) : Prop where
  count : values numRules = some (decimal rules.length)
  rules : ∀ j rule, rules[j]? = some rule → ∀ e ∈ oldRuleEntries j rule, values e.1 = some e.2

/-- A rule with the new id of its protocol. -/
def newRule (rule : FilterRule) : FilterRule :=
  { rule with protocolId := if rule.protocolId = oldIcqPpid then icqPpid else rule.protocolId }

/-- **The rules that a new manager loads from the upgraded file are the old rules.** -/
def Upgrades (plugins : List ProtocolPlugin) (rules : List FilterRule) (disk : Option (List Char)) :
    Prop :=
  ∃ disk' r, updateFilter disk = some disk' ∧
    FilterManager.initializeRules plugins ⟨[], disk'⟩ = some r ∧ r.myRules = rules.map newRule

/-- The numbers are of the types that hold them. -/
structure Fits (rules : List FilterRule) : Prop where
  count : rules.length < 2 ^ 31
  protocols : ∀ rule ∈ rules, rule.protocolId < 2 ^ 64
  actions : ∀ rule ∈ rules, -2 ^ 31 ≤ rule.action ∧ rule.action < 2 ^ 31

/-! ## One turn -/

/-- The parameters that a turn sets. -/
def movedEntries (i : ℕ) (rule : FilterRule) : List Entry :=
  [(ruleKey i protocolField, protocolText (newRule rule).protocolId),
    (ruleKey i enabledField, boolText rule.isEnabled),
    (ruleKey i eventsField, decimal rule.eventMask.toNat),
    (ruleKey i expressionField, rule.expression),
    (ruleKey i actionField, decimal (strtoul (decimalInt rule.action)))]

variable {rules : List FilterRule} {rule : FilterRule} {i : ℕ}

theorem key_of_mem_oldRuleEntries {e : Entry} (h : e ∈ oldRuleEntries i rule) :
    ∃ f ∈ ruleFields, e.1 = ruleKey i f := by
  have hkeys : (oldRuleEntries i rule).map Prod.fst = ruleFields.map (ruleKey i) := rfl
  have hmem : e.1 ∈ ruleFields.map (ruleKey i) := hkeys ▸ mem_map_of_mem h
  obtain ⟨f, hf, heq⟩ := mem_map.mp hmem
  exact ⟨f, hf, heq.symm⟩

theorem key_of_mem_movedEntries {e : Entry} (h : e ∈ movedEntries i rule) :
    ∃ f ∈ ruleFields, e.1 = ruleKey i f := by
  simp only [movedEntries, mem_cons, not_mem_nil, or_false] at h
  rcases h with rfl | rfl | rfl | rfl | rfl
  · exact ⟨protocolField, by decide, rfl⟩
  · exact ⟨enabledField, by decide, rfl⟩
  · exact ⟨eventsField, by decide, rfl⟩
  · exact ⟨expressionField, by decide, rfl⟩
  · exact ⟨actionField, by decide, rfl⟩

theorem movedEntries_unique {e e' : Entry} (h : e ∈ movedEntries i rule)
    (h' : e' ∈ movedEntries i rule) (hkey : e.1 = e'.1) : e = e' := by
  have hnodup : ((movedEntries i rule).map Prod.fst).Nodup := by
    have hfields :
        [protocolField, enabledField, eventsField, expressionField, actionField].Nodup := by decide
    have hkeys := hfields.map (f := ruleKey i) fun f g hfg => (ruleKey_inj hfg).2
    exact hkeys
  exact inj_on_of_nodup_map hnodup h h' hkey

variable {ini₀ ini : IniFile} {name : List Char} {pre tail : List Line} {hdr : Line}
  {values : ValueMap}

/-- **What a turn does**: it reads the parameters of the rule, and sets those of the next number. -/
theorem moveRule_spec (h : Holds ini₀ name pre hdr tail values ini)
    (hprotocolId : rule.protocolId < 2 ^ 64) (hnul : Char.ofNat 0 ∉ rule.expression)
    (hold : ∀ e ∈ oldRuleEntries i rule, values e.1 = some e.2) :
    ∃ ini', moveRule i ini = some ini' ∧
      Holds ini₀ name pre hdr tail (updateAll (movedEntries (i + 1) rule) values) ini' := by
  simp only [oldRuleEntries, mem_cons, not_mem_nil, or_false, forall_eq_or_imp,
    forall_eq] at hold
  obtain ⟨henabled, hprotocol, hevents, hexpression, haction⟩ := hold
  have hvalid : ∀ j, ∀ f ∈ ruleFields, (ruleKey j f).all keyChar = true := fun j f hf =>
    ruleKey_valid j (ruleFields_valid f hf)
  -- What is set has another number than what is read.
  have hread : ∀ {values' : ValueMap} {ini' : IniFile} {f : List Char}, f ∈ ruleFields →
      Holds ini₀ name pre hdr tail values' ini' → values' (ruleKey i f) = values (ruleKey i f) →
      get ini' (ruleKey i f) = values (ruleKey i f) := fun hf h' heq =>
    (h'.get_eq (hvalid i _ hf)).trans heq
  have hother : ∀ {values' : ValueMap} {f g : List Char} (v : Option (List Char)),
      values' (ruleKey i f) = values (ruleKey i f) →
      Function.update values' (ruleKey (i + 1) g) v (ruleKey i f) = values (ruleKey i f) := by
    intro values' f g v heq
    rwa [Function.update_of_ne fun hkey => absurd (ruleKey_inj hkey).1 (by omega)]
  have hg₀ := (hread (by decide) h rfl).trans hprotocol
  obtain ⟨b₁, ini₁, hset₁, h₁⟩ := h.set_eq (hvalid (i + 1) protocolField (by decide))
    (nul_notMem_protocolText (newRule rule).protocolId)
  have hg₁ := (hread (by decide) h₁ (hother _ rfl)).trans henabled
  obtain ⟨b₂, ini₂, hset₂, h₂⟩ := h₁.set_eq (hvalid (i + 1) enabledField (by decide))
    (nul_notMem_boolText rule.isEnabled)
  have hg₂ := (hread (by decide) h₂ (hother _ (hother _ rfl))).trans hevents
  obtain ⟨b₃, ini₃, hset₃, h₃⟩ := h₂.set_eq (hvalid (i + 1) eventsField (by decide))
    (nul_notMem_decimal rule.eventMask.toNat)
  have hg₃ := (hread (by decide) h₃ (hother _ (hother _ (hother _ rfl)))).trans hexpression
  obtain ⟨b₄, ini₄, hset₄, h₄⟩ := h₃.set_eq (hvalid (i + 1) expressionField (by decide)) hnul
  have hg₄ := (hread (by decide) h₄ (hother _ (hother _ (hother _ (hother _ rfl))))).trans haction
  obtain ⟨b₅, ini₅, hset₅, h₅⟩ := h₄.set_eq (hvalid (i + 1) actionField (by decide))
    (nul_notMem_decimal (strtoul (decimalInt rule.action)))
  refine ⟨ini₅, ?_, h₅⟩
  have haction' : getULong ini₄ (ruleKey i actionField) 0 = strtoul (decimalInt rule.action) := by
    rw [getULong, hg₄, map_some, getD_some]
  rw [newRule] at hset₁
  simp only [moveRule, getULong_of_get hg₀ hprotocolId, hset₁, getBool_of_get hg₁, hset₂,
    getULong_of_get hg₂ rule.eventMask.toNat_lt, hset₃, getString_of_get hg₃, hset₄, haction',
    hset₅, bind_eq_bind, bind_some]

/-! ## All turns -/

/-- **Between two turns** the rules below a number are where they were, the others have been
moved. -/
structure Moved (rules : List FilterRule) (i : ℕ) (values : ValueMap) : Prop where
  count : values numRules = some (decimal rules.length)
  old : ∀ j rule, j < i → rules[j]? = some rule →
    ∀ e ∈ oldRuleEntries j rule, values e.1 = some e.2
  new : ∀ j rule, i ≤ j → rules[j]? = some rule →
    ∀ e ∈ movedEntries (j + 1) rule, values e.1 = some e.2

theorem Moved.start (h : Lists rules values) : Moved rules rules.length values where
  count := h.count
  old j rule _ hj := h.rules j rule hj
  new j rule hle hj := absurd (List.getElem?_eq_some_iff.mp hj).1 (by omega)

/-- **A turn reads a rule before it is written over**, and writes over none that is left. -/
theorem Moved.step (h : Moved rules (i + 1) values) (hi : rules[i]? = some rule) :
    Moved rules i (updateAll (movedEntries (i + 1) rule) values) where
  count := by
    rw [updateAll_of_notMem fun e he heq => ?_, h.count]
    obtain ⟨f, -, hf⟩ := key_of_mem_movedEntries he
    exact numRules_ne _ f (heq.symm.trans hf)
  old j r hlt hj e he := by
    rw [updateAll_of_notMem fun e' he' heq => ?_, h.old j r (by omega) hj e he]
    obtain ⟨f, -, hf⟩ := key_of_mem_oldRuleEntries he
    obtain ⟨g, -, hg⟩ := key_of_mem_movedEntries he'
    have := (ruleKey_inj (hg.symm.trans (heq.trans hf))).1
    omega
  new j r hle hj e he := by
    by_cases hij : i = j
    · subst hij
      obtain rfl : rule = r := some.inj (hi.symm.trans hj)
      exact updateAll_of_mem (fun a ha b hb => movedEntries_unique ha hb) he
    · rw [updateAll_of_notMem fun e' he' heq => ?_, h.new j r (by omega) hj e he]
      obtain ⟨f, -, hf⟩ := key_of_mem_movedEntries he
      obtain ⟨g, -, hg⟩ := key_of_mem_movedEntries he'
      have := (ruleKey_inj (hg.symm.trans (heq.trans hf))).1
      omega

/-- **All turns.** -/
theorem moveRules_spec (hprotocols : ∀ rule ∈ rules, rule.protocolId < 2 ^ 64)
    (hnul : ∀ rule ∈ rules, Char.ofNat 0 ∉ rule.expression) (hi : i ≤ rules.length)
    (h : Holds ini₀ name pre hdr tail values ini) (hmoved : Moved rules i values) :
    ∃ ini' values', moveRules i ini = some ini' ∧ Holds ini₀ name pre hdr tail values' ini' ∧
      Moved rules 0 values' := by
  induction i generalizing ini values with
  | zero => exact ⟨ini, values, rfl, h, hmoved⟩
  | succ i ih =>
    have hget : rules[i]? = some rules[i] := getElem?_eq_getElem hi
    have hmem := getElem_mem hi
    obtain ⟨ini₁, hturn, h₁⟩ := moveRule_spec h (hprotocols _ hmem) (hnul _ hmem)
      (hmoved.old i _ (Nat.lt_succ_self i) hget)
    obtain ⟨ini', values', hrest, h', hmoved'⟩ := ih (by omega) h₁ (hmoved.step hget)
    refine ⟨ini', values', ?_, h', hmoved'⟩
    rw [moveRules, hturn]
    exact hrest

/-! ## What is loaded afterwards -/

theorem strtol_decimal (n : ℕ) : strtol (decimal n) = min (n : ℤ) (2 ^ 63 - 1) := by
  rw [strtol, readSign_digits (decimal_ne_nil n) fun c hc => isDigit_of_mem_decimal hc]
  simp only [readDigits_decimal, Bool.false_eq_true, if_false]

/-- A negative number is read in the ring. -/
theorem strtoul_negSucc {n : ℕ} (hn : n + 1 < 2 ^ 64) :
    strtoul (decimalInt (Int.negSucc n)) = 2 ^ 64 - (n + 1) := by
  rw [strtoul, decimalInt, dropWhile_cons_of_neg (by decide)]
  simp only [readSign, readDigits_decimal, if_true]
  rw [if_neg (by omega), Nat.mod_eq_of_lt (by omega)]

/-- **The action that is read**: an `int` that went through an `unsigned long`. -/
theorem atoi_moved {a : ℤ} (hlow : -2 ^ 31 ≤ a) (hhigh : a < 2 ^ 31) :
    atoi (decimal (strtoul (decimalInt a))) = if a < -1 then -1 else a := by
  cases a with
  | ofNat n =>
    have hn : n < 2 ^ 31 := by simpa using hhigh
    have hpos : ¬ Int.ofNat n < -1 := by
      have := Int.natCast_nonneg n
      exact fun h => absurd (lt_of_le_of_lt this h) (by decide)
    rw [decimalInt, strtoul_decimal (by omega), atoi_decimal hn, if_neg hpos]
    rfl
  | negSucc n =>
    have hn : n + 1 ≤ 2 ^ 31 := by omega
    have hlarge : ((2 ^ 64 - (n + 1) : ℕ) : ℤ) = 2 ^ 64 - (n + 1) := by omega
    rw [strtoul_negSucc (by omega), atoi, strtol_decimal, hlarge, min_eq_right (by omega)]
    split_ifs
    · decide
    · obtain rfl : n = 0 := by omega
      decide

/-- A rule as it is loaded from the upgraded file. -/
def loadedRule (plugins : List ProtocolPlugin) (rule : FilterRule) : FilterRule :=
  reread plugins { newRule rule with action := if rule.action < -1 then -1 else rule.action }

section Main

variable {plugins : List ProtocolPlugin} {disk : Option (List Char)}

/-- **What the upgraded file says about the rules.** -/
theorem updateFilter_spec (hdisk : Settled (FilterManager.conf ⟨[], disk⟩)) (hfits : Fits rules)
    (hlists : Lists rules
      ((FilterManager.conf ⟨[], disk⟩).valuesOf (sectionName eventfilter))) :
    ∃ disk', updateFilter disk = some disk' ∧
      ∃ conf, ConfFile.loadFile (ConfFile.opened disk') = (true, conf) ∧
        getInt (setSection conf.ini eventfilter true).2 numRules 0 = rules.length ∧
        ∀ j rule, rules[j]? = some rule → ∀ e ∈ movedEntries (j + 1) rule,
          get (setSection conf.ini eventfilter true).2 e.1 = some e.2 := by
  have hname : sectionName eventfilter ≠ [] := by decide
  have hnumKey : numRules.all keyChar = true := by decide
  obtain ⟨pre, hdr, tail, hstart⟩ := Holds.start hdisk hname
  have hnul : ∀ rule ∈ rules, Char.ofNat 0 ∉ rule.expression := by
    intro rule hrule
    obtain ⟨j, hj⟩ := getElem?_of_mem hrule
    have hvalue := hlists.rules j rule hj (ruleKey j expressionField, rule.expression)
      (by simp [oldRuleEntries])
    rw [← hstart.get_eq (ruleKey_valid j (by decide))] at hvalue
    exact nul_notMem_get (nul_notMem_setSection
      (ConfFile.nul_notMem_restart (ConfFile.opened disk)) _ _) hvalue
  obtain ⟨ini, values, hmove, hheld, hmoved⟩ := moveRules_spec hfits.protocols hnul (le_refl _)
    hstart (Moved.start hlists)
  have hkeys : ∀ k ∈ ruleKeys 0, k.all keyChar = true := by
    intro k hk
    obtain ⟨f, hf, rfl⟩ := mem_ruleKeys hk
    exact ruleKey_valid 0 (ruleFields_valid f hf)
  obtain ⟨conf, hload, -, hget⟩ :=
    Holds.write_spec (ConfFile.inSync_loadFile hdisk) hname hheld hkeys
  have hcount : getInt (setSection (FilterManager.conf ⟨[], disk⟩) eventfilter true).2 numRules 0
      = rules.length := by
    rw [getInt, hstart.get_eq hnumKey, hlists.count, map_some, getD_some,
      atoi_decimal hfits.count]
  refine ⟨_, ?_, conf, hload, ?_, fun j rule hj e he => ?_⟩
  · rw [updateFilter]
    change (moveRules (getInt (setSection (FilterManager.conf ⟨[], disk⟩) eventfilter true).2
      numRules 0).toNat (setSection (FilterManager.conf ⟨[], disk⟩) eventfilter true).2).bind _ = _
    rw [hcount, Int.toNat_natCast, hmove, bind_some]
  · have hnum : numRules ∉ ruleKeys 0 := fun hk => by
      obtain ⟨f, -, hf⟩ := mem_ruleKeys hk
      exact numRules_ne 0 f hf
    rw [getInt, hget numRules hnumKey hnum, hmoved.count, map_some, getD_some,
      atoi_decimal hfits.count]
  · obtain ⟨f, hf, hkey⟩ := key_of_mem_movedEntries he
    rw [hget e.1 (hkey ▸ ruleKey_valid _ (ruleFields_valid f hf)) fun hk => ?_]
    · exact hmoved.new j rule (Nat.zero_le j) hj e he
    · obtain ⟨g, -, hg⟩ := mem_ruleKeys hk
      have := (ruleKey_inj (hkey.symm.trans hg)).1
      omega

/-- **What a new manager loads from the upgraded file.** -/
theorem initializeRules_updateFilter (hdisk : Settled (FilterManager.conf ⟨[], disk⟩))
    (hfits : Fits rules) (hlists : Lists rules
      ((FilterManager.conf ⟨[], disk⟩).valuesOf (sectionName eventfilter))) :
    ∃ disk', updateFilter disk = some disk' ∧
      FilterManager.initializeRules plugins ⟨[], disk'⟩ =
        if rules.length < 10000 then some ⟨rules.map (loadedRule plugins), disk'⟩ else none := by
  obtain ⟨disk', hupdate, conf, hfile, hnum, hget⟩ := updateFilter_spec hdisk hfits hlists
  refine ⟨disk', hupdate, ?_⟩
  rw [FilterManager.initializeRules]
  simp only [hfile, hnum, Int.toNat_natCast]
  split_ifs with hcount
  · have hload := @loadRulesFrom_eq plugins (setSection conf.ini eventfilter true).2
        (loadedRule plugins) 1 rules fun j rule hj => by
      have hlt := (List.getElem?_eq_some_iff.mp hj).1
      have hmem := mem_of_getElem? hj
      have hvalues := hget j rule hj
      simp only [movedEntries, mem_cons, not_mem_nil, or_false, forall_eq_or_imp,
        forall_eq] at hvalues
      obtain ⟨hprotocol, henabled, hevents, hexpression, haction⟩ := hvalues
      rw [Nat.add_comm 1 j]
      refine loadRule_of_get (by omega) henabled hprotocol hevents hexpression ?_
      rw [getInt, haction, map_some, getD_some,
        atoi_moved (hfits.actions rule hmem).1 (hfits.actions rule hmem).2]
    rw [hload]
    rfl
  · have hnone : loadRulesFrom plugins (setSection conf.ini eventfilter true).2 rules.length 1
        = none := by
      refine eq_none_iff_forall_ne_some.mpr fun rs hrs => ?_
      have := lt_of_loadRulesFrom (by decide) hrs
      omega
    rw [hnone]
    rfl

theorem loadedRule_eq_iff {rule : FilterRule} : loadedRule plugins rule = newRule rule ↔
    -1 ≤ rule.action ∧ Recognised plugins (newRule rule).protocolId := by
  rw [← protocolIdFromString_protocolText_iff, loadedRule, reread, newRule]
  simp only [FilterRule.mk.injEq, true_and]
  constructor
  · rintro ⟨hprotocol, haction⟩
    refine ⟨?_, hprotocol⟩
    split_ifs at haction <;> omega
  · rintro ⟨haction, hprotocol⟩
    exact ⟨hprotocol, if_neg (by omega)⟩

/-- **The upgrade keeps the rules exactly when** their numbers have four digits, no action is below
-1, and every protocol is recognised by its new name. -/
theorem upgrades_iff (hdisk : Settled (FilterManager.conf ⟨[], disk⟩)) (hfits : Fits rules)
    (hlists : Lists rules
      ((FilterManager.conf ⟨[], disk⟩).valuesOf (sectionName eventfilter))) :
    Upgrades plugins rules disk ↔ rules.length < 10000 ∧
      ∀ rule ∈ rules, -1 ≤ rule.action ∧ Recognised plugins (newRule rule).protocolId := by
  obtain ⟨disk', hupdate, hload⟩ := @initializeRules_updateFilter _ plugins _ hdisk hfits hlists
  constructor
  · rintro ⟨disk'', r, hupdate', hload', hrules⟩
    obtain rfl : disk' = disk'' := Option.some.inj (hupdate.symm.trans hupdate')
    rw [hload] at hload'
    split_ifs at hload' with hcount
    cases hload'
    refine ⟨hcount, fun rule hrule => loadedRule_eq_iff.mp ?_⟩
    exact List.map_inj_left.mp hrules rule hrule
  · rintro ⟨hcount, hrules⟩
    rw [if_pos hcount] at hload
    exact ⟨disk', _, hupdate, hload,
      List.map_inj_left.mpr fun rule hrule => loadedRule_eq_iff.mpr (hrules rule hrule)⟩

end Main

/-- A file with one rule. -/
def oldFile (protocolId : ℕ) : List Char :=
  ['[', 'e', 'v', 'e', 'n', 't', 'f', 'i', 'l', 't', 'e', 'r', ']', '\n', 'N', 'u', 'm', 'R',
    'u', 'l', 'e', 's', '=', '1', '\n', 'R', 'u', 'l', 'e', '0', '.', 'e', 'n', 'a', 'b', 'l',
    'e', 'd', '=', '1', '\n', 'R', 'u', 'l', 'e', '0', '.', 'p', 'r', 'o', 't', 'o', 'c', 'o',
    'l', '=']
    ++ decimal protocolId ++
    ['\n', 'R', 'u', 'l', 'e', '0', '.', 'e', 'v', 'e', 'n', 't', 's', '=', '2', '\n', 'R', 'u',
      'l', 'e', '0', '.', 'e', 'x', 'p', 'r', 'e', 's', 's', 'i', 'o', 'n', '=', 'a', '\n', 'R',
      'u', 'l', 'e', '0', '.', 'a', 'c', 't', 'i', 'o', 'n', '=', '3', '\n']

/-- The rule in it. -/
def oldRule (protocolId : ℕ) : FilterRule := ⟨true, protocolId, 2, ['a'], actionIgnore⟩

theorem lists_singleton (hcount : values numRules = some (decimal 1))
    (hrule : ∀ e ∈ oldRuleEntries 0 rule, values e.1 = some e.2) : Lists [rule] values where
  count := hcount
  rules j r hj := by
    obtain rfl : j = 0 := by
      have := (List.getElem?_eq_some_iff.mp hj).1
      exact Nat.lt_one_iff.mp this
    cases hj
    exact hrule

/-- A rule for ICQ is kept, and has the new id. -/
theorem upgrades_icq : Upgrades [] [oldRule oldIcqPpid] (some (oldFile oldIcqPpid)) := by
  refine (upgrades_iff (by decide +kernel) ⟨by decide, by decide, by decide⟩
    (lists_singleton (by decide +kernel) (by decide +kernel))).mpr ⟨by decide, ?_⟩
  decide +kernel

/-- A rule for a protocol whose plugin is not loaded, "AIM_", is in a list, and is not kept. -/
theorem not_upgrades_unloaded : Lists [oldRule 0x41494D5F]
      ((FilterManager.conf ⟨[], some (oldFile 0x41494D5F)⟩).valuesOf (sectionName eventfilter)) ∧
    ¬ Upgrades [] [oldRule 0x41494D5F] (some (oldFile 0x41494D5F)) := by
  refine ⟨lists_singleton (by decide +kernel) (by decide +kernel), ?_⟩
  rintro ⟨disk', r, hupdate, hload, hrules⟩
  have hrun : ((updateFilter (some (oldFile 0x41494D5F))).bind fun disk' =>
      FilterManager.initializeRules [] ⟨[], disk'⟩).map (fun r =>
        r.myRules.map FilterRule.protocolId) = some [0] := by decide +kernel
  rw [hupdate, Option.bind_some, hload, Option.map_some, hrules] at hrun
  exact absurd hrun (by decide)

end Licq.Filter
